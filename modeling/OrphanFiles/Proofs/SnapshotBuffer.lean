import Mathlib.Algebra.Group.Nat.Defs
import Mathlib.Data.Nat.Find
import Mathlib.Order.Bounds.Defs
import OrphanFiles.Snapshot.Buffer

/-!
Filling a snapshot buffer.  Its room after every growth is known in closed form, so it is known which growth is the
first that no memory could satisfy; with as few entries as a pool has nodes, only the first of all can be.
-/
namespace OrphanFiles.Snapshot.Buffer

def room (first growths : Nat) : Nat := first * (2 ^ growths - 1)

section Rooms

variable {first i j : Nat}

theorem roomSteps (first k : Nat) : room first k + first = first * 2 ^ k := by
  have some : first ≤ first * 2 ^ k := Nat.le_mul_of_pos_right first (Nat.two_pow_pos k)
  rw [room, Nat.mul_sub_one]
  omega

theorem roomNext (first k : Nat) : room first (k + 1) = room first k + first * 2 ^ k := by
  have before := roomSteps first k
  have after := roomSteps first (k + 1)
  rw [Nat.pow_succ, ← Nat.mul_assoc] at after
  omega

theorem roomMono (first : Nat) (later : i ≤ j) : room first i ≤ room first j := by
  induction later with
  | refl => exact Nat.le_refl _
  | step later ih => exact Nat.le_trans ih (by rw [roomNext]; exact Nat.le_add_right ..)

theorem roomLess (positive : 0 < first) (later : i < j) : room first i < room first j := by
  have step : 0 < first * 2 ^ i := Nat.mul_pos positive (Nat.two_pow_pos i)
  have next := roomNext first i
  have rest : room first (i + 1) ≤ room first j := roomMono first later
  omega

theorem leastRoom (positive : 0 < first) (n : Nat) : ∃ k, IsLeast {k | n ≤ room first k} k := by
  have enough : ∃ k, n ≤ room first k := by
    refine ⟨n, ?_⟩
    induction n with
    | zero => exact Nat.zero_le _
    | succ n ih =>
      have less := roomLess positive (Nat.lt_succ_self n)
      exact Nat.le_trans (Nat.succ_le_succ ih) less
  exact ⟨Nat.find enough, Nat.find_spec enough, fun k => Nat.find_min' enough⟩

theorem leastRoomBound {n k : Nat} (least : IsLeast {k | n ≤ room first k} k) : room first k ≤ 2 * n + first := by
  cases k with
  | zero => exact Nat.zero_le _
  | succ k =>
    have less : room first k < n := by
      apply Nat.lt_of_not_le
      intro enough
      exact Nat.not_succ_le_self k (least.2 enough)
    have next := roomNext first k
    have steps := roomSteps first k
    omega

end Rooms

section Steps

variable {b b' : Buffer} {e : PendingFile} {failure : Error}

theorem addBeside (space : b.entries.size ≠ b.capacity) :
    b.add e = (.ok (), { b with entries := b.entries.push e }) := by
  unfold add
  rw [if_neg space]

theorem addGrows (full : b.entries.size = b.capacity) (fits : (b.capacity + b.nextStep) * slotSize ≤ maxAllocation) :
    b.add e = (.ok (), ⟨b.entries.push e, b.capacity + b.nextStep, b.nextStep⟩) := by
  unfold add grow
  rw [if_pos full]
  dsimp only
  rw [if_pos fits]

theorem addExhausts (full : b.entries.size = b.capacity)
    (beyond : maxAllocation < (b.capacity + b.nextStep) * slotSize) :
    b.add e =
      (.error (.bufferExhausted (Config.saturate (b.capacity + b.nextStep))), { b with step := b.nextStep }) := by
  unfold add grow
  rw [if_pos full]
  dsimp only
  rw [if_neg (Nat.not_le.mpr beyond)]

theorem pushAdded (added : b.add e = (.ok (), b')) : b.push e = .ok b' := by
  unfold push
  rw [added]

theorem pushRefused (refused : b.add e = (.error failure, b')) : b.push e = .error failure := by
  unfold push
  rw [refused]

theorem pushKeeps (pushed : b.push e = .ok b') : b'.entries = b.entries.push e := by
  by_cases full : b.entries.size = b.capacity
  · by_cases fits : (b.capacity + b.nextStep) * slotSize ≤ maxAllocation
    · rw [pushAdded (addGrows full fits)] at pushed
      cases pushed
      rfl
    · rw [pushRefused (addExhausts full (Nat.lt_of_not_le fits))] at pushed
      contradiction
  · rw [pushAdded (addBeside full)] at pushed
    cases pushed
    rfl

theorem fillKeeps {es : List PendingFile} (filled : es.foldlM push b = Except.ok b') :
    b'.entries.toList = b.entries.toList ++ es := by
  induction es generalizing b with
  | nil =>
    cases filled
    exact (List.append_nil _).symm
  | cons e es ih =>
    rw [List.foldlM_cons] at filled
    cases pushed : b.push e with
    | error failure =>
      rw [pushed] at filled
      contradiction
    | ok b₁ =>
      rw [pushed] at filled
      rw [ih filled, pushKeeps pushed, Array.toList_push, List.append_assoc]
      rfl

end Steps

structure Grown (b : Buffer) (first k : Nat) : Prop where
  positive : 0 < first
  capacity : b.capacity = room first k
  step : b.step = first * 2 ^ (k - 1)
  least : IsLeast {j | b.entries.size ≤ room first j} k
  fits : room first k * slotSize ≤ maxAllocation

theorem newGrown (step : Nat) : (withStep step).Grown (max step 1) 0 where
  positive := Nat.lt_of_lt_of_le Nat.one_pos (Nat.le_max_right ..)
  capacity := (Nat.mul_zero _).symm
  step := (Nat.mul_one _).symm
  least := ⟨Nat.zero_le _, fun j _ => Nat.zero_le j⟩
  fits := by rw [room, Nat.pow_zero, Nat.sub_self, Nat.mul_zero, Nat.zero_mul]; exact Nat.zero_le _

section Growth

variable {b b' : Buffer} {e : PendingFile} {first k i : Nat}

theorem nextStepGrown (grown : b.Grown first k) :
    b.nextStep = first * 2 ^ k ∧ (b.capacity ≠ 0 → b.step * 2 ≤ Config.maxSize) := by
  have positive := grown.positive
  have capacity := grown.capacity
  have step := grown.step
  have fits := grown.fits
  unfold nextStep
  cases k with
  | zero =>
    have empty : b.capacity = 0 := by rw [capacity, room, Nat.pow_zero, Nat.sub_self, Nat.mul_zero]
    rw [if_pos empty, step]
    exact ⟨rfl, fun some => absurd empty some⟩
  | succ k =>
    rw [Nat.add_sub_cancel] at step
    have room := roomNext first k
    have steps := roomSteps first k
    have doubled : first * 2 ^ (k + 1) = first * 2 ^ k * 2 := by rw [Nat.pow_succ, Nat.mul_assoc]
    have bound : b.step * 2 ≤ Config.maxSize := by
      rw [step]
      simp only [Config.maxSize, slotSize, maxAllocation] at fits ⊢
      omega
    rw [if_neg (by omega), doubled, ← step]
    exact ⟨Nat.min_eq_left bound, fun _ => bound⟩

theorem nextRoom (grown : b.Grown first k) : b.capacity + b.nextStep = room first (k + 1) := by
  rw [grown.capacity, (nextStepGrown grown).1, roomNext]

theorem pushGrown (grown : b.Grown first k) (pushed : b.push e = .ok b') : ∃ k', b'.Grown first k' := by
  have capacity := grown.capacity
  have within : b.entries.size ≤ room first k := grown.least.1
  by_cases full : b.entries.size = b.capacity
  · have next := nextRoom grown
    by_cases fits : (b.capacity + b.nextStep) * slotSize ≤ maxAllocation
    · rw [pushAdded (addGrows full fits)] at pushed
      cases pushed
      have more : room first k < room first (k + 1) := roomLess grown.positive (Nat.lt_succ_self k)
      refine ⟨k + 1, grown.positive, next, (nextStepGrown grown).1, ⟨?_, ?_⟩, next ▸ fits⟩
      · show (b.entries.push e).size ≤ room first (k + 1)
        rw [Array.size_push]
        omega
      · intro j (enough : (b.entries.push e).size ≤ room first j)
        rw [Array.size_push] at enough
        apply Nat.lt_of_not_le
        intro before
        have less := roomMono first before
        omega
    · rw [pushRefused (addExhausts full (Nat.lt_of_not_le fits))] at pushed
      contradiction
  · rw [pushAdded (addBeside full)] at pushed
    cases pushed
    refine ⟨k, grown.positive, capacity, grown.step, ⟨?_, ?_⟩, grown.fits⟩
    · show (b.entries.push e).size ≤ room first k
      rw [Array.size_push]
      omega
    · intro j (enough : (b.entries.push e).size ≤ room first j)
      rw [Array.size_push] at enough
      exact grown.least.2 (Nat.le_of_succ_le enough)

theorem pushFits (grown : b.Grown first k) (fits : room first i * slotSize ≤ maxAllocation)
    (more : b.entries.size < room first i) (e : PendingFile) : ∃ b', b.push e = .ok b' := by
  by_cases full : b.entries.size = b.capacity
  · have less : k < i := by
      apply Nat.lt_of_not_le
      intro before
      have less := roomMono first before
      have capacity := grown.capacity
      omega
    have smaller : room first (k + 1) ≤ room first i := roomMono first less
    rw [← nextRoom grown] at smaller
    exact ⟨_, pushAdded (addGrows full (Nat.le_trans (Nat.mul_le_mul_right slotSize smaller) fits))⟩
  · exact ⟨_, pushAdded (addBeside full)⟩

section Runs

variable {es : List PendingFile}

theorem fillGrown (grown : b.Grown first k) (filled : es.foldlM push b = Except.ok b') : ∃ k', b'.Grown first k' := by
  induction es generalizing b k with
  | nil =>
    cases filled
    exact ⟨k, grown⟩
  | cons e es ih =>
    rw [List.foldlM_cons] at filled
    cases pushed : b.push e with
    | error failure =>
      rw [pushed] at filled
      contradiction
    | ok b₁ =>
      rw [pushed] at filled
      obtain ⟨k', next⟩ := pushGrown grown pushed
      exact ih next filled

theorem fillFits (grown : b.Grown first k) (fits : room first i * slotSize ≤ maxAllocation)
    (few : b.entries.size + es.length ≤ room first i) : ∃ b', es.foldlM push b = Except.ok b' := by
  induction es generalizing b k with
  | nil => exact ⟨b, rfl⟩
  | cons e es ih =>
    rw [List.length_cons] at few
    obtain ⟨b₁, pushed⟩ := pushFits grown fits (by omega) e
    obtain ⟨k', next⟩ := pushGrown grown pushed
    obtain ⟨b', filled⟩ := ih next (by rw [pushKeeps pushed, Array.size_push]; omega)
    refine ⟨b', ?_⟩
    rw [List.foldlM_cons, pushed]
    exact filled

theorem fillExhausts (grown : b.Grown first k) (fits : room first i * slotSize ≤ maxAllocation)
    (beyond : maxAllocation < room first (i + 1) * slotSize) (many : room first i < b.entries.size + es.length) :
    es.foldlM push b = Except.error (.bufferExhausted (Config.saturate (room first (i + 1)))) := by
  have last : k ≤ i := by
    apply Nat.le_of_lt_succ
    apply Nat.lt_of_not_le
    intro after
    have more : room first (i + 1) ≤ room first k := roomMono first after
    exact Nat.not_lt.mpr (Nat.le_trans (Nat.mul_le_mul_right slotSize more) grown.fits) beyond
  have within : b.entries.size ≤ room first i := Nat.le_trans grown.least.1 (roomMono first last)
  induction es generalizing b k with
  | nil => exact absurd many (Nat.not_lt.mpr within)
  | cons e es ih =>
    rw [List.length_cons] at many
    rw [List.foldlM_cons]
    by_cases space : b.entries.size < room first i
    · obtain ⟨b₁, pushed⟩ := pushFits grown fits space e
      obtain ⟨k', next⟩ := pushGrown grown pushed
      have size : b₁.entries.size = b.entries.size + 1 := by rw [pushKeeps pushed, Array.size_push]
      rw [pushed]
      have within : b₁.entries.size ≤ room first i := by omega
      exact ih next (by omega) (next.least.2 within) within
    · have here : k = i := by
        have covered : b.entries.size ≤ room first k := grown.least.1
        apply Nat.le_antisymm last
        apply Nat.le_of_not_lt
        intro before
        have less := roomLess grown.positive before
        omega
      subst here
      have full : b.entries.size = b.capacity := by
        have capacity := grown.capacity
        omega
      have next := nextRoom grown
      rw [pushRefused (addExhausts full (next ▸ beyond)), next]
      rfl

end Runs

end Growth

theorem fillNew {initial : Nat} (some : 0 < initial) {es : List PendingFile} (few : es.length ≤ 0x100000000) :
    if es ≠ [] ∧ maxAllocation < initial * slotSize
    then es.foldlM push (withStep initial) = Except.error (.bufferExhausted (Config.saturate initial))
    else ∃ b, es.foldlM push (withStep initial) = Except.ok b ∧ b.entries.toList = es := by
  have grown := newGrown initial
  rw [Nat.max_eq_left some] at grown
  have one : room initial 1 = initial := Nat.mul_one initial
  split
  · next refused =>
    have more : 0 < es.length := List.length_pos_iff.mpr refused.1
    have failed : es.foldlM push (withStep initial) = _ :=
      fillExhausts grown grown.fits (by rw [one]; exact refused.2) (Nat.lt_add_left _ more)
    rwa [one] at failed
  · next fits =>
    by_cases none : es = []
    · subst none
      exact ⟨_, rfl, rfl⟩
    have fits : initial * slotSize ≤ maxAllocation := Nat.le_of_not_lt fun more => fits ⟨none, more⟩
    obtain ⟨i, enough, space⟩ : ∃ i, es.length ≤ room initial i ∧ room initial i * slotSize ≤ maxAllocation := by
      by_cases within : es.length ≤ initial
      · exact ⟨1, by rw [one]; exact within, by rw [one]; exact fits⟩
      · obtain ⟨k, least⟩ := leastRoom some es.length
        have bound := leastRoomBound least
        refine ⟨k, least.1, ?_⟩
        simp only [slotSize, maxAllocation]
        omega
    have empty : (withStep initial).entries.size = 0 := rfl
    obtain ⟨b, filled⟩ : ∃ b, es.foldlM push (withStep initial) = Except.ok b := fillFits grown space (by omega)
    exact ⟨b, filled, fillKeeps filled⟩

end OrphanFiles.Snapshot.Buffer
