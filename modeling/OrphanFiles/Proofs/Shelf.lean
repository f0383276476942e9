import Mathlib.Data.List.Nodup
import OrphanFiles.Proofs.Pool

/-!
A pool as a finite map.  A shelf says what stands in each slot, and keeps the empty slots in the order in which they
are handed out; every run of a pool, whatever words are taken for slots, is a run of a shelf.
-/
namespace OrphanFiles

namespace NodePtr

def ofIndex (i : Nat) : NodePtr := ⟨.ofNat i⟩

theorem indexOfIndex {i : Nat} (word : i < 0x100000000) : (ofIndex i).index = i :=
  UInt32.toNat_ofNat_of_lt' word

theorem ofIndexIndex (q : NodePtr) : ofIndex q.index = q := congrArg mk UInt32.ofNat_toNat

end NodePtr

namespace Pool

inductive Act (α β : Type) where
  | allocate (a : α)
  | release (q : NodePtr)
  | get (q : NodePtr)
  | view (q : NodePtr) (f : α → β)
  | change (q : NodePtr) (f : α → β × α)

inductive Answer (α β : Type) where
  | slot (q : NodePtr)
  | full
  | value (a : Option α)
  | seen (b : Option β)

variable {α β : Type}

def act (p : Pool α) : Act α β → Answer α β × Pool α
  | .allocate a => match p.allocate a with
    | none => (.full, p)
    | some (q, p) => (.slot q, p)
  | .release q => match p.release q with
    | none => (.value none, p)
    | some (a, p) => (.value (some a), p)
  | .get q => (.value (p.get? q), p)
  | .view q f => (.seen ((p.get? q).map f), p)
  | .change q f => (.seen ((p.get? q).map fun a => (f a).1), p.modify q fun a => (f a).2)

end Pool

open Pool (Act Answer)

structure Shelf (α : Type) where
  size : Nat
  held : NodePtr → Option α
  vacant : List NodePtr

namespace Shelf

variable {α β : Type}

def empty (size : Nat) : Shelf α := ⟨size, fun _ => none, (List.range size).map .ofIndex⟩

def put (s : Shelf α) (q : NodePtr) (a : Option α) : Shelf α :=
  { s with held := fun r => if q = r then a else s.held r }

theorem heldPut (s : Shelf α) (q : NodePtr) (a : Option α) (r : NodePtr) :
    (s.put q a).held r = if q = r then a else s.held r := rfl

def live (s : Shelf α) : Nat := (List.range s.size).countP fun i => (s.held (.ofIndex i)).isSome

inductive Step : Shelf α → Act α β → Answer α β → Shelf α → Prop where
  | placed {s a q rest} (room : s.live < s.size) (next : s.vacant = q :: rest) (valid : q.isValid = true)
      (vacant : s.held q = none) : Step s (.allocate a) (.slot q) { s.put q (some a) with vacant := rest }
  | full {s a} (full : s.live = s.size) : Step s (.allocate a) .full s
  | released {s q a} (live : s.held q = some a) :
      Step s (.release q) (.value (some a)) { s.put q none with vacant := q :: s.vacant }
  | unreleased {s q} (vacant : s.held q = none) : Step s (.release q) (.value none) s
  | got {s q} : Step s (.get q) (.value (s.held q)) s
  | viewed {s q f} : Step s (.view q f) (.seen ((s.held q).map f)) s
  | changed {s q f a} (live : s.held q = some a) : Step s (.change q f) (.seen (some (f a).1)) (s.put q (some (f a).2))
  | unchanged {s q f} (vacant : s.held q = none) : Step s (.change q f) (.seen none) s

end Shelf

namespace Pool

variable {α β : Type} {p p' : Pool α} {q : NodePtr} {a : α}

/- The empty slots in the order in which they are handed out: those that were released, and those that never held a
value. -/
def vacancies (p : Pool α) : List NodePtr :=
  p.free ++ (List.range' p.slots.size (p.capacity - p.slots.size)).map .ofIndex

theorem unusedIff (sound : p.Sound) :
    q ∈ (List.range' p.slots.size (p.capacity - p.slots.size)).map NodePtr.ofIndex ↔
      p.slots.size ≤ q.index ∧ q.index < p.capacity := by
  have bound := p.bound
  have room := sound.room
  simp only [List.mem_map, List.mem_range'_1]
  constructor
  · rintro ⟨i, inside, rfl⟩
    rw [NodePtr.indexOfIndex (by omega)]
    omega
  · intro inside
    exact ⟨q.index, by omega, q.ofIndexIndex⟩

theorem vacancyIff (sound : p.Sound) : q ∈ p.vacancies ↔ q.index < p.capacity ∧ p.get? q = none := by
  have room := sound.room
  rw [vacancies, List.mem_append, sound.vacant, unusedIff sound]
  constructor
  · rintro (⟨inside, none⟩ | ⟨outside, inside⟩)
    · exact ⟨Nat.lt_of_lt_of_le inside room, none⟩
    · exact ⟨inside, by simp [get?, Array.getElem?_eq_none outside]⟩
  · rintro ⟨inside, none⟩
    rcases Nat.lt_or_ge q.index p.slots.size with used | unused
    · exact .inl ⟨used, none⟩
    · exact .inr ⟨unused, inside⟩

theorem vacanciesNodup (sound : p.Sound) : p.vacancies.Nodup := by
  have bound := p.bound
  have room := sound.room
  refine List.nodup_append.mpr ⟨sound.distinct, ?_, fun q free r unused same => ?_⟩
  · refine List.Nodup.map_on (fun i left j right same => ?_) List.nodup_range'
    rw [List.mem_range'_1] at left right
    rw [← NodePtr.indexOfIndex (show i < 0x100000000 by omega), same, NodePtr.indexOfIndex (by omega)]
  · subst same
    have inside := ((sound.vacant q).mp free).1
    have outside := ((unusedIff sound).mp unused).1
    omega

theorem vacanciesLength (sound : p.Sound) : p.inUse + p.vacancies.length = p.capacity := by
  have room := sound.room
  have counted := sound.counted
  rw [vacancies, List.length_append, List.length_map, List.length_range']
  omega

theorem inUseLive (sound : p.Sound) :
    (List.range p.capacity).countP (fun i => (p.get? (.ofIndex i)).isSome) = p.inUse := by
  have bound := p.bound
  have indices : (p.vacancies.map NodePtr.index).Nodup :=
    (vacanciesNodup sound).map fun q r same => NodePtr.indexInj.mp same
  have same : (p.vacancies.map NodePtr.index).Perm
      ((List.range p.capacity).filter fun i => ! (p.get? (.ofIndex i)).isSome) := by
    refine (List.perm_ext_iff_of_nodup indices (List.nodup_range.filter _)).mpr fun i => ?_
    simp only [List.mem_map, List.mem_filter, List.mem_range, vacancyIff sound, Bool.not_eq_true',
      Option.isSome_eq_false_iff, Option.isNone_iff_eq_none]
    constructor
    · rintro ⟨q, ⟨inside, none⟩, rfl⟩
      exact ⟨inside, by rwa [q.ofIndexIndex]⟩
    · rintro ⟨inside, none⟩
      exact ⟨.ofIndex i, by rw [NodePtr.indexOfIndex (by omega)]; exact ⟨inside, none⟩,
        NodePtr.indexOfIndex (by omega)⟩
  have length := same.length_eq
  rw [List.length_map, ← List.countP_eq_length_filter] at length
  have parts := List.length_eq_countP_add_countP (fun i => (p.get? (.ofIndex i)).isSome) (l := List.range p.capacity)
  simp only [List.length_range, Bool.not_eq_true, ← Bool.not_eq_true'] at parts
  have := vacanciesLength sound
  simp only [Bool.decide_eq_true] at parts
  omega

theorem allocateVacancies (sound : p.Sound) (h : p.allocate a = some (q, p')) : p.vacancies = q :: p'.vacancies := by
  have room := sound.room
  unfold allocate at h
  split at h
  · next free list =>
    cases Option.some.inj h
    simp [vacancies, list]
  · next list =>
    split at h <;> try contradiction
    next more =>
      cases Option.some.inj h
      obtain ⟨n, left⟩ : ∃ n, p.capacity - p.slots.size = n + 1 := ⟨p.capacity - p.slots.size - 1, by omega⟩
      have less : p.capacity - (p.slots.size + 1) = n := by omega
      simp [vacancies, list, left, less, List.range'_succ, NodePtr.ofIndex]

theorem releaseVacancies (h : p.release q = some (a, p')) : p'.vacancies = q :: p.vacancies := by
  obtain ⟨b, found, last⟩ := Option.map_eq_some_iff.mp h
  cases last
  simp [vacancies]

theorem modifyVacancies (p : Pool α) (q : NodePtr) (f : α → α) : (p.modify q f).vacancies = p.vacancies := by
  simp [vacancies, modify]

structure Shows (p : Pool α) (s : Shelf α) : Prop where
  capacity : p.capacity = s.size
  get : ∀ q, p.get? q = s.held q
  inUse : p.inUse = s.live
  vacancies : p.vacancies = s.vacant
  inside : ∀ q a, s.held q = some a → q.index < s.size
  distinct : s.vacant.Nodup
  vacant : ∀ q, q ∈ s.vacant ↔ q.index < s.size ∧ s.held q = none

structure Follows (p : Pool α) (s : Shelf α) : Prop where
  sound : p.Sound
  capacity : p.capacity = s.size
  get : ∀ q, p.get? q = s.held q
  vacancies : p.vacancies = s.vacant

theorem Follows.shows {s : Shelf α} (follows : p.Follows s) : p.Shows s := by
  have ⟨sound, capacity, get, vacancies⟩ := follows
  refine ⟨capacity, get, ?_, vacancies, fun q a found => ?_, vacancies ▸ vacanciesNodup sound, fun q => ?_⟩
  · rw [← inUseLive sound, Shelf.live, capacity]
    simp only [get]
  · rw [← get] at found
    exact capacity ▸ Nat.lt_of_lt_of_le (occupiedInside found) sound.room
  · rw [← vacancies, ← get, ← capacity, vacancyIff sound]

section Steps

variable {s : Shelf α}

theorem allocateFollows (follows : p.Follows s) (a : α) :
    ∃ s', Shelf.Step s (.allocate a : Act α β) (p.act (.allocate a)).1 s' ∧
      (p.act (.allocate a : Act α β)).2.Follows s' := by
  have live := follows.shows.inUse
  have capacity := follows.capacity
  have bound := inUseBound follows.sound
  cases placed : p.allocate a with
  | none =>
    have full := (allocateEqNone follows.sound a).mp placed
    simp only [act, placed]
    exact ⟨s, .full (by omega), follows⟩
  | some placement =>
    obtain ⟨q, p'⟩ := placement
    have room : p.inUse ≠ p.capacity := fun full => by
      rw [(allocateEqNone follows.sound a).mpr full] at placed
      contradiction
    have taken := allocated follows.sound placed
    have here := taken.get q
    rw [if_pos rfl] at here
    have next := allocateVacancies follows.sound placed
    rw [follows.vacancies] at next
    simp only [act, placed]
    refine ⟨_, .placed (by omega) next (occupiedValid taken.sound here) (follows.get q ▸ taken.vacant), ?_⟩
    exact ⟨taken.sound, taken.capacity.trans capacity, fun r => by rw [taken.get, follows.get, Shelf.heldPut], rfl⟩

theorem releaseFollows (follows : p.Follows s) (q : NodePtr) :
    ∃ s', Shelf.Step s (.release q : Act α β) (p.act (.release q)).1 s' ∧
      (p.act (.release q : Act α β)).2.Follows s' := by
  cases found : p.get? q with
  | none =>
    have vacant := found
    rw [follows.get] at vacant
    simp only [act, releaseVacant found]
    exact ⟨s, .unreleased vacant, follows⟩
  | some a =>
    obtain ⟨p', out, gone⟩ := released follows.sound found
    have queue := releaseVacancies out
    rw [follows.vacancies] at queue
    rw [follows.get] at found
    simp only [act, out]
    refine ⟨_, .released found, gone.sound, gone.capacity.trans follows.capacity, fun r => ?_, queue⟩
    rw [gone.get, follows.get, Shelf.heldPut]

theorem changeFollows (follows : p.Follows s) (q : NodePtr) (f : α → β × α) :
    ∃ s', Shelf.Step s (.change q f) (p.act (.change q f)).1 s' ∧ (p.act (.change q f)).2.Follows s' := by
  have sound := modifySound follows.sound q fun a => (f a).2
  have vacancies := (modifyVacancies p q fun a => (f a).2).trans follows.vacancies
  simp only [act, follows.get q]
  cases found : s.held q with
  | none =>
    refine ⟨s, .unchanged found, sound, follows.capacity, fun r => ?_, vacancies⟩
    rw [getModify, follows.get]
    split
    · next same => rw [← same, found, Option.map_none]
    · rfl
  | some a =>
    refine ⟨_, .changed found, sound, follows.capacity, fun r => ?_, vacancies⟩
    rw [getModify, follows.get, Shelf.heldPut]
    split
    · next same => rw [← same, found, Option.map_some]
    · rfl

theorem actFollows (follows : p.Follows s) (x : Act α β) :
    ∃ s', Shelf.Step s x (p.act x).1 s' ∧ (p.act x).2.Follows s' := by
  cases x with
  | allocate a => exact allocateFollows follows a
  | release q => exact releaseFollows follows q
  | get q =>
    rw [act, follows.get]
    exact ⟨s, .got, follows⟩
  | view q f =>
    rw [act, follows.get]
    exact ⟨s, .viewed, follows⟩
  | change q f => exact changeFollows follows q f

end Steps

theorem emptyFollows (capacity : Nat) :
    (withCapacity capacity : Pool α).Follows (.empty (min capacity 0xFFFFFFFE)) where
  sound := newSound capacity
  capacity := rfl
  get q := rfl
  vacancies := by simp [vacancies, withCapacity, Shelf.empty, List.range_eq_range']

inductive Conforms : Pool α → Shelf α → List (Act α β) → Prop where
  | nil {p s} (shows : p.Shows s) : Conforms p s []
  | cons {p s s' x xs} (shows : p.Shows s) (step : Shelf.Step s x (p.act x).1 s')
      (rest : Conforms (p.act x).2 s' xs) : Conforms p s (x :: xs)

theorem followsConforms {s : Shelf α} (follows : p.Follows s) (acts : List (Act α β)) : Conforms p s acts := by
  induction acts generalizing p s with
  | nil => exact .nil follows.shows
  | cons x xs ih =>
    obtain ⟨s', step, next⟩ := actFollows follows x
    exact .cons follows.shows step (ih next)

theorem conformsToShelf (capacity : Nat) (acts : List (Act α β)) :
    Conforms (withCapacity capacity) (Shelf.empty (min capacity 0xFFFFFFFE)) acts :=
  followsConforms (emptyFollows capacity) acts

end Pool
end OrphanFiles
