import OrphanFiles.Proofs.CheckpointLimits

/-!
The room of a snapshot buffer as a law of growth.  Main statement: after any pushes the room is that of the least number
of growths that suffice, no growth before the first failure leaves the range of a word, and a push fails exactly if the
growth that it needs is one that no memory could satisfy.
-/
namespace OrphanFiles.Snapshot.Buffer

structure Filled (b : Buffer) (first : Nat) (es : List PendingFile) (k : Nat) : Prop where
  entries : b.entries.toList = es
  least : IsLeast {k | es.length ≤ room first k} k
  capacity : b.capacity = room first k
  doubled : b.capacity ≠ 0 → Config.saturate (b.step * 2) = b.step * 2
  added : Config.saturate (b.capacity + b.nextStep) = b.capacity + b.nextStep
  beside : es.length < room first k → ∀ e, b.add e = (.ok (), { b with entries := b.entries.push e })
  grows : es.length = room first k → room first (k + 1) * slotSize ≤ maxAllocation → ∀ e, ∃ b',
    b.add e = (.ok (), b') ∧ b'.entries = b.entries.push e ∧ b'.capacity = room first (k + 1)
  exhausts : es.length = room first k → maxAllocation < room first (k + 1) * slotSize → ∀ e, ∃ b',
    b.add e = (.error (.bufferExhausted (room first (k + 1))), b') ∧ b'.entries = b.entries ∧ b'.capacity = b.capacity

section Growth

variable {b : Buffer} {first k : Nat} {es : List PendingFile}

theorem nextRoomWord (grown : b.Grown first k) (word : first ≤ Config.maxSize) :
    room first (k + 1) ≤ Config.maxSize := by
  have next := roomNext first k
  have steps := roomSteps first k
  have fits := grown.fits
  cases k with
  | zero =>
    rw [room, Nat.zero_add, Nat.pow_one, Nat.mul_one]
    exact word
  | succ k =>
    have one : first ≤ room first (k + 1) := by
      have first := roomMono first (Nat.succ_le_succ (Nat.zero_le k))
      rwa [room, Nat.succ_eq_add_one, Nat.zero_add, Nat.pow_one, Nat.mul_one] at first
    simp only [Config.maxSize, slotSize, maxAllocation] at fits ⊢
    omega

theorem filledOf (grown : b.Grown first k) (word : first ≤ Config.maxSize) (entries : b.entries.toList = es) :
    b.Filled first es k := by
  subst entries
  have next := nextRoom grown
  have wide := nextRoomWord grown word
  have saturates : Config.saturate (room first (k + 1)) = room first (k + 1) := Nat.min_eq_left wide
  have full (same : b.entries.toList.length = room first k) : b.entries.size = b.capacity :=
    same.trans grown.capacity.symm
  refine ⟨rfl, grown.least, grown.capacity, fun some => ?_, ?_, fun less e => ?_, fun same fits e => ?_,
    fun same beyond e => ?_⟩
  · exact Nat.min_eq_left ((nextStepGrown grown).2 some)
  · rw [next, saturates]
  · apply addBeside
    intro full
    have less : b.entries.size < room first k := less
    rw [full, grown.capacity] at less
    exact Nat.lt_irrefl _ less
  · exact ⟨_, addGrows (full same) (next ▸ fits), rfl, next⟩
  · have refused := addExhausts (e := e) (full same) (next ▸ beyond)
    rw [next, saturates] at refused
    exact ⟨_, refused, rfl, rfl⟩

end Growth

theorem growsByDoubledSteps {step : Nat} (word : step ≤ Config.maxSize) :
    (∀ (es : List PendingFile) (b : Buffer), es.foldlM push (withStep step) = Except.ok b →
        ∃ k, b.Filled (max step 1) es k) ∧
      (∀ (es : List PendingFile) (k : Nat), IsLeast {k | es.length ≤ room (max step 1) k} k →
        ((∃ b, es.foldlM push (withStep step) = Except.ok b) ↔ room (max step 1) k * slotSize ≤ maxAllocation)) ∧
      ∀ c r, Registry.new c = .ok r → c.initialEntries ≤ 2 ^ 32 →
        ∀ requests, ∃ snapshot, (Hall.run ⟨r, []⟩ requests).registry.dump = .ok snapshot := by
  have grown := newGrown step
  refine ⟨fun es b filled => ?_, fun es k least => ⟨?_, fun fits => ?_⟩, fun c r made few requests => ?_⟩
  · obtain ⟨k, grown⟩ := fillGrown grown filled
    exact ⟨k, filledOf grown (Nat.max_le.mpr ⟨word, by decide⟩) (fillKeeps filled)⟩
  · intro ⟨b, filled⟩
    obtain ⟨k', grown⟩ := fillGrown grown filled
    have size : b.entries.size = es.length := congrArg List.length (fillKeeps filled)
    have least' := grown.least
    rw [size] at least'
    rw [Nat.le_antisymm (least.2 least'.1) (least'.2 least.1)]
    exact grown.fits
  · exact fillFits grown fits (by rw [show (withStep step).entries.size = 0 from rfl, Nat.zero_add]; exact least.1)
  · have dumps := Registry.runDumps made requests
    by_cases none : (Hall.run ⟨r, []⟩ requests).registry.entries = []
    · exact ⟨_, dumps.nothing none⟩
    · have fits : c.initialEntries * slotSize ≤ maxAllocation := by
        simp only [slotSize, maxAllocation]
        omega
      obtain ⟨b, dumped, -⟩ := dumps.dumped none fits
      exact ⟨_, dumped⟩

theorem growsFromFour :
    (∃ b, (List.replicate 13 ⟨⟨⟨1663, 5, 100⟩, false⟩, ⟨10⟩⟩).foldlM push (withStep 4) = Except.ok b ∧
      b.capacity = 28) ∧
      (∃ b, (withStep 0x1000000000000000).add ⟨⟨⟨1663, 5, 100⟩, false⟩, ⟨10⟩⟩ =
        (.error (.bufferExhausted 0x1000000000000000), b) ∧ b.capacity = 0) ∧
      ∃ r snapshot, Registry.new (.compact 2 4) = .ok r ∧
        (Hall.run ⟨r, []⟩ Registry.oneAdded).registry.dump = .ok snapshot := by
  have four : 4 ≤ Config.maxSize := by decide
  have vast : 0x1000000000000000 ≤ Config.maxSize := by decide
  obtain ⟨grows, fits, dumps⟩ := growsByDoubledSteps four
  have third : IsLeast {k | 13 ≤ room (max 4 1) k} 3 := by
    refine ⟨by decide, fun k (enough : 13 ≤ room 4 k) => Nat.lt_of_not_le fun few => ?_⟩
    exact Nat.not_lt.mpr (roomMono 4 few) enough
  refine ⟨?_, ?_, ?_⟩
  · obtain ⟨b, filled⟩ := (fits (List.replicate 13 _) 3 third).mpr (by decide)
    obtain ⟨k, state⟩ := grows _ b filled
    refine ⟨b, filled, ?_⟩
    rw [state.capacity, Nat.le_antisymm (state.least.2 third.1) (third.2 state.least.1)]
    rfl
  · obtain ⟨k, state⟩ := (growsByDoubledSteps vast).1 [] _ rfl
    have none : k = 0 := Nat.le_zero.mp (state.least.2 (Nat.zero_le _))
    subst none
    obtain ⟨b, refused, -, capacity⟩ := state.exhausts rfl (by decide) ⟨⟨⟨1663, 5, 100⟩, false⟩, ⟨10⟩⟩
    exact ⟨b, refused, capacity⟩
  · obtain ⟨snapshot, dumped⟩ := dumps (.compact 2 4) _ rfl (by decide) Registry.oneAdded
    exact ⟨_, snapshot, rfl, dumped⟩

end OrphanFiles.Snapshot.Buffer
