import Mathlib.Data.List.Perm.Subperm
import OrphanFiles.Pool

/-!
The accounts of a pool.  Slots, free list and counter agree, so no slot is handed out twice.
-/
namespace OrphanFiles.Pool

variable {α : Type}

structure Sound (p : Pool α) : Prop where
  room : p.slots.size ≤ p.capacity
  distinct : p.free.Nodup
  vacant : ∀ q, q ∈ p.free ↔ q.index < p.slots.size ∧ p.get? q = none
  counted : p.inUse + p.free.length = p.slots.size

theorem newSound (capacity : Nat) : (withCapacity capacity : Pool α).Sound where
  room := Nat.zero_le _
  distinct := .nil
  vacant q := by simp [withCapacity]
  counted := rfl

theorem occupiedInside {p : Pool α} {q : NodePtr} {a : α} (found : p.get? q = some a) : q.index < p.slots.size := by
  unfold get? at found
  rcases Nat.lt_or_ge q.index p.slots.size with inside | outside
  · exact inside
  · simp [Array.getElem?_eq_none outside] at found

theorem getNil {p : Pool α} (sound : p.Sound) : p.get? .nil = none := by
  cases found : p.get? .nil with
  | none => rfl
  | some a =>
    have inside := occupiedInside found
    have bound := p.bound
    have room := sound.room
    simp only [NodePtr.index, NodePtr.nil] at inside
    have : (0xFFFFFFFF : UInt32).toNat = 0xFFFFFFFF := rfl
    omega

theorem occupiedValid {p : Pool α} (sound : p.Sound) {q : NodePtr} {a : α} (found : p.get? q = some a) :
    q.isValid = true := by
  unfold NodePtr.isValid
  rw [bne_iff_ne]
  rintro rfl
  simp [getNil sound] at found

theorem inUseBound {p : Pool α} (sound : p.Sound) : p.inUse ≤ p.capacity := by
  have := sound.counted
  have := sound.room
  omega

theorem allocateEqNone {p : Pool α} (sound : p.Sound) (a : α) : p.allocate a = none ↔ p.inUse = p.capacity := by
  have counted := sound.counted
  have room := sound.room
  unfold allocate
  split
  · next q free list =>
    rw [list] at counted
    simp only [List.length_cons] at counted
    simp; omega
  · next list =>
    rw [list] at counted
    simp only [List.length_nil] at counted
    split
    · simp; omega
    · simp; omega

structure Allocated (p p' : Pool α) (a : α) (q : NodePtr) : Prop where
  sound : p'.Sound
  capacity : p'.capacity = p.capacity
  vacant : p.get? q = none
  get : ∀ r, p'.get? r = if q = r then some a else p.get? r
  inUse : p'.inUse = p.inUse + 1

theorem allocated {p p' : Pool α} {a : α} {q : NodePtr} (sound : p.Sound) (h : p.allocate a = some (q, p')) :
    Allocated p p' a q := by
  have get := getAllocate h fun f member => ((sound.vacant f).mp member).1
  have counted := sound.counted
  have room := sound.room
  unfold allocate at h
  split at h
  · next f free list =>
    cases Option.some.inj h
    obtain ⟨fresh, distinct⟩ := List.nodup_cons.mp (list ▸ sound.distinct)
    have vacant := (sound.vacant q).mp (by simp [list])
    refine ⟨⟨by simpa using room, distinct, fun r => ?_, ?_⟩, rfl, vacant.2, get, rfl⟩
    · rw [get]
      have before := sound.vacant r
      rw [list, List.mem_cons] at before
      by_cases same : q = r
      · subst same; simp [fresh]
      · simpa [same, Ne.symm same] using before
    · rw [list, List.length_cons] at counted
      simp; omega
  · next list =>
    split at h <;> try contradiction
    next more =>
      cases Option.some.inj h
      have bound := p.bound
      have index : (⟨UInt32.ofNat p.slots.size⟩ : NodePtr).index = p.slots.size := by
        simp [NodePtr.index]; omega
      have vacant : p.get? ⟨UInt32.ofNat p.slots.size⟩ = none := by simp [get?, index]
      refine ⟨⟨by simpa using Nat.succ_le_of_lt more, by simp [list], fun r => ?_, ?_⟩, rfl, vacant, get, rfl⟩
      · rw [get]
        have before := sound.vacant r
        rw [list] at before ⊢
        by_cases same : (⟨UInt32.ofNat p.slots.size⟩ : NodePtr) = r
        · simp [same]
        · have other : r.index ≠ p.slots.size := by
            intro e
            exact same (NodePtr.indexInj.mp (index.trans e.symm))
          simp only [List.not_mem_nil, false_iff, not_and] at before
          simp only [List.not_mem_nil, if_neg same, Array.size_push, false_iff, not_and]
          intro inside
          exact before (by omega)
      · rw [list] at counted ⊢
        simp only [List.length_nil, Array.size_push] at counted ⊢
        omega

theorem occupiedCounts {p : Pool α} (sound : p.Sound) {q : NodePtr} {a : α} (found : p.get? q = some a) :
    0 < p.inUse := by
  have absent : q ∉ p.free := by
    intro member
    simp [((sound.vacant q).mp member).2] at found
  have inside := occupiedInside found
  have distinct : ((q :: p.free).map NodePtr.index).Nodup := by
    refine List.Pairwise.map NodePtr.index (fun r s differ => ?_) (List.nodup_cons.mpr ⟨absent, sound.distinct⟩)
    exact fun same => differ (NodePtr.indexInj.mp same)
  have within : (q :: p.free).map NodePtr.index ⊆ List.range p.slots.size := by
    intro i member
    obtain ⟨r, listed, rfl⟩ := List.mem_map.mp member
    rcases List.mem_cons.mp listed with rfl | free
    · exact List.mem_range.mpr inside
    · exact List.mem_range.mpr ((sound.vacant r).mp free).1
  have := (List.subperm_of_subset distinct within).length_le
  have := sound.counted
  simp only [List.length_map, List.length_cons, List.length_range] at *
  omega

structure Released (p p' : Pool α) (q : NodePtr) : Prop where
  sound : p'.Sound
  capacity : p'.capacity = p.capacity
  get : ∀ r, p'.get? r = if q = r then none else p.get? r
  inUse : p'.inUse + 1 = p.inUse

theorem released {p : Pool α} {q : NodePtr} {a : α} (sound : p.Sound) (found : p.get? q = some a) :
    ∃ p', p.release q = some (a, p') ∧ Released p p' q := by
  have h : p.release q = some (a, { p with
      slots := p.slots.setIfInBounds q.index none, free := q :: p.free, inUse := p.inUse - 1 }) := by
    simp [release, found]
  refine ⟨_, h, ?_⟩
  have get := fun r => (getRelease h r).2
  have inside := occupiedInside found
  have positive := occupiedCounts sound found
  have counted := sound.counted
  have absent : q ∉ p.free := by
    intro member
    simp [((sound.vacant q).mp member).2] at found
  refine ⟨⟨by simpa using sound.room, List.nodup_cons.mpr ⟨absent, sound.distinct⟩, fun r => ?_, ?_⟩, rfl, get, ?_⟩
  · rw [get, List.mem_cons, sound.vacant r]
    by_cases same : q = r
    · subst same; simpa using inside
    · simp [same, Ne.symm same]
  · simp only [List.length_cons, Array.size_setIfInBounds]
    omega
  · dsimp only
    omega

theorem releaseVacant {p : Pool α} {q : NodePtr} (vacant : p.get? q = none) : p.release q = none := by
  simp [release, vacant]

theorem modifySound {p : Pool α} (sound : p.Sound) (q : NodePtr) (f : α → α) : (p.modify q f).Sound := by
  refine ⟨by simpa [modify] using sound.room, sound.distinct, fun r => ?_, by simpa [modify] using sound.counted⟩
  rw [getModify]
  have before := sound.vacant r
  split
  · simpa [modify] using before
  · simpa [modify] using before

end OrphanFiles.Pool
