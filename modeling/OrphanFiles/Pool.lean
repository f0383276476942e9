/-!
A pool of numbered slots that is sized once and never grows.  A slot that was released is the first to be
handed out again; the slots that were never used follow in ascending order.  These are counted and not listed:
`Shelf.vacant` is the whole free list, which is `free` and behind it the numbers from `slots.size` up to the capacity.
-/
namespace OrphanFiles

structure NodePtr where
  raw : UInt32
  deriving DecidableEq, Repr

namespace NodePtr

def nil : NodePtr := ⟨0xFFFFFFFF⟩
def isValid (p : NodePtr) : Bool := p != nil
def index (p : NodePtr) : Nat := p.raw.toNat

theorem indexInj {q r : NodePtr} : q.index = r.index ↔ q = r := by
  cases q; cases r; simp [index, UInt32.toNat_inj]

end NodePtr

structure Pool (α : Type) where
  capacity : Nat
  /-- The slots that were handed out so far; the one behind them is the next that was never used. -/
  slots : Array (Option α) := #[]
  free : List NodePtr := []
  inUse : Nat := 0
  bound : capacity < 0xFFFFFFFF

namespace Pool

variable {α : Type}

def withCapacity (capacity : Nat) : Pool α where
  capacity := min capacity 0xFFFFFFFE
  bound := by omega

def get? (p : Pool α) (q : NodePtr) : Option α := p.slots[q.index]?.join

def allocate (p : Pool α) (a : α) : Option (NodePtr × Pool α) :=
  match p.free with
  | q :: free => some (q, { p with slots := p.slots.setIfInBounds q.index (some a), free, inUse := p.inUse + 1 })
  | [] =>
    if p.slots.size < p.capacity then
      some (⟨UInt32.ofNat p.slots.size⟩, { p with slots := p.slots.push (some a), inUse := p.inUse + 1 })
    else none

theorem getAllocate {p p' : Pool α} {a : α} {q : NodePtr} (h : p.allocate a = some (q, p'))
    (inside : ∀ f ∈ p.free, f.index < p.slots.size) (r : NodePtr) :
    p'.get? r = if q = r then some a else p.get? r := by
  have same := NodePtr.indexInj (q := q) (r := r)
  unfold allocate at h
  split at h
  · next f free list =>
    cases Option.some.inj h
    have := inside q (by simp [list])
    by_cases h : q = r
    · subst h; simp_all [get?]
    · simp [get?, h, mt same.mp h]
  · split at h <;> try contradiction
    next room =>
      cases Option.some.inj h
      have index : (⟨UInt32.ofNat p.slots.size⟩ : NodePtr).index = p.slots.size := by
        have := p.bound
        simp [NodePtr.index]; omega
      rw [index] at same
      by_cases h : (⟨UInt32.ofNat p.slots.size⟩ : NodePtr) = r
      · simp [get?, h, ← same.mpr h]
      · simp [get?, h, Array.getElem?_push, Ne.symm (mt same.mp h)]

def release (p : Pool α) (q : NodePtr) : Option (α × Pool α) :=
  (p.get? q).map fun a =>
    (a, { p with slots := p.slots.setIfInBounds q.index none, free := q :: p.free, inUse := p.inUse - 1 })

theorem getRelease {p p' : Pool α} {a : α} {q : NodePtr} (h : p.release q = some (a, p')) (r : NodePtr) :
    p.get? q = some a ∧ p'.get? r = if q = r then none else p.get? r := by
  obtain ⟨b, found, last⟩ := Option.map_eq_some_iff.mp h
  cases last
  have same := NodePtr.indexInj (q := q) (r := r)
  refine ⟨found, ?_⟩
  by_cases h : q = r
  · subst h
    by_cases bound : q.index < p.slots.size <;> simp [get?, bound]
  · simp [get?, h, mt same.mp h]

def modify (p : Pool α) (q : NodePtr) (f : α → α) : Pool α :=
  { p with slots := p.slots.modify q.index (·.map f) }

@[simp] theorem capacityModify (p : Pool α) (q : NodePtr) (f : α → α) :
    (p.modify q f).capacity = p.capacity := rfl

theorem getModify (p : Pool α) (q r : NodePtr) (f : α → α) :
    (p.modify q f).get? r = if q = r then (p.get? r).map f else p.get? r := by
  have same := NodePtr.indexInj (q := q) (r := r)
  by_cases h : q = r
  · subst h
    simp only [modify, get?, Array.getElem?_modify, if_pos]
    cases p.slots[q.index]? with
    | none => rfl
    | some o => cases o <;> rfl
  · have h' : q.index ≠ r.index := fun e => h (same.mp e)
    simp [modify, get?, Array.getElem?_modify, h, h']

end Pool
end OrphanFiles
