import OrphanFiles.Xid

/-!
Finite maps from transactions, kept in the order of the numbers.  Each map is written in one way only, so two
maps with the same entries are equal.
-/
namespace OrphanFiles

structure XidMap (α : Type) where
  entries : List (Xid × α)
  ascending : entries.Pairwise fun a b => a.1.number < b.1.number

namespace XidMap

variable {α : Type}

def empty : XidMap α := ⟨[], .nil⟩

def size (m : XidMap α) : Nat := m.entries.length

def get? (m : XidMap α) (x : Xid) : Option α := m.entries.lookup x

def put (x : Xid) (a : α) : List (Xid × α) → List (Xid × α)
  | [] => [(x, a)]
  | e :: es =>
    if x.number < e.1.number then (x, a) :: e :: es
    else if x = e.1 then (x, a) :: es
    else e :: put x a es

theorem memPut {x : Xid} {a : α} {es : List (Xid × α)} {e : Xid × α} (h : e ∈ put x a es) :
    e = (x, a) ∨ e ∈ es := by
  induction es with
  | nil => simpa [put] using h
  | cons d es ih => unfold put at h; grind

theorem putAscending {x : Xid} {a : α} {es : List (Xid × α)}
    (h : es.Pairwise fun a b => a.1.number < b.1.number) :
    (put x a es).Pairwise fun a b => a.1.number < b.1.number := by
  induction es with
  | nil => simp [put]
  | cons e es ih =>
    rw [List.pairwise_cons] at h
    unfold put
    split
    · next before =>
      refine List.pairwise_cons.mpr ⟨fun d hd => ?_, List.pairwise_cons.mpr h⟩
      rcases List.mem_cons.mp hd with rfl | hd
      · exact before
      · exact UInt32.lt_trans before (h.1 d hd)
    · next notBefore =>
      split
      · next same => exact List.pairwise_cons.mpr ⟨fun d hd => same ▸ h.1 d hd, h.2⟩
      · next other =>
        refine List.pairwise_cons.mpr ⟨fun d hd => ?_, ih h.2⟩
        rcases memPut hd with rfl | hd
        · have differ : e.1.number ≠ x.number := fun same => other (by cases x; cases hx : e.1; simp_all)
          rw [UInt32.not_lt] at notBefore
          exact UInt32.lt_of_le_of_ne notBefore differ
        · exact h.1 d hd

def insert (m : XidMap α) (x : Xid) (a : α) : XidMap α := ⟨put x a m.entries, putAscending m.ascending⟩

theorem lookupPut (x y : Xid) (a : α) (es : List (Xid × α)) :
    (put x a es).lookup y = if y = x then some a else es.lookup y := by
  induction es with
  | nil => grind [put]
  | cons e es ih =>
    unfold put
    by_cases h : y = x <;> by_cases he : y = e.1 <;> grind

theorem getInsert (m : XidMap α) (x y : Xid) (a : α) :
    (m.insert x a).get? y = if y = x then some a else m.get? y :=
  lookupPut x y a m.entries

def erase (m : XidMap α) (x : Xid) : XidMap α := ⟨m.entries.filter (·.1 != x), m.ascending.filter _⟩

theorem lookupFilter (x y : Xid) (es : List (Xid × α)) :
    (es.filter (·.1 != x)).lookup y = if y = x then none else es.lookup y := by
  induction es with
  | nil => simp
  | cons e es ih => by_cases h : e.1 = x <;> by_cases he : y = e.1 <;> grind

theorem getErase (m : XidMap α) (x y : Xid) : (m.erase x).get? y = if y = x then none else m.get? y :=
  lookupFilter x y m.entries

end XidMap
end OrphanFiles
