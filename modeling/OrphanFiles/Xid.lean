/-!
Transaction ids.  The ids below `firstNormal` are permanent and keep the order of numbers; the normal
ids are reused after a wrap, so between two of them "older" is read modulo `2 ^ 32`.
-/
namespace OrphanFiles

structure Xid where
  number : UInt32
  deriving DecidableEq, Repr

namespace Xid

def invalid : Xid := ⟨0⟩
def firstNormal : Xid := ⟨3⟩

def isValid (x : Xid) : Bool := x != invalid
def isNormal (x : Xid) : Bool := firstNormal.number ≤ x.number

/-- Whether `x` is logically older than `y`.  Two normal ids are compared by the top bit of their
difference: `x` is older when `y` lies less than half a turn ahead of it, or exactly half a turn. -/
def precedes (x y : Xid) : Bool :=
  if x.isNormal && y.isNormal then 0x80000000 ≤ x.number - y.number else x.number < y.number

def text (x : Xid) : String := toString x.number.toNat

end Xid
end OrphanFiles
