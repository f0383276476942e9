import OrphanFiles.BigEndian
import OrphanFiles.Error

/-!
The end of a transaction tree, as a commit or an abort record stores it: the top transaction in 4 bytes,
the number of its subtransactions in 4 bytes, and each of them in 4 bytes.
-/
namespace OrphanFiles

structure Completion where
  xid : Xid
  subs : List Xid
  deriving DecidableEq, Repr

namespace Completion

open BigEndian (digits word)

def encode (c : Completion) : ByteArray :=
  ⟨(digits 4 c.xid.number.toNat ++ digits 4 c.subs.length ++
    c.subs.flatMap fun x => digits 4 x.number.toNat).toArray⟩

def xidAt (src : ByteArray) (off : Nat) : Xid := ⟨UInt32.ofNat (word src off 4)⟩

def decode (src : ByteArray) : Except Damage Completion :=
  let count := word src 4 4
  if src.size < 8 then .error .completionShort
  else if src.size ≠ 8 + count * 4 then .error .completionLength
  else .ok ⟨xidAt src 0, (List.range count).map fun i => xidAt src (8 + i * 4)⟩

def tree (c : Completion) : List Xid := c.subs ++ [c.xid]

end Completion
end OrphanFiles
