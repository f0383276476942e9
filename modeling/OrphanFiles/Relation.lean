import OrphanFiles.Xid

/-!
Relation files: the identity of a relation's storage, the file that holds it, and the file together with
the transaction that created it.
-/
namespace OrphanFiles

structure RelNode where
  tablespace : UInt32
  database : UInt32
  relation : UInt32
  deriving DecidableEq, Repr

namespace RelNode

def text (n : RelNode) : String :=
  s!"{n.tablespace.toNat}/{n.database.toNat}/{n.relation.toNat}"

def le (m n : RelNode) : Bool :=
  if m.tablespace != n.tablespace then m.tablespace < n.tablespace
  else if m.database != n.database then m.database < n.database
  else m.relation ≤ n.relation

end RelNode

structure RelFile where
  node : RelNode
  temporary : Bool
  deriving DecidableEq, Repr

def RelFile.text (f : RelFile) : String :=
  if f.temporary then f.node.text ++ " (temp)" else f.node.text

structure PendingFile where
  file : RelFile
  xid : Xid
  deriving DecidableEq, Repr

end OrphanFiles
