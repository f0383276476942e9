import OrphanFiles.RedoTable

/-!
A dropper that removes nothing and notes what it is asked to remove.  A call with a relation on its list of
failures fails.
-/
namespace OrphanFiles

structure DropCall where
  files : List RelFile
  redo : Bool
  failed : Bool
  deriving DecidableEq, Repr

structure DropJournal where
  failing : List UInt32 := []
  calls : Array DropCall := #[]

namespace DropJournal

def drop (files : List RelFile) (redo : Bool) : StateM DropJournal (Except Error Unit) := fun j =>
  let failed := files.any fun f => j.failing.contains f.node.relation
  let j := { j with calls := j.calls.push ⟨files, redo, failed⟩ }
  (if failed then .error (.invalid (.reported "simulated unlink failure")) else .ok (), j)

instance : FileDropper DropJournal := ⟨drop⟩

end DropJournal
end OrphanFiles
