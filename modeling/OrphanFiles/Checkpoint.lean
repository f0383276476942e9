import OrphanFiles.Log
import OrphanFiles.Registry
import OrphanFiles.Snapshot.Body

/-!
Checkpoints: the registered entries go into the log as one snapshot and are made durable, and then a marker
does and is.  They work on any log to which records can be appended.
-/
namespace OrphanFiles

class RecordLog (σ : Type) where
  insert : Log.Kind → ByteArray → EStateM Error σ UInt64
  flush : UInt64 → EStateM Error σ Unit

instance : RecordLog OpenLog := ⟨OpenLog.append, OpenLog.flush⟩

variable {σ : Type} [RecordLog σ]

def RecordLog.insertDurable (kind : Log.Kind) (payload : ByteArray) : EStateM Error σ UInt64 := do
  let lsn ← insert kind payload
  flush lsn
  pure lsn

namespace Registry

def persist (r : Registry) : EStateM Error σ (Option UInt64) :=
  match r.dump with
  | .error e => throw e
  | .ok none => pure none
  | .ok (some snapshot) => some <$> RecordLog.insertDurable .pendingDelete (Snapshot.encode snapshot.entries.toList)

structure CheckpointReport where
  snapshot : Option UInt64
  marker : UInt64
  deriving DecidableEq, Repr

def checkpoint (r : Registry) : EStateM Error σ CheckpointReport := do
  let snapshot ← r.persist
  let marker ← RecordLog.insertDurable .checkpoint .empty
  pure ⟨snapshot, marker⟩

end Registry
end OrphanFiles
