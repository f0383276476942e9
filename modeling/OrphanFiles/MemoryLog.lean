import OrphanFiles.Checkpoint

/-!
A log in memory that notes what is asked of it.  Positions are counted from 1.  Either operation can be made to
fail once.
-/
namespace OrphanFiles

structure MemoryLog where
  records : Array Log.Record := #[]
  flushes : Array UInt64 := #[]
  failInsert : Bool := false
  failFlush : Bool := false

namespace MemoryLog

def insert (kind : Log.Kind) (payload : ByteArray) : EStateM Error MemoryLog UInt64 := do
  let log ← get
  if log.failInsert then
    set { log with failInsert := false }
    throw (.invalid (.reported "log insert failed"))
  let lsn := UInt64.ofNat (log.records.size + 1)
  set { log with records := log.records.push ⟨lsn, kind, payload⟩ }
  pure lsn

def flush (upto : UInt64) : EStateM Error MemoryLog Unit := do
  let log ← get
  if log.failFlush then
    set { log with failFlush := false }
    throw (.invalid (.reported "log flush failed"))
  set { log with flushes := log.flushes.push upto }

instance : RecordLog MemoryLog := ⟨insert, flush⟩

end MemoryLog
end OrphanFiles
