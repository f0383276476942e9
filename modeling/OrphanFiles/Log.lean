import OrphanFiles.Log.Reader

/-!
The record log: a file of framed records to which records are appended, and which is synced to make them
durable.  Opening a file reads it through, and cuts off what follows its last whole record.
-/
namespace OrphanFiles

namespace Log

structure Stats where
  records : Nat := 0
  bytes : Nat := 0
  syncs : Nat := 0
  tornBytes : Nat := 0
  deriving DecidableEq, Repr

end Log

structure Log where
  header : Log.Header
  offset : Nat
  link : UInt64
  nextLsn : UInt64
  flushed : Option UInt64
  stats : Log.Stats
  deriving DecidableEq, Repr

/-- A log on its device.  A record may be about to arrive: it is appended while the next sync is under way. -/
structure OpenLog where
  device : Device
  log : Log
  arriving : Option (Log.Kind × ByteArray) := none

abbrev LogM := EStateM Error OpenLog

namespace Log

open FileM

def fresh (header : Header) : Log where
  header := header
  offset := Sealed.size
  link := firstLink
  nextLsn := header.start
  flushed := none
  stats := {}

def ofScan (header : Header) (scan : Reader.Scan) (tornBytes : Nat) : Log :=
  let log := { fresh header with offset := scan.reader.validUpTo, link := scan.reader.link, stats := { tornBytes } }
  match scan.records.getLast? with
  | none => log
  | some last => { log with nextLsn := last.lsn + 1, flushed := some last.lsn }

/-- Opens the log in a file, or makes one there if the file is too short to be a log.  The start is that of
a log that is made. -/
def load (salt start : UInt64) : FileM Log := do
  if (← len) < Sealed.size then
    let header : Header := ⟨salt, start⟩
    writeAt 0 header.encode
    truncate Sealed.size
    pure (fresh header)
  else
    let header ← Reader.readHeader
    if header.salt ≠ salt then throw (.corruption .salt)
    let scan ← (← Reader.new header).drain
    if let some e := scan.failure then throw e
    let size ← len
    let validUpTo := scan.reader.validUpTo
    if size > validUpTo then truncate validUpTo
    pure (ofScan header scan (size - validUpTo))

def extend (log : Log) (block payload : ByteArray) : Log :=
  let size := block.size + payload.size
  { log with
    offset := log.offset + size
    link := nextLink log.link block payload
    nextLsn := log.nextLsn + 1
    stats := { log.stats with records := log.stats.records + 1, bytes := log.stats.bytes + size } }

def markSynced (log : Log) (target : UInt64) : Log :=
  let covered := target - 1
  let flushed := if target > log.header.start then some (log.flushed.elim covered (max · covered)) else log.flushed
  { log with flushed, stats := { log.stats with syncs := log.stats.syncs + 1 } }

end Log

namespace OpenLog

open Log

def onDevice {α : Type} (x : FileM α) : LogM α := fun s =>
  match x s.device with
  | .ok a device => .ok a { s with device }
  | .error e device => .error e { s with device }

def modifyLog (f : Log → Log) : LogM Unit := modify fun s => { s with log := f s.log }

def append (kind : Kind) (payload : ByteArray) : LogM UInt64 := do
  if payload.size > maxPayload then throw (.invalid .payloadTooLarge)
  let log := (← get).log
  let block := (Frame.ofRecord log.link ⟨log.nextLsn, kind, payload⟩).encode
  onDevice (FileM.writeAt log.offset (block ++ payload))
  modifyLog (·.extend block payload)
  pure log.nextLsn

def syncDevice : LogM Unit := do
  onDevice FileM.sync
  match (← get).arriving with
  | none => pure ()
  | some (kind, payload) =>
    modify fun s => { s with arriving := none }
    discard (append kind payload)

def sync : LogM Unit := do
  let target := (← get).log.nextLsn
  syncDevice
  modifyLog (·.markSynced target)

def flush (upto : UInt64) : LogM Unit := do
  match (← get).log.flushed with
  | some done => if done ≥ upto then pure () else sync
  | none => sync

def reader : LogM Reader := do
  onDevice (Reader.new (← get).log.header)

def drain (r : Reader) : LogM Reader.Scan := onDevice r.drain

def len : LogM Nat := onDevice FileM.len

end OpenLog
end OrphanFiles
