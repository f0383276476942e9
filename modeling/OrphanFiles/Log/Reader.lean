import OrphanFiles.Device
import OrphanFiles.Log.Frame
import OrphanFiles.Log.Header

/-!
Reading a log from its first record on.  A reader sees the file as far as it reached when the reader was made.
The first frame that is torn, altered or out of the chain ends the log; a frame that is whole but that this
library cannot have written is an error.
-/
namespace OrphanFiles.Log

structure Reader where
  header : Header
  offset : Nat
  limit : Nat
  link : UInt64
  validUpTo : Nat
  deriving DecidableEq, Repr

namespace Reader

open FileM

def new (header : Header) : FileM Reader := do
  let limit ← len
  if limit < Sealed.size then throw (.corruption .logShort)
  pure ⟨header, Sealed.size, limit, firstLink, Sealed.size⟩

def readHeader : FileM Header := do
  match Header.decode (← readAt 0 Sealed.size) with
  | .ok header => pure header
  | .error damage => throw (.corruption damage)

def ofFile : FileM Reader := do
  if (← len) < Sealed.size then throw (.corruption .logShort)
  new (← readHeader)

def stop (r : Reader) : Option Record × Reader := (none, { r with offset := r.limit })

def frame? (r : Reader) (block : ByteArray) : Except Damage (Option Frame) :=
  match Frame.decode? block with
  | none => .ok none
  | some f =>
    if f.link ≠ r.link then .ok none
    else if f.lsn < r.header.start then .error .belowStart
    else if f.size > maxPayload ∨ r.offset + Sealed.size + f.size > r.limit then .ok none
    else .ok (some f)

def record? (r : Reader) (f : Frame) (block payload : ByteArray) : Except Damage (Option (Record × Reader)) :=
  if Crc32.ofBytes payload ≠ f.checksum then .ok none
  else match Kind.ofCode? f.kind with
    | none => .error .unknownKind
    | some kind =>
      let offset := r.offset + Sealed.size + f.size
      .ok (some (⟨f.lsn, kind, payload⟩,
        { r with offset, validUpTo := offset, link := nextLink r.link block payload }))

def next (r : Reader) : FileM (Option Record × Reader) := do
  if r.offset + Sealed.size > r.limit then return r.stop
  let some block ← readOrEnd r.offset Sealed.size | return r.stop
  match r.frame? block with
  | .error damage => throw (.corruption damage)
  | .ok none => return r.stop
  | .ok (some f) =>
    let some payload ← readOrEnd (r.offset + Sealed.size) f.size | return r.stop
    match r.record? f block payload with
    | .error damage => throw (.corruption damage)
    | .ok none => return r.stop
    | .ok (some (record, r)) => return (some record, r)

structure Scan where
  records : List Record
  reader : Reader
  failure : Option Error

def drainFrom : Nat → Reader → FileM Scan
  | 0, r => pure ⟨[], r, none⟩
  | fuel + 1, r => do
    match ← Error.attempt r.next with
    | .error e => pure ⟨[], r, some e⟩
    | .ok (none, r) => pure ⟨[], r, none⟩
    | .ok (some record, r) =>
      let scan ← drainFrom fuel r
      pure { scan with records := record :: scan.records }

/-- Reads on to the end or the first failure.  A record takes a block at least, and one call more finds the end. -/
def drain (r : Reader) : FileM Scan := drainFrom ((r.limit - r.offset) / Sealed.size + 1) r

end Reader

def Reader.Scan.stream (s : Reader.Scan) : List (Except Error Record) :=
  s.records.map .ok ++ s.failure.toList.map .error

end OrphanFiles.Log
