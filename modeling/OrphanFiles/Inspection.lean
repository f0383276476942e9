import OrphanFiles.Completion
import OrphanFiles.Log
import OrphanFiles.Snapshot.Body
import OrphanFiles.Volume

/-!
The description of a log file: its header, every whole record with its body, and what follows the last of them.
-/
namespace OrphanFiles

inductive RecordBody where
  | snapshot (entries : List PendingFile)
  | completion (c : Completion)
  | checkpoint
  | damaged (damage : Damage)
  deriving DecidableEq, Repr

def RecordBody.ofRecord (r : Log.Record) : RecordBody :=
  match r.kind with
  | .pendingDelete => match Snapshot.decode r.payload with
    | .ok entries => .snapshot entries
    | .error damage => .damaged damage
  | .commit | .abort => match Completion.decode r.payload with
    | .ok c => .completion c
    | .error damage => .damaged damage
  | .checkpoint => .checkpoint

def RecordBody.entries : RecordBody → List PendingFile
  | .snapshot entries => entries
  | _ => []

structure RecordSummary where
  lsn : UInt64
  kind : Log.Kind
  payloadBytes : Nat
  body : RecordBody
  deriving DecidableEq, Repr

def RecordSummary.ofRecord (r : Log.Record) : RecordSummary := ⟨r.lsn, r.kind, r.payload.size, .ofRecord r⟩

structure Inspection where
  path : String
  size : Nat
  header : Log.Header
  records : List RecordSummary
  validUpTo : Nat
  deriving DecidableEq, Repr

namespace Inspection

def trailing (i : Inspection) : Nat := i.size - i.validUpTo

def pendingEntries (i : Inspection) : Nat := i.records.foldl (fun n r => n + r.body.entries.length) 0

def ofFile (path : String) : FileM Inspection := do
  let size ← FileM.len
  let reader ← Log.Reader.ofFile
  let scan ← reader.drain
  match scan.failure with
  | some e => throw e
  | none => pure ⟨path, size, reader.header, scan.records.map .ofRecord, scan.reader.validUpTo⟩

def ofPath (v : Volume) (path : String) : Except Error Inspection := do
  if !v.isPresent path then throw (.missingLog path)
  let id ← (v.openExisting path).mapError .path
  match ofFile path ⟨v.file id, []⟩ with
  | .ok i _ => pure i
  | .error e _ => throw e

end Inspection
end OrphanFiles
