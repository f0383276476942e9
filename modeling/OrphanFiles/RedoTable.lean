import OrphanFiles.Config
import OrphanFiles.Ledger
import OrphanFiles.Snapshot.Body

/-!
The files that a recovery still has to decide on, listed by transaction.  Snapshots add to the table, the ends
of transactions take from it, and at the end of the replay the files of every transaction that is still
in doubt are removed.
-/
namespace OrphanFiles

class FileDropper (σ : Type) where
  drop : List RelFile → (redo : Bool) → StateM σ (Except Error Unit)

inductive Verdict where
  | inDoubt
  | beforeHorizon
  | ended (status : TxStatus)
  deriving DecidableEq, Repr

def judge {τ : Type} [StatusSource τ] (source : τ) (x : Xid) : Verdict :=
  if x.precedes (StatusSource.oldest source) then .beforeHorizon
  else match StatusSource.statusOf source x with
    | .inProgress => .inDoubt
    | status => .ended status

structure DropFailure where
  xid : Xid
  files : Nat
  cause : Error
  deriving DecidableEq, Repr

def DropFailure.message (f : DropFailure) : String := f.cause.dropMessage f.xid

structure FinalizeReport where
  dropped : List Xid := []
  filesDropped : Nat := 0
  beforeHorizon : List Xid := []
  ended : List (Xid × TxStatus) := []
  failures : List DropFailure := []
  duplicates : Nat := 0
  deriving DecidableEq, Repr

structure AdmitCounts where
  admitted : Nat := 0
  beforeHorizon : Nat := 0
  ended : Nat := 0
  deriving DecidableEq, Repr

structure RedoTable where
  enabled : Bool
  /-- The files of each transaction in the order of their admission; there is no table before the first one. -/
  table : Option (XidMap (List RelFile))

namespace RedoTable

def new (c : Config) : RedoTable := ⟨c.enabled, none⟩

def isActive (t : RedoTable) : Bool := t.table.isSome

def size (t : RedoTable) : Nat := t.table.elim 0 XidMap.size

def files (t : RedoTable) (x : Xid) : List RelFile := ((t.table.bind (·.get? x))).getD []

def enroll (t : RedoTable) (e : PendingFile) : RedoTable :=
  if t.enabled && e.xid.isValid then
    let table := t.table.getD .empty
    { t with table := some (table.insert e.xid ((table.get? e.xid).getD [] ++ [e.file])) }
  else t

def replayEntry {τ : Type} [StatusSource τ] (source : τ) (s : AdmitCounts × RedoTable) (e : PendingFile) :
    AdmitCounts × RedoTable :=
  let (counts, t) := s
  match judge source e.xid with
  | .inDoubt => ({ counts with admitted := counts.admitted + 1 }, t.enroll e)
  | .beforeHorizon => ({ counts with beforeHorizon := counts.beforeHorizon + 1 }, t)
  | .ended _ => ({ counts with ended := counts.ended + 1 }, t)

def replaySnapshot {τ : Type} [StatusSource τ] (t : RedoTable) (source : τ) (payload : ByteArray) :
    Except Damage (AdmitCounts × RedoTable) :=
  if t.enabled then (Snapshot.decode payload).map (·.foldl (replayEntry source) ({}, t))
  else .ok ({}, t)

def pruneOne (s : Nat × XidMap (List RelFile)) (x : Xid) : Nat × XidMap (List RelFile) :=
  if x.isValid && (s.2.get? x).isSome then (s.1 + 1, s.2.erase x) else s

def prune (t : RedoTable) (c : Completion) : Nat × RedoTable :=
  match t.table with
  | none => (0, t)
  | some table =>
    if t.enabled then
      let (count, table) := c.tree.foldl pruneOne (0, table)
      (count, { t with table := some table })
    else (0, t)

def distinctNodes : List RelFile → List RelFile
  | [] => []
  | f :: fs => f :: (distinctNodes fs).filter (·.node != f.node)

variable {σ τ : Type} [StatusSource τ] [FileDropper σ]

def finalizeOne (source : τ) (report : FinalizeReport) (x : Xid) (files : List RelFile) :
    StateM σ FinalizeReport :=
  match judge source x with
  | .beforeHorizon => pure { report with beforeHorizon := report.beforeHorizon ++ [x] }
  | .ended status => pure { report with ended := report.ended ++ [(x, status)] }
  | .inDoubt => do
    let distinct := distinctNodes files
    if distinct.isEmpty then return report
    let report := { report with duplicates := report.duplicates + (files.length - distinct.length) }
    match ← FileDropper.drop distinct true with
    | .ok () => pure { report with
        filesDropped := report.filesDropped + distinct.length, dropped := report.dropped ++ [x] }
    | .error cause => pure { report with
        failures := report.failures ++ [⟨x, distinct.length, cause⟩] }

def finalize (t : RedoTable) (source : τ) : StateM σ (FinalizeReport × RedoTable) :=
  match t.table with
  | none => pure ({}, t)
  | some table =>
    if t.enabled then do
      let report ← table.entries.foldlM (fun report (x, files) => finalizeOne source report x files) {}
      pure (report, { t with table := none })
    else pure ({}, t)

end RedoTable
end OrphanFiles
