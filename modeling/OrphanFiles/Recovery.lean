import OrphanFiles.Log
import OrphanFiles.RedoTable

/-!
Recovery after a crash: the log is replayed into a redo table and the outcomes, and the files of what is still
in doubt at its end are removed.
-/
namespace OrphanFiles

structure ReplayStats where
  records : Nat := 0
  snapshots : Nat := 0
  entriesAdmitted : Nat := 0
  beforeHorizon : Nat := 0
  ended : Nat := 0
  commits : Nat := 0
  aborts : Nat := 0
  pruned : Nat := 0
  checkpoints : Nat := 0
  undecodable : Nat := 0
  lastLsn : Option UInt64 := none
  deriving DecidableEq, Repr

structure Replay (τ : Type) where
  table : RedoTable
  source : τ
  stats : ReplayStats := {}

namespace Replay

variable {τ : Type} [StatusSource τ]

def countUndecodable (p : Replay τ) : Replay τ :=
  { p with stats := { p.stats with undecodable := p.stats.undecodable + 1 } }

def snapshot (p : Replay τ) (payload : ByteArray) : Replay τ :=
  match p.table.replaySnapshot p.source payload with
  | .error _ => p.countUndecodable
  | .ok (counts, table) => { p with table, stats := { p.stats with
      snapshots := p.stats.snapshots + 1
      entriesAdmitted := p.stats.entriesAdmitted + counts.admitted
      beforeHorizon := p.stats.beforeHorizon + counts.beforeHorizon
      ended := p.stats.ended + counts.ended } }

def completion (p : Replay τ) (status : TxStatus) (payload : ByteArray) : Replay τ :=
  match Completion.decode payload with
  | .error _ => p.countUndecodable
  | .ok c =>
    let (pruned, table) := p.table.prune c
    let stats := if status = .committed
      then { p.stats with commits := p.stats.commits + 1 }
      else { p.stats with aborts := p.stats.aborts + 1 }
    { table, source := StatusSource.complete p.source c status,
      stats := { stats with pruned := stats.pruned + pruned } }

def step (p : Replay τ) (r : Log.Record) : Replay τ :=
  let p := { p with stats := { p.stats with records := p.stats.records + 1, lastLsn := some r.lsn } }
  match r.kind with
  | .pendingDelete => p.snapshot r.payload
  | .commit => p.completion .committed r.payload
  | .abort => p.completion .aborted r.payload
  | .checkpoint => { p with stats := { p.stats with checkpoints := p.stats.checkpoints + 1 } }

def run (p : Replay τ) : List (Except Error Log.Record) → Option Error × Replay τ
  | [] => (none, p)
  | .error e :: _ => (some e, p)
  | .ok r :: items => (p.step r).run items

end Replay

structure RecoveryReport where
  replay : ReplayStats
  finalize : FinalizeReport
  deriving DecidableEq, Repr

structure Site (τ σ : Type) where
  log : OpenLog
  source : τ
  files : σ

namespace Site

variable {τ σ : Type} [StatusSource τ] [FileDropper σ]

def onLog {α : Type} (x : LogM α) : EStateM Error (Site τ σ) α := fun s =>
  match x s.log with
  | .ok a log => .ok a { s with log }
  | .error e log => .error e { s with log }

def recoverFrom (config : Config) (items : List (Except Error Log.Record)) :
    EStateM Error (Site τ σ) RecoveryReport := fun s =>
  let (failure, replay) := Replay.run { table := .new config, source := s.source } items
  let s := { s with source := replay.source }
  match failure with
  | some e => .error e s
  | none =>
    let ((finalize, _), files) := replay.table.finalize replay.source s.files
    .ok ⟨replay.stats, finalize⟩ { s with files }

def recover (config : Config) : EStateM Error (Site τ σ) RecoveryReport := do
  let reader ← onLog OpenLog.reader
  let scan ← onLog (OpenLog.drain reader)
  recoverFrom config scan.stream

end Site
end OrphanFiles
