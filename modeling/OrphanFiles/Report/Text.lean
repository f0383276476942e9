import OrphanFiles.Inspection
import OrphanFiles.Recovery

/-!
Reports as lines of text.
-/
namespace OrphanFiles

def xidList (xs : List Xid) : String := ",".intercalate (xs.map Xid.text)

def RecordSummary.lines (r : RecordSummary) : List String :=
  let head := s!"  lsn={r.lsn.toNat} {r.kind.name}"
  match r.body with
  | .snapshot entries =>
    s!"{head} entries={entries.length}" :: entries.map fun e => s!"    xid={e.xid.text} rel={e.file.text}"
  | .completion c => [s!"{head} xid={c.xid.text} subxacts=[{xidList c.subs}]"]
  | .checkpoint => [head]
  | .damaged damage => [s!"{head} undecodable: {(Error.corruption damage).message}"]

def Inspection.lines (i : Inspection) : List String :=
  [s!"Log {i.path} (size={i.size} salt={i.header.salt.toNat} start_lsn={i.header.start.toNat})"] ++
  i.records.flatMap RecordSummary.lines ++
  (if i.trailing = 0 then []
    else [s!"Trailing bytes past last intact record: {i.trailing} (valid_up_to={i.validUpTo})"])

def ReplayStats.lines (s : ReplayStats) : List String := [
  s!"Replayed {s.records} records (snapshots={s.snapshots} commits={s.commits} aborts={s.aborts} " ++
    s!"checkpoints={s.checkpoints})",
  s!"  admitted={s.entriesAdmitted} skipped_horizon={s.beforeHorizon} skipped_status={s.ended} " ++
    s!"pruned={s.pruned} undecodable={s.undecodable}"]

def FinalizeReport.lines (r : FinalizeReport) : List String :=
  [s!"Dropped {r.filesDropped} files for xids [{xidList r.dropped}] (duplicates collapsed={r.duplicates})"] ++
  r.ended.map (fun (x, s) => s!"  kept xid={x.text} status={s.name}") ++
  r.beforeHorizon.map (fun x => s!"  kept xid={x.text} (before horizon)") ++
  r.failures.map (fun f => s!"  failed xid={f.xid.text} handles={f.files}: {f.message}")

def RecoveryReport.lines (r : RecoveryReport) : List String := r.replay.lines ++ r.finalize.lines

def unlines (lines : List String) : String := String.join (lines.map (· ++ "\n"))

end OrphanFiles
