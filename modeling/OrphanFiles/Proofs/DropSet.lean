import Mathlib.Data.List.Basic
import Mathlib.Tactic.FinCases
import OrphanFiles.DropJournal
import OrphanFiles.Proofs.Bodies
import OrphanFiles.Proofs.RedoTable

/-!
The exact set of files that a recovery removes.  The invariant of a replay relates the ledger, the redo table and
the records read so far; the calls to the dropper are read off the table at its end.
-/
namespace OrphanFiles

open Log (Record InDoubt listed lastOutcome?)

structure Observed (σ : Type) where
  files : σ
  calls : List (List RelFile × Bool) := []

instance {σ : Type} [FileDropper σ] : FileDropper (Observed σ) where
  drop fs redo o :=
    let (answer, files) := FileDropper.drop fs redo o.files
    (answer, ⟨files, o.calls ++ [(fs, redo)]⟩)

namespace Replay

variable {τ : Type} [StatusSource τ]

theorem runRead (p : Replay τ) (rs : List Record) : p.run (rs.map .ok) = (none, rs.foldl step p) := by
  induction rs generalizing p with
  | nil => rfl
  | cons r rs ih => exact ih (p.step r)

theorem runBroken (p : Replay τ) (rs : List Record) (e : Error) (rest : List (Except Error Record)) :
    p.run (rs.map .ok ++ .error e :: rest) = (some e, rs.foldl step p) := by
  induction rs generalizing p with
  | nil => rfl
  | cons r rs ih => exact ih (p.step r)

theorem stepUntold {p : Replay τ} (on : p.table.enabled = true) {r : Record} (untold : r.told? = none) :
    (p.step r).source = p.source ∧
      (p.step r).table = (r.listed.foldl (RedoTable.replayEntry p.source) ({}, p.table)).2 ∧
      (p.step r).stats.entriesAdmitted = p.stats.entriesAdmitted +
        (r.listed.foldl (RedoTable.replayEntry p.source) ({}, p.table)).1.admitted ∧
      (p.step r).stats.pruned = p.stats.pruned := by
  unfold step
  obtain ⟨lsn, kind, payload⟩ := r
  cases kind with
  | pendingDelete =>
    cases body : Snapshot.decode payload with
    | error damage => simp [Record.listed, snapshot, RedoTable.snapshotRefused on body, body, countUndecodable]
    | ok es => simp [Record.listed, snapshot, RedoTable.snapshotEntries p.source on body, body]
  | commit | abort =>
    cases body : Completion.decode payload with
    | error damage => simp [Record.listed, completion, body, countUndecodable]
    | ok c => simp [Record.told?, body] at untold
  | checkpoint => simp [Record.listed]

theorem stepTold (p : Replay τ) {r : Record} {c : Completion} {s : TxStatus} (told : r.told? = some (c, s)) :
    r.listed = [] ∧ (p.step r).source = StatusSource.complete p.source c s ∧
      (p.step r).table = (p.table.prune c).2 ∧ (p.step r).stats.entriesAdmitted = p.stats.entriesAdmitted ∧
      (p.step r).stats.pruned = p.stats.pruned + (p.table.prune c).1 := by
  unfold step
  obtain ⟨lsn, kind, payload⟩ := r
  unfold Record.told? at told
  split at told
  · next commit body =>
    cases told
    cases commit
    simp [Record.listed, completion, body]
  · next abort body =>
    cases told
    cases abort
    simp [Record.listed, completion, body]
  · contradiction

def Undecided (l : Ledger) (rs : List Record) (x : Xid) : Prop :=
  x.isValid = true ∧ x.precedes l.oldest = false ∧ l.statusOf x = .inProgress ∧ lastOutcome? x rs = none

instance (l : Ledger) (rs : List Record) (x : Xid) : Decidable (Undecided l rs x) := by
  unfold Undecided; infer_instance

/- What a replay of the records `rs` has come to. -/
structure Accounts (l : Ledger) (rs : List Record) (p : Replay Ledger) : Prop where
  enabled : p.table.enabled = true
  stocked : p.table.Stocked
  oldest : p.source.oldest = l.oldest
  status : ∀ x, p.source.statusOf x = (lastOutcome? x rs).getD (l.statusOf x)
  files : ∀ x, p.table.files x = if Undecided l rs x then filesOf x (listed rs) else []

theorem Accounts.judged {l : Ledger} {rs : List Record} {p : Replay Ledger} (a : Accounts l rs p) (x : Xid) :
    x.isValid = true ∧ judge p.source x = .inDoubt ↔ Undecided l rs x := by
  have running : p.source.statusOf x = .inProgress ↔ l.statusOf x = .inProgress ∧ lastOutcome? x rs = none := by
    rw [a.status]
    cases told : lastOutcome? x rs with
    | none => simp
    | some s => simpa using Log.lastOutcomeEnded told
  have horizon : StatusSource.oldest p.source = l.oldest := a.oldest
  rw [judgeInDoubt, horizon, Undecided]
  exact and_congr_right fun _ => and_congr_right fun _ => running

theorem stepAccounts {l : Ledger} {rs : List Record} {p : Replay Ledger} (a : Accounts l rs p) (r : Record) :
    Accounts l (rs ++ [r]) (p.step r) := by
  have entries : listed (rs ++ [r]) = listed rs ++ r.listed := by simp [listed]
  cases told : r.told? with
  | none =>
    obtain ⟨source, table, -⟩ := stepUntold a.enabled told
    have replayed := RedoTable.entriesReplayed p.source r.listed a.enabled a.stocked {}
    rw [← table] at replayed
    have silent (x : Xid) : lastOutcome? x (rs ++ [r]) = lastOutcome? x rs := by
      simp [Log.lastOutcomeSnoc, Record.outcome?, told]
    have same (x : Xid) : Undecided l (rs ++ [r]) x ↔ Undecided l rs x := by simp [Undecided, silent]
    refine ⟨replayed.enabled, replayed.stocked, by rw [source, a.oldest], fun x => by rw [source, silent, a.status],
      fun x => ?_⟩
    rw [replayed.files, a.files]
    simp only [a.judged, same, entries, filesOfAppend]
    split <;> rfl
  | some ending =>
    obtain ⟨c, s⟩ := ending
    obtain ⟨none, source, table, -⟩ := stepTold p told
    have outcome (x : Xid) : r.outcome? x = if x ∈ c.tree then some s else .none := by simp [Record.outcome?, told]
    refine ⟨by rw [table, RedoTable.enabledPrune, a.enabled], by rw [table]; exact RedoTable.prunedStocked a.stocked c,
      ?_, fun x => ?_, fun x => ?_⟩
    · rw [source]; exact (Ledger.oldestComplete _ _ _).trans a.oldest
    · have := Ledger.statusComplete p.source c s x
      rw [source, Log.lastOutcomeSnoc, outcome]
      refine this.trans ?_
      split <;> simp [a.status]
    · rw [table, RedoTable.filesPrune a.enabled, a.files, entries, none, List.append_nil]
      simp only [Undecided, Log.lastOutcomeSnoc, outcome]
      by_cases named : x ∈ c.tree
      · simp only [named, and_true, if_true]
        split <;> simp_all
      · simp [named]

def ofRecords (c : Config) (l : Ledger) (rs : List Record) : Replay Ledger :=
  rs.foldl step { table := .new c, source := l }

theorem accounts {c : Config} (on : c.enabled = true) (l : Ledger) (rs : List Record) :
    Accounts l rs (ofRecords c l rs) := by
  suffices run : ∀ (rest seen : List Record) (p : Replay Ledger), Accounts l seen p →
      Accounts l (seen ++ rest) (rest.foldl step p) by
    refine run rs [] _ ⟨on, RedoTable.newStocked c, rfl, fun x => rfl, fun x => ?_⟩
    rw [RedoTable.newFiles]
    split <;> rfl
  intro rest
  induction rest with
  | nil => intro seen p a; simpa using a
  | cons r rest ih => intro seen p a; simpa using ih (seen ++ [r]) (p.step r) (stepAccounts a r)

end Replay
namespace RedoTable

theorem eraseDupsCons (f : RelFile) (fs : List RelFile) :
    (f :: fs).eraseDupsBy (·.node == ·.node) =
      f :: (fs.filter (·.node != f.node)).eraseDupsBy (·.node == ·.node) := by
  rw [List.eraseDupsBy_cons]
  congr 3
  funext g
  simp [bne, Bool.beq_eq_decide_eq]

theorem eraseDupsFilter (n : RelNode) (size : Nat) (fs : List RelFile) (shorter : fs.length ≤ size) :
    (fs.eraseDupsBy (·.node == ·.node)).filter (·.node != n) =
      (fs.filter (·.node != n)).eraseDupsBy (·.node == ·.node) := by
  induction size generalizing fs with
  | zero => rw [List.length_eq_zero_iff.mp (Nat.le_zero.mp shorter)]; rfl
  | succ size ih =>
    cases fs with
    | nil => rfl
    | cons f fs =>
      have rest : (fs.filter (·.node != f.node)).length ≤ size := by
        have := List.length_filter_le (·.node != f.node) fs
        simp only [List.length_cons] at shorter
        omega
      have tail := ih (fs.filter (·.node != f.node)) rest
      rw [eraseDupsCons]
      by_cases same : f.node = n
      · subst same
        rw [List.filter_cons_of_neg (by simp), List.filter_cons_of_neg (by simp), tail, List.filter_filter]
        simp
      · rw [List.filter_cons_of_pos (by simpa using same), List.filter_cons_of_pos (by simpa using same), tail,
          eraseDupsCons, List.filter_filter, List.filter_filter]
        simp only [Bool.and_comm]

theorem distinctNodesEq (fs : List RelFile) : distinctNodes fs = fs.eraseDupsBy (·.node == ·.node) := by
  induction fs with
  | nil => rfl
  | cons f fs ih => rw [distinctNodes, ih, eraseDupsFilter f.node fs.length fs (Nat.le_refl _), eraseDupsCons]

theorem distinctNodesEmpty (fs : List RelFile) : (distinctNodes fs).isEmpty = fs.isEmpty := by
  cases fs <;> rfl

theorem distinctNodesNodup (fs : List RelFile) : ((distinctNodes fs).map RelFile.node).Nodup := by
  induction fs with
  | nil => exact .nil
  | cons f fs ih =>
    rw [distinctNodes, List.map_cons, List.nodup_cons]
    refine ⟨?_, ih.sublist (List.filter_sublist.map _)⟩
    simp

theorem memDistinctNodes {fs : List RelFile} {n : RelNode} :
    n ∈ (distinctNodes fs).map RelFile.node ↔ n ∈ fs.map RelFile.node := by
  induction fs with
  | nil => rfl
  | cons f fs ih =>
    simp only [List.mem_map] at ih
    by_cases same : n = f.node
    · subst same
      simp [distinctNodes]
    · simp only [distinctNodes, List.map_cons, List.mem_cons, same, false_or, List.mem_map, List.mem_filter,
        bne_iff_ne, ← ih]
      constructor
      · rintro ⟨g, ⟨member, -⟩, rfl⟩
        exact ⟨g, member, rfl⟩
      · rintro ⟨g, member, rfl⟩
        exact ⟨g, ⟨member, same⟩, rfl⟩

theorem memDistinctFirst {fs : List RelFile} {f : RelFile} :
    f ∈ distinctNodes fs ↔ fs.find? (·.node == f.node) = some f := by
  induction fs with
  | nil => simp [distinctNodes]
  | cons g fs ih =>
    by_cases same : g.node = f.node
    · simp [distinctNodes, same, eq_comm]
    · have other : f ≠ g := fun here => same (here ▸ rfl)
      simp [distinctNodes, same, other, Ne.symm same, ih]

theorem pureState {σ α : Type} (a : α) (s : σ) : (pure a : StateM σ α) s = (a, s) := rfl

section Finalize

variable {σ τ : Type} [StatusSource τ] [FileDropper σ] {source : τ}

def callsFor (source : τ) (x : Xid) (fs : List RelFile) : List (List RelFile × Bool) :=
  if judge source x = .inDoubt ∧ fs.isEmpty = false then [(distinctNodes fs, true)] else []

theorem finalizeOneObserved (report : FinalizeReport) (x : Xid) (fs : List RelFile) (o : Observed σ) :
    finalizeOne source report x fs o =
      ((finalizeOne source report x fs o.files).1,
        ⟨(finalizeOne source report x fs o.files).2, o.calls ++ callsFor source x fs⟩) := by
  unfold finalizeOne callsFor
  cases judge source x with
  | beforeHorizon => simp [pureState]
  | ended status => simp [pureState]
  | inDoubt =>
    dsimp only
    rw [distinctNodesEmpty]
    cases fs.isEmpty with
    | true => simp [pureState]
    | false =>
      cases answer : FileDropper.drop (distinctNodes fs) true o.files with
      | mk a files => cases a <;> simp [bind, StateT.bind, pureState, FileDropper.drop, answer]

def finalizeAll (source : τ) (entries : List (Xid × List RelFile)) (report : FinalizeReport) :
    StateM σ FinalizeReport :=
  entries.foldlM (fun report (x, fs) => finalizeOne source report x fs) report

theorem finalizeAllCons (x : Xid) (fs : List RelFile) (entries : List (Xid × List RelFile))
    (report : FinalizeReport) (files : σ) :
    finalizeAll source ((x, fs) :: entries) report files =
      finalizeAll source entries (finalizeOne source report x fs files).1 (finalizeOne source report x fs files).2 :=
  rfl

variable (source) in
theorem finalizeAllObserved (entries : List (Xid × List RelFile)) (report : FinalizeReport) (o : Observed σ) :
    finalizeAll source entries report o =
      ((finalizeAll source entries report o.files).1,
        ⟨(finalizeAll source entries report o.files).2,
          o.calls ++ entries.flatMap fun (x, fs) => callsFor source x fs⟩) := by
  induction entries generalizing report o with
  | nil => simp [finalizeAll, pureState]
  | cons e entries ih =>
    obtain ⟨x, fs⟩ := e
    rw [finalizeAllCons, finalizeOneObserved, ih, finalizeAllCons]
    simp

theorem finalizeOneInDoubt {x : Xid} (inDoubt : judge source x = .inDoubt) (report : FinalizeReport)
    (fs : List RelFile) (files : σ) :
    (finalizeOne source report x fs files).1.beforeHorizon = report.beforeHorizon ∧
    (finalizeOne source report x fs files).1.ended = report.ended := by
  unfold finalizeOne
  rw [inDoubt]
  dsimp only
  split
  · exact ⟨rfl, rfl⟩
  · cases answer : FileDropper.drop (distinctNodes fs) true files with
    | mk a files => cases a <;> simp [bind, StateT.bind, pureState, answer]

theorem finalizeAllInDoubt (entries : List (Xid × List RelFile))
    (inDoubt : ∀ e ∈ entries, judge source e.1 = .inDoubt) (report : FinalizeReport) (files : σ) :
    (finalizeAll source entries report files).1.beforeHorizon = report.beforeHorizon ∧
    (finalizeAll source entries report files).1.ended = report.ended := by
  induction entries generalizing report files with
  | nil => exact ⟨rfl, rfl⟩
  | cons e entries ih =>
    have head := finalizeOneInDoubt (inDoubt e List.mem_cons_self) report e.2 files
    have tail := ih (fun d member => inDoubt d (List.mem_cons_of_mem _ member))
      (finalizeOne source report e.1 e.2 files).1 (finalizeOne source report e.1 e.2 files).2
    exact ⟨tail.1.trans head.1, tail.2.trans head.2⟩

end Finalize

def rows (t : RedoTable) : List (Xid × List RelFile) := t.table.elim [] XidMap.entries

theorem rowsAscending (t : RedoTable) : (t.rows.map Prod.fst).Pairwise fun x y => x.number < y.number := by
  unfold rows
  cases t.table with
  | none => exact .nil
  | some m => exact List.pairwise_map.mpr m.ascending

theorem rowKeysNodup (t : RedoTable) : (t.rows.map Prod.fst).Nodup :=
  t.rowsAscending.imp fun before => by
    rintro rfl
    exact UInt32.lt_irrefl _ before

theorem memRows {t : RedoTable} (stocked : t.Stocked) {x : Xid} {fs : List RelFile} :
    (x, fs) ∈ t.rows ↔ t.files x = fs ∧ fs ≠ [] := by
  unfold rows files
  cases h : t.table with
  | none => simp +contextual [eq_comm]
  | some m =>
    have full := stocked m h x
    rw [Option.elim_some, Option.bind_some, XidMap.memEntries]
    cases found : m.get? x with
    | none => simp +contextual [eq_comm]
    | some gs => simp only [found, ne_eq, Option.some.injEq] at full; grind

theorem finalizeRows {σ τ : Type} [StatusSource τ] [FileDropper σ] {t : RedoTable} (on : t.enabled = true)
    (source : τ) (files : σ) :
    t.finalize source files =
      (((finalizeAll source t.rows {} files).1, { t with table := none }),
        (finalizeAll source t.rows {} files).2) := by
  obtain ⟨enabled, table⟩ := t
  cases on
  cases table <;> rfl

end RedoTable

namespace Replay

section Rows

variable {l : Ledger} {rs : List Record} {p : Replay Ledger}

theorem Accounts.memRows (a : Accounts l rs p) {x : Xid} {fs : List RelFile} :
    (x, fs) ∈ p.table.rows ↔ InDoubt l rs x ∧ fs = filesOf x (listed rs) := by
  have doubt : InDoubt l rs x ↔ Undecided l rs x ∧ filesOf x (listed rs) ≠ [] := by
    rw [Undecided, Log.lastOutcomeEqNone, ne_eq, filesOfEqNil]
    constructor
    · rintro ⟨valid, recent, running, ⟨e, member, own⟩, unnamed⟩
      exact ⟨⟨valid, recent, running, unnamed⟩, fun none => none e member own⟩
    · rintro ⟨⟨valid, recent, running, unnamed⟩, some⟩
      refine ⟨valid, recent, running, ?_, unnamed⟩
      simpa using some
  rw [RedoTable.memRows a.stocked, a.files, doubt]
  split <;> grind

theorem Accounts.memKeys (a : Accounts l rs p) (x : Xid) : x ∈ p.table.rows.map Prod.fst ↔ InDoubt l rs x := by
  simp only [List.mem_map, Prod.exists, a.memRows]
  grind

theorem Accounts.rowsInDoubt (a : Accounts l rs p) : ∀ e ∈ p.table.rows, judge p.source e.1 = .inDoubt := by
  rintro ⟨x, fs⟩ member
  have doubt := (a.memRows.mp member).1
  exact ((a.judged x).mpr ⟨doubt.valid, doubt.recent, doubt.running, Log.lastOutcomeEqNone.mpr doubt.unnamed⟩).2

theorem Accounts.calls (a : Accounts l rs p) :
    p.table.rows.flatMap (fun (x, fs) => RedoTable.callsFor p.source x fs) =
      (p.table.rows.map Prod.fst).map fun x => (RedoTable.distinctNodes (filesOf x (listed rs)), true) := by
  rw [List.map_map, List.map_eq_flatMap]
  refine List.flatMap_congr fun (x, fs) member => ?_
  have full := ((RedoTable.memRows a.stocked).mp member).2
  have doubt := a.rowsInDoubt _ member
  obtain ⟨-, rfl⟩ := a.memRows.mp member
  simp [RedoTable.callsFor, doubt, full]

end Rows

end Replay

namespace OpenLog

def readThrough : LogM Log.Reader.Scan := do drain (← reader)

end OpenLog

namespace Site

variable {τ σ : Type} [StatusSource τ] [FileDropper σ]

theorem recoverThrough (c : Config) (log : OpenLog) (source : τ) (files : σ) :
    recover c ⟨log, source, files⟩ = match OpenLog.readThrough log with
      | .error e log' => .error e ⟨log', source, files⟩
      | .ok scan log' => recoverFrom c scan.stream ⟨log', source, files⟩ := by
  simp only [recover, OpenLog.readThrough, bind, EStateM.bind, onLog]
  cases made : OpenLog.reader log with
  | error e log' => rfl
  | ok r log₁ =>
    dsimp only
    cases drained : OpenLog.drain r log₁ with
    | error e log' => rfl
    | ok scan log' => rfl

theorem recoverAsRead {c : Config} {log log' : OpenLog} {scan : Log.Reader.Scan}
    (read : OpenLog.readThrough log = .ok scan log') (clean : scan.failure = none) (source : τ) (files : σ) :
    recover c ⟨log, source, files⟩ = recoverFrom c (scan.records.map .ok) ⟨log', source, files⟩ := by
  have stream : scan.stream = scan.records.map .ok := by simp [Log.Reader.Scan.stream, clean]
  rw [recoverThrough, read]
  simp only [stream]

theorem recoverFromRead (c : Config) (log : OpenLog) (source : τ) (files : σ) (rs : List Record) {p : Replay τ}
    (read : p = rs.foldl Replay.step { table := .new c, source := source }) :
    recoverFrom c (rs.map .ok) ⟨log, source, files⟩ =
      .ok ⟨p.stats, (p.table.finalize p.source files).1.1⟩ ⟨log, p.source, (p.table.finalize p.source files).2⟩ := by
  subst read
  unfold recoverFrom
  simp only [Replay.runRead]
  rfl

theorem recoverFromRecords {c : Config} (on : c.enabled = true) (log : OpenLog) (l : Ledger) (files : σ)
    (rs : List Record) {p : Replay Ledger} (read : p = .ofRecords c l rs) :
    recoverFrom c (rs.map .ok) ⟨log, l, files⟩ =
      .ok ⟨p.stats, (RedoTable.finalizeAll p.source p.table.rows {} files).1⟩
        ⟨log, p.source, (RedoTable.finalizeAll p.source p.table.rows {} files).2⟩ := by
  have enabled := (Replay.accounts on l rs).enabled
  rw [← read] at enabled
  rw [recoverFromRead c log l files rs read, RedoTable.finalizeRows enabled]

theorem recoverFromObserved {c : Config} (on : c.enabled = true) (log : OpenLog) (l : Ledger) (files : σ)
    (rs : List Record) {p : Replay Ledger} (read : p = .ofRecords c l rs) :
    recoverFrom c (rs.map .ok) ⟨log, l, Observed.mk files []⟩ =
      .ok ⟨p.stats, (RedoTable.finalizeAll p.source p.table.rows {} files).1⟩
        ⟨log, p.source, ⟨(RedoTable.finalizeAll p.source p.table.rows {} files).2,
          (p.table.rows.map Prod.fst).map fun x => (RedoTable.distinctNodes (filesOf x (listed rs)), true)⟩⟩ := by
  have calls := (Replay.accounts on l rs).calls
  rw [← read] at calls
  rw [recoverFromRecords on log l (Observed.mk files []) rs read, RedoTable.finalizeAllObserved, calls]
  rfl

theorem recoverDropsExactlyInDoubt {c : Config} (on : c.enabled = true) (log : OpenLog) (l : Ledger) (files : σ)
    (rs : List Record) :
    ∃ report l' files' calls, ∃ xs : List Xid,
      recoverFrom c (rs.map .ok) ⟨log, l, files⟩ = .ok report ⟨log, l', files'⟩ ∧
      recoverFrom c (rs.map .ok) ⟨log, l, Observed.mk files []⟩ = .ok report ⟨log, l', ⟨files', calls⟩⟩ ∧
      (∀ earlier scan, OpenLog.readThrough earlier = .ok scan log → scan.failure = none → scan.records = rs →
        recover c ⟨earlier, l, files⟩ = .ok report ⟨log, l', files'⟩) ∧
      (xs.Pairwise fun x y => x.number < y.number) ∧ (∀ x, x ∈ xs ↔ InDoubt l rs x) ∧
      calls = xs.map (fun x => ((filesOf x (listed rs)).eraseDupsBy (·.node == ·.node), true)) ∧
      report.finalize.beforeHorizon = [] ∧ report.finalize.ended = [] ∧
      l'.oldest = l.oldest ∧ ∀ x, l'.statusOf x = (lastOutcome? x rs).getD (l.statusOf x) := by
  let p := Replay.ofRecords c l rs
  have a : Replay.Accounts l rs p := Replay.accounts on l rs
  have excluded := RedoTable.finalizeAllInDoubt p.table.rows a.rowsInDoubt {} files
  have plain := recoverFromRecords on log l files rs (rfl : p = _)
  have observed := recoverFromObserved on log l files rs (rfl : p = _)
  simp only [RedoTable.distinctNodesEq] at observed
  refine ⟨_, p.source, _, _, p.table.rows.map Prod.fst, plain, observed, ?_, p.table.rowsAscending, a.memKeys, rfl,
    excluded.1, excluded.2, a.oldest, a.status⟩
  intro earlier scan read clean same
  rw [recoverAsRead read clean, same]
  exact plain

def twoListed : List PendingFile :=
  [⟨⟨⟨1663, 5, 100⟩, false⟩, ⟨7⟩⟩, ⟨⟨⟨1663, 5, 100⟩, true⟩, ⟨7⟩⟩, ⟨⟨⟨1663, 5, 200⟩, false⟩, ⟨9⟩⟩]

theorem inDoubtOfTwo {snapshot completion : ByteArray} (lists : Snapshot.decode snapshot = .ok twoListed)
    (ends : Completion.decode completion = .ok ⟨⟨3⟩, [⟨9⟩]⟩) (x : Xid) :
    InDoubt {} [⟨1, .pendingDelete, snapshot⟩, ⟨2, .commit, completion⟩] x ↔ x = ⟨7⟩ := by
  have entries : listed [⟨1, .pendingDelete, snapshot⟩, ⟨2, .commit, completion⟩] = twoListed := by
    simp [listed, Record.listed, lists]
  have named (y : Xid) : (∀ r ∈ [⟨1, .pendingDelete, snapshot⟩, ⟨2, .commit, completion⟩], ¬ Record.Names r y) ↔
      y ≠ ⟨3⟩ ∧ y ≠ ⟨9⟩ := by
    simp [Record.Names, Record.told?, ends]
  constructor
  · rintro ⟨-, -, -, ⟨e, member, rfl⟩, unnamed⟩
    rw [entries] at member
    rw [named] at unnamed
    fin_cases member
    · rfl
    · rfl
    · exact absurd rfl unnamed.2
  · rintro rfl
    exact ⟨rfl, rfl, rfl, ⟨⟨⟨⟨1663, 5, 100⟩, false⟩, ⟨7⟩⟩, by simp [entries, twoListed], rfl⟩,
      (named _).mpr (by decide)⟩

theorem recoverDropsOfTwo :
    ({} : Config).enabled = true ∧ ∃ log report l' files',
      recoverFrom {} [.ok ⟨1, .pendingDelete, Snapshot.encode twoListed⟩,
          .ok ⟨2, .commit, Completion.encode ⟨⟨3⟩, [⟨9⟩]⟩⟩] ⟨log, ({} : Ledger), Observed.mk ({} : DropJournal) []⟩ =
        .ok report ⟨log, l', ⟨files', [([⟨⟨1663, 5, 100⟩, false⟩], true)]⟩⟩ := by
  let log : OpenLog := { device := ⟨.empty, []⟩, log := .fresh ⟨0, 1⟩ }
  have lists : Snapshot.decode (Snapshot.encode twoListed) = .ok twoListed := Snapshot.decodeEncode (by decide)
  have ends : Completion.decode (Completion.encode ⟨⟨3⟩, [⟨9⟩]⟩) = .ok ⟨⟨3⟩, [⟨9⟩]⟩ :=
    Completion.decodeEncode (by decide)
  generalize Snapshot.encode twoListed = snapshot at lists ⊢
  generalize Completion.encode ⟨⟨3⟩, [⟨9⟩]⟩ = completion at ends ⊢
  obtain ⟨report, l', files', calls, xs, -, observed, -, ascending, members, same, -⟩ :=
    recoverDropsExactlyInDoubt (c := {}) rfl log {} ({} : DropJournal)
      [⟨1, .pendingDelete, snapshot⟩, ⟨2, .commit, completion⟩]
  have only (x : Xid) : x ∈ xs ↔ x = ⟨7⟩ := (members x).trans (inDoubtOfTwo lists ends x)
  have one : xs = [⟨7⟩] := by
    cases xs with
    | nil => simpa using (only ⟨7⟩).mpr rfl
    | cons x rest =>
      obtain rfl := (only x).mp List.mem_cons_self
      cases rest with
      | nil => rfl
      | cons y rest =>
        obtain rfl := (only y).mp (by simp)
        simp at ascending
  have entries : listed [⟨1, .pendingDelete, snapshot⟩, ⟨2, .commit, completion⟩] = twoListed := by
    simp [listed, Record.listed, lists]
  rw [one, entries] at same
  exact ⟨rfl, log, report, l', files', observed.trans (by rw [same]; rfl)⟩

end Site
end OrphanFiles
