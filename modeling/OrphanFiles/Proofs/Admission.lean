import OrphanFiles.Proofs.Finalization
import OrphanFiles.Proofs.ReplayFold
import OrphanFiles.Proofs.Replayed

/-!
What becomes of the entries that a replay admits.  A file that is put into the redo table is taken out again at the end
of its transaction, or is in the table when the recovery ends, and then it is dropped, failed or a duplicate.  An entry
without a valid transaction is counted as admitted, if the horizon lets it through, but is put nowhere.
-/
namespace OrphanFiles

open Log (Record listed lastOutcome?)

theorem Xid.invalidRecent {horizon : Xid} : Xid.invalid.precedes horizon = false ↔ horizon = .invalid := by
  rw [precedes, show Xid.invalid.isNormal = false from rfl, Bool.false_and, if_neg Bool.false_ne_true,
    decide_eq_false_iff_not, UInt32.not_lt]
  constructor
  · intro low
    exact congrArg Xid.mk (UInt32.le_zero_iff.mp low)
  · rintro rfl
    exact UInt32.le_refl _

def filesIn (rows : List (Xid × List RelFile)) : Nat := (rows.map fun e => e.2.length).sum

namespace XidMap

theorem filesPut (x : Xid) (fs : List RelFile) {es : List (Xid × List RelFile)}
    (ascending : es.Pairwise fun a b => a.1.number < b.1.number) :
    filesIn (put x fs es) + ((es.lookup x).getD []).length = filesIn es + fs.length := by
  induction es with
  | nil => simp [put, filesIn]
  | cons e es ih =>
    obtain ⟨above, ascending⟩ := List.pairwise_cons.mp ascending
    have rest := ih ascending
    unfold put
    rw [List.lookup_cons]
    split
    · next before =>
      have other : (x == e.1) = false := beq_false_of_ne fun same => UInt32.lt_irrefl _ (same ▸ before)
      have absent : es.lookup x = none := by
        refine List.lookup_eq_none_iff.mpr fun d member => bne_iff_ne.mpr fun same => ?_
        exact UInt32.lt_irrefl _ (same ▸ UInt32.lt_trans before (above d member))
      rw [other, absent]
      simp only [filesIn, List.map_cons, List.sum_cons, Option.getD_none, List.length_nil]
      omega
    · split
      · next same =>
        rw [beq_iff_eq.mpr same]
        simp only [filesIn, List.map_cons, List.sum_cons, Option.getD_some]
        omega
      · next other =>
        rw [beq_false_of_ne other]
        simp only [filesIn, List.map_cons, List.sum_cons] at rest ⊢
        omega

end XidMap

namespace RedoTable

variable {t : RedoTable}

theorem filesInEnroll (on : t.enabled = true) {e : PendingFile} (valid : e.xid.isValid = true) :
    filesIn (t.enroll e).rows = filesIn t.rows + 1 := by
  unfold enroll rows
  cases h : t.table with
  | none => simp [on, valid, XidMap.insert, XidMap.empty, XidMap.put, XidMap.get?, filesIn]
  | some m =>
    have put := XidMap.filesPut e.xid ((m.get? e.xid).getD [] ++ [e.file]) m.ascending
    simp only [List.length_append, List.length_singleton, XidMap.get?] at put
    simp only [on, valid, Bool.and_self, if_true, Option.getD_some, Option.elim_some, XidMap.insert, XidMap.get?]
    omega

theorem filesInEnrollAll (on : t.enabled = true) {es : List PendingFile}
    (valid : ∀ e ∈ es, e.xid.isValid = true) : filesIn (t.enrollAll es).rows = filesIn t.rows + es.length := by
  induction es generalizing t with
  | nil => rfl
  | cons e es ih =>
    have first := filesInEnroll on (valid e List.mem_cons_self)
    have rest := ih (t := t.enroll e) (by simpa using on) fun d member => valid d (List.mem_cons_of_mem _ member)
    rw [enrollAll, List.foldl_cons, ← enrollAll, rest, first, List.length_cons]
    omega

theorem filesInPrune (on : t.enabled = true) (c : Completion) :
    filesIn (t.prune c).2.rows + filesIn (t.gone (t.prune c).2) = filesIn t.rows := by
  rw [goneByPrune on, pruneRows on]
  induction t.rows with
  | nil => rfl
  | cons e es ih =>
    simp only [filesIn, List.filter_cons] at ih ⊢
    cases e.1.isValid && decide (e.1 ∈ c.tree)
    · simp only [Bool.not_false, if_true, Bool.false_eq_true, if_false, List.map_cons, List.sum_cons]
      omega
    · simp only [Bool.not_true, if_true, Bool.false_eq_true, if_false, List.map_cons, List.sum_cons]
      omega

section Entries

variable {τ : Type} [StatusSource τ] {source : τ}

theorem entriesAdmitted (source : τ) (es : List PendingFile) (counts : AdmitCounts) (t : RedoTable) :
    (es.foldl (replayEntry source) (counts, t)).1.admitted =
      counts.admitted + es.countP fun e => judge source e.xid = .inDoubt := by
  induction es generalizing counts t with
  | nil => rfl
  | cons e es ih =>
    have one : (replayEntry source (counts, t) e).1.admitted =
        counts.admitted + if judge source e.xid = .inDoubt then 1 else 0 := by
      unfold replayEntry
      cases judge source e.xid <;> simp
    have rest := ih (replayEntry source (counts, t) e).1 (replayEntry source (counts, t) e).2
    rw [List.foldl_cons, List.countP_cons]
    refine rest.trans ?_
    rw [one]
    simp only [decide_eq_true_eq]
    omega

theorem inDoubtAdmissible (source : τ) (es : List PendingFile) :
    es.countP (fun e => judge source e.xid = .inDoubt) = (es.filter (admissible source)).length +
      if judge source .invalid = .inDoubt then (filesOf .invalid es).length else 0 := by
  induction es with
  | nil => simp
  | cons e es ih =>
    rw [List.countP_cons, ih, List.filter_cons, filesOfCons]
    by_cases invalid : e.xid = .invalid
    · have refused : admissible source e = false := by
        rw [Bool.eq_false_iff, ne_eq, admissibleIff]
        simp [invalid, Xid.isValid]
      simp only [invalid, refused, Bool.false_eq_true, if_false, if_true, List.length_cons, decide_eq_true_eq]
      split <;> omega
    · have valid : e.xid.isValid = true := by simpa [Xid.isValid] using invalid
      have same : admissible source e = decide (judge source e.xid = .inDoubt) := by
        rw [Bool.eq_iff_iff, admissibleIff]
        simp [valid]
      rw [same, if_neg invalid]
      cases decide (judge source e.xid = .inDoubt)
      · simp
      · simp only [if_true, List.length_cons]
        omega

end Entries
end RedoTable

namespace Replay

def putIn {τ : Type} [StatusSource τ] (p : Replay τ) : List Record → Nat
  | [] => 0
  | r :: rs => (filesIn (p.step r).table.rows - filesIn p.table.rows) + (p.step r).putIn rs

def overcounted (l : Ledger) (rs : List Record) : Nat :=
  if l.oldest = .invalid ∧ l.statusOf .invalid = .inProgress then
    (filesOf .invalid (listed (rs.takeWhile fun r => (r.outcome? .invalid).isNone))).length
  else 0

section Runs

variable {τ : Type} [StatusSource τ]

theorem putInAppend (p : Replay τ) (rs rs' : List Record) :
    p.putIn (rs ++ rs') = p.putIn rs + (rs.foldl step p).putIn rs' := by
  induction rs generalizing p with
  | nil => exact (Nat.zero_add _).symm
  | cons r rs ih => rw [List.cons_append, putIn, putIn, ih, List.foldl_cons, Nat.add_assoc]

theorem takenOutAppend (p : Replay τ) (rs rs' : List Record) :
    p.takenOut (rs ++ rs') = p.takenOut rs ++ (rs.foldl step p).takenOut rs' := by
  induction rs generalizing p with
  | nil => rfl
  | cons r rs ih => rw [List.cons_append, takenOut, takenOut, ih, List.foldl_cons, List.append_assoc]

theorem filesInAppend (rows rows' : List (Xid × List RelFile)) :
    filesIn (rows ++ rows') = filesIn rows + filesIn rows' := by
  simp [filesIn]

end Runs

structure Admits (c : Config) (l : Ledger) (rs : List Record) : Prop where
  counted : (ofRecords c l rs).stats.entriesAdmitted = (ofRecords c l []).putIn rs + overcounted l rs
  held : filesIn (ofRecords c l rs).table.rows + filesIn ((ofRecords c l []).takenOut rs) = (ofRecords c l []).putIn rs

section Admission

variable {c : Config} {l : Ledger} {rs : List Record} {r : Record}

theorem ofRecordsSnoc (c : Config) (l : Ledger) (rs : List Record) (r : Record) :
    ofRecords c l (rs ++ [r]) = (ofRecords c l rs).step r := List.foldl_concat ..

theorem putInSnoc (c : Config) (l : Ledger) (rs : List Record) (r : Record) :
    (ofRecords c l []).putIn (rs ++ [r]) = (ofRecords c l []).putIn rs +
      (filesIn ((ofRecords c l rs).step r).table.rows - filesIn (ofRecords c l rs).table.rows) :=
  putInAppend ..

theorem takenOutSnoc (c : Config) (l : Ledger) (rs : List Record) (r : Record) :
    (ofRecords c l []).takenOut (rs ++ [r]) = (ofRecords c l []).takenOut rs ++
      (ofRecords c l rs).table.gone ((ofRecords c l rs).step r).table := by
  rw [takenOutAppend, takenOut, takenOut, List.append_nil]
  rfl

theorem invalidJudged (a : Accounts l rs (ofRecords c l rs)) :
    judge (ofRecords c l rs).source .invalid = .inDoubt ↔
      (l.oldest = .invalid ∧ l.statusOf .invalid = .inProgress) ∧ lastOutcome? .invalid rs = none := by
  have running : (ofRecords c l rs).source.statusOf .invalid = .inProgress ↔
      l.statusOf .invalid = .inProgress ∧ lastOutcome? .invalid rs = none := by
    rw [a.status]
    cases told : lastOutcome? .invalid rs with
    | none => simp
    | some s => simpa using Log.lastOutcomeEnded told
  have oldest : StatusSource.oldest (ofRecords c l rs).source = l.oldest := a.oldest
  rw [judgeInDoubt, oldest, Xid.invalidRecent, and_assoc]
  exact and_congr_right fun _ => running

theorem overcountedSnoc (l : Ledger) (rs : List Record) (r : Record) : overcounted l (rs ++ [r]) = overcounted l rs +
    if ((l.oldest = .invalid ∧ l.statusOf .invalid = .inProgress) ∧ lastOutcome? .invalid rs = none) ∧
        r.outcome? .invalid = none then (filesOf .invalid r.listed).length else 0 := by
  unfold overcounted
  by_cases lets : l.oldest = .invalid ∧ l.statusOf .invalid = .inProgress
  · rw [if_pos lets, if_pos lets]
    have all : lastOutcome? .invalid rs = none ↔ ∀ d ∈ rs, (d.outcome? .invalid).isNone = true := by
      rw [Log.lastOutcomeEqNone]
      simp only [← Record.outcomeEqNone, Option.isNone_iff_eq_none]
    by_cases silent : lastOutcome? .invalid rs = none
    · have whole := List.takeWhile_eq_self_iff.mpr (all.mp silent)
      rw [List.takeWhile_append_of_pos (all.mp silent), whole]
      cases told : r.outcome? .invalid with
      | none => simp [lets, silent, told, listed, filesOfAppend]
      | some s => simp [told]
    · have cut : (rs.takeWhile fun d => (d.outcome? .invalid).isNone).length ≠ rs.length := fun full =>
        silent (all.mpr (List.takeWhile_eq_self_iff.mp ((List.takeWhile_prefix _).eq_of_length full)))
      rw [List.takeWhile_append, if_neg cut]
      simp [silent]
  · simp [lets]

theorem stepAdmits (on : c.enabled = true) (so : Admits c l rs) (r : Record) : Admits c l (rs ++ [r]) := by
  have a := accounts on l rs
  have more := overcountedSnoc l rs r
  cases told : r.told? with
  | none =>
    have untold : r.outcome? .invalid = none := by simp [Record.outcome?, told]
    obtain ⟨-, table, admitted, -⟩ := stepUntold a.enabled told
    rw [RedoTable.entriesEnrolled] at table
    rw [RedoTable.entriesAdmitted, RedoTable.inDoubtAdmissible, Nat.zero_add] at admitted
    have valid : ∀ e ∈ r.listed.filter (RedoTable.admissible (ofRecords c l rs).source), e.xid.isValid = true :=
      fun e member => (RedoTable.admissibleIff.mp (List.mem_filter.mp member).2).1
    have grown := RedoTable.filesInEnrollAll a.enabled valid
    have kept : (ofRecords c l rs).table.gone ((ofRecords c l rs).step r).table = [] := by
      rw [table]
      exact RedoTable.goneNothing fun _ => RedoTable.enrollAllKeeps _
    rw [← table] at grown
    simp only [invalidJudged a] at admitted
    rw [untold] at more
    simp only [and_true] at more
    have counted := so.counted
    have held := so.held
    constructor
    · rw [ofRecordsSnoc, putInSnoc, more]
      omega
    · rw [ofRecordsSnoc, putInSnoc, takenOutSnoc, kept, List.append_nil]
      omega
  | some ending =>
    obtain ⟨d, s⟩ := ending
    obtain ⟨none, -, table, admitted, -⟩ := stepTold (ofRecords c l rs) told
    have pruned := RedoTable.filesInPrune a.enabled d
    rw [← table] at pruned
    simp only [none, filesOfNil, List.length_nil, ite_self, Nat.add_zero] at more
    have counted := so.counted
    have held := so.held
    constructor
    · rw [ofRecordsSnoc, putInSnoc, more]
      omega
    · rw [ofRecordsSnoc, putInSnoc, takenOutSnoc, filesInAppend]
      omega

theorem admits (on : c.enabled = true) (l : Ledger) (rs : List Record) : Admits c l rs := by
  induction rs using List.reverseRecOn with
  | nil =>
    refine ⟨?_, rfl⟩
    unfold overcounted
    split <;> rfl
  | append_singleton rs r ih => exact stepAdmits on ih r

theorem Accounts.filesInEligible {p : Replay Ledger} (a : Accounts l rs p) :
    ((p.table.eligible p.source).map fun x => (p.table.files x).length).sum = filesIn p.table.rows := by
  have all : p.table.rows.filter (RedoTable.inDoubtRow p.source) = p.table.rows :=
    List.filter_eq_self.mpr fun e member => decide_eq_true (a.rowsInDoubt e member)
  rw [RedoTable.eligible, all, List.map_map, filesIn]
  congr 1
  refine List.map_congr_left ?_
  rintro ⟨x, fs⟩ member
  obtain ⟨rfl, -⟩ := (RedoTable.memRows a.stocked).mp member
  rfl

end Admission
end Replay

namespace Site

variable {σ : Type} [FileDropper σ]

theorem admissionsAddUp {c : Config} (on : c.enabled = true) (log : OpenLog) (l : Ledger) (files : σ)
    (rs : List Record) :
    ∃ report l' files',
      recoverFrom c (rs.map .ok) ⟨log, l, files⟩ = .ok report ⟨log, l', files'⟩ ∧
      (∀ earlier scan, OpenLog.readThrough earlier = .ok scan log → scan.failure = none → scan.records = rs →
        recover c ⟨earlier, l, files⟩ = .ok report ⟨log, l', files'⟩) ∧
      report.replay.entriesAdmitted = (Replay.ofRecords c l []).putIn rs + Replay.overcounted l rs ∧
      (Replay.ofRecords c l []).putIn rs = report.finalize.filesDropped + report.finalize.duplicates +
        (report.finalize.failures.map DropFailure.files).sum + filesIn ((Replay.ofRecords c l []).takenOut rs) ∧
      report.replay.pruned = ((Replay.ofRecords c l []).takenOut rs).length ∧
      (l.oldest ≠ .invalid → Replay.overcounted l rs = 0) ∧
      ∀ before r after es, rs = before ++ r :: after → r.kind = .pendingDelete → Snapshot.decode r.payload = .ok es →
        ∃ counts t, (Replay.ofRecords c l before).table.replaySnapshot (Replay.ofRecords c l before).source r.payload =
            .ok (counts, t) ∧
          counts.admitted + counts.beforeHorizon + counts.ended = es.length := by
  let p := Replay.ofRecords c l rs
  have a : Replay.Accounts l rs p := Replay.accounts on l rs
  have so := Replay.admits on l rs
  obtain ⟨-, -, pruned⟩ := Replay.foldCounts (p := Replay.ofRecords c l []) on rs rfl
  obtain ⟨answer, report, files', ends⟩ := RedoTable.finalizeConcludes a.stocked (.inl a.enabled) p.source files
  have plain := recoverFromRead c log l files rs (rfl : p = _)
  rw [ends.plain] at plain
  refine ⟨_, p.source, files', plain, ?_, so.counted, ?_, pruned.trans (Nat.zero_add _), ?_, ?_⟩
  · intro earlier scan read clean same
    rw [recoverAsRead read clean, same]
    exact plain
  · have conserved := ends.conserved
    have held : filesIn p.table.rows + _ = _ := so.held
    rw [a.filesInEligible] at conserved
    dsimp only
    omega
  · intro recent
    rw [Replay.overcounted, if_neg fun lets => recent lets.1]
  · intro before r after es split kind body
    have enabled := (Replay.accounts on l before).enabled
    obtain ⟨total, -⟩ := Replay.entriesTallied (Replay.ofRecords c l before).source es
      ({}, (Replay.ofRecords c l before).table)
    exact ⟨_, _, RedoTable.snapshotEntries _ enabled body, total.trans (Nat.zero_add _)⟩

def invalidListed : List (Log.Kind × ByteArray) :=
  [(.pendingDelete, Snapshot.encode [⟨⟨⟨1663, 5, 100⟩, false⟩, .invalid⟩])]

def countsNothing (s : OpenLog) : Bool :=
  match recover {} ⟨s, ({ oldest := .invalid } : Ledger), ({} : DropJournal)⟩ with
  | .ok report _ => report.replay.entriesAdmitted = 1 ∧ report.replay.pruned = 0 ∧ report.finalize = {}
  | .error .. => false

/-- Before a horizon of zero, an entry of the invalid transaction is counted as admitted; no file is dropped, failed, a
duplicate, or taken out. -/
theorem invalidCountedNotHeld : ∃ s report site, openedWith invalidListed = some s ∧
    recover {} ⟨s, ({ oldest := .invalid } : Ledger), ({} : DropJournal)⟩ = .ok report site ∧
    report.replay.entriesAdmitted = 1 ∧ report.replay.pruned = 0 ∧ report.finalize.filesDropped = 0 ∧
    report.finalize.duplicates = 0 ∧ report.finalize.failures = [] := by
  have facts : (openedWith invalidListed).map countsNothing = some true := by decide +kernel
  obtain ⟨s, opened, counts⟩ := Option.map_eq_some_iff.mp facts
  unfold countsNothing at counts
  split at counts
  · next report site recovered =>
    obtain ⟨admitted, pruned, nothing⟩ := of_decide_eq_true counts
    exact ⟨s, report, site, opened, recovered, admitted, pruned, by rw [nothing], by rw [nothing], by rw [nothing]⟩
  · cases counts

def threeListed : List Record :=
  [⟨1, .pendingDelete, Snapshot.encode [⟨⟨⟨1663, 5, 100⟩, false⟩, ⟨7⟩⟩, ⟨⟨⟨1663, 5, 100⟩, true⟩, ⟨7⟩⟩,
      ⟨⟨⟨1663, 5, 200⟩, false⟩, ⟨9⟩⟩]⟩, ⟨2, .commit, Completion.encode ⟨⟨9⟩, []⟩⟩]

theorem threeAddUp : ∃ report l' files', ({} : Config).enabled = true ∧
    recoverFrom {} (threeListed.map .ok) ⟨⟨⟨.empty, []⟩, .fresh ⟨3, 1⟩, none⟩, ({} : Ledger), ({} : DropJournal)⟩ =
      .ok report ⟨⟨⟨.empty, []⟩, .fresh ⟨3, 1⟩, none⟩, l', files'⟩ ∧
    report.replay.entriesAdmitted = 3 ∧ report.replay.pruned = 1 ∧
    report.finalize.filesDropped + report.finalize.duplicates + (report.finalize.failures.map DropFailure.files).sum +
      filesIn ((Replay.ofRecords {} {} []).takenOut threeListed) = 3 := by
  obtain ⟨report, l', files', recovered, -, counted, put, pruned, none, -⟩ :=
    admissionsAddUp (c := {}) rfl ⟨⟨.empty, []⟩, .fresh ⟨3, 1⟩, none⟩ ({} : Ledger) ({} : DropJournal) threeListed
  have three : (Replay.ofRecords {} {} []).putIn threeListed = 3 := by decide +kernel
  have one : ((Replay.ofRecords {} {} []).takenOut threeListed).length = 1 := by decide +kernel
  rw [three] at counted put
  rw [none (by decide)] at counted
  exact ⟨report, l', files', rfl, recovered, counted, pruned.trans one, put.symm⟩

end Site
end OrphanFiles
