import Mathlib.Algebra.GroupWithZero.Nat
import OrphanFiles.Proofs.TableHistory
import OrphanFiles.Proofs.Untracked

/-!
The end of a recovery, for any table, outcomes and dropper.  The report is a sum with one term for each transaction of
the table, and a term depends on its transaction alone: on its files, its outcome, and the answer of the one call that
is made for it.
-/
namespace OrphanFiles

structure Heard (σ : Type) where
  files : σ
  calls : List (List RelFile × Bool × Except Error Unit) := []

instance {σ : Type} [FileDropper σ] : FileDropper (Heard σ) where
  drop fs redo h :=
    let (answer, files) := FileDropper.drop fs redo h.files
    (answer, ⟨files, h.calls ++ [(fs, redo, answer)]⟩)

namespace FinalizeReport

def plus (r s : FinalizeReport) : FinalizeReport where
  dropped := r.dropped ++ s.dropped
  filesDropped := r.filesDropped + s.filesDropped
  beforeHorizon := r.beforeHorizon ++ s.beforeHorizon
  ended := r.ended ++ s.ended
  failures := r.failures ++ s.failures
  duplicates := r.duplicates + s.duplicates

theorem plusAssoc (r s u : FinalizeReport) : (r.plus s).plus u = r.plus (s.plus u) := by
  simp [plus, Nat.add_assoc]

theorem plusNothing (r : FinalizeReport) : r.plus {} = r := by
  simp [plus]

theorem nothingPlus (r : FinalizeReport) : plus {} r = r := by
  simp [plus]

def accounted (r : FinalizeReport) : List Xid :=
  r.dropped ++ r.failures.map DropFailure.xid ++ r.beforeHorizon ++ r.ended.map Prod.fst

theorem plusAccounted (r s : FinalizeReport) : (r.plus s).accounted.Perm (r.accounted ++ s.accounted) := by
  rw [List.perm_iff_count]
  intro x
  simp only [accounted, plus, List.map_append, List.count_append]
  omega

end FinalizeReport

namespace RedoTable

section Terms

variable {σ τ : Type} [StatusSource τ] {source : τ} {answer : Xid → Except Error Unit}

def term (source : τ) (answer : Except Error Unit) (e : Xid × List RelFile) : FinalizeReport :=
  match judge source e.1 with
  | .beforeHorizon => { beforeHorizon := [e.1] }
  | .ended status => { ended := [(e.1, status)] }
  | .inDoubt =>
    let distinct := distinctNodes e.2
    let duplicates := e.2.length - distinct.length
    match answer with
    | .ok () => { dropped := [e.1], filesDropped := distinct.length, duplicates }
    | .error cause => { failures := [⟨e.1, distinct.length, cause⟩], duplicates }

def asked (source : τ) (answer : Except Error Unit) (e : Xid × List RelFile) :
    List (List RelFile × Bool × Except Error Unit) :=
  if judge source e.1 = .inDoubt then [(distinctNodes e.2, true, answer)] else []

def total (source : τ) (answer : Xid → Except Error Unit) (rows : List (Xid × List RelFile)) : FinalizeReport :=
  rows.foldr (fun e rest => (term source (answer e.1) e).plus rest) {}

theorem totalCongr {answer' : Xid → Except Error Unit} {rows : List (Xid × List RelFile)}
    (same : ∀ e ∈ rows, answer e.1 = answer' e.1) : total source answer rows = total source answer' rows := by
  induction rows with
  | nil => rfl
  | cons e rows ih =>
    have rest := ih fun d member => same d (List.mem_cons_of_mem _ member)
    simp only [total, List.foldr_cons] at rest ⊢
    rw [rest, same e List.mem_cons_self]

variable [FileDropper σ]

theorem finalizeOneAdds (source : τ) (e : Xid × List RelFile) (some : e.2 ≠ []) (files : σ) :
    ∃ a files', ∀ report calls,
      finalizeOne source report e.1 e.2 files = (report.plus (term source a e), files') ∧
      finalizeOne source report e.1 e.2 (Heard.mk files calls) =
        (report.plus (term source a e), ⟨files', calls ++ asked source a e⟩) := by
  unfold finalizeOne term asked
  cases verdict : judge source e.1 with
  | beforeHorizon => exact ⟨.ok (), files, fun report calls => by simp [pureState, FinalizeReport.plus]⟩
  | ended status => exact ⟨.ok (), files, fun report calls => by simp [pureState, FinalizeReport.plus]⟩
  | inDoubt =>
    have asks : (distinctNodes e.2).isEmpty = false := by
      rw [distinctNodesEmpty]
      simpa using some
    cases answer : FileDropper.drop (distinctNodes e.2) true files with
    | mk a files' =>
      refine ⟨a, files', fun report calls => ?_⟩
      cases a <;> simp [asks, bind, StateT.bind, pureState, FileDropper.drop, answer, FinalizeReport.plus]

theorem finalizeAllAdds (source : τ) (rows : List (Xid × List RelFile)) (distinct : (rows.map Prod.fst).Nodup)
    (some : ∀ e ∈ rows, e.2 ≠ []) (files : σ) : ∃ answer : Xid → Except Error Unit, ∃ files', ∀ report calls,
      finalizeAll source rows report files = (report.plus (total source answer rows), files') ∧
      finalizeAll source rows report (Heard.mk files calls) = (report.plus (total source answer rows),
        ⟨files', calls ++ rows.flatMap fun e => asked source (answer e.1) e⟩) := by
  induction rows generalizing files with
  | nil =>
    exact ⟨fun _ => .ok (), files, fun report calls => by
      simp [finalizeAll, pureState, total, FinalizeReport.plusNothing]⟩
  | cons e rows ih =>
    obtain ⟨fresh, distinct⟩ := List.nodup_cons.mp distinct
    obtain ⟨a, files₁, one⟩ := finalizeOneAdds source e (some e List.mem_cons_self) files
    obtain ⟨answer, files₂, rest⟩ := ih distinct (fun d member => some d (List.mem_cons_of_mem _ member)) files₁
    -- The others are answered as they are without this one, which is not among them.
    let answer' : Xid → Except Error Unit := fun x => if x = e.1 then a else answer x
    have here : answer' e.1 = a := if_pos rfl
    have others (d : Xid × List RelFile) (member : d ∈ rows) : answer d.1 = answer' d.1 :=
      (if_neg fun same : d.1 = e.1 => fresh (same ▸ List.mem_map_of_mem member)).symm
    have calls' : rows.flatMap (fun d => asked source (answer d.1) d) =
        rows.flatMap fun d => asked source (answer' d.1) d :=
      List.flatMap_congr fun d member => by rw [others d member]
    have sum (report : FinalizeReport) : (report.plus (term source a e)).plus (total source answer rows) =
        report.plus (total source answer' (e :: rows)) := by
      rw [FinalizeReport.plusAssoc, totalCongr others, ← here]
      rfl
    refine ⟨answer', files₂, fun report calls => ⟨?_, ?_⟩⟩
    · rw [finalizeAllCons, (one report calls).1, (rest _ calls).1, sum]
    · rw [finalizeAllCons, (one report calls).2, (rest _ _).2, sum, calls', List.flatMap_cons, here,
        List.append_assoc]

end Terms

section Report

variable {τ : Type} [StatusSource τ] {source : τ} {answer : Xid → Except Error Unit}

def inDoubtRow (source : τ) (e : Xid × List RelFile) : Bool := judge source e.1 = .inDoubt

def droppedRow (source : τ) (answer : Xid → Except Error Unit) (e : Xid × List RelFile) : Bool :=
  inDoubtRow source e && (answer e.1).isOk

def failureOf (source : τ) (answer : Xid → Except Error Unit) (e : Xid × List RelFile) : Option DropFailure :=
  match judge source e.1, answer e.1 with
  | .inDoubt, .error cause => some ⟨e.1, (distinctNodes e.2).length, cause⟩
  | _, _ => none

def endOf (source : τ) (e : Xid × List RelFile) : Option (Xid × TxStatus) :=
  match judge source e.1 with
  | .ended status => some (e.1, status)
  | _ => none

structure Sums (source : τ) (answer : Xid → Except Error Unit) (rows : List (Xid × List RelFile))
    (report : FinalizeReport) : Prop where
  dropped : report.dropped = (rows.filter (droppedRow source answer)).map Prod.fst
  filesDropped : report.filesDropped =
    ((rows.filter (droppedRow source answer)).map fun e => (distinctNodes e.2).length).sum
  failures : report.failures = rows.filterMap (failureOf source answer)
  beforeHorizon : report.beforeHorizon = (rows.filter fun e => judge source e.1 = .beforeHorizon).map Prod.fst
  ended : report.ended = rows.filterMap (endOf source)
  duplicates : report.duplicates =
    ((rows.filter (inDoubtRow source)).map fun e => e.2.length - (distinctNodes e.2).length).sum

theorem totalCons (source : τ) (answer : Xid → Except Error Unit) (e : Xid × List RelFile)
    (rows : List (Xid × List RelFile)) :
    total source answer (e :: rows) = (term source (answer e.1) e).plus (total source answer rows) := rfl

theorem totalSums (source : τ) (answer : Xid → Except Error Unit) (rows : List (Xid × List RelFile)) :
    Sums source answer rows (total source answer rows) := by
  induction rows with
  | nil => exact ⟨rfl, rfl, rfl, rfl, rfl, rfl⟩
  | cons e rows ih =>
    obtain ⟨dropped, filesDropped, failures, beforeHorizon, ended, duplicates⟩ := ih
    rw [totalCons]
    unfold term
    cases verdict : judge source e.1 with
    | beforeHorizon | ended status =>
      have passed : droppedRow source answer e = false := by simp [droppedRow, inDoubtRow, verdict]
      have unfailed : failureOf source answer e = none := by simp [failureOf, verdict]
      have decided : inDoubtRow source e = false := by simp [inDoubtRow, verdict]
      constructor <;> simp [FinalizeReport.plus, passed, unfailed, decided, endOf, verdict, dropped, filesDropped,
        failures, beforeHorizon, ended, duplicates]
    | inDoubt =>
      have counts : inDoubtRow source e = true := by simp [inDoubtRow, verdict]
      cases given : answer e.1 with
      | ok _ =>
        have taken : droppedRow source answer e = true := by
          simp [droppedRow, inDoubtRow, verdict, given, Except.isOk, Except.toBool]
        have unfailed : failureOf source answer e = none := by simp [failureOf, verdict, given]
        constructor <;> simp [FinalizeReport.plus, taken, unfailed, counts, endOf, verdict, dropped, filesDropped,
          failures, beforeHorizon, ended, duplicates]
      | error cause =>
        have passed : droppedRow source answer e = false := by simp [droppedRow, given, Except.isOk, Except.toBool]
        have failed : failureOf source answer e = some ⟨e.1, (distinctNodes e.2).length, cause⟩ := by
          simp [failureOf, verdict, given]
        constructor <;> simp [FinalizeReport.plus, passed, failed, counts, endOf, verdict, dropped, filesDropped,
          failures, beforeHorizon, ended, duplicates]

theorem distinctNodesShorter (fs : List RelFile) : (distinctNodes fs).length ≤ fs.length := by
  induction fs with
  | nil => exact Nat.le_refl 0
  | cons f fs ih =>
    have fewer := List.length_filter_le (·.node != f.node) (distinctNodes fs)
    simp only [distinctNodes, List.length_cons]
    omega

theorem totalAccounts (source : τ) (answer : Xid → Except Error Unit) (rows : List (Xid × List RelFile)) :
    (total source answer rows).accounted.Perm (rows.map Prod.fst) := by
  induction rows with
  | nil => exact .nil
  | cons e rows ih =>
    have alone : (term source (answer e.1) e).accounted = [e.1] := by
      unfold term FinalizeReport.accounted
      cases judge source e.1 with
      | beforeHorizon | ended status => rfl
      | inDoubt => cases answer e.1 <;> rfl
    rw [totalCons]
    refine (FinalizeReport.plusAccounted _ _).trans ?_
    rw [alone]
    exact ih.cons e.1

theorem totalConserves (source : τ) (answer : Xid → Except Error Unit) (rows : List (Xid × List RelFile)) :
    (total source answer rows).filesDropped + ((total source answer rows).failures.map DropFailure.files).sum +
      (total source answer rows).duplicates =
        ((rows.filter (inDoubtRow source)).map fun e => e.2.length).sum := by
  induction rows with
  | nil => rfl
  | cons e rows ih =>
    have shorter := distinctNodesShorter e.2
    rw [totalCons]
    unfold term
    cases verdict : judge source e.1 with
    | beforeHorizon | ended status => simpa [FinalizeReport.plus, inDoubtRow, verdict] using ih
    | inDoubt =>
      have counts : inDoubtRow source e = true := by simp [inDoubtRow, verdict]
      rw [List.filter_cons_of_pos counts, List.map_cons, List.sum_cons, ← ih]
      cases answer e.1 with
      | ok _ =>
        simp only [FinalizeReport.plus, List.nil_append]
        omega
      | error cause =>
        simp only [FinalizeReport.plus, List.singleton_append, List.map_cons, List.sum_cons]
        omega

end Report

section Reached

variable {t t' : RedoTable}

theorem Leads.stocked (leads : Leads t t') (on : t.enabled = true) (stocked : t.Stocked) :
    t'.enabled = true ∧ t'.Stocked := by
  induction leads with
  | none => exact ⟨on, stocked⟩
  | enrolled e before ih => exact ⟨(enabledEnroll _ e).trans ih.1, enrollStocked ih.2 e⟩
  | @replayed _ _ _ _ _ source payload before done ih =>
    obtain ⟨on, stocked⟩ := ih
    cases body : Snapshot.decode payload with
    | error damage =>
      rw [snapshotRefused on body] at done
      cases done
    | ok es =>
      have result := entriesReplayed source es on stocked {}
      rw [snapshotEntries source on body, Except.ok.injEq] at done
      rw [done] at result
      exact ⟨result.enabled, result.stocked⟩
  | pruned c before ih => exact ⟨(enabledPrune _ c).trans ih.1, prunedStocked ih.2 c⟩
  | finalized source files before ih =>
    rw [finalizeRows ih.1]
    refine ⟨ih.1, ?_⟩
    intro m some
    cases some

theorem reachedStocked {c : Config} (leads : Leads (new c) t) : t.Stocked ∧ (t.enabled = true ∨ t.table = none) := by
  cases on : c.enabled with
  | true =>
    obtain ⟨enabled, stocked⟩ := leads.stocked on (newStocked c)
    exact ⟨stocked, .inl enabled⟩
  | false =>
    rw [leads.same (newInert on)]
    exact ⟨newStocked c, .inr rfl⟩

theorem finalizeReached {σ τ : Type} [StatusSource τ] [FileDropper σ] (reached : t.enabled = true ∨ t.table = none)
    (source : τ) (files : σ) : t.finalize source files =
      (((finalizeAll source t.rows {} files).1, { t with table := none }), (finalizeAll source t.rows {} files).2) := by
  rcases reached with on | none
  · exact finalizeRows on source files
  · obtain ⟨enabled, table⟩ := t
    subst none
    rfl

end Reached

structure Eligible {τ : Type} [StatusSource τ] (t : RedoTable) (source : τ) (x : Xid) : Prop where
  tabled : t.files x ≠ []
  recent : x.precedes (StatusSource.oldest source) = false
  running : StatusSource.statusOf source x = .inProgress

def Ascending (xs : List Xid) : Prop := xs.Pairwise fun x y => x.number < y.number

def firsts (t : RedoTable) (x : Xid) : List RelFile := (t.files x).eraseDupsBy (·.node == ·.node)

/- What the report of the end says, where the dropper answered `answer x` for a transaction. -/
structure Settles {τ : Type} [StatusSource τ] (t : RedoTable) (source : τ) (answer : Xid → Except Error Unit)
    (report : FinalizeReport) : Prop where
  dropped : ∀ x, x ∈ report.dropped ↔ t.Eligible source x ∧ answer x = .ok ()
  failures : ∀ f, f ∈ report.failures ↔
    t.Eligible source f.xid ∧ answer f.xid = .error f.cause ∧ f.files = (t.firsts f.xid).length
  beforeHorizon : ∀ x, x ∈ report.beforeHorizon ↔ t.files x ≠ [] ∧ x.precedes (StatusSource.oldest source) = true
  ended : ∀ x status, (x, status) ∈ report.ended ↔ t.files x ≠ [] ∧
    x.precedes (StatusSource.oldest source) = false ∧ StatusSource.statusOf source x = status ∧ status ≠ .inProgress
  ascending : Ascending report.dropped ∧ Ascending (report.failures.map DropFailure.xid) ∧
    Ascending report.beforeHorizon ∧ Ascending (report.ended.map Prod.fst)
  disjoint : report.accounted.Nodup
  whole : ∀ x, x ∈ report.accounted ↔ t.files x ≠ []
  filesDropped : report.filesDropped = (report.dropped.map fun x => (t.firsts x).length).sum

section Settled

variable {τ : Type} [StatusSource τ] {source : τ} {answer : Xid → Except Error Unit} {t : RedoTable}
  {report : FinalizeReport} {x : Xid}

theorem rowOf (stocked : t.Stocked) {P : Xid × List RelFile → Prop} :
    (∃ e ∈ t.rows, e.1 = x ∧ P e) ↔ t.files x ≠ [] ∧ P (x, t.files x) := by
  constructor
  · rintro ⟨⟨y, fs⟩, member, rfl, holds⟩
    obtain ⟨rfl, some⟩ := (memRows stocked).mp member
    exact ⟨some, holds⟩
  · rintro ⟨some, holds⟩
    exact ⟨_, (memRows stocked).mpr ⟨rfl, some⟩, rfl, holds⟩

theorem memFilterKeys (stocked : t.Stocked) {p : Xid × List RelFile → Bool} :
    x ∈ (t.rows.filter p).map Prod.fst ↔ t.files x ≠ [] ∧ p (x, t.files x) = true := by
  rw [← rowOf (P := fun e => p e = true) stocked]
  simp only [List.mem_map, List.mem_filter]
  constructor
  · rintro ⟨e, ⟨member, holds⟩, same⟩
    exact ⟨e, member, same, holds⟩
  · rintro ⟨e, member, same, holds⟩
    exact ⟨e, ⟨member, holds⟩, same⟩

theorem ascendingFilter (t : RedoTable) (p : Xid × List RelFile → Bool) :
    Ascending ((t.rows.filter p).map Prod.fst) :=
  t.rowsAscending.sublist (List.filter_sublist.map _)

theorem ascendingFilterMap {α : Type} (t : RedoTable) {g : Xid × List RelFile → Option α} {key : α → Xid}
    (own : ∀ e a, g e = some a → key a = e.1) : Ascending ((t.rows.filterMap g).map key) := by
  have keys := List.pairwise_map.mp t.rowsAscending
  refine List.pairwise_map.mpr (keys.filterMap g fun d e before a first b second => ?_)
  rw [own d a first, own e b second]
  exact before

theorem eligibleIff : t.Eligible source x ↔ t.files x ≠ [] ∧ judge source x = .inDoubt := by
  rw [judgeInDoubt]
  exact ⟨fun ⟨tabled, recent, running⟩ => ⟨tabled, recent, running⟩,
    fun ⟨tabled, recent, running⟩ => ⟨tabled, recent, running⟩⟩

theorem failureOwn (e : Xid × List RelFile) (f : DropFailure) (failed : failureOf source answer e = some f) :
    f.xid = e.1 := by
  unfold failureOf at failed
  split at failed
  · cases failed
    rfl
  · cases failed

theorem endOwn (e : Xid × List RelFile) (d : Xid × TxStatus) (ended : endOf source e = some d) : d.1 = e.1 := by
  unfold endOf at ended
  split at ended
  · cases ended
    rfl
  · cases ended

theorem isOkIff {a : Except Error Unit} : a.isOk = true ↔ a = .ok () := by
  cases a <;> simp [Except.isOk, Except.toBool]

theorem firstsLength (t : RedoTable) (x : Xid) : (distinctNodes (t.files x)).length = (t.firsts x).length := by
  rw [distinctNodesEq, firsts]

theorem Sums.memDropped (sums : Sums source answer t.rows report) (stocked : t.Stocked) :
    x ∈ report.dropped ↔ t.Eligible source x ∧ answer x = .ok () := by
  rw [sums.dropped, memFilterKeys stocked, eligibleIff]
  simp [droppedRow, inDoubtRow, isOkIff, and_assoc]

theorem Sums.memFailures (sums : Sums source answer t.rows report) (stocked : t.Stocked) (f : DropFailure) :
    f ∈ report.failures ↔
      t.Eligible source f.xid ∧ answer f.xid = .error f.cause ∧ f.files = (t.firsts f.xid).length := by
  have found : f ∈ report.failures ↔ ∃ e ∈ t.rows, e.1 = f.xid ∧ failureOf source answer e = some f := by
    rw [sums.failures, List.mem_filterMap]
    exact exists_congr fun e => and_congr_right fun _ =>
      ⟨fun failed => ⟨(failureOwn e f failed).symm, failed⟩, fun own => own.2⟩
  rw [found, rowOf stocked, eligibleIff, ← firstsLength]
  obtain ⟨x, files, cause⟩ := f
  unfold failureOf
  dsimp only
  cases judge source x with
  | beforeHorizon | ended status => simp
  | inDoubt => cases answer x with
    | ok _ => simp
    | error cause' => simp only [Option.some.injEq, DropFailure.mk.injEq, Except.error.injEq, true_and, and_true]; tauto

theorem Sums.memBeforeHorizon (sums : Sums source answer t.rows report) (stocked : t.Stocked) :
    x ∈ report.beforeHorizon ↔ t.files x ≠ [] ∧ x.precedes (StatusSource.oldest source) = true := by
  rw [sums.beforeHorizon, memFilterKeys stocked, decide_eq_true_iff, judgeBeforeHorizon]

theorem Sums.memEnded (sums : Sums source answer t.rows report) (stocked : t.Stocked) (status : TxStatus) :
    (x, status) ∈ report.ended ↔ t.files x ≠ [] ∧ x.precedes (StatusSource.oldest source) = false ∧
      StatusSource.statusOf source x = status ∧ status ≠ .inProgress := by
  have found : (x, status) ∈ report.ended ↔ ∃ e ∈ t.rows, e.1 = x ∧ endOf source e = some (x, status) := by
    rw [sums.ended, List.mem_filterMap]
    exact exists_congr fun e => and_congr_right fun _ =>
      ⟨fun ended => ⟨(endOwn e _ ended).symm, ended⟩, fun own => own.2⟩
  rw [found, rowOf stocked, ← judgeEnded]
  unfold endOf
  cases judge source x <;> simp

theorem Sums.ascending (sums : Sums source answer t.rows report) :
    Ascending report.dropped ∧ Ascending (report.failures.map DropFailure.xid) ∧ Ascending report.beforeHorizon ∧
      Ascending (report.ended.map Prod.fst) := by
  rw [sums.dropped, sums.failures, sums.beforeHorizon, sums.ended]
  exact ⟨ascendingFilter t _, ascendingFilterMap t failureOwn, ascendingFilter t _, ascendingFilterMap t endOwn⟩

theorem sumsSettles (stocked : t.Stocked) (sums : Sums source answer t.rows report)
    (accounts : report.accounted.Perm (t.rows.map Prod.fst)) :
    t.Settles source answer report where
  dropped x := sums.memDropped stocked
  failures := sums.memFailures stocked
  beforeHorizon x := sums.memBeforeHorizon stocked
  ended x := sums.memEnded stocked
  ascending := sums.ascending
  disjoint := accounts.nodup_iff.mpr t.rowKeysNodup
  whole x := accounts.mem_iff.trans (memRowKeys stocked x)
  filesDropped := by
    rw [sums.filesDropped, sums.dropped, List.map_map]
    congr 1
    refine List.map_congr_left fun e member => ?_
    obtain ⟨x, fs⟩ := e
    obtain ⟨rfl, -⟩ := (memRows stocked).mp (List.mem_filter.mp member).1
    exact firstsLength t x

end Settled

section Conclusion

variable {σ τ : Type} [StatusSource τ] [FileDropper σ] {t : RedoTable}

def eligible (t : RedoTable) (source : τ) : List Xid := (t.rows.filter (inDoubtRow source)).map Prod.fst

theorem memEligible (stocked : t.Stocked) {source : τ} {x : Xid} :
    x ∈ t.eligible source ↔ t.Eligible source x := by
  rw [eligible, memFilterKeys stocked, eligibleIff, inDoubtRow, decide_eq_true_iff]

theorem askedEligible (stocked : t.Stocked) (source : τ) (answer : Xid → Except Error Unit) :
    t.rows.flatMap (fun e => asked source (answer e.1) e) =
      (t.eligible source).map fun x => (t.firsts x, true, answer x) := by
  have own (e : Xid × List RelFile) (member : e ∈ t.rows) : distinctNodes e.2 = t.firsts e.1 := by
    obtain ⟨x, fs⟩ := e
    obtain ⟨rfl, -⟩ := (memRows stocked).mp member
    exact distinctNodesEq _
  rw [eligible, List.map_map]
  generalize t.rows = rows at own ⊢
  induction rows with
  | nil => rfl
  | cons e rows ih =>
    rw [List.flatMap_cons, ih fun d member => own d (List.mem_cons_of_mem _ member), asked,
      own e List.mem_cons_self, List.filter_cons, inDoubtRow]
    by_cases verdict : judge source e.1 = .inDoubt <;> simp [verdict]

/- How a recovery ends: what is answered for each transaction, the report, and what is left of the files. -/
structure Concludes (t : RedoTable) (source : τ) (files : σ) (answer : Xid → Except Error Unit)
    (report : FinalizeReport) (files' : σ) : Prop where
  plain : t.finalize source files = ((report, { t with table := none }), files')
  calls : t.finalize source (Heard.mk files []) = ((report, { t with table := none }),
    ⟨files', (t.eligible source).map fun x => (t.firsts x, true, answer x)⟩)
  sums : Sums source answer t.rows report
  accounts : report.accounted.Perm (t.rows.map Prod.fst)
  conserved : report.filesDropped + (report.failures.map DropFailure.files).sum + report.duplicates =
    ((t.eligible source).map fun x => (t.files x).length).sum

theorem finalizeConcludes (stocked : t.Stocked) (reached : t.enabled = true ∨ t.table = none) (source : τ)
    (files : σ) :
    ∃ answer : Xid → Except Error Unit, ∃ report files', t.Concludes source files answer report files' := by
  have some (e : Xid × List RelFile) (member : e ∈ t.rows) : e.2 ≠ [] := ((memRows stocked).mp member).2
  obtain ⟨answer, files', adds⟩ := finalizeAllAdds source t.rows t.rowKeysNodup some files
  obtain ⟨plain, heard⟩ := adds {} []
  rw [FinalizeReport.nothingPlus] at plain heard
  refine ⟨answer, _, files', ?_, ?_, totalSums source answer t.rows,
    totalAccounts source answer t.rows, ?_⟩
  · rw [finalizeReached reached, plain]
  · rw [finalizeReached reached, heard, askedEligible stocked, List.nil_append]
  · rw [totalConserves, eligible, List.map_map]
    congr 1
    refine List.map_congr_left fun e member => ?_
    obtain ⟨x, fs⟩ := e
    obtain ⟨rfl, -⟩ := (memRows stocked).mp (List.mem_filter.mp member).1
    rfl

end Conclusion

theorem finalizePartitions {c : Config} {t : RedoTable} (leads : Leads (new c) t) {σ τ : Type} [StatusSource τ]
    [FileDropper σ] (source : τ) (files : σ) :
    (∀ m, t.table = some m → ∀ x, m.get? x ≠ some []) ∧
    ∃ xs : List Xid, ∃ t' : RedoTable, Ascending xs ∧ (∀ x, x ∈ xs ↔ t.Eligible source x) ∧ t'.isActive = false ∧
      (∀ {τ' σ' : Type} [StatusSource τ'] [FileDropper σ'] (later : τ') (rest : σ'),
        t'.finalize later rest = (({}, t'), rest)) ∧
      ∃ answer : Xid → Except Error Unit, ∃ report files', t.finalize source files = ((report, t'), files') ∧
        t.finalize source (Heard.mk files []) =
          ((report, t'), ⟨files', xs.map fun x => (t.firsts x, true, answer x)⟩) ∧
        t.Settles source answer report ∧
        report.filesDropped + (report.failures.map DropFailure.files).sum + report.duplicates =
          (xs.map fun x => (t.files x).length).sum ∧
        ∀ {σ' : Type} [FileDropper σ'] (others : σ'), ∃ answer' : Xid → Except Error Unit, ∃ report' others',
          t.finalize source (Heard.mk others []) =
            ((report', t'), ⟨others', xs.map fun x => (t.firsts x, true, answer' x)⟩) ∧
          report'.beforeHorizon = report.beforeHorizon ∧ report'.ended = report.ended ∧
          report'.duplicates = report.duplicates ∧
          ∀ x, answer' x = answer x → (x ∈ report'.dropped ↔ x ∈ report.dropped) ∧
            ∀ f : DropFailure, f.xid = x → (f ∈ report'.failures ↔ f ∈ report.failures) := by
  obtain ⟨stocked, reached⟩ := reachedStocked leads
  obtain ⟨answer, report, files', ends⟩ := finalizeConcludes stocked reached source files
  refine ⟨stocked, t.eligible source, { t with table := none }, ascendingFilter t _, fun x => memEligible stocked, rfl,
    fun later rest => rfl, answer, report, files', ends.plain, ends.calls, sumsSettles stocked ends.sums
    ends.accounts, ends.conserved, fun others => ?_⟩
  obtain ⟨answer', report', others', ends'⟩ := finalizeConcludes stocked reached source others
  refine ⟨answer', report', others', ends'.calls, ?_, ?_, ?_, fun x same => ⟨?_, ?_⟩⟩
  · rw [ends'.sums.beforeHorizon, ends.sums.beforeHorizon]
  · rw [ends'.sums.ended, ends.sums.ended]
  · rw [ends'.sums.duplicates, ends.sums.duplicates]
  · rw [ends'.sums.memDropped stocked, ends.sums.memDropped stocked, same]
  · rintro f rfl
    rw [ends'.sums.memFailures stocked, ends.sums.memFailures stocked, same]

def made (relation : UInt32) (temporary : Bool) (x : UInt32) : PendingFile := ⟨⟨⟨1663, 5, relation⟩, temporary⟩, ⟨x⟩⟩

def fourTabled : RedoTable :=
  ((((((new {}).enroll (made 100 false 12)).enroll (made 300 false 10)).enroll (made 300 true 10)).enroll
    (made 400 true 10)).enroll (made 500 false 11)).enroll (made 600 false 5)

theorem fourSettled : Leads (new {}) fourTabled ∧ ∃ report t' files',
    fourTabled.finalize ({ oldest := ⟨6⟩ : Ledger}.setStatus ⟨11⟩ .committed) ({ failing := [100] } : DropJournal) =
      ((report, t'), files') ∧
    report.dropped = [⟨10⟩] ∧ report.failures.map (fun f => (f.xid, f.files)) = [(⟨12⟩, 1)] ∧
    report.beforeHorizon = [⟨5⟩] ∧ report.ended = [(⟨11⟩, .committed)] ∧
    report.filesDropped + (report.failures.map DropFailure.files).sum + report.duplicates = 4 ∧
    t'.isActive = false := by
  have leads : Leads (new {}) fourTabled :=
    .enrolled _ (.enrolled _ (.enrolled _ (.enrolled _ (.enrolled _ (.enrolled _ .none)))))
  obtain ⟨-, xs, t', -, -, inactive, -, answer, report, files', plain, -, -, -, -⟩ :=
    finalizePartitions leads ({ oldest := ⟨6⟩ : Ledger}.setStatus ⟨11⟩ .committed) ({ failing := [100] } : DropJournal)
  refine ⟨leads, report, t', files', plain, ?_⟩
  cases plain
  decide

end RedoTable

end OrphanFiles
