import OrphanFiles.Proofs.DropSet
import OrphanFiles.Proofs.Removal

/-!
The end of a recovery: what the rows of a redo table ask for is removed from a data directory, one transaction after the
other.  Once that was done, doing it again removes nothing, and is no worse for any transaction.
-/
namespace OrphanFiles

structure FinalizeReport.NoWorse (earlier later : FinalizeReport) : Prop where
  dropped : ∀ x ∈ earlier.dropped, x ∈ later.dropped
  failures : ∀ f ∈ later.failures, ∃ g ∈ earlier.failures, g.xid = f.xid

def FinalizeReport.tried (report : FinalizeReport) (x : Xid) (fs : List RelFile) :
    Except PathFault Unit → FinalizeReport
  | .ok () => { report with
      duplicates := report.duplicates + (fs.length - (RedoTable.distinctNodes fs).length)
      filesDropped := report.filesDropped + (RedoTable.distinctNodes fs).length
      dropped := report.dropped ++ [x] }
  | .error fault => { report with
      duplicates := report.duplicates + (fs.length - (RedoTable.distinctNodes fs).length)
      failures := report.failures ++ [⟨x, (RedoTable.distinctNodes fs).length, .path fault⟩] }

theorem FinalizeReport.NoWorse.tried {earlier later : FinalizeReport} (noWorse : earlier.NoWorse later) (x : Xid)
    (fs : List RelFile) {outcome outcome' : Except PathFault Unit} (kept : outcome = .ok () → outcome' = .ok ()) :
    (earlier.tried x fs outcome).NoWorse (later.tried x fs outcome') := by
  cases outcome with
  | ok _ =>
    rw [kept rfl]
    refine ⟨fun y member => ?_, noWorse.failures⟩
    rcases List.mem_append.mp member with old | new
    · exact List.mem_append_left _ (noWorse.dropped y old)
    · exact List.mem_append_right _ new
  | error fault =>
    have before (f : DropFailure) (member : f ∈ later.failures) :
        ∃ g ∈ (earlier.tried x fs (.error fault)).failures, g.xid = f.xid := by
      obtain ⟨g, old, same⟩ := noWorse.failures f member
      exact ⟨g, List.mem_append_left _ old, same⟩
    cases outcome' with
    | ok _ => exact ⟨fun y member => List.mem_append_left _ (noWorse.dropped y member), before⟩
    | error fault' =>
      refine ⟨noWorse.dropped, fun f member => ?_⟩
      rcases List.mem_append.mp member with old | new
      · exact before f old
      · obtain rfl := List.mem_singleton.mp new
        exact ⟨_, List.mem_append_right _ List.mem_cons_self, rfl⟩

namespace DataDir

open Volume RedoTable

def Purges (v : Volume) (root : String) (D : RelFile → Prop)
    (run : FinalizeReport → StateM DataDir FinalizeReport) : Prop :=
  ∀ S w, Trim v root S w → Initial v root S → ∀ report, ∃ report' w', run report ⟨root, w⟩ = (report', ⟨root, w'⟩) ∧
    Trim v root (Grown v root S D) w' ∧
    ∀ T u, Trim v root T u → Initial v root T → (∀ f n, Grown v root S D f n → T f n) →
      ∀ later, report.NoWorse later →
        ∃ later', run later ⟨root, u⟩ = (later', ⟨root, u⟩) ∧ report'.NoWorse later'

section Purges

variable {τ : Type} [StatusSource τ] {source : τ} {v : Volume} {root : String} {D E : RelFile → Prop}
  {one rest : FinalizeReport → StateM DataDir FinalizeReport} {x : Xid} {fs : List RelFile}

theorem Purges.seq (first : Purges v root D one) (second : Purges v root E rest) :
    Purges v root (fun f => D f ∨ E f) fun report => one report >>= rest := by
  intro S w trim initial report
  obtain ⟨report₁, w₁, ran, next, again⟩ := first S w trim initial report
  obtain ⟨report₂, w₂, ran', last, again'⟩ := second _ w₁ next (initialGrown initial) report₁
  rw [grownTwice] at last again'
  refine ⟨report₂, w₂, ?_, last, fun T u later initial' more report' noWorse => ?_⟩
  · simp only [bind, StateT.bind, ran, ran']
  have before (f : RelFile) (n : Nat) (gone : Grown v root S D f n) : T f n :=
    more f n (gone.imp_right fun ⟨named, goes⟩ => ⟨.inl named, goes⟩)
  obtain ⟨later₁, ran, noWorse₁⟩ := again T u later initial' before report' noWorse
  obtain ⟨later₂, ran', noWorse₂⟩ := again' T u later initial' more later₁ noWorse₁
  refine ⟨later₂, ?_, noWorse₂⟩
  simp only [bind, StateT.bind, ran, ran']

theorem purgesNothing (idle : ∀ report, ∃ report', (∀ d, one report d = (report', d)) ∧
    report'.dropped = report.dropped ∧ report'.failures = report.failures) : Purges v root (fun _ => False) one := by
  intro S w trim initial report
  obtain ⟨report', ran, dropped, failures⟩ := idle report
  refine ⟨report', w, ran _, trim.congr fun f n _ => by simp [Grown], fun T u later initial' more report₁ noWorse => ?_⟩
  obtain ⟨report₂, ran', dropped', failures'⟩ := idle report₁
  refine ⟨report₂, ran' _, ?_, ?_⟩
  · rw [dropped, dropped']
    exact noWorse.dropped
  · rw [failures, failures']
    exact noWorse.failures

theorem finalizeOneTried (inDoubt : judge source x = .inDoubt) (some : (distinctNodes fs).isEmpty = false)
    (report : FinalizeReport) (root : String) (v : Volume) : finalizeOne source report x fs (DataDir.mk root v) =
      (report.tried x fs (removeAll root (distinctNodes fs) v).1, ⟨root, (removeAll root (distinctNodes fs) v).2⟩) := by
  unfold finalizeOne
  rw [inDoubt]
  dsimp only
  rw [if_neg (by rw [some]; exact Bool.false_ne_true)]
  simp only [bind, StateT.bind, FileDropper.drop, drop]
  cases (removeAll root (distinctNodes fs) v).1 <;> rfl

theorem onePurges (source : τ) (x : Xid) (fs : List RelFile) :
    Purges v root (fun f => judge source x = .inDoubt ∧ f ∈ distinctNodes fs) (finalizeOne source · x fs) := by
  by_cases tries : judge source x = .inDoubt ∧ (distinctNodes fs).isEmpty = false
  · obtain ⟨inDoubt, some⟩ := tries
    simp only [inDoubt, true_and]
    intro S w trim initial report
    obtain ⟨answer, w', removed, next, -⟩ := trim.all initial (distinctNodes fs)
    have tried := finalizeOneTried inDoubt some report root w
    rw [removed] at tried
    refine ⟨_, w', tried, next, fun T u later initial' more report' noWorse => ?_⟩
    obtain ⟨same, kept⟩ := trim.again initial later initial' more
    have tried' := finalizeOneTried inDoubt some report' root u
    rw [same] at tried'
    rw [removed] at kept
    exact ⟨_, tried', noWorse.tried x fs kept⟩
  · have none : (fun f => judge source x = .inDoubt ∧ f ∈ distinctNodes fs) = fun _ => False := by
      funext f
      apply propext
      refine ⟨fun ⟨inDoubt, member⟩ => tries ⟨inDoubt, ?_⟩, False.elim⟩
      exact List.isEmpty_eq_false_iff_exists_mem.mpr ⟨f, member⟩
    rw [none]
    refine purgesNothing fun report => ?_
    unfold finalizeOne
    cases verdict : judge source x with
    | beforeHorizon => exact ⟨_, fun d => rfl, rfl, rfl⟩
    | ended status => exact ⟨_, fun d => rfl, rfl, rfl⟩
    | inDoubt =>
      have none : (distinctNodes fs).isEmpty = true := by
        rw [← Bool.not_eq_false]
        exact fun some => tries ⟨verdict, some⟩
      dsimp only
      rw [if_pos none]
      exact ⟨report, fun d => rfl, rfl, rfl⟩

theorem rowsPurge (source : τ) (rows : List (Xid × List RelFile)) :
    Purges v root (fun f => ∃ e ∈ rows, judge source e.1 = .inDoubt ∧ f ∈ distinctNodes e.2)
      (finalizeAll source rows) := by
  induction rows with
  | nil =>
    simp only [List.not_mem_nil, false_and, exists_false]
    exact purgesNothing fun report => ⟨report, fun d => rfl, rfl, rfl⟩
  | cons e rows ih =>
    simp only [List.mem_cons, exists_eq_or_imp]
    exact (onePurges source e.1 e.2).seq ih

end Purges

structure Purged (v : Volume) (root : String) (D : RelFile → Prop) (w : Volume) : Prop where
  gone : ∀ f n, D f → InRun v root f n → w.openEntry (unitPath root f n) = .error .notFound
  still : ∀ text place id, v.resolve text = .ok place → v.lookup place = some (.file id) →
    (∀ f n, D f → InRun v root f n → v.resolve (unitPath root f n) ≠ .ok place) → w.openEntry text = .ok (.file id)
  others : ∀ place, (∀ f n, D f → InRun v root f n → v.resolve (unitPath root f n) ≠ .ok place) →
    w.lookup place = v.lookup place

section Purged

variable {v w u : Volume} {root : String} {D : RelFile → Prop} {f : RelFile} {n : Nat}

theorem presentNames (same : w.names = v.names) : Present w root f n ↔ Present v root f n := by
  have opened (u : Volume) : Present u root f n ↔ ∃ id, u.openEntry (unitPath root f n) = .ok (.file id) := by
    simp only [openSome]
    exact exists_comm
  rw [opened, opened]
  simp [(clearedNone same).opens]

theorem purgedOf (same : w.names = v.names) (trim : Trim w root (fun f n => D f ∧ Goes w root f n) u)
    (regular : ∀ f, D f → Regular v root f) : Purged v root D u := by
  have untouched := clearedNone same
  have cleared := untouched.trans trim.cleared
  have present {f : RelFile} {n : Nat} : Present w root f n ↔ Present v root f n := presentNames same
  have other {place : Place} (apart : ∀ f n, D f → InRun v root f n → v.resolve (unitPath root f n) ≠ .ok place) :
      ¬ (False ∨ Taken w root (fun f n => D f ∧ Goes w root f n) place) := by
    rintro (none | ⟨f, n, ⟨named, goes⟩, resolved, id, here⟩)
    · exact none
    · exact apart f n named (fun m one upto => present.mp (goes.run m one upto)) (untouched.resolveBack resolved here)
  refine ⟨fun f n named run => ?_, fun text place id resolved here apart => ?_, fun place apart => ?_⟩
  · have first := (regular f named).first
    have there : Absent v root f n ∨ Present v root f n := by
      cases n with
      | zero => exact first
      | succ n => exact .inr (run (n + 1) (by omega) (Nat.le_refl _))
    rcases there with absent | there
    · exact cleared.absent absent
    · have passable : Passable w root f :=
        first.symm.imp present.mpr fun absent => removeMissing (untouched.absent absent)
      have goes : Goes w root f n := ⟨passable, fun m one upto => present.mpr (run m one upto), present.mpr there⟩
      obtain ⟨place, id, resolved, here⟩ := goes.present
      exact trim.cleared.unfound resolved ⟨f, n, ⟨named, goes⟩, resolved, id, here⟩
  · obtain ⟨resolved, here⟩ := cleared.found resolved here (other apart)
    exact fileFound resolved here
  · exact cleared.kept place (other apart)

end Purged

end DataDir

end OrphanFiles
