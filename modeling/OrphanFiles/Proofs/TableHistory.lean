import Mathlib.Data.List.DropRight
import Mathlib.Data.List.Induction
import OrphanFiles.Proofs.DropSet

/-!
The redo table over its life.  What it holds can be told from what was done to it: for each transaction, the files that
were admitted since its tree was last forgotten, or all were, in their order.
-/
namespace OrphanFiles

namespace RedoTable

/- Something that is done to a redo table; outcomes can come from another source each time. -/
inductive Deed (τ σ : Type) where
  | enroll (e : PendingFile)
  | replay (source : τ) (payload : ByteArray)
  | prune (c : Completion)
  | finalize (source : τ) (files : σ)

inductive Answer where
  | enrolled
  | replayed (counts : AdmitCounts)
  | refused (damage : Damage)
  | pruned (count : Nat)
  | finalized (report : FinalizeReport)
  deriving DecidableEq

section Deeds

variable {σ τ : Type}

namespace Deed

def forgets (x : Xid) : Deed τ σ → Bool
  | .prune c => x ∈ c.tree
  | .finalize .. => true
  | .enroll _ | .replay .. => false

def isFinal : Deed τ σ → Bool
  | .finalize .. => true
  | _ => false

end Deed

def lately (x : Xid) (deeds : List (Deed τ σ)) : List (Deed τ σ) := deeds.rtakeWhile (!·.forgets x)
def sinceFinal (deeds : List (Deed τ σ)) : List (Deed τ σ) := deeds.rtakeWhile (!·.isFinal)

theorem latelySnoc (x : Xid) (deeds : List (Deed τ σ)) (deed : Deed τ σ) :
    lately x (deeds ++ [deed]) = if deed.forgets x = true then [] else lately x deeds ++ [deed] := by
  rw [lately, List.rtakeWhile_concat]
  cases deed.forgets x <;> rfl

theorem sinceFinalSnoc (deeds : List (Deed τ σ)) (deed : Deed τ σ) :
    sinceFinal (deeds ++ [deed]) = if deed.isFinal = true then [] else sinceFinal deeds ++ [deed] := by
  rw [sinceFinal, List.rtakeWhile_concat]
  cases deed.isFinal <;> rfl

variable [StatusSource τ] [FileDropper σ]

def act (t : RedoTable) : Deed τ σ → Answer × RedoTable
  | .enroll e => (.enrolled, t.enroll e)
  | .replay source payload => match t.replaySnapshot source payload with
    | .ok (counts, t) => (.replayed counts, t)
    | .error damage => (.refused damage, t)
  | .prune c =>
    let (count, t) := t.prune c
    (.pruned count, t)
  | .finalize source files =>
    let ((report, t), _) := t.finalize source files
    (.finalized report, t)

def run (t : RedoTable) (deeds : List (Deed τ σ)) : RedoTable := deeds.foldl (fun t deed => (t.act deed).2) t

def admissible (source : τ) (e : PendingFile) : Bool :=
  e.xid.isValid && !e.xid.precedes (StatusSource.oldest source) && StatusSource.statusOf source e.xid = .inProgress

namespace Deed

def admits : Deed τ σ → List PendingFile
  | .enroll e => [e].filter (·.xid.isValid)
  | .replay source payload => match Snapshot.decode payload with
    | .ok es => es.filter (admissible source)
    | .error _ => []
  | .prune _ | .finalize .. => []

end Deed

theorem admissibleIff {source : τ} {e : PendingFile} :
    admissible source e = true ↔ e.xid.isValid = true ∧ judge source e.xid = .inDoubt := by
  rw [judgeInDoubt]
  simp [admissible, and_assoc]

end Deeds

section Admission

variable {t : RedoTable} {es : List PendingFile}

def enrollAll (t : RedoTable) (es : List PendingFile) : RedoTable := es.foldl enroll t

theorem enabledEnrollAll (t : RedoTable) (es : List PendingFile) : (t.enrollAll es).enabled = t.enabled := by
  induction es generalizing t with
  | nil => rfl
  | cons e es ih => exact (ih (t.enroll e)).trans (enabledEnroll t e)

theorem stockedEnrollAll (stocked : t.Stocked) (es : List PendingFile) : (t.enrollAll es).Stocked := by
  induction es generalizing t with
  | nil => exact stocked
  | cons e es ih => exact ih (enrollStocked stocked e)

theorem filesEnrollAll (on : t.enabled = true) (valid : ∀ e ∈ es, e.xid.isValid = true) (x : Xid) :
    (t.enrollAll es).files x = t.files x ++ filesOf x es := by
  induction es generalizing t with
  | nil => simp [enrollAll]
  | cons e es ih =>
    have first : e.xid.isValid = true := valid e List.mem_cons_self
    have rest := ih (t := t.enroll e) (by simpa using on) fun d member => valid d (List.mem_cons_of_mem _ member)
    refine rest.trans ?_
    rw [filesEnroll on, filesOfCons]
    by_cases own : e.xid = x
    · simp [← own, first]
    · simp [own, Ne.symm own]

theorem activeEnroll (on : t.enabled = true) {e : PendingFile} (valid : e.xid.isValid = true) :
    (t.enroll e).isActive = true := by
  simp [enroll, on, valid, isActive]

theorem activeEnrollAll (on : t.enabled = true) (valid : ∀ e ∈ es, e.xid.isValid = true) :
    (t.enrollAll es).isActive = true ↔ t.isActive = true ∨ es ≠ [] := by
  cases es with
  | nil => simp [enrollAll]
  | cons e es =>
    simp only [ne_eq, reduceCtorEq, not_false_eq_true, or_true, iff_true]
    have first := activeEnroll on (valid e List.mem_cons_self)
    -- Once there is a table, more entries leave one.
    have still (es : List PendingFile) (t : RedoTable) (active : t.isActive = true) :
        (t.enrollAll es).isActive = true := by
      induction es generalizing t with
      | nil => exact active
      | cons e es ih =>
        refine ih (t.enroll e) ?_
        unfold enroll
        split
        · rfl
        · exact active
    exact still es (t.enroll e) first

theorem entriesEnrolled {τ : Type} [StatusSource τ] (source : τ) (es : List PendingFile) (counts : AdmitCounts)
    (t : RedoTable) :
    (es.foldl (replayEntry source) (counts, t)).2 = t.enrollAll (es.filter (admissible source)) := by
  induction es generalizing counts t with
  | nil => rfl
  | cons e es ih =>
    have one : (replayEntry source (counts, t) e).2 = if admissible source e = true then t.enroll e else t := by
      rw [tableReplayEntry]
      by_cases valid : e.xid.isValid = true
      · simp [admissibleIff, valid]
      · simp [admissibleIff, valid, enroll]
    have rest := ih (replayEntry source (counts, t) e).1 (replayEntry source (counts, t) e).2
    rw [List.foldl_cons]
    refine rest.trans ?_
    rw [one, List.filter_cons]
    split <;> rfl

theorem activePrune (on : t.enabled = true) (c : Completion) : (t.prune c).2.isActive = t.isActive := by
  unfold isActive
  cases h : t.table with
  | none => simp [RedoTable.prune, h]
  | some m => simp [RedoTable.prune, h, on]

end Admission

section History

variable {σ τ : Type} [StatusSource τ] {t : RedoTable} {deeds : List (Deed τ σ)}

theorem admitsValid (deed : Deed τ σ) : ∀ e ∈ deed.admits, e.xid.isValid = true := by
  intro e member
  cases deed with
  | enroll e' => exact (List.mem_filter.mp member).2
  | replay source payload =>
    simp only [Deed.admits] at member
    cases body : Snapshot.decode payload with
    | error damage => simp [body] at member
    | ok es =>
      simp only [body, List.mem_filter] at member
      exact (admissibleIff.mp member.2).1
  | prune c => cases member
  | finalize source files => cases member

structure Recalls (t : RedoTable) (deeds : List (Deed τ σ)) : Prop where
  enabled : t.enabled = true
  stocked : t.Stocked
  files : ∀ x, t.files x = filesOf x ((lately x deeds).flatMap Deed.admits)
  active : t.isActive = true ↔ (sinceFinal deeds).flatMap Deed.admits ≠ []

theorem newRecalls {c : Config} (on : c.enabled = true) : (new c).Recalls ([] : List (Deed τ σ)) where
  enabled := on
  stocked := newStocked c
  files _ := rfl
  active := by simp [new, isActive, sinceFinal]

theorem Recalls.invalid (recalls : t.Recalls deeds) {x : Xid} (invalid : x.isValid = false) : t.files x = [] := by
  rw [recalls.files, filesOfEqNil]
  rintro e member rfl
  obtain ⟨deed, -, admitted⟩ := List.mem_flatMap.mp member
  rw [admitsValid deed e admitted] at invalid
  cases invalid

variable [FileDropper σ]

theorem actAdmits (on : t.enabled = true) {deed : Deed τ σ} (keeps : ∀ x, deed.forgets x = false) :
    (t.act deed).2 = t.enrollAll deed.admits := by
  cases deed with
  | enroll e =>
    by_cases valid : e.xid.isValid = true
    · simp [act, Deed.admits, valid, enrollAll]
    · simp [act, Deed.admits, valid, enrollAll, enroll]
  | replay source payload =>
    simp only [act, replaySnapshot, Deed.admits, if_pos on]
    cases Snapshot.decode payload with
    | error damage => rfl
    | ok es => exact entriesEnrolled source es {} t
  | prune c =>
    have top := keeps c.xid
    simp [Deed.forgets, Completion.tree] at top
  | finalize source files => cases keeps .invalid

theorem Recalls.admit (recalls : t.Recalls deeds) {deed : Deed τ σ} (keeps : ∀ x, deed.forgets x = false)
    (goesOn : deed.isFinal = false) : (t.act deed).2.Recalls (deeds ++ [deed]) := by
  have valid := admitsValid deed
  rw [actAdmits recalls.enabled keeps]
  refine ⟨(enabledEnrollAll ..).trans recalls.enabled, stockedEnrollAll recalls.stocked _, fun x => ?_, ?_⟩
  · rw [filesEnrollAll recalls.enabled valid, recalls.files, latelySnoc, keeps, if_neg Bool.false_ne_true,
      List.flatMap_append, filesOfAppend, List.flatMap_singleton]
  · rw [activeEnrollAll recalls.enabled valid, recalls.active, sinceFinalSnoc, goesOn, if_neg Bool.false_ne_true,
      List.flatMap_append, List.flatMap_singleton, ne_eq, ne_eq, ne_eq, List.append_eq_nil_iff, not_and_or]

theorem Recalls.prune (recalls : t.Recalls deeds) (c : Completion) :
    (t.act (.prune c : Deed τ σ)).2.Recalls (deeds ++ [.prune c]) := by
  refine ⟨(enabledPrune t c).trans recalls.enabled, prunedStocked recalls.stocked c, fun x => ?_, ?_⟩
  · refine (filesPrune recalls.enabled c x).trans ?_
    have gone : (.prune c : Deed τ σ).forgets x = decide (x ∈ c.tree) := rfl
    rw [latelySnoc, gone]
    by_cases named : x ∈ c.tree
    · cases valid : x.isValid with
      | true => simp [named]
      | false => simpa [named] using recalls.invalid valid
    · have nothing : (.prune c : Deed τ σ).admits = [] := rfl
      simp [named, nothing, recalls.files]
  · have same : (t.act (.prune c : Deed τ σ)).2.isActive = t.isActive := activePrune recalls.enabled c
    rw [same, recalls.active, sinceFinalSnoc]
    simp [Deed.isFinal, Deed.admits]

theorem Recalls.finalize (recalls : t.Recalls deeds) (source : τ) (files : σ) :
    (t.act (.finalize source files)).2.Recalls (deeds ++ [.finalize source files]) := by
  have none : (t.act (.finalize source files)).2 = { t with table := none } := by
    simp only [act, finalizeRows recalls.enabled]
  rw [none]
  refine ⟨recalls.enabled, ?_, fun x => ?_, ?_⟩
  · intro m some
    cases some
  · rw [latelySnoc]
    rfl
  · rw [sinceFinalSnoc, Deed.isFinal, if_pos rfl]
    simp [isActive]

theorem actRecalls (recalls : t.Recalls deeds) (deed : Deed τ σ) : (t.act deed).2.Recalls (deeds ++ [deed]) := by
  cases deed with
  | enroll e => exact recalls.admit (fun _ => rfl) rfl
  | replay source payload => exact recalls.admit (fun _ => rfl) rfl
  | prune c => exact recalls.prune c
  | finalize source files => exact recalls.finalize source files

theorem runRecalls {c : Config} (on : c.enabled = true) (deeds : List (Deed τ σ)) :
    ((new c).run deeds).Recalls deeds := by
  induction deeds using List.reverseRecOn with
  | nil => exact newRecalls on
  | append_singleton deeds deed ih =>
    rw [run, List.foldl_append]
    exact actRecalls ih deed

end History

section Counts

variable {t : RedoTable}

theorem memRowKeys (stocked : t.Stocked) (x : Xid) : x ∈ t.rows.map Prod.fst ↔ t.files x ≠ [] := by
  simp only [List.mem_map, Prod.exists, memRows stocked]
  constructor
  · rintro ⟨y, fs, ⟨rfl, some⟩, rfl⟩
    exact some
  · intro some
    exact ⟨x, t.files x, ⟨rfl, some⟩, rfl⟩

theorem sizeRows (t : RedoTable) : t.size = (t.rows.map Prod.fst).length := by
  rw [List.length_map, size, rows]
  cases t.table <;> rfl

theorem pruneCounts (xs : List Xid) (n : Nat) (m : XidMap (List RelFile)) : ∃ ids : List Xid, ids.Nodup ∧
    (∀ x, x ∈ ids ↔ x ∈ xs ∧ x.isValid = true ∧ (m.get? x).isSome = true) ∧
    (xs.foldl pruneOne (n, m)).1 = n + ids.length := by
  induction xs generalizing n m with
  | nil => exact ⟨[], .nil, by simp, rfl⟩
  | cons x xs ih =>
    rw [List.foldl_cons]
    by_cases found : (x.isValid && (m.get? x).isSome) = true
    · obtain ⟨ids, distinct, members, count⟩ := ih (n + 1) (m.erase x)
      have taken : pruneOne (n, m) x = (n + 1, m.erase x) := by simp only [pruneOne, if_pos found]
      rw [Bool.and_eq_true] at found
      refine ⟨x :: ids, List.nodup_cons.mpr ⟨?_, distinct⟩, fun y => ?_, ?_⟩
      · simp [members, XidMap.getErase]
      · rw [List.mem_cons, members, XidMap.getErase]
        by_cases same : y = x
        · simp [same, found]
        · simp [same]
      · rw [taken, count, List.length_cons]
        omega
    · obtain ⟨ids, distinct, members, count⟩ := ih n m
      have left : pruneOne (n, m) x = (n, m) := by simp only [pruneOne, if_neg found]
      refine ⟨ids, distinct, fun y => ?_, by rw [left, count]⟩
      rw [members, List.mem_cons]
      by_cases same : y = x
      · subst same
        simp only [Bool.and_eq_true, not_and] at found
        simp +contextual [found]
      · simp [same]

theorem pruneCount (stocked : t.Stocked) (on : t.enabled = true) (c : Completion) : ∃ ids : List Xid, ids.Nodup ∧
    (∀ x, x ∈ ids ↔ x ∈ c.tree ∧ x.isValid = true ∧ t.files x ≠ []) ∧ (t.prune c).1 = ids.length := by
  cases h : t.table with
  | none => exact ⟨[], .nil, by simp [files, h], by simp [RedoTable.prune, h]⟩
  | some m =>
    obtain ⟨ids, distinct, members, count⟩ := pruneCounts c.tree 0 m
    refine ⟨ids, distinct, fun x => ?_, ?_⟩
    · rw [members]
      have full := stocked m h x
      cases found : m.get? x with
      | none => simp [files, h, found]
      | some fs =>
        have some : fs ≠ [] := fun empty => full (empty ▸ found)
        simp [files, h, found, some]
    · simp [RedoTable.prune, h, on, count]

theorem pruneNone (stocked : t.Stocked) (on : t.enabled = true) (c : Completion)
    (empty : ∀ x ∈ c.tree, x.isValid = true → t.files x = []) : (t.prune c).1 = 0 := by
  obtain ⟨ids, -, members, count⟩ := pruneCount stocked on c
  rw [count, List.length_eq_zero_iff, List.eq_nil_iff_forall_not_mem]
  intro x member
  obtain ⟨named, valid, some⟩ := (members x).mp member
  exact some (empty x named valid)

end Counts

theorem tableIsItsHistory {σ τ : Type} [StatusSource τ] [FileDropper σ] {c : Config} (on : c.enabled = true)
    (deeds : List (Deed τ σ)) : ∃ t, t = (new c).run deeds ∧
      (∀ x, t.files x = filesOf x ((lately x deeds).flatMap Deed.admits)) ∧
      (∃ xs : List Xid, xs.Nodup ∧ (∀ x, x ∈ xs ↔ t.files x ≠ []) ∧ t.size = xs.length) ∧
      (t.isActive = true ↔ (sinceFinal deeds).flatMap Deed.admits ≠ []) ∧
      (∀ tree : Completion,
        (∃ ids : List Xid, ids.Nodup ∧ (∀ x, x ∈ ids ↔ x ∈ tree.tree ∧ x.isValid = true ∧ t.files x ≠ []) ∧
          (t.prune tree).1 = ids.length) ∧
        (∀ x, x ∉ tree.tree → (t.prune tree).2.files x = t.files x) ∧ ((t.prune tree).2.prune tree).1 = 0) ∧
      ∀ (source : τ) payload damage, Snapshot.decode payload = .error damage →
        t.act (.replay source payload : Deed τ σ) = (.refused damage, t) := by
  have recalls := runRecalls on deeds
  refine ⟨_, rfl, recalls.files, ⟨_, rowKeysNodup _, memRowKeys recalls.stocked, sizeRows _⟩, recalls.active,
    fun tree => ⟨pruneCount recalls.stocked recalls.enabled tree, fun x other => ?_, ?_⟩, ?_⟩
  · simp [filesPrune recalls.enabled, other]
  · refine pruneNone (prunedStocked recalls.stocked tree) ((enabledPrune ..).trans recalls.enabled) tree ?_
    intro x named valid
    simp [filesPrune recalls.enabled, named, valid]
  · intro source payload damage body
    simp only [act, snapshotRefused recalls.enabled body]

section Told

def lasts (relation : UInt32) : RelFile := ⟨⟨1663, 5, relation⟩, false⟩

def fiveDeeds : List (Deed Ledger DropJournal) :=
  [.enroll ⟨lasts 100, ⟨7⟩⟩,
    .replay {} (Snapshot.encode [⟨lasts 200, ⟨7⟩⟩, ⟨lasts 300, ⟨9⟩⟩, ⟨lasts 100, ⟨7⟩⟩]),
    .prune ⟨⟨9⟩, [⟨9⟩, .invalid]⟩, .enroll ⟨lasts 400, ⟨9⟩⟩,
    .replay { oldest := ⟨8⟩ } (Snapshot.encode [⟨lasts 500, ⟨7⟩⟩, ⟨lasts 600, ⟨9⟩⟩])]

def spoilt : ByteArray := (Snapshot.encode [⟨lasts 700, ⟨9⟩⟩, ⟨lasts 800, ⟨9⟩⟩]).set! 40 2

theorem fiveDeedsTold : ({} : Config).enabled = true ∧ ∃ t, t = (new {}).run fiveDeeds ∧
    t.files ⟨7⟩ = [lasts 100, lasts 200, lasts 100] ∧ t.files ⟨9⟩ = [lasts 400, lasts 600] ∧ t.isActive = true ∧
    Snapshot.decode spoilt = .error .snapshotFlag ∧
    t.act (.replay {} spoilt : Deed Ledger DropJournal) = (.refused .snapshotFlag, t) := by
  have first : Snapshot.decode (Snapshot.encode [⟨lasts 200, ⟨7⟩⟩, ⟨lasts 300, ⟨9⟩⟩, ⟨lasts 100, ⟨7⟩⟩]) = .ok _ :=
    Snapshot.decodeEncode (by decide)
  have second : Snapshot.decode (Snapshot.encode [⟨lasts 500, ⟨7⟩⟩, ⟨lasts 600, ⟨9⟩⟩]) = .ok _ :=
    Snapshot.decodeEncode (by decide)
  have flagged : Snapshot.decode spoilt = .error .snapshotFlag := by decide +kernel
  have early : (fiveDeeds.take 3).flatMap Deed.admits =
      [⟨lasts 100, ⟨7⟩⟩, ⟨lasts 200, ⟨7⟩⟩, ⟨lasts 300, ⟨9⟩⟩, ⟨lasts 100, ⟨7⟩⟩] := by
    simp only [fiveDeeds, List.take, List.flatMap_cons, List.flatMap_nil, Deed.admits, first]
    decide
  have late : (fiveDeeds.drop 3).flatMap Deed.admits = [⟨lasts 400, ⟨9⟩⟩, ⟨lasts 600, ⟨9⟩⟩] := by
    simp only [fiveDeeds, List.drop, List.flatMap_cons, List.flatMap_nil, Deed.admits, second]
    decide
  have all : fiveDeeds.flatMap Deed.admits = _ := congrArg₂ (· ++ ·) early late
  have never : lately ⟨7⟩ fiveDeeds = fiveDeeds := rfl
  have pruned : lately ⟨9⟩ fiveDeeds = fiveDeeds.drop 3 := rfl
  obtain ⟨t, same, files, -, active, -, refuses⟩ := tableIsItsHistory (c := {}) rfl fiveDeeds
  refine ⟨rfl, t, same, ?_, ?_, ?_, flagged, refuses {} spoilt _ flagged⟩
  · rw [files, never, all]
    decide
  · rw [files, pruned, late]
    decide
  · rw [active, show sinceFinal fiveDeeds = fiveDeeds from rfl, all]
    decide

end Told

end RedoTable

end OrphanFiles
