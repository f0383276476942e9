import OrphanFiles.Proofs.Transcript

/-!
What each operation does to the files that the redo table holds for a transaction.  A table never holds an
empty list of files.
-/
namespace OrphanFiles

namespace Ledger

theorem statusSetStatus (l : Ledger) (x y : Xid) (s : TxStatus) :
    (l.setStatus x s).statusOf y = if y = x then s else l.statusOf y := by
  simp only [statusOf, setStatus, XidMap.getInsert]
  split <;> rfl

theorem setAll (xs : List Xid) (l : Ledger) (s : TxStatus) :
    (xs.foldl (·.setStatus · s) l).oldest = l.oldest ∧
    ∀ y, (xs.foldl (·.setStatus · s) l).statusOf y = if y ∈ xs then s else l.statusOf y := by
  induction xs generalizing l with
  | nil => simp
  | cons x xs ih =>
    obtain ⟨oldest, status⟩ := ih (l.setStatus x s)
    refine ⟨oldest, fun y => ?_⟩
    rw [List.foldl_cons, status, statusSetStatus]
    by_cases here : y = x <;> by_cases later : y ∈ xs <;> simp [here, later]

theorem oldestComplete (l : Ledger) (c : Completion) (s : TxStatus) : (l.complete c s).oldest = l.oldest :=
  (setAll c.tree l s).1

theorem statusComplete (l : Ledger) (c : Completion) (s : TxStatus) (y : Xid) :
    (l.complete c s).statusOf y = if y ∈ c.tree then s else l.statusOf y :=
  (setAll c.tree l s).2 y

end Ledger

section Judgement

variable {τ : Type} [StatusSource τ] {source : τ} {x : Xid}

theorem judgeInDoubt :
    judge source x = .inDoubt ↔
      x.precedes (StatusSource.oldest source) = false ∧ StatusSource.statusOf source x = .inProgress := by
  unfold judge
  split
  · next before => simp [before]
  · next recent =>
    split
    · next running => simp [recent, running]
    · next ended => simpa using fun _ => ended

theorem judgeBeforeHorizon : judge source x = .beforeHorizon ↔ x.precedes (StatusSource.oldest source) = true := by
  unfold judge
  split
  · next before => simp [before]
  · next recent => split <;> simp [recent]

theorem judgeEnded {status : TxStatus} : judge source x = .ended status ↔
    x.precedes (StatusSource.oldest source) = false ∧ StatusSource.statusOf source x = status ∧
      status ≠ .inProgress := by
  unfold judge
  split
  · next before => simp [before]
  · next recent =>
    split
    · next running => simp [recent, running]; grind
    · next ended => simp [recent]; grind

end Judgement

namespace XidMap

variable {α : Type}

theorem getEmpty (x : Xid) : (empty : XidMap α).get? x = none := rfl

theorem memEntries {m : XidMap α} {x : Xid} {a : α} : (x, a) ∈ m.entries ↔ m.get? x = some a := by
  obtain ⟨es, ascending⟩ := m
  simp only [get?]
  induction es with
  | nil => simp
  | cons e es ih =>
    obtain ⟨above, ascending⟩ := List.pairwise_cons.mp ascending
    rw [List.mem_cons, ih ascending, List.lookup_cons]
    by_cases h : x = e.1
    · have absent : es.lookup x = none := by
        rw [List.lookup_eq_none_iff]
        intro d member
        have := UInt32.ne_of_lt (above d member)
        grind
      simp [h ▸ absent, h, Prod.ext_iff, eq_comm]
    · have other : (x == e.1) = false := by simpa using h
      rw [other]
      simp [h, Prod.ext_iff]

end XidMap

namespace RedoTable

def Stocked (t : RedoTable) : Prop := ∀ m, t.table = some m → ∀ x, m.get? x ≠ some []

theorem newStocked (c : Config) : (new c).Stocked := by simp [Stocked, new]

theorem newFiles (c : Config) (x : Xid) : (new c).files x = [] := rfl

@[simp] theorem enabledEnroll (t : RedoTable) (e : PendingFile) : (t.enroll e).enabled = t.enabled := by
  unfold enroll
  split <;> rfl

theorem filesEnroll {t : RedoTable} (on : t.enabled = true) (e : PendingFile) (y : Xid) :
    (t.enroll e).files y = if e.xid.isValid = true ∧ y = e.xid then t.files y ++ [e.file] else t.files y := by
  unfold enroll
  by_cases valid : e.xid.isValid = true
  · cases h : t.table with
    | none => by_cases same : y = e.xid <;> simp [on, valid, same, files, h, XidMap.getInsert, XidMap.getEmpty]
    | some m => by_cases same : y = e.xid <;> simp [on, valid, same, files, h, XidMap.getInsert]
  · simp [valid]

theorem enrollStocked {t : RedoTable} (stocked : t.Stocked) (e : PendingFile) : (t.enroll e).Stocked := by
  unfold enroll
  split
  · intro m same x
    obtain rfl : _ = m := by simpa using same
    rw [XidMap.getInsert]
    split
    · simp
    · cases h : t.table with
      | none => simp [XidMap.getEmpty]
      | some m => simpa using stocked m h x
  · exact stocked

section Replay

variable {τ : Type} [StatusSource τ] {source : τ}

structure Replayed (source : τ) (es : List PendingFile) (t t' : RedoTable) : Prop where
  enabled : t'.enabled = true
  stocked : t'.Stocked
  files : ∀ y, t'.files y =
    if y.isValid = true ∧ judge source y = .inDoubt then t.files y ++ filesOf y es else t.files y

theorem tableReplayEntry (t : RedoTable) (e : PendingFile) (counts : AdmitCounts) :
    (replayEntry source (counts, t) e).2 = if judge source e.xid = .inDoubt then t.enroll e else t := by
  unfold replayEntry
  cases judge source e.xid <;> simp

variable (source) in
theorem entryReplayed {t : RedoTable} (on : t.enabled = true) (stocked : t.Stocked) (e : PendingFile)
    (counts : AdmitCounts) : Replayed source [e] t (replayEntry source (counts, t) e).2 := by
  rw [tableReplayEntry]
  by_cases verdict : judge source e.xid = .inDoubt
  · rw [if_pos verdict]
    refine ⟨by simpa using on, enrollStocked stocked e, fun y => ?_⟩
    rw [filesEnroll on, filesOfCons, filesOfNil]
    by_cases same : y = e.xid
    · subst same; simp [verdict]
    · simp [same, Ne.symm same]
  · rw [if_neg verdict]
    refine ⟨on, stocked, fun y => ?_⟩
    rw [filesOfCons, filesOfNil]
    by_cases same : y = e.xid
    · subst same; simp [verdict]
    · simp [Ne.symm same]

variable (source) in
theorem entriesReplayed (es : List PendingFile) {t : RedoTable} (on : t.enabled = true) (stocked : t.Stocked)
    (counts : AdmitCounts) : Replayed source es t (es.foldl (replayEntry source) (counts, t)).2 := by
  induction es generalizing counts t with
  | nil => exact ⟨on, stocked, fun y => by simp⟩
  | cons e es ih =>
    have head := entryReplayed source on stocked e counts
    have tail := ih head.enabled head.stocked (replayEntry source (counts, t) e).1
    refine ⟨tail.enabled, tail.stocked, fun y => ?_⟩
    rw [List.foldl_cons, tail.files, head.files, show e :: es = [e] ++ es from rfl, filesOfAppend]
    split <;> simp

variable (source) in
theorem snapshotEntries {t : RedoTable} (on : t.enabled = true) {payload : ByteArray} {es : List PendingFile}
    (body : Snapshot.decode payload = .ok es) :
    t.replaySnapshot source payload = .ok (es.foldl (replayEntry source) ({}, t)) := by
  simp [replaySnapshot, on, body, Except.map]

theorem snapshotRefused {t : RedoTable} (on : t.enabled = true) {payload : ByteArray} {damage : Damage}
    (body : Snapshot.decode payload = .error damage) : t.replaySnapshot source payload = .error damage := by
  simp [replaySnapshot, on, body, Except.map]

end Replay

theorem pruneAll (xs : List Xid) (s : Nat × XidMap (List RelFile)) (y : Xid) :
    (xs.foldl pruneOne s).2.get? y = if y.isValid = true ∧ y ∈ xs then none else s.2.get? y := by
  induction xs generalizing s with
  | nil => simp
  | cons x xs ih =>
    have one : (pruneOne s x).2.get? y = if y.isValid = true ∧ y = x then none else s.2.get? y := by
      unfold pruneOne
      split
      · next found =>
        rw [XidMap.getErase]
        by_cases same : y = x
        · subst same; simp_all
        · simp [same]
      · next missing =>
        by_cases same : y = x
        · subst same; simp_all
        · simp [same]
    rw [List.foldl_cons, ih, one]
    by_cases same : y = x <;> by_cases later : y ∈ xs <;> simp [same, later] <;> grind

theorem prunedStocked {t : RedoTable} (stocked : t.Stocked) (c : Completion) : (t.prune c).2.Stocked := by
  unfold prune
  cases h : t.table with
  | none => exact stocked
  | some m =>
    cases on : t.enabled
    · exact stocked
    · intro m' same y
      obtain rfl : _ = m' := by simpa using same
      rw [pruneAll]
      split
      · simp
      · exact stocked m h y

theorem enabledPrune (t : RedoTable) (c : Completion) : (t.prune c).2.enabled = t.enabled := by
  unfold prune
  cases t.table with
  | none => rfl
  | some m => dsimp only; split <;> rfl

theorem filesPrune {t : RedoTable} (on : t.enabled = true) (c : Completion) (y : Xid) :
    (t.prune c).2.files y = if y.isValid = true ∧ y ∈ c.tree then [] else t.files y := by
  unfold prune
  cases h : t.table with
  | none => simp [files, h]
  | some m =>
    simp only [on, if_true, files, h, Option.bind_some, pruneAll]
    split <;> rfl

end RedoTable
end OrphanFiles
