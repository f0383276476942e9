import OrphanFiles.Proofs.TableHistory
import OrphanFiles.Proofs.Tally

/-!
Replay as a fold.  A replay goes on from what an earlier one has left, whatever that one has counted; a record whose
body is damaged leaves no more than a count; and what is taken out of the redo table is counted row by row.
-/
namespace OrphanFiles

open Log (Record)

namespace ReplayStats

def plus (a b : ReplayStats) : ReplayStats where
  records := a.records + b.records
  snapshots := a.snapshots + b.snapshots
  entriesAdmitted := a.entriesAdmitted + b.entriesAdmitted
  beforeHorizon := a.beforeHorizon + b.beforeHorizon
  ended := a.ended + b.ended
  commits := a.commits + b.commits
  aborts := a.aborts + b.aborts
  pruned := a.pruned + b.pruned
  checkpoints := a.checkpoints + b.checkpoints
  undecodable := a.undecodable + b.undecodable
  lastLsn := b.lastLsn.or a.lastLsn

@[simp] theorem plusNothing (a : ReplayStats) : a.plus {} = a := rfl

def ofBodies (s : ReplayStats) : ReplayStats := { s with records := 0, undecodable := 0, lastLsn := none }

theorem ofBodiesPlus (a b : ReplayStats) : (a.plus b).ofBodies = a.ofBodies.plus b.ofBodies := rfl

end ReplayStats

namespace RedoTable

def tabled (t : RedoTable) : List Xid := t.rows.map Prod.fst

def gone (t t' : RedoTable) : List (Xid × List RelFile) := t.rows.filter (·.1 ∉ t'.tabled)

section Rows

variable {t t' : RedoTable} {x : Xid}

theorem memTabled : x ∈ t.tabled ↔ (t.table.bind (·.get? x)).isSome = true := by
  unfold tabled rows
  cases t.table with
  | none => simp
  | some m => simp [XidMap.memEntries, Option.isSome_iff_exists]

theorem goneNothing (kept : ∀ x ∈ t.tabled, x ∈ t'.tabled) : t.gone t' = [] := by
  refine List.filter_eq_nil_iff.mpr fun e member => ?_
  simpa using kept e.1 (List.mem_map_of_mem member)

theorem enrollKeeps (e : PendingFile) (tabled : x ∈ t.tabled) : x ∈ (t.enroll e).tabled := by
  rw [memTabled] at tabled ⊢
  unfold enroll
  split
  · cases h : t.table with
    | none => simp [h] at tabled
    | some m =>
      rw [h, Option.bind_some] at tabled
      simp only [Option.getD_some, Option.bind_some, XidMap.getInsert]
      split
      · rfl
      · exact tabled
  · exact tabled

theorem enrollAllKeeps (es : List PendingFile) (tabled : x ∈ t.tabled) : x ∈ (t.enrollAll es).tabled := by
  induction es generalizing t with
  | nil => exact tabled
  | cons e es ih => exact ih (enrollKeeps e tabled)

theorem prunedEntries (xs : List Xid) (s : Nat × XidMap (List RelFile)) :
    (xs.foldl pruneOne s).2.entries = s.2.entries.filter fun e => !(e.1.isValid && e.1 ∈ xs) := by
  induction xs generalizing s with
  | nil => simp
  | cons x xs ih =>
    have one : (pruneOne s x).2.entries = s.2.entries.filter fun e => !(e.1.isValid && e.1 = x) := by
      unfold pruneOne
      split
      · next found =>
        have valid := (Bool.and_eq_true_iff.mp found).1
        refine List.filter_congr fun e _ => ?_
        by_cases own : e.1 = x <;> simp [own, valid]
      · next left =>
        refine (List.filter_eq_self.mpr fun e member => ?_).symm
        by_cases own : e.1 = x
        · subst own
          have found : s.2.get? e.1 = some e.2 := XidMap.memEntries.mp member
          simpa [found] using left
        · simp [own]
    rw [List.foldl_cons, ih, one, List.filter_filter]
    refine List.filter_congr fun e _ => ?_
    by_cases own : e.1 = x
    · cases valid : x.isValid <;> simp [own, valid]
    · simp [own]

theorem pruneRows (on : t.enabled = true) (c : Completion) :
    (t.prune c).2.rows = t.rows.filter fun e => !(e.1.isValid && e.1 ∈ c.tree) := by
  cases h : t.table with
  | none => simp [prune, rows, h]
  | some m => simpa [prune, rows, h, on] using prunedEntries c.tree (0, m)

theorem goneByPrune (on : t.enabled = true) (c : Completion) :
    t.gone (t.prune c).2 = t.rows.filter fun e => e.1.isValid && e.1 ∈ c.tree := by
  refine List.filter_congr fun e member => ?_
  have left : e.1 ∈ (t.prune c).2.tabled ↔ (!(e.1.isValid && e.1 ∈ c.tree)) = true := by
    rw [tabled, pruneRows on, List.mem_map]
    constructor
    · rintro ⟨d, kept, same⟩
      exact same ▸ (List.mem_filter.mp kept).2
    · exact fun kept => ⟨e, List.mem_filter.mpr ⟨member, kept⟩, rfl⟩
  rw [decide_not, Bool.eq_iff_iff]
  simp [left]

theorem pruneTakes (on : t.enabled = true) (c : Completion) : (t.prune c).1 = (t.gone (t.prune c).2).length := by
  rw [goneByPrune on]
  cases h : t.table with
  | none => simp [prune, rows, h]
  | some m =>
    obtain ⟨ids, distinct, members, count⟩ := pruneCounts c.tree 0 m
    have taken : (t.rows.filter fun e => e.1.isValid && e.1 ∈ c.tree).map Prod.fst |>.Perm ids := by
      rw [List.perm_ext_iff_of_nodup (t.rowKeysNodup.sublist (List.filter_sublist.map _)) distinct]
      intro x
      rw [members, Option.isSome_iff_exists]
      simp [rows, h, XidMap.memEntries]
      tauto
    rw [← List.length_map, taken.length_eq]
    simp [prune, h, on, count]

end Rows
end RedoTable

namespace Replay

variable {τ : Type}

def after (p : Replay τ) (a : ReplayStats) : Replay τ := { p with stats := a.plus p.stats }

def goOn (p : Replay τ) : Replay τ := { table := p.table, source := p.source }

theorem goOnAfter (p : Replay τ) : p.goOn.after p.stats = p := rfl

variable [StatusSource τ]

theorem stepAfter (p : Replay τ) (a : ReplayStats) (r : Record) : (p.after a).step r = (p.step r).after a := by
  unfold step
  cases r.kind with
  | pendingDelete =>
    unfold snapshot after
    dsimp only
    cases p.table.replaySnapshot p.source r.payload with
    | error damage => rfl
    | ok answer => simp [ReplayStats.plus, Nat.add_assoc]
  | commit | abort =>
    unfold completion after
    dsimp only
    cases Completion.decode r.payload with
    | error damage => rfl
    | ok c => simp [ReplayStats.plus, Nat.add_assoc]
  | checkpoint => rfl

theorem runAfter (p : Replay τ) (a : ReplayStats) (items : List (Except Error Record)) :
    (p.after a).run items = ((p.run items).1, (p.run items).2.after a) := by
  induction items generalizing p with
  | nil => rfl
  | cons item items ih =>
    cases item with
    | error e => rfl
    | ok r => rw [run, stepAfter, ih, run]

theorem runAppend (p : Replay τ) (rs : List Record) (items : List (Except Error Record)) :
    p.run (rs.map .ok ++ items) = (rs.foldl step p).run items := by
  induction rs generalizing p with
  | nil => rfl
  | cons r rs ih => exact ih (p.step r)

structure Alike (p q : Replay τ) : Prop where
  table : q.table = p.table
  source : q.source = p.source
  counts : q.stats.ofBodies = p.stats.ofBodies

theorem Alike.both {p q : Replay τ} (alike : Alike p q) (r : Record) : Alike (p.step r) (q.step r) := by
  have same : q.goOn = p.goOn := by rw [goOn, goOn, alike.table, alike.source]
  rw [← goOnAfter p, ← goOnAfter q, same, stepAfter, stepAfter]
  refine ⟨rfl, rfl, ?_⟩
  simp only [after, ReplayStats.ofBodiesPlus, alike.counts]

theorem Alike.passed {p q : Replay τ} (alike : Alike p q) (on : p.table.enabled = true) {r : Record}
    (damaged : (RecordBody.ofRecord r).isDamaged = true) : Alike (p.step r) q := by
  suffices still : Alike p (p.step r) from
    ⟨alike.table.trans still.table.symm, alike.source.trans still.source.symm, alike.counts.trans still.counts.symm⟩
  unfold step
  obtain ⟨lsn, kind, payload⟩ := r
  cases kind with
  | pendingDelete =>
    cases body : Snapshot.decode payload with
    | error damage =>
      simp only [snapshot, RedoTable.snapshotRefused on body]
      exact ⟨rfl, rfl, rfl⟩
    | ok es => simp [RecordBody.ofRecord, body, RecordBody.isDamaged] at damaged
  | commit | abort =>
    cases body : Completion.decode payload with
    | error damage =>
      simp only [completion, body]
      exact ⟨rfl, rfl, rfl⟩
    | ok c => simp [RecordBody.ofRecord, body, RecordBody.isDamaged] at damaged
  | checkpoint => cases damaged

theorem foldAlike {p q : Replay τ} (alike : Alike p q) (on : p.table.enabled = true) (rs : List Record) :
    Alike (rs.foldl step p) ((rs.filter fun r => !(RecordBody.ofRecord r).isDamaged).foldl step q) := by
  induction rs generalizing p q with
  | nil => exact alike
  | cons r rs ih =>
    have next := (stepTallied p r).2.trans on
    cases damaged : (RecordBody.ofRecord r).isDamaged with
    | true =>
      rw [List.filter_cons_of_neg (by simp [damaged])]
      exact ih (alike.passed on damaged) next
    | false =>
      rw [List.filter_cons_of_pos (by simp [damaged])]
      exact ih (alike.both r) next

def Balanced (s : ReplayStats) : Prop :=
  s.records = s.snapshots + s.commits + s.aborts + s.checkpoints + s.undecodable

theorem Adds.balanced {tracked : Bool} {r : Record} {before after : ReplayStats} (adds : Adds tracked r before after)
    (balanced : Balanced before) : Balanced after := by
  have once : (r.countsAs tracked .pendingDelete).toNat + (r.countsAs tracked .commit).toNat +
      (r.countsAs tracked .abort).toNat + (r.countsAs tracked .checkpoint).toNat +
        (r.passedOver tracked).toNat = 1 := by
    unfold Record.countsAs
    cases r.kind <;> cases r.passedOver tracked <;> rfl
  unfold Balanced at balanced ⊢
  rw [adds.records, adds.snapshots, adds.commits, adds.aborts, adds.checkpoints, adds.undecodable]
  omega

def takenOut (p : Replay τ) : List Record → List (Xid × List RelFile)
  | [] => []
  | r :: rs => p.table.gone (p.step r).table ++ (p.step r).takenOut rs

theorem stepTakes {p : Replay τ} (on : p.table.enabled = true) (r : Record) :
    (p.step r).stats.pruned = p.stats.pruned + (p.table.gone (p.step r).table).length := by
  cases told : r.told? with
  | none =>
    obtain ⟨-, table, -, pruned⟩ := stepUntold on told
    have kept : p.table.gone (p.step r).table = [] := by
      rw [table, RedoTable.entriesEnrolled]
      exact RedoTable.goneNothing fun _ => RedoTable.enrollAllKeeps _
    rw [kept, pruned, List.length_nil, Nat.add_zero]
  | some ending =>
    obtain ⟨-, -, table, -, pruned⟩ := stepTold p told
    rw [table, pruned, RedoTable.pruneTakes on]

theorem foldCounts {p : Replay τ} (on : p.table.enabled = true) (rs : List Record) (balanced : Balanced p.stats) :
    Balanced (rs.foldl step p).stats ∧
      (rs.foldl step p).stats.undecodable =
        p.stats.undecodable + rs.countP (fun r => (RecordBody.ofRecord r).isDamaged) ∧
      (rs.foldl step p).stats.pruned = p.stats.pruned + (p.takenOut rs).length := by
  induction rs generalizing p with
  | nil => exact ⟨balanced, rfl, rfl⟩
  | cons r rs ih =>
    obtain ⟨adds, next⟩ := stepTallied p r
    obtain ⟨balanced, undecodable, pruned⟩ := ih (next.trans on) (adds.balanced balanced)
    refine ⟨balanced, ?_, ?_⟩
    · rw [List.foldl_cons, undecodable, adds.undecodable, on, List.countP_cons]
      simp only [Record.passedOver, Bool.true_or, Bool.and_true]
      cases (RecordBody.ofRecord r).isDamaged <;> simp
      omega
    · rw [List.foldl_cons, pruned, stepTakes on, takenOut, List.length_append, Nat.add_assoc]

theorem replayFolds {t : RedoTable} (on : t.enabled = true) (source : τ) (rs : List Record) :
    ∃ p : Replay τ, run { table := t, source } (rs.map .ok) = (none, p) ∧
      (∃ q, run { table := t, source } ((rs.filter fun r => !(RecordBody.ofRecord r).isDamaged).map .ok) = (none, q) ∧
        Alike p q) ∧
      Balanced p.stats ∧
      p.stats.undecodable = rs.countP (fun r => (RecordBody.ofRecord r).isDamaged) ∧
      p.stats.pruned = (takenOut { table := t, source } rs).length ∧
      (∀ items failure (q : Replay τ), run { table := p.table, source := p.source } items = (failure, q) →
        run { table := t, source } (rs.map .ok ++ items) =
          (failure, { table := q.table, source := q.source, stats := p.stats.plus q.stats })) ∧
      ∀ e rest, run { table := t, source } (rs.map .ok ++ .error e :: rest) = (some e, p) := by
  obtain ⟨balanced, undecodable, pruned⟩ := foldCounts (p := { table := t, source }) on rs rfl
  refine ⟨_, runRead _ rs, ⟨_, runRead _ _, foldAlike ⟨rfl, rfl, rfl⟩ on rs⟩, balanced, ?_, ?_, ?_,
    fun e rest => runBroken _ rs e rest⟩
  · rw [undecodable, Nat.zero_add]
  · rw [pruned, Nat.zero_add]
  · intro items failure q went
    rw [runAppend, ← goOnAfter (rs.foldl step _), runAfter]
    unfold goOn
    rw [went]
    rfl

def damagedBetween : List Record :=
  [⟨1, .pendingDelete, Snapshot.encode [⟨⟨⟨1663, 5, 100⟩, false⟩, ⟨10⟩⟩]⟩, ⟨2, .pendingDelete, .empty⟩,
   ⟨3, .commit, Completion.encode ⟨⟨10⟩, []⟩⟩]

theorem damagedBetweenFolds : (RedoTable.new {}).enabled = true ∧ ∃ p q : Replay Ledger,
    run { table := .new {}, source := {} } (damagedBetween.map .ok) = (none, p) ∧
    run { table := .new {}, source := {} }
      ((damagedBetween.filter fun r => !(RecordBody.ofRecord r).isDamaged).map .ok) = (none, q) ∧
    Alike p q ∧ Balanced p.stats ∧ p.stats.undecodable = 1 ∧ p.stats.pruned = 1 ∧
    ∀ e rest, run { table := .new {}, source := {} } (damagedBetween.map .ok ++ .error e :: rest) = (some e, p) := by
  obtain ⟨p, went, ⟨q, without, alike⟩, balanced, undecodable, pruned, -, broken⟩ :=
    replayFolds (t := .new {}) rfl ({} : Ledger) damagedBetween
  refine ⟨rfl, p, q, went, without, alike, balanced, ?_, ?_, broken⟩
  · rw [undecodable]
    decide +kernel
  · rw [pruned]
    decide +kernel

end Replay
end OrphanFiles
