import Mathlib.Data.List.Induction
import OrphanFiles.Inspection
import OrphanFiles.Proofs.DropSet

/-!
What a replay counts.  Every record is counted once: as one of its kind, or as passed over if its body is damaged.  A
snapshot that is not tracked is counted without a look at its body.  The entries of a snapshot that is tracked are
counted whatever is decided of them.
-/
namespace OrphanFiles

open Log

def RecordBody.isDamaged : RecordBody → Bool
  | .damaged _ => true
  | _ => false

namespace Log.Record

def passedOver (tracked : Bool) (r : Record) : Bool :=
  (RecordBody.ofRecord r).isDamaged && (tracked || r.kind ≠ .pendingDelete)

def countsAs (tracked : Bool) (kind : Kind) (r : Record) : Bool := r.kind = kind && !r.passedOver tracked

end Log.Record

def AdmitCounts.total (c : AdmitCounts) : Nat := c.admitted + c.beforeHorizon + c.ended

def ReplayStats.entries (s : ReplayStats) : Nat := s.entriesAdmitted + s.beforeHorizon + s.ended

def entriesOf (rs : List Record) : Nat := (rs.flatMap fun r => (RecordBody.ofRecord r).entries).length

namespace Replay

structure Tallied (tracked : Bool) (rs : List Record) (stats : ReplayStats) : Prop where
  records : stats.records = rs.length
  snapshots : stats.snapshots = rs.countP (·.countsAs tracked .pendingDelete)
  commits : stats.commits = rs.countP (·.countsAs tracked .commit)
  aborts : stats.aborts = rs.countP (·.countsAs tracked .abort)
  checkpoints : stats.checkpoints = rs.countP (·.countsAs tracked .checkpoint)
  undecodable : stats.undecodable = rs.countP (·.passedOver tracked)
  entries : stats.entries = if tracked then entriesOf rs else 0
  lastLsn : stats.lastLsn = rs.getLast?.map (·.lsn)

structure Adds (tracked : Bool) (r : Record) (before after : ReplayStats) : Prop where
  records : after.records = before.records + 1
  snapshots : after.snapshots = before.snapshots + (r.countsAs tracked .pendingDelete).toNat
  commits : after.commits = before.commits + (r.countsAs tracked .commit).toNat
  aborts : after.aborts = before.aborts + (r.countsAs tracked .abort).toNat
  checkpoints : after.checkpoints = before.checkpoints + (r.countsAs tracked .checkpoint).toNat
  undecodable : after.undecodable = before.undecodable + (r.passedOver tracked).toNat
  entries : after.entries = before.entries + if tracked then entriesOf [r] else 0
  lastLsn : after.lastLsn = some r.lsn

theorem countSnoc (counted : Record → Bool) (rs : List Record) (r : Record) :
    (rs ++ [r]).countP counted = rs.countP counted + (counted r).toNat := by
  rw [List.countP_append, List.countP_singleton]
  cases counted r <;> rfl

theorem entriesSnoc (rs : List Record) (r : Record) : entriesOf (rs ++ [r]) = entriesOf rs + entriesOf [r] := by
  simp [entriesOf]

theorem Tallied.snoc {tracked : Bool} {rs : List Record} {before after : ReplayStats} {r : Record}
    (so : Tallied tracked rs before) (adds : Adds tracked r before after) : Tallied tracked (rs ++ [r]) after where
  records := by rw [adds.records, so.records, List.length_append, List.length_singleton]
  snapshots := by rw [adds.snapshots, so.snapshots, countSnoc]
  commits := by rw [adds.commits, so.commits, countSnoc]
  aborts := by rw [adds.aborts, so.aborts, countSnoc]
  checkpoints := by rw [adds.checkpoints, so.checkpoints, countSnoc]
  undecodable := by rw [adds.undecodable, so.undecodable, countSnoc]
  entries := by
    rw [adds.entries, so.entries, entriesSnoc]
    split <;> rfl
  lastLsn := by rw [adds.lastLsn, List.getLast?_concat, Option.map_some]

section Step

variable {τ : Type} [StatusSource τ] {source : τ}

theorem entryTallied (source : τ) (s : AdmitCounts × RedoTable) (e : PendingFile) :
    (RedoTable.replayEntry source s e).1.total = s.1.total + 1 ∧
      (RedoTable.replayEntry source s e).2.enabled = s.2.enabled := by
  unfold RedoTable.replayEntry AdmitCounts.total
  cases judge source e.xid with
  | inDoubt => exact ⟨by dsimp only; omega, RedoTable.enabledEnroll ..⟩
  | beforeHorizon => exact ⟨by dsimp only; omega, rfl⟩
  | ended status => exact ⟨by dsimp only; omega, rfl⟩

theorem entriesTallied (source : τ) (es : List PendingFile) (s : AdmitCounts × RedoTable) :
    (es.foldl (RedoTable.replayEntry source) s).1.total = s.1.total + es.length ∧
      (es.foldl (RedoTable.replayEntry source) s).2.enabled = s.2.enabled := by
  induction es generalizing s with
  | nil => exact ⟨rfl, rfl⟩
  | cons e es ih =>
    obtain ⟨one, still⟩ := entryTallied source s e
    obtain ⟨rest, kept⟩ := ih (RedoTable.replayEntry source s e)
    rw [List.foldl_cons, rest, kept, one, still, List.length_cons]
    exact ⟨by omega, rfl⟩

theorem snapshotTallied {t t' : RedoTable} {payload : ByteArray} {counts : AdmitCounts}
    (replayed : t.replaySnapshot source payload = .ok (counts, t')) (lsn : UInt64) : t'.enabled = t.enabled ∧
      Record.passedOver t.enabled ⟨lsn, .pendingDelete, payload⟩ = false ∧
      counts.total = if t.enabled then entriesOf [⟨lsn, .pendingDelete, payload⟩] else 0 := by
  unfold RedoTable.replaySnapshot at replayed
  cases on : t.enabled with
  | false =>
    rw [on] at replayed
    cases replayed
    exact ⟨on, by simp [Record.passedOver], rfl⟩
  | true =>
    rw [on, if_pos rfl] at replayed
    cases body : Snapshot.decode payload with
    | error damage =>
      rw [body] at replayed
      cases replayed
    | ok es =>
      rw [body] at replayed
      obtain ⟨rfl, rfl⟩ := Prod.mk.inj (Except.ok.inj replayed)
      obtain ⟨total, still⟩ := entriesTallied source es ({}, t)
      refine ⟨still.trans on, by simp [Record.passedOver, RecordBody.ofRecord, body, RecordBody.isDamaged], ?_⟩
      rw [total]
      simp [entriesOf, RecordBody.ofRecord, body, RecordBody.entries, AdmitCounts.total]

theorem snapshotRefusedOnly {t : RedoTable} {payload : ByteArray} {damage : Damage}
    (refused : t.replaySnapshot source payload = .error damage) (lsn : UInt64) :
    Record.passedOver t.enabled ⟨lsn, .pendingDelete, payload⟩ = true ∧
      entriesOf [⟨lsn, .pendingDelete, payload⟩] = 0 := by
  unfold RedoTable.replaySnapshot at refused
  split at refused
  · next on =>
    cases body : Snapshot.decode payload with
    | error damage' =>
      simp [Record.passedOver, on, entriesOf, RecordBody.ofRecord, body, RecordBody.isDamaged, RecordBody.entries]
    | ok es =>
      rw [body] at refused
      cases refused
  · cases refused

theorem stepTallied (p : Replay τ) (r : Record) :
    Adds p.table.enabled r p.stats (p.step r).stats ∧ (p.step r).table.enabled = p.table.enabled := by
  obtain ⟨lsn, kind, payload⟩ := r
  unfold step
  cases kind with
  | pendingDelete =>
    unfold snapshot
    dsimp only
    cases replayed : p.table.replaySnapshot p.source payload with
    | error damage =>
      obtain ⟨damaged, none⟩ := snapshotRefusedOnly replayed lsn
      refine ⟨?_, rfl⟩
      constructor <;> simp [countUndecodable, Record.countsAs, damaged, ReplayStats.entries, none]
    | ok answer =>
      obtain ⟨counts, t⟩ := answer
      obtain ⟨still, counted, total⟩ := snapshotTallied replayed lsn
      refine ⟨?_, still⟩
      constructor <;> simp [Record.countsAs, counted, ReplayStats.entries, ← total, AdmitCounts.total]
      omega
  | commit | abort =>
    unfold completion
    cases body : Completion.decode payload with
    | error damage =>
      refine ⟨?_, rfl⟩
      constructor <;> simp [countUndecodable, Record.countsAs, Record.passedOver, RecordBody.ofRecord, body,
        RecordBody.isDamaged, entriesOf, RecordBody.entries, ReplayStats.entries]
    | ok c =>
      refine ⟨?_, RedoTable.enabledPrune ..⟩
      constructor <;> simp [Record.countsAs, Record.passedOver, RecordBody.ofRecord, body, RecordBody.isDamaged,
        entriesOf, RecordBody.entries, ReplayStats.entries]
  | checkpoint =>
    refine ⟨?_, rfl⟩
    constructor <;> simp [Record.countsAs, Record.passedOver, RecordBody.ofRecord, RecordBody.isDamaged, entriesOf,
      RecordBody.entries, ReplayStats.entries]

theorem runTallied (c : Config) (source : τ) (rs : List Record) :
    Tallied c.enabled rs (rs.foldl step { table := .new c, source := source }).stats ∧
      (rs.foldl step { table := .new c, source := source }).table.enabled = c.enabled := by
  induction rs using List.reverseRecOn with
  | nil =>
    refine ⟨?_, rfl⟩
    constructor <;> simp [ReplayStats.entries, entriesOf]
  | append_singleton rs r ih =>
    obtain ⟨so, still⟩ := ih
    rw [List.foldl_append, List.foldl_cons, List.foldl_nil]
    obtain ⟨adds, next⟩ := stepTallied (rs.foldl step { table := .new c, source := source }) r
    rw [still] at adds next
    exact ⟨so.snoc adds, next⟩

end Step
end Replay
end OrphanFiles
