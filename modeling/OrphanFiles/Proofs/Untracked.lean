import OrphanFiles.Checkpoint
import OrphanFiles.Proofs.Roster
import OrphanFiles.Proofs.Tally

/-!
What is left of the library while nothing is tracked.  The registry only seats processes, and the redo table stays as it
was made; so a replay counts the records and tells the outcomes, and removes nothing.  Main statement: this holds of
every registry, table and recovery that can come about with such settings.
-/
namespace OrphanFiles

open Log

namespace Registry

structure Listless (c : Config) (r : Registry) : Prop where
  enabled : r.enabled = false
  heads : r.heads = #[]
  slots : r.slots = c.maxBackends
  pool : r.pool = .withCapacity 0

section Listless

variable {c : Config} {r : Registry}

theorem newListless (off : c.enabled = false) (made : new c = .ok r) : r.Listless c := by
  obtain ⟨-, made⟩ := newOk made
  simp only [off, Bool.false_eq_true, if_false] at made
  subst made
  exact ⟨rfl, rfl, rfl, rfl⟩

theorem Listless.entries (idle : r.Listless c) : r.entries = [] := by
  rw [Registry.entries, idle.heads]
  rfl

theorem Listless.dump (idle : r.Listless c) : r.dump = .ok none := by
  unfold Registry.dump
  rw [idle.enabled]
  rfl

theorem Listless.length (idle : r.Listless c) (b : Backend) : r.pendingLen b = 0 := by
  unfold pendingLen
  rw [idle.enabled]
  cases b.slot <;> rfl

theorem Listless.add (idle : r.Listless c) (b : Backend) (file : RelFile) (xid : Xid) :
    r.add b file xid = (.ok .invalid, r) := by
  unfold Registry.add
  rw [idle.enabled]
  cases b.slot <;> rfl

theorem Listless.remove (idle : r.Listless c) (b : Backend) (t : Token) : r.remove b t = r := by
  unfold Registry.remove
  rw [idle.enabled]
  cases b.slot <;> rfl

theorem Listless.detach (idle : r.Listless c) (b : Backend) : r.detach b =
    (0, { r with attached := b.slot.elim r.attached fun slot => r.attached.filter (· != slot) }) := by
  unfold Registry.detach
  cases b.slot with
  | none => rfl
  | some slot => simp only [idle.enabled, Bool.false_eq_true, if_false, Option.elim_some]

variable {σ : Type} [RecordLog σ]

theorem Listless.persist (idle : r.Listless c) (s : σ) : r.persist s = .ok none s := by
  unfold Registry.persist
  rw [idle.dump]
  rfl

end Listless
end Registry

namespace Hall

def seating (h : Hall) : List (Option (Option UInt32)) := h.handles.map (·.map Backend.slot)

structure Inert (c : Config) (h : Hall) : Prop where
  inUse : h.registry.pool.inUse = 0
  capacity : h.registry.pool.capacity = 0
  lengths : ∀ b, h.registry.pendingLen b = 0
  dump : h.registry.dump = .ok none
  persists : ∀ {σ : Type} [RecordLog σ] (s : σ), h.registry.persist s = .ok none s
  checkpoints : ∀ {σ : Type} [RecordLog σ] (s : σ), h.registry.checkpoint s =
    (Registry.CheckpointReport.mk none <$> RecordLog.insertDurable .checkpoint .empty : EStateM Error σ _) s
  adds : ∀ n file xid b, h.live n = some b → h.act (.add n file xid) = (.token .invalid, h)
  removes : ∀ n t b, h.live n = some b → h.act (.remove n t) = (.removed, h)
  outside : ∀ id, c.maxBackends ≤ id.toNat → h.act (.attach id) = (.refused (.invalid .backendOutOfRange), h)
  taken : ∀ id n, id.toNat < c.maxBackends → h.live n = some ⟨some id⟩ →
    h.act (.attach id) = (.refused (.invalid (.backendAttached id)), h)
  attaches : ∀ id, id.toNat < c.maxBackends → (∀ n, h.live n ≠ some ⟨some id⟩) →
    (h.act (.attach id)).1 = .handle h.handles.length ∧ (h.act (.attach id)).2.handles = h.handles ++ [some ⟨some id⟩]
  single : ∀ m n id, h.live m = some ⟨some id⟩ → h.live n = some ⟨some id⟩ → m = n
  drops : ∀ n b, h.live n = some b → (h.act (.drop n)).1 = .left 0 ∧ (h.act (.drop n)).2.handles = h.handles.set n none

structure Idle (c : Config) (h : Hall) : Prop where
  listless : h.registry.Listless c
  seats : Seats h.seating h.registry.attached c.maxBackends

section Idle

variable {c : Config} {h : Hall}

theorem seatingAt {n : Nat} {slot : Option UInt32} :
    h.seating[n]? = some (some slot) ↔ h.live n = some ⟨slot⟩ := by
  simp only [seating, List.getElem?_map, live]
  rcases h.handles[n]? with _ | _ | ⟨⟨own⟩⟩ <;> simp

theorem seated {slot : Option UInt32} : some slot ∈ h.seating ↔ ∃ n, h.live n = some ⟨slot⟩ := by
  simp only [List.mem_iff_getElem?, seatingAt]

theorem Idle.inert (idle : h.Idle c) : h.Inert c where
  inUse := by rw [idle.listless.pool]; rfl
  capacity := by rw [idle.listless.pool]; rfl
  lengths := idle.listless.length
  dump := idle.listless.dump
  persists := idle.listless.persist
  checkpoints s := by
    unfold Registry.checkpoint
    simp only [bind, EStateM.bind, idle.listless.persist]
    rfl
  adds n file xid b live := by simp only [act, live, idle.listless.add]
  removes n t b live := by simp only [act, live, idle.listless.remove]
  outside id outside := by
    rw [← idle.listless.slots] at outside
    simp only [act, Registry.attach, if_pos outside]
  taken id n inside live := by
    rw [← idle.listless.slots] at inside
    have taken := (idle.seats.attached id).mpr (seated.mpr ⟨n, live⟩)
    simp only [act, Registry.attach, if_neg (Nat.not_le.mpr inside), if_pos taken]
  attaches id inside none := by
    rw [← idle.listless.slots] at inside
    have free : id ∉ h.registry.attached := fun taken => by
      obtain ⟨n, live⟩ := seated.mp ((idle.seats.attached id).mp taken)
      exact none n live
    simp only [act, Registry.attach, if_neg (Nat.not_le.mpr inside), if_neg free, and_self]
  single m n id left right := idle.seats.single m n id (seatingAt.mpr left) (seatingAt.mpr right)
  drops n b live := by simp only [act, live, idle.listless.detach, and_self]

theorem actIdle (idle : h.Idle c) (q : Request) : (h.act q).2.Idle c := by
  cases q with
  | attach id =>
    unfold act Registry.attach
    by_cases outside : h.registry.slots ≤ id.toNat
    · simpa only [if_pos outside] using idle
    · by_cases taken : id ∈ h.registry.attached
      · simpa only [if_neg outside, if_pos taken] using idle
      · simp only [if_neg outside, if_neg taken]
        have inside := Nat.lt_of_not_le outside
        rw [idle.listless.slots] at inside
        refine ⟨{ idle.listless with }, ?_⟩
        rw [seating, List.map_append]
        exact idle.seats.take inside taken
  | attachAuxiliary =>
    refine ⟨idle.listless, ?_⟩
    rw [act, seating, List.map_append]
    exact idle.seats.auxiliary
  | add n file xid =>
    cases live : h.live n with
    | none => simpa only [act, live] using idle
    | some b => simpa only [act, live, idle.listless.add] using idle
  | remove n t =>
    cases live : h.live n with
    | none => simpa only [act, live] using idle
    | some b => simpa only [act, live, idle.listless.remove] using idle
  | drop n =>
    cases live : h.live n with
    | none => simpa only [act, live] using idle
    | some b =>
      simp only [act, live, idle.listless.detach]
      refine ⟨{ idle.listless with }, ?_⟩
      rw [seating, List.map_set]
      refine idle.seats.leave (seatingAt.mpr live) _ fun id => ?_
      cases b.slot with
      | none => simp
      | some slot => simp [and_comm, bne_iff_ne]

theorem runIdle (idle : h.Idle c) (requests : List Request) : (h.run requests).Idle c := by
  induction requests generalizing h with
  | nil => exact idle
  | cons q qs ih => exact ih (actIdle idle q)

theorem newIdle (off : c.enabled = false) {r : Registry} (made : Registry.new c = .ok r) : Idle c ⟨r, []⟩ := by
  refine ⟨Registry.newListless off made, ?_⟩
  obtain ⟨-, rfl⟩ := Registry.newOk made
  exact Seats.empty

end Idle
end Hall

namespace RedoTable

inductive Leads : RedoTable → RedoTable → Prop where
  | none {t} : Leads t t
  | enrolled {t t'} (e : PendingFile) (before : Leads t t') : Leads t (t'.enroll e)
  | replayed {t t' t'' counts} {τ : Type} [StatusSource τ] (source : τ) (payload : ByteArray) (before : Leads t t')
      (done : t'.replaySnapshot source payload = .ok (counts, t'')) : Leads t t''
  | pruned {t t'} (c : Completion) (before : Leads t t') : Leads t (t'.prune c).2
  | finalized {t t'} {τ σ : Type} [StatusSource τ] [FileDropper σ] (source : τ) (files : σ) (before : Leads t t') :
      Leads t (t'.finalize source files).1.2

structure Inert (t : RedoTable) : Prop where
  inactive : t.isActive = false
  size : t.size = 0
  files : ∀ x, t.files x = []
  enrolls : ∀ e, t.enroll e = t
  replays : ∀ {τ : Type} [StatusSource τ] (source : τ) (payload : ByteArray),
    t.replaySnapshot source payload = .ok ({}, t)
  prunes : ∀ c, t.prune c = (0, t)
  finalizes : ∀ {τ σ : Type} [StatusSource τ] [FileDropper σ] (source : τ) (files : σ),
    t.finalize source files = (({}, t), files)

variable {c : Config}

theorem newInert (off : c.enabled = false) : (new c).Inert where
  inactive := rfl
  size := rfl
  files x := rfl
  enrolls e := by simp [enroll, new, off]
  replays source payload := by simp [replaySnapshot, new, off]
  prunes x := rfl
  finalizes source files := rfl

theorem Leads.same {t t' : RedoTable} (inert : t.Inert) (leads : Leads t t') : t' = t := by
  induction leads with
  | none => rfl
  | enrolled e before ih => rw [ih, inert.enrolls]
  | replayed source payload before done ih =>
    rw [ih, inert.replays] at done
    cases done
    rfl
  | pruned x before ih => rw [ih, inert.prunes]
  | finalized source files before ih => rw [ih, inert.finalizes]

end RedoTable

namespace Replay

structure Untracked (rs : List Record) (stats : ReplayStats) : Prop where
  records : stats.records = rs.length
  snapshots : stats.snapshots = rs.countP (·.kind = .pendingDelete)
  commits : stats.commits = rs.countP fun r => r.kind = .commit ∧ r.told? ≠ none
  aborts : stats.aborts = rs.countP fun r => r.kind = .abort ∧ r.told? ≠ none
  checkpoints : stats.checkpoints = rs.countP (·.kind = .checkpoint)
  undecodable : stats.undecodable = rs.countP fun r => (r.kind = .commit ∨ r.kind = .abort) ∧ r.told? = none
  lastLsn : stats.lastLsn = rs.getLast?.map (·.lsn)
  admitted : stats.entriesAdmitted = 0
  beforeHorizon : stats.beforeHorizon = 0
  ended : stats.ended = 0
  pruned : stats.pruned = 0

def told {τ : Type} [StatusSource τ] (source : τ) (rs : List Record) : τ :=
  (rs.filterMap Record.told?).foldl (fun source (c, s) => StatusSource.complete source c s) source

section Step

variable {τ : Type} [StatusSource τ]

theorem toldOne (source : τ) (r : Record) :
    told source [r] = r.told?.elim source fun (c, s) => StatusSource.complete source c s := by
  unfold told
  cases h : r.told? <;> simp [h]

theorem toldCons (source : τ) (r : Record) (rs : List Record) : told source (r :: rs) = told (told source [r]) rs := by
  unfold told
  cases h : r.told? <;> simp [h]

theorem stepInert {p : Replay τ} (inert : p.table.Inert) (r : Record) : (p.step r).table = p.table ∧
    (p.step r).source = told p.source [r] ∧ (p.step r).stats.pruned = p.stats.pruned := by
  rw [toldOne]
  obtain ⟨lsn, kind, payload⟩ := r
  unfold step
  cases kind with
  | pendingDelete => simp [snapshot, inert.replays, Record.told?]
  | commit | abort =>
    cases body : Completion.decode payload with
    | error damage => simp [completion, body, Record.told?, countUndecodable]
    | ok x => simp [completion, body, Record.told?, inert.prunes]
  | checkpoint => simp [Record.told?]

theorem runInert {p : Replay τ} (inert : p.table.Inert) (rs : List Record) : (rs.foldl step p).table = p.table ∧
    (rs.foldl step p).source = told p.source rs ∧ (rs.foldl step p).stats.pruned = p.stats.pruned := by
  induction rs generalizing p with
  | nil => exact ⟨rfl, rfl, rfl⟩
  | cons r rs ih =>
    obtain ⟨table, source, pruned⟩ := stepInert inert r
    obtain ⟨table', source', pruned'⟩ := ih (table ▸ inert)
    rw [List.foldl_cons, table', source', pruned', table, source, pruned, toldCons p.source r rs]
    exact ⟨rfl, rfl, rfl⟩

end Step

theorem damagedUntold (r : Record) : r.passedOver false = ((r.kind = .commit ∨ r.kind = .abort) ∧ r.told? = none) := by
  obtain ⟨lsn, kind, payload⟩ := r
  unfold Record.passedOver Record.told? RecordBody.ofRecord
  cases kind with
  | pendingDelete => simp
  | commit | abort => cases Completion.decode payload <;> simp [RecordBody.isDamaged]
  | checkpoint => simp [RecordBody.isDamaged]

theorem countsEnded (kind : Kind) (r : Record) : r.countsAs false kind =
    decide (r.kind = kind ∧ (kind = .commit ∨ kind = .abort → r.told? ≠ none)) := by
  rw [Bool.eq_iff_iff, Record.countsAs, Bool.and_eq_true, Bool.not_eq_true', ← Bool.not_eq_true, damagedUntold,
    decide_eq_true_iff, decide_eq_true_iff]
  refine and_congr_right fun same => ?_
  rw [same, not_and]

theorem untrackedOf {rs : List Record} {stats : ReplayStats} (so : Tallied false rs stats) (pruned : stats.pruned = 0) :
    Untracked rs stats := by
  have entries := so.entries
  simp only [ReplayStats.entries, Bool.false_eq_true, if_false] at entries
  have counts (kind : Kind) : rs.countP (·.countsAs false kind) =
      rs.countP fun r => r.kind = kind ∧ (kind = .commit ∨ kind = .abort → r.told? ≠ none) :=
    List.countP_congr fun r _ => by rw [countsEnded]
  have damaged : rs.countP (·.passedOver false) =
      rs.countP fun r => (r.kind = .commit ∨ r.kind = .abort) ∧ r.told? = none :=
    List.countP_congr fun r _ => by rw [damagedUntold, decide_eq_true_iff]
  refine ⟨so.records, so.snapshots.trans ?_, so.commits.trans ?_, so.aborts.trans ?_, so.checkpoints.trans ?_,
    so.undecodable.trans damaged, so.lastLsn, by omega, by omega, by omega, pruned⟩
  all_goals simp [counts]

end Replay

namespace Site

variable {τ σ : Type} [StatusSource τ] [FileDropper σ]

theorem recoverInert {c : Config} (off : c.enabled = false) (log : OpenLog) (source : τ) (files : σ)
    (rs : List Record) :
    (∃ stats, recoverFrom c (rs.map .ok) ⟨log, source, files⟩ = .ok ⟨stats, {}⟩ ⟨log, Replay.told source rs, files⟩ ∧
      Replay.Untracked rs stats) ∧
    ∀ e rest, recoverFrom c (rs.map .ok ++ .error e :: rest) ⟨log, source, files⟩ =
      .error e ⟨log, Replay.told source rs, files⟩ := by
  have inert : (RedoTable.new c).Inert := RedoTable.newInert off
  obtain ⟨table, told, pruned⟩ := Replay.runInert (p := { table := .new c, source := source }) inert rs
  have so := (Replay.runTallied c source rs).1
  rw [off] at so
  refine ⟨⟨_, ?_, Replay.untrackedOf so pruned⟩, fun e rest => ?_⟩
  · rw [recoverFromRead c log source files rs rfl, table, inert.finalizes, told]
  · unfold recoverFrom
    simp only [Replay.runBroken, told]

structure Inert (c : Config) (log : OpenLog) (source : τ) (files : σ) : Prop where
  whole : ∀ rs, ∃ stats, recoverFrom c (rs.map .ok) ⟨log, source, Observed.mk files []⟩ =
    .ok ⟨stats, {}⟩ ⟨log, Replay.told source rs, ⟨files, []⟩⟩ ∧ Replay.Untracked rs stats
  cut : ∀ rs e rest, recoverFrom c (rs.map .ok ++ .error e :: rest) ⟨log, source, Observed.mk files []⟩ =
    .error e ⟨log, Replay.told source rs, ⟨files, []⟩⟩
  unread : ∀ e log', OpenLog.readThrough log = .error e log' →
    recover c ⟨log, source, Observed.mk files []⟩ = .error e ⟨log', source, ⟨files, []⟩⟩
  broken : ∀ scan log' e, OpenLog.readThrough log = .ok scan log' → scan.failure = some e →
    recover c ⟨log, source, Observed.mk files []⟩ =
      .error e ⟨log', Replay.told source scan.records, ⟨files, []⟩⟩
  read : ∀ scan log', OpenLog.readThrough log = .ok scan log' → scan.failure = none → ∃ stats,
    recover c ⟨log, source, Observed.mk files []⟩ =
      .ok ⟨stats, {}⟩ ⟨log', Replay.told source scan.records, ⟨files, []⟩⟩ ∧ Replay.Untracked scan.records stats

theorem untrackedInert {c : Config} (off : c.enabled = false) (log : OpenLog) (source : τ) (files : σ) :
    Inert c log source files where
  whole rs := (recoverInert off log source (Observed.mk files []) rs).1
  cut rs := (recoverInert off log source (Observed.mk files []) rs).2
  unread e log' failed := by rw [recoverThrough, failed]
  broken scan log' e read failed := by
    have stream : scan.stream = scan.records.map .ok ++ [.error e] := by
      rw [Log.Reader.Scan.stream, failed]
      rfl
    rw [recoverThrough, read]
    simp only [stream]
    exact (recoverInert off log' source (Observed.mk files []) scan.records).2 e []
  read scan log' read clean := by
    rw [recoverAsRead read clean]
    exact (recoverInert off log' source (Observed.mk files []) scan.records).1

end Site

theorem untrackedIsInert {c : Config} (off : c.enabled = false) (valid : c.validate = .ok ()) :
    (∃ r, Registry.new c = .ok r ∧ ∀ requests, (Hall.run ⟨r, []⟩ requests).Inert c) ∧
    (∀ t, RedoTable.Leads (.new c) t → t.Inert) ∧
    ∀ {τ σ : Type} [StatusSource τ] [FileDropper σ] (log : OpenLog) (source : τ) (files : σ),
      Site.Inert c log source files := by
  refine ⟨?_, fun t leads => ?_, fun log source files => Site.untrackedInert off log source files⟩
  · obtain ⟨r, made⟩ : ∃ r, Registry.new c = .ok r := by
      unfold Registry.new
      rw [valid]
      exact ⟨_, rfl⟩
    exact ⟨r, made, fun requests => (Hall.runIdle (Hall.newIdle off made) requests).inert⟩
  · rw [leads.same (RedoTable.newInert off)]
    exact RedoTable.newInert off

theorem bootstrapIsInert : ∃ c : Config, c.track = true ∧ c.bootstrap = true ∧ c.enabled = false ∧ c.validate = .ok () ∧
    (∃ r, Registry.new c = .ok r ∧ (Hall.run ⟨r, []⟩ [.attach 0, .add 0 ⟨⟨1663, 5, 1⟩, false⟩ ⟨7⟩, .drop 0]).Inert c) ∧
    (RedoTable.enroll (.new c) ⟨⟨⟨1663, 5, 1⟩, false⟩, ⟨7⟩⟩).Inert := by
  obtain ⟨⟨r, made, halls⟩, tables, -⟩ := untrackedIsInert (c := { bootstrap := true }) rfl rfl
  exact ⟨_, rfl, rfl, rfl, rfl, ⟨r, made, halls _⟩, tables _ (.enrolled _ .none)⟩

end OrphanFiles
