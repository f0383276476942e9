import OrphanFiles.Proofs.Bodies
import OrphanFiles.Proofs.Opening
import OrphanFiles.Proofs.Untracked

/-!
When a checkpoint fails although its log does not.  Two limits stand in its way: the room that the settings ask for at
first, and the size of a record.  Main statement: there are no others, and a checkpoint that is refused leaves the log
as it was, while one that is made puts all entries and a marker behind the records.
-/
namespace OrphanFiles

open Log

namespace OpenLog

structure Backs (s : OpenLog) (held : List Record) : Prop where
  knows : s.log.Knows held
  bytes : s.device.file.content.bytes = s.log.header.encode ++ chain firstLink held
  faultless : s.device.faults = []
  alone : s.arriving = none

/- How a log comes about on whose file no call fails, with the records that it holds. -/
inductive Reached : OpenLog → List Record → Prop where
  | opened {f salt start log d held} (done : Log.load salt start ⟨f, []⟩ = .ok log d)
      (found : Found d.file.content.bytes salt log.header held d.file.content.bytes.size) :
      Reached ⟨⟨d.file, []⟩, log, none⟩ held
  | appended {s s' held kind payload lsn} (before : Reached s held) (done : append kind payload s = .ok lsn s') :
      Reached s' (held ++ [⟨lsn, kind, payload⟩])
  | synced {s s' held} (before : Reached s held) (done : sync s = .ok () s') : Reached s' held
  | flushed {s s' held upto} (before : Reached s held) (done : flush upto s = .ok () s') : Reached s' held
  | read {s s' held scan} (before : Reached s held) (done : readThrough s = .ok scan s') : Reached s' held

section Steps

variable {s s' : OpenLog} {held : List Record} {kind : Kind} {payload : ByteArray}

theorem rebuiltKnows {bytes : ByteArray} {salt : UInt64} {h : Header} {limit : Nat}
    (found : Found bytes salt h held limit) (torn : Nat) : (rebuilt h held limit torn).Knows held where
  offset := by
    have size := congrArg ByteArray.size found.bytesEq
    rw [ByteArray.size_extract, ByteArray.size_append, Header.sizeEncode] at size
    have inside := found.spells.inside
    show limit = _
    omega
  link := rfl
  next := rfl
  small r member := (found.spells.admitted r member).small

theorem openedBacks {f : File} {salt start : UInt64} {log : Log} {d : Device}
    (done : Log.load salt start ⟨f, []⟩ = .ok log d)
    (found : Found d.file.content.bytes salt log.header held d.file.content.bytes.size) :
    Backs ⟨⟨d.file, []⟩, log, none⟩ held := by
  obtain ⟨h, rs, torn, rfl, other, -⟩ := loadLeaves (by simp [Device.Armed]) done
  obtain ⟨-, rfl, -⟩ := found.unique other
  have bytes := other.bytesEq
  rw [ByteArray.extract_zero_size] at bytes
  exact ⟨rebuiltKnows other torn, bytes, rfl, rfl⟩

theorem appendBacks (backs : s.Backs held) (kind : Kind) (small : payload.size ≤ maxPayload) : ∃ s',
    append kind payload s = .ok s.log.nextLsn s' ∧ s'.Backs (held ++ [⟨s.log.nextLsn, kind, payload⟩]) ∧
      s'.log.header = s.log.header ∧ s'.log.nextLsn = s.log.nextLsn + 1 := by
  have struck : ArmedFault.strike .write s.device.faults = (none, []) := by rw [backs.faultless]; rfl
  have bytes := backs.knows.written backs.bytes ⟨s.log.nextLsn, kind, payload⟩
  have done := appendWrites kind small struck
  -- under a name, the new content stays out of what is unfolded for the append
  generalize Content.overwrite _ _ s.device.file.content = content at bytes done
  exact ⟨_, done, ⟨appendKnows backs.knows done, bytes, rfl, backs.alone⟩, rfl, rfl⟩

theorem syncBacks (backs : s.Backs held) : ∃ s', sync s = .ok () s' ∧ s'.Backs held ∧ s'.log.header = s.log.header ∧
    s'.log.nextLsn = s.log.nextLsn := by
  have struck : ArmedFault.strike .sync s.device.faults = (none, []) := by rw [backs.faultless]; rfl
  have knows := backs.knows
  exact ⟨_, syncDone backs.alone struck, ⟨⟨knows.offset, knows.link, knows.next, knows.small⟩, backs.bytes, rfl,
    backs.alone⟩, rfl, rfl⟩

theorem flushBacks (backs : s.Backs held) (upto : UInt64) : ∃ s', flush upto s = .ok () s' ∧ s'.Backs held ∧
    s'.log.header = s.log.header ∧ s'.log.nextLsn = s.log.nextLsn := by
  by_cases known : ∃ done, s.log.flushed = some done ∧ upto ≤ done
  · obtain ⟨done, known, enough⟩ := known
    exact ⟨s, flushKnown known enough, backs, rfl, rfl⟩
  · rw [flushSyncs fun done known' enough => known ⟨done, known', enough⟩]
    exact syncBacks backs

theorem readBacks (backs : s.Backs held) : ∃ scan, readThrough s = .ok scan s := by
  have quiet (op : FileOp) : s.device.Quiet op := by simp [Device.Quiet, backs.faultless]
  have long : Sealed.size ≤ s.device.file.content.bytes.size := by
    rw [backs.bytes, ByteArray.size_append, Header.sizeEncode]
    exact Nat.le_add_right ..
  obtain ⟨r, made⟩ : ∃ r, Reader.new s.log.header s.device = .ok r s.device :=
    ⟨_, newQuiet (by simp [Device.Readable, backs.faultless]) rfl long⟩
  obtain ⟨scan, drained⟩ : ∃ scan, r.drain s.device = .ok scan s.device := ⟨_, Reader.drainFromEq (quiet .read) _ _⟩
  exact ⟨scan, by simp only [readThrough, reader, drain, bind, EStateM.bind, getOk, onDevice, made, drained]⟩

theorem Reached.backs (reached : s.Reached held) : s.Backs held := by
  induction reached with
  | opened done found => exact openedBacks done found
  | appended before done ih =>
    obtain ⟨small, rfl, -⟩ := appendOk done
    obtain ⟨s', done', backs, -⟩ := appendBacks ih _ small
    cases done.symm.trans done'
    exact backs
  | synced before done ih =>
    obtain ⟨s', done', backs, -⟩ := syncBacks ih
    cases done.symm.trans done'
    exact backs
  | flushed before done ih =>
    obtain ⟨s', done', backs, -⟩ := flushBacks ih _
    cases done.symm.trans done'
    exact backs
  | read before done ih =>
    obtain ⟨scan, done'⟩ := readBacks ih
    cases done.symm.trans done'
    exact ih

structure Gains (s : OpenLog) (held new : List Record) (s' : OpenLog) : Prop where
  header : s'.log.header = s.log.header
  reached : s'.Reached (held ++ new)
  bytes : s'.device.file.content.bytes = s.device.file.content.bytes ++ chain s.log.link new
  found : (∀ r ∈ held ++ new, s.log.header.start ≤ r.lsn) →
    Found s'.device.file.content.bytes s.log.header.salt s.log.header (held ++ new) s'.device.file.content.bytes.size

theorem gainsOf {new : List Record} (before : s.Reached held) (after : s'.Reached (held ++ new))
    (header : s'.log.header = s.log.header) : s.Gains held new s' := by
  have whole := after.backs.bytes
  rw [header] at whole
  refine ⟨header, after, ?_, fun recent => ?_⟩
  · rw [whole, before.backs.bytes, before.backs.knows.link, chainAppend, ByteArray.append_assoc]
  · exact foundWhole rfl (fun r member => ⟨recent r member, after.backs.knows.small r member⟩) whole

theorem insertReached (reached : s.Reached held) (kind : Kind) (payload : ByteArray)
    (small : payload.size ≤ maxPayload) : ∃ s', RecordLog.insertDurable kind payload s = .ok s.log.nextLsn s' ∧
      s'.Reached (held ++ [⟨s.log.nextLsn, kind, payload⟩]) ∧ s'.log.header = s.log.header ∧
      s'.log.nextLsn = s.log.nextLsn + 1 := by
  obtain ⟨s₁, appended, backs, header, next⟩ := appendBacks reached.backs kind small
  obtain ⟨s', flushed, -, header', next'⟩ := flushBacks backs s.log.nextLsn
  refine ⟨s', ?_, .flushed (.appended reached appended) flushed, header'.trans header, next'.trans next⟩
  simp only [RecordLog.insertDurable, RecordLog.insert, RecordLog.flush, bind, EStateM.bind, appended, flushed]
  rfl

theorem insertTooLarge (large : maxPayload < payload.size) :
    RecordLog.insertDurable kind payload s = .error (.invalid .payloadTooLarge) s := by
  simp only [RecordLog.insertDurable, RecordLog.insert, bind, EStateM.bind, appendTooLarge large]

end Steps

theorem freshReached (salt start : UInt64) : ∃ s : OpenLog, s.log = fresh ⟨salt, start⟩ ∧ s.Reached [] := by
  obtain ⟨content, loaded, held⟩ := loadFresh (d := ⟨.empty, []⟩) salt start (by simp [Device.Readable]) (by decide)
    (show ArmedFault.strike .write [] = (none, []) from rfl)
  exact ⟨_, rfl, .opened loaded (foundWhole rfl (by simp) held.bytes)⟩

end OpenLog

theorem Roster.sizeListed {R : Roster} {slot : UInt32} (inside : slot.toNat < R.lists.length)
    (x : Token × PendingFile) (issued : List Token) :
    size { R.setRow slot (x :: R.row slot) with issued } = R.size + 1 := by
  have size := Registry.lengthSet inside (x :: R.row slot)
  rw [List.length_cons] at size
  change (R.lists.set slot.toNat (x :: R.row slot)).flatten.length = _
  change _ + (R.row slot).length = R.size + _ at size
  omega

namespace Hall

variable {c : Config}

theorem addsListed {h : Hall} {R : Roster} (follows : h.Follows c R) {slot : UInt32}
    (live : R.live 0 = some (some slot)) (file : RelFile) {xid : Xid} (valid : xid.isValid = true) {n : Nat}
    (room : R.size + n ≤ c.poolNodes) :
    ∃ R', (h.run (List.replicate n (.add 0 file xid))).Follows c R' ∧ R'.size = R.size + n := by
  induction n generalizing h R with
  | zero => exact ⟨R, follows, rfl⟩
  | succ n ih =>
    obtain ⟨R', step, next⟩ := actFollows follows (.add 0 file xid)
    generalize (h.act (.add 0 file xid)).1 = reply at step
    cases step with
    | listed live' =>
      rw [live] at live'
      cases live'
      have inside : slot.toNat < R.lists.length := by
        refine follows.seats.inside slot (List.mem_of_getElem? (i := 0) ?_)
        simpa [Roster.live, Option.join_eq_some_iff] using live
      obtain ⟨R'', follows, size⟩ := ih next live (by rw [Roster.sizeListed inside]; omega)
      refine ⟨R'', follows, size.trans ?_⟩
      rw [Roster.sizeListed inside]
      omega
    | full live' valid' full => omega
    | unlisted live' nothing =>
      rw [live] at live'
      cases live'
      simp [valid] at nothing
    | gone names gone =>
      cases names
      rw [live] at gone
      contradiction

theorem runFilled {r : Registry} (made : Registry.new c = .ok r) (on : c.enabled = true) {n : Nat}
    (room : n ≤ c.poolNodes) (file : RelFile) {xid : Xid} (valid : xid.isValid = true) :
    (run ⟨r, []⟩ (.attach 0 :: List.replicate n (.add 0 file xid))).registry.entries.length = n := by
  obtain ⟨slots, -⟩ := Config.validateOk.mp (Registry.newOk made).1
  obtain ⟨R, step, follows⟩ := actFollows (newFollows made on) (.attach 0)
  generalize (act ⟨r, []⟩ (.attach 0)).1 = reply at step
  cases step with
  | attached inside idle =>
    have live : Roster.live { Roster.empty c.maxBackends with handles := [some (some 0)] } 0 = some (some 0) := rfl
    obtain ⟨R', follows, size⟩ := addsListed follows live file valid (n := n) (by
      simpa [Roster.size, Roster.empty] using room)
    rw [run, Registry.entriesListed follows.mirrors, List.length_map]
    exact size.trans (by simp [Roster.size, Roster.empty])
  | outside outside =>
    simp [Roster.empty] at outside
    omega
  | taken inside taken => simp [Roster.empty] at taken
  | gone names gone => cases names

end Hall

namespace Registry

open Snapshot (maxAllocation slotSize)

structure Dumps (c : Config) (r : Registry) : Prop where
  nothing : r.entries = [] → r.dump = .ok none
  refused : r.entries ≠ [] → maxAllocation < c.initialEntries * slotSize →
    r.dump = .error (.bufferExhausted (Config.saturate c.initialEntries))
  dumped : r.entries ≠ [] → c.initialEntries * slotSize ≤ maxAllocation →
    ∃ b, r.dump = .ok (some b) ∧ b.entries.toList = r.entries
  few : r.entries.length < 0x100000000
  counted : r.pool.inUse = r.entries.length

theorem runDumps {c : Config} {r : Registry} (made : new c = .ok r) (requests : List Request) :
    (Hall.run ⟨r, []⟩ requests).registry.Dumps c := by
  obtain ⟨valid, -⟩ := newOk made
  obtain ⟨-, -, -, -, positive⟩ := Config.validateOk.mp valid
  cases on : c.enabled with
  | true =>
    obtain ⟨R, follows⟩ := Hall.runFollows (Hall.newFollows made on) requests
    have shows := follows.shows positive
    have entries := entriesListed follows.mirrors
    have listed : (Hall.run ⟨r, []⟩ requests).registry.entries = [] ↔ R.lists.flatten = [] := by
      rw [entries, List.map_eq_nil_iff]
    refine ⟨fun none => shows.nothing (listed.mp none), fun some => shows.refused (mt listed.mpr some),
      fun some fits => ?_, entriesFew follows.mirrors, ?_⟩
    · rw [entries]
      exact shows.dumped (mt listed.mpr some) fits
    · rw [entries, List.length_map]
      exact follows.mirrors.counted
  | false =>
    have idle := Hall.runIdle (Hall.newIdle on made) requests
    have none := idle.listless.entries
    exact ⟨fun _ => idle.listless.dump, fun some => absurd none some, fun some => absurd none some, by simp [none],
      by rw [none]; exact idle.inert.inUse⟩

section Persist

variable {r : Registry} {s : OpenLog}

theorem persistNothing (dumped : r.dump = .ok none) : r.persist s = .ok none s := by
  unfold persist
  rw [dumped]
  rfl

theorem checkpointMarks {s₁ s₂ : OpenLog} {snapshot : Option UInt64} {marker : UInt64}
    (persisted : r.persist s = .ok snapshot s₁)
    (marked : RecordLog.insertDurable .checkpoint .empty s₁ = .ok marker s₂) :
    r.checkpoint s = .ok ⟨snapshot, marker⟩ s₂ := by
  simp only [checkpoint, bind, EStateM.bind, persisted, marked]
  rfl

theorem checkpointStops {s' : OpenLog} {e : Error} (failed : r.persist s = .error e s') :
    r.checkpoint s = .error e s' := by
  simp only [checkpoint, bind, EStateM.bind, failed]

theorem persistStops {e : Error} (refused : r.dump = .error e) : r.persist s = .error e s := by
  unfold persist
  rw [refused]
  rfl

theorem persistEncodes {b : Snapshot.Buffer} (dumped : r.dump = .ok (some b)) (listed : b.entries.toList = r.entries) :
    r.persist s = (some <$> RecordLog.insertDurable .pendingDelete (Snapshot.encode r.entries) : LogM _) s := by
  unfold persist
  rw [dumped, ← listed]

end Persist

structure Checkpoints (c : Config) (r : Registry) (s : OpenLog) (held : List Record) : Prop where
  counted : r.pool.inUse = r.entries.length
  exhausted : r.entries ≠ [] → maxAllocation < c.initialEntries * slotSize →
    r.checkpoint s = .error (.bufferExhausted (Config.saturate c.initialEntries)) s
  tooLarge : r.entries ≠ [] → c.initialEntries * slotSize ≤ maxAllocation →
    maxPayload < Snapshot.encodedSize r.entries.length → r.checkpoint s = .error (.invalid .payloadTooLarge) s
  stored : r.entries ≠ [] → c.initialEntries * slotSize ≤ maxAllocation →
    Snapshot.encodedSize r.entries.length ≤ maxPayload → ∃ s',
      r.checkpoint s = .ok ⟨some s.log.nextLsn, s.log.nextLsn + 1⟩ s' ∧
      s.Gains held [⟨s.log.nextLsn, .pendingDelete, Snapshot.encode r.entries⟩,
        ⟨s.log.nextLsn + 1, .checkpoint, .empty⟩] s' ∧
      Snapshot.decode (Snapshot.encode r.entries) = .ok r.entries
  marked : r.entries = [] → ∃ s', r.checkpoint s = .ok ⟨none, s.log.nextLsn⟩ s' ∧
    s.Gains held [⟨s.log.nextLsn, .checkpoint, .empty⟩] s'

theorem checkpointOutcomes {c : Config} {r : Registry} {s : OpenLog} {held : List Record} (dumps : r.Dumps c)
    (reached : s.Reached held) : r.Checkpoints c s held where
  counted := dumps.counted
  exhausted some beyond := checkpointStops (persistStops (dumps.refused some beyond))
  tooLarge some fits large := by
    obtain ⟨b, dumped, listed⟩ := dumps.dumped some fits
    refine checkpointStops ?_
    rw [persistEncodes dumped listed]
    simp only [Functor.map, EStateM.map, OpenLog.insertTooLarge (Snapshot.sizeEncode r.entries ▸ large)]
  stored some fits small := by
    obtain ⟨b, dumped, listed⟩ := dumps.dumped some fits
    obtain ⟨s₁, inserted, reached₁, header₁, next₁⟩ :=
      OpenLog.insertReached reached .pendingDelete _ (Snapshot.sizeEncode r.entries ▸ small)
    obtain ⟨s', marked, reached', header', -⟩ :=
      OpenLog.insertReached reached₁ .checkpoint .empty (Nat.zero_le maxPayload)
    have persisted : r.persist s = .ok (.some s.log.nextLsn) s₁ := by
      rw [persistEncodes dumped listed]
      simp only [Functor.map, EStateM.map, inserted]
    rw [next₁] at marked reached'
    rw [List.append_assoc] at reached'
    exact ⟨s', checkpointMarks persisted marked, OpenLog.gainsOf reached reached' (header'.trans header₁),
      Snapshot.decodeEncode (Nat.lt_trans dumps.few (by decide))⟩
  marked none := by
    obtain ⟨s', marked, reached', header, -⟩ :=
      OpenLog.insertReached reached .checkpoint .empty (Nat.zero_le maxPayload)
    exact ⟨s', checkpointMarks (persistNothing (dumps.nothing none)) marked, OpenLog.gainsOf reached reached' header⟩

/-- On a log whose calls do not fail, a checkpoint fails only if there are entries to store and the settings ask for
more room at first than one allocation can have, or the entries take more than one record can hold.  It then leaves the
log as it was. -/
theorem checkpointFailsAtLimits {c : Config} {r : Registry} (made : new c = .ok r) (requests : List Request)
    {s : OpenLog} {held : List Record} (reached : s.Reached held) :
    (Hall.run ⟨r, []⟩ requests).registry.Checkpoints c s held :=
  checkpointOutcomes (runDumps made requests) reached

def oneAdded : List Request := [.attach 0, .add 0 ⟨⟨1663, 5, 100⟩, false⟩ ⟨10⟩]

theorem checkpointStoresOne : ∃ r, ∃ s : OpenLog, new (.compact 2 4) = .ok r ∧ s.Reached [] ∧
    (Hall.run ⟨r, []⟩ oneAdded).registry.entries = [⟨⟨⟨1663, 5, 100⟩, false⟩, ⟨10⟩⟩] ∧
    (Hall.run ⟨r, []⟩ oneAdded).registry.Checkpoints (.compact 2 4) s [] := by
  obtain ⟨s, -, reached⟩ := OpenLog.freshReached 3 1
  exact ⟨_, s, rfl, reached, rfl, checkpointFailsAtLimits rfl oneAdded reached⟩

def vast : Config := { maxBackends := 2, poolNodes := 4, initialEntries := 0x1000000000000000 }

def wide : Config := { maxBackends := 2, poolNodes := 0x400000 }

def manyAdded : List Request := .attach 0 :: List.replicate 0x333333 (.add 0 ⟨⟨1663, 5, 100⟩, false⟩ ⟨10⟩)

theorem checkpointStopsEarly :
    (∃ r, ∃ s : OpenLog, vast.validate = .ok () ∧ new vast = .ok r ∧ s.Reached [] ∧
      (Hall.run ⟨r, []⟩ oneAdded).registry.entries = [⟨⟨⟨1663, 5, 100⟩, false⟩, ⟨10⟩⟩] ∧
      (Hall.run ⟨r, []⟩ oneAdded).registry.checkpoint s = .error (.bufferExhausted 0x1000000000000000) s) ∧
    ∃ r, ∃ s : OpenLog, wide.validate = .ok () ∧ new wide = .ok r ∧ s.Reached [] ∧
      (Hall.run ⟨r, []⟩ manyAdded).registry.checkpoint s = .error (.invalid .payloadTooLarge) s := by
  obtain ⟨s, -, reached⟩ := OpenLog.freshReached 3 1
  refine ⟨⟨_, s, rfl, rfl, reached, rfl, checkpointStops (persistStops rfl)⟩, _, s, rfl, rfl, reached, ?_⟩
  have filled : (Hall.run ⟨_, []⟩ manyAdded).registry.entries.length = 0x333333 :=
    Hall.runFilled (c := wide) rfl rfl (by decide) ⟨⟨1663, 5, 100⟩, false⟩ (show Xid.isValid ⟨10⟩ = true from rfl)
  refine (checkpointOutcomes (runDumps (c := wide) rfl manyAdded) reached).tooLarge ?_ (by decide) ?_
  · intro none
    rw [none] at filled
    contradiction
  · rw [filled]
    decide

end Registry
end OrphanFiles
