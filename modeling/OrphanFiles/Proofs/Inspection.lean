import OrphanFiles.Proofs.Rerun
import OrphanFiles.Proofs.Tally

/-!
What the description of a log says of its recovery.  Both go by the records that the file says, so one of them fails
where the other does, and what the description lists is what the recovery counts.  Main statement: the recovery's counts
are those of the description, and what follows the records is cut off.
-/
namespace OrphanFiles

open Log

namespace RecordSummary

def decodedAs (kind : Kind) (r : RecordSummary) : Bool := r.kind = kind && !r.body.isDamaged

theorem damagedOf (r : Record) : (ofRecord r).body.isDamaged = r.passedOver true := by
  rw [Record.passedOver, Bool.true_or, Bool.and_true]
  rfl

theorem decodedOf (kind : Kind) (r : Record) : decodedAs kind (.ofRecord r) = r.countsAs true kind := by
  rw [decodedAs, damagedOf]
  rfl

end RecordSummary

namespace Inspection

/- The counts of a recovery, by what is listed in the description of its log. -/
structure Foretells (i : Inspection) (stats : ReplayStats) : Prop where
  records : stats.records = i.records.length
  snapshots : stats.snapshots = i.records.countP (·.decodedAs .pendingDelete)
  commits : stats.commits = i.records.countP (·.decodedAs .commit)
  aborts : stats.aborts = i.records.countP (·.decodedAs .abort)
  checkpoints : stats.checkpoints = i.records.countP (·.decodedAs .checkpoint)
  undecodable : stats.undecodable = i.records.countP (·.body.isDamaged)
  entries : stats.entriesAdmitted + stats.beforeHorizon + stats.ended = i.pendingEntries
  lastLsn : stats.lastLsn = i.records.getLast?.map (·.lsn)

def ofFound (path : String) (size : Nat) (h : Header) (rs : List Record) (limit : Nat) : Inspection :=
  ⟨path, size, h, rs.map .ofRecord, limit⟩

section Counts

variable {path : String} {size limit : Nat} {h : Header} {rs : List Record}

theorem pendingOf : (ofFound path size h rs limit).pendingEntries = entriesOf rs := by
  have sum (n : Nat) : (rs.map RecordSummary.ofRecord).foldl (fun n r => n + r.body.entries.length) n =
      n + entriesOf rs := by
    induction rs generalizing n with
    | nil => rfl
    | cons r rs ih =>
      rw [List.map_cons, List.foldl_cons, ih]
      simp only [entriesOf, List.flatMap_cons, List.length_append, RecordSummary.ofRecord]
      omega
  exact (sum 0).trans (Nat.zero_add _)

theorem foretellsOf {stats : ReplayStats} (so : Replay.Tallied true rs stats) :
    (ofFound path size h rs limit).Foretells stats where
  records := by rw [so.records, ofFound, List.length_map]
  snapshots := by simp only [so.snapshots, ofFound, List.countP_map, Function.comp_def, RecordSummary.decodedOf]
  commits := by simp only [so.commits, ofFound, List.countP_map, Function.comp_def, RecordSummary.decodedOf]
  aborts := by simp only [so.aborts, ofFound, List.countP_map, Function.comp_def, RecordSummary.decodedOf]
  checkpoints := by simp only [so.checkpoints, ofFound, List.countP_map, Function.comp_def, RecordSummary.decodedOf]
  undecodable := by simp only [so.undecodable, ofFound, List.countP_map, Function.comp_def, RecordSummary.damagedOf]
  entries := so.entries.trans pendingOf.symm
  lastLsn := by
    rw [so.lastLsn, ofFound, List.getLast?_map, Option.map_map]
    rfl

end Counts

section File

variable {d : Device} {r : Reader}

theorem drainEnds (sees : r.Sees d.file.content.bytes) :
    ∃ scan d', r.drain d = .ok scan d' ∧ Reader.Calls r d scan.records scan.failure scan.reader d' :=
  Reader.drainCalls sees (Nat.lt_succ_self _)

theorem ofFileUntouched (path : String) (d : Device) : ∃ d', d'.file = d.file ∧
    ((∃ i, ofFile path d = .ok i d') ∨ ∃ e, ofFile path d = .error e d') := by
  unfold ofFile
  cases measured : FileM.len d with
  | error e d' =>
    simp only [bind, EStateM.bind, measured]
    exact ⟨d', (FileM.lenFails measured).1, .inr ⟨e, rfl⟩⟩
  | ok size d₁ =>
    have measuredLater := (FileM.lenOk measured).1
    cases opened : Reader.ofFile d₁ with
    | error e d' =>
      simp only [bind, EStateM.bind, measured, opened]
      exact ⟨d', (ofFileFails opened).trans measuredLater.file, .inr ⟨e, rfl⟩⟩
    | ok r d₂ =>
      obtain ⟨later, long, -, first⟩ := ofFileOk opened
      rw [← later.file] at long first
      have sees : r.Sees d₂.file.content.bytes := first ▸ Reader.firstSees long
      obtain ⟨scan, d', drained, calls⟩ := drainEnds sees
      refine ⟨d', ((measuredLater.trans later).trans (calls.standing sees).1).file, ?_⟩
      simp only [bind, EStateM.bind, measured, opened, drained]
      cases scan.failure with
      | none => exact .inl ⟨_, rfl⟩
      | some e => exact .inr ⟨e, rfl⟩

theorem ofFileFound {path : String} {i : Inspection} (lens : d.Quiet .len) (reads : d.Quiet .read) :
    (∃ d', ofFile path d = .ok i d') ↔ ∃ h rs limit, Found d.file.content.bytes h.salt h rs limit ∧
      i = ofFound path d.file.content.bytes.size h rs limit := by
  unfold ofFile
  simp only [bind, EStateM.bind, FileM.lenQuiet lens]
  cases opened : Reader.ofFile d with
  | error e d' =>
    refine ⟨nofun, fun ⟨h, rs, limit, found, _⟩ => ?_⟩
    obtain ⟨-, r, last, opened', -⟩ := (foundIff lens reads).mp found
    rw [opened] at opened'
    cases opened'
  | ok r d' =>
    obtain ⟨long, front, first, rfl⟩ := Reader.ofFileSound lens reads opened
    have sees : r.Sees d'.file.content.bytes := first ▸ Reader.firstSees long
    obtain ⟨scan, d', drained, calls⟩ := drainEnds sees
    obtain rfl := calls.unchanged reads
    obtain ⟨spells, failed⟩ := calls.spelled reads sees
    simp only [drained]
    rw [first] at spells failed
    cases failure : scan.failure with
    | none =>
      have sound (damage : Damage) : ¬ Foreign d'.file.content.bytes scan.reader.validUpTo
          (chainLink firstLink scan.records) r.header.start damage := fun foreign => by
        have fails := (failed _).mpr ⟨damage, rfl, foreign⟩
        rw [failure] at fails
        cases fails
      have here : Found d'.file.content.bytes r.header.salt r.header scan.records scan.reader.validUpTo :=
        ⟨front, rfl, spells, sound⟩
      refine ⟨fun ⟨d'', done⟩ => ?_, fun ⟨h, rs, limit, found, same⟩ => ⟨d', ?_⟩⟩
      · cases done
        exact ⟨_, _, _, here, rfl⟩
      · obtain ⟨rfl, rfl, rfl⟩ := found.unique here
        rw [same]
        rfl
    | some e =>
      refine ⟨nofun, fun ⟨h, rs, limit, found, _⟩ => ?_⟩
      obtain ⟨damage, -, foreign⟩ := (failed e).mp failure
      obtain rfl := Header.encodeInj (front.symm.trans found.front)
      obtain ⟨rfl, rfl⟩ := found.spells.unique spells
      exact absurd foreign (found.sound damage)

end File

theorem ofPathFound {v : Volume} {path : String} {i : Inspection} : ofPath v path = .ok i ↔
    ∃ id h rs limit, v.openExisting path = .ok id ∧ Found (v.file id).content.bytes h.salt h rs limit ∧
      i = ofFound path (v.file id).content.bytes.size h rs limit := by
  have quiet (id : Nat) (op : FileOp) : Device.Quiet ⟨v.file id, []⟩ op := by simp [Device.Quiet]
  unfold ofPath
  cases file : v.openExisting path with
  | error fault =>
    simp only [bind, Except.bind, Except.mapError, throw, throwThe, MonadExceptOf.throw]
    split <;> simp
  | ok id =>
    obtain ⟨place, resolved, here⟩ := Volume.openFound (Volume.existingFound file)
    have present := (Volume.existingOf resolved here).1
    have described : (∃ d', ofFile path ⟨v.file id, []⟩ = .ok i d') ↔ _ :=
      ofFileFound (quiet id .len) (quiet id .read)
    simp only [present, Bool.not_true, Bool.false_eq_true, if_false, bind, Except.bind, pure, Except.pure,
      Except.mapError]
    constructor
    · intro done
      split at done
      · next i' d' outcome =>
        cases done
        obtain ⟨h, rs, limit, found, same⟩ := described.mp ⟨d', outcome⟩
        exact ⟨id, h, rs, limit, rfl, found, same⟩
      · cases done
    · rintro ⟨id', h, rs, limit, file', found, same⟩
      cases file'
      obtain ⟨d', outcome⟩ := described.mpr ⟨h, rs, limit, found, same⟩
      rw [outcome]

end Inspection

namespace Offline

section Inspected

variable {o : Offline} {logPath : String} {v w : Volume} {report : RecoveryReport}

theorem recoverCuts {id limit : Nat} {h : Header} {rs : List Record} (there : v.isDirectory o.dataDir = true)
    (valid : o.config.validate = .ok ())
    (outside : ∀ base place, v.resolve o.dataDir = .ok base → v.resolve logPath = .ok place →
      ¬ Volume.Inside base place) (file : v.openExisting logPath = .ok id)
    (found : Found (v.file id).content.bytes h.salt h rs limit) : ∃ report w, o.recover logPath v = .ok report w ∧
      report.replay = (rs.foldl Replay.step { table := .new o.config, source := o.ledger }).stats ∧
      w.openExisting logPath = .ok id ∧
      (w.file id).content.bytes = (v.file id).content.bytes.extract 0 limit := by
  obtain ⟨place, resolved, here⟩ := Volume.openFound (Volume.existingFound file)
  obtain ⟨base, dir, -⟩ := Volume.directoryFound.mp there
  obtain ⟨f, bytes, -, opened⟩ := openLogCuts file found
  have long := Nat.le_trans found.spells.behind found.spells.inside
  obtain ⟨log, made⟩ : ∃ log : OpenLog,
      log = ⟨⟨f, []⟩, rebuilt h rs limit ((v.file id).content.bytes.size - limit), none⟩ := ⟨_, rfl⟩
  have kept : Found log.device.file.content.bytes h.salt log.log.header rs limit := by
    rw [made]
    exact found.kept bytes
  obtain ⟨log', recovered⟩ := Site.recoverFound o.config log (by rw [made]) kept o.ledger
    (⟨o.dataDir, v.setFile id f⟩ : DataDir) rfl
  have same := Volume.clearedNone (v := v) (w := v.setFile id f) rfl
  obtain ⟨w, removed, ⟨⟨gone, deep, cleared⟩, files⟩, -⟩ := DataDir.finalizeSettled
    (rs.foldl Replay.step { table := .new o.config, source := o.ledger }).table
    (rs.foldl Replay.step { table := .new o.config, source := o.ledger }).source (same.walk (Volume.resolveWalk dir))
  rw [← made] at opened
  refine ⟨_, _, recoverOkIff.mpr ⟨(Volume.existingOf resolved here).1, there, valid, log, _, _, opened, recovered, rfl⟩,
    rfl, ?_, ?_⟩
  · rw [removed]
    obtain ⟨resolved', here'⟩ := (same.trans cleared).found resolved here fun lost =>
      outside base place dir resolved (deep place (lost.resolve_left not_false)).inside
    exact (Volume.existingOf resolved' here').2
  · rw [removed, Volume.file, files, ← Volume.file, Volume.fileSet (Volume.fileThere long)]
    exact bytes

theorem recoveredLog (done : o.recover logPath v = .ok report w) : ∃ id h rs limit,
    v.openExisting logPath = .ok id ∧ Found (v.file id).content.bytes h.salt h rs limit := by
  obtain ⟨log, v₁, site, opened, -, -⟩ := recoverOk done
  obtain ⟨id, h₀, l, d', file, long, -, loaded, -, -⟩ := openLogLoads opened
  obtain ⟨h, rs, limit, found, -⟩ := loadFinds (by simp [Device.Armed]) loaded long
  have salted := found.salted
  rw [← salted] at found
  exact ⟨id, h, rs, limit, file, found⟩

theorem inspectionForetellsRecovery (on : o.config.enabled = true) (valid : o.config.validate = .ok ())
    (there : v.isDirectory o.dataDir = true)
    (outside : ∀ base place, v.resolve o.dataDir = .ok base → v.resolve logPath = .ok place →
      ¬ Volume.Inside base place) :
    ((∃ i, Inspection.ofPath v logPath = .ok i) ↔ ∃ report w, o.recover logPath v = .ok report w) ∧
    (∀ i report w, Inspection.ofPath v logPath = .ok i → o.recover logPath v = .ok report w →
      i.Foretells report.replay ∧ ∃ id, v.openExisting logPath = .ok id ∧ w.openExisting logPath = .ok id ∧
        i.size = (v.file id).content.size ∧ (w.file id).content.size + i.trailing = i.size) ∧
    ∀ d : Device, ∃ d', d'.file = d.file ∧
      ((∃ i, Inspection.ofFile logPath d = .ok i d') ∨ ∃ e, Inspection.ofFile logPath d = .error e d') := by
  refine ⟨⟨fun ⟨i, described⟩ => ?_, fun ⟨report, w, done⟩ => ?_⟩, fun i report w described done => ?_,
    Inspection.ofFileUntouched logPath⟩
  · obtain ⟨id, h, rs, limit, file, found, -⟩ := Inspection.ofPathFound.mp described
    obtain ⟨report, w, done, -⟩ := recoverCuts there valid outside file found
    exact ⟨report, w, done⟩
  · obtain ⟨id, h, rs, limit, file, found⟩ := recoveredLog done
    exact ⟨_, Inspection.ofPathFound.mpr ⟨id, h, rs, limit, file, found, rfl⟩⟩
  · obtain ⟨id, h, rs, limit, file, found, rfl⟩ := Inspection.ofPathFound.mp described
    obtain ⟨report', w', done', replay, file', bytes⟩ := recoverCuts there valid outside file found
    rw [done] at done'
    cases done'
    have so := (Replay.runTallied o.config o.ledger rs).1
    rw [on, ← replay] at so
    have inside := found.spells.inside
    refine ⟨Inspection.foretellsOf so, id, file, file', Content.sizeBytes _, ?_⟩
    rw [← Content.sizeBytes, bytes, ByteArray.size_extract, Inspection.trailing, Inspection.ofFound]
    dsimp only
    omega

end Inspected

def tornBoth : Volume :=
  { bothThere with files := bothThere.files.set! 0 ⟨[.written bothInLog, .written (.mk #[7])], []⟩ }

theorem tornBytes : (tornBoth.file 0).content.bytes =
    Header.encode ⟨5, 1⟩ ++ chain firstLink bothListed ++ .mk #[7] := by
  simp [tornBoth, bothThere, Volume.file, Content.bytes, Stretch.bytes, bothInLog]

theorem foundTornBoth : Found (tornBoth.file 0).content.bytes 5 ⟨5, 1⟩ bothListed
    (Sealed.size + (chain firstLink bothListed).size) :=
  foundTorn rfl foundBoth.spells.admitted (by decide) tornBytes

theorem inspectionForetellsTorn : byHand.config.enabled = true ∧ byHand.config.validate = .ok () ∧
    tornBoth.isDirectory "base" = true ∧ ∃ i report w, Inspection.ofPath tornBoth "log" = .ok i ∧
      byHand.recover "log" tornBoth = .ok report w ∧ i.Foretells report.replay ∧ i.records.length = 1 ∧
      ∃ id, w.openExisting "log" = .ok id ∧ (w.file id).content.size + 1 = i.size := by
  have file : tornBoth.openExisting "log" = .ok 0 := by decide +kernel
  have there : tornBoth.isDirectory "base" = true := by decide +kernel
  have places : tornBoth.resolve "base" = .ok #["base"] ∧ tornBoth.resolve "log" = .ok #["log"] := by decide +kernel
  have outside (base place : Volume.Place) (dir : tornBoth.resolve "base" = .ok base)
      (log : tornBoth.resolve "log" = .ok place) : ¬ Volume.Inside base place := by
    rintro ⟨names, inside, -⟩
    cases places.1.symm.trans dir
    cases places.2.symm.trans log
    simp at inside
  obtain ⟨agree, counts, -⟩ := inspectionForetellsRecovery (o := byHand) rfl rfl there outside
  have described := Inspection.ofPathFound.mpr ⟨0, ⟨5, 1⟩, _, _, file, foundTornBoth, rfl⟩
  obtain ⟨report, w, done⟩ := agree.mp ⟨_, described⟩
  obtain ⟨foretells, id, -, file', size, left⟩ := counts _ report w described done
  have trailing : (tornBoth.file 0).content.bytes.size - (Sealed.size + (chain firstLink bothListed).size) = 1 := by
    rw [tornBytes, ByteArray.size_append, ByteArray.size_append, Header.sizeEncode, Nat.add_sub_cancel_left]
    rfl
  rw [Inspection.trailing] at left
  simp only [Inspection.ofFound, trailing] at left
  exact ⟨rfl, rfl, there, _, report, w, described, done, foretells, rfl, id, file', left⟩

end Offline
end OrphanFiles
