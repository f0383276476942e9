import OrphanFiles.Offline
import OrphanFiles.Proofs.Opening
import OrphanFiles.Proofs.Purging
import OrphanFiles.Proofs.Replayed

/-!
Recovery of a data directory by hand.  The log is opened, which may cut it off, and read again; what is removed is what
the records in it and the outcomes that were given leave in doubt.
-/
namespace OrphanFiles

open Log

namespace Error

theorem ofExceptOk {σ α : Type} {e : Except Error α} {a : α} {s s' : σ} (done : ofExcept e s = .ok a s') :
    e = .ok a ∧ s' = s := by
  cases e <;> cases done
  exact ⟨rfl, rfl⟩

end Error

theorem mapErrorOk {ε ε' α : Type} {f : ε → ε'} {e : Except ε α} {a : α} (done : e.mapError f = .ok a) : e = .ok a := by
  cases e <;> cases done
  rfl

namespace Volume

structure Rewritten (v : Volume) (id : Nat) (w : Volume) : Prop where
  names : w.names = v.names
  others : ∀ other, other ≠ id → w.file other = v.file other

theorem setRewritten (v : Volume) (id : Nat) (f : File) : v.Rewritten id (v.setFile id f) where
  names := rfl
  others other differs := by
    rw [file, file, setFile, Array.getElem?_setIfInBounds_ne differs.symm]

theorem fileSet {v : Volume} {id : Nat} (inside : id < v.files.size) (f : File) : (v.setFile id f).file id = f := by
  rw [file, setFile, Array.getElem?_setIfInBounds_self_of_lt inside, Option.getD_some]

theorem setFileSame (v : Volume) (id : Nat) : v.setFile id (v.file id) = v := by
  have same : v.files.setIfInBounds id (v.file id) = v.files := by
    apply Array.ext_getElem?
    intro other
    rw [Array.getElem?_setIfInBounds, file]
    grind
  rw [setFile, same]

theorem fileBeyond {v : Volume} {id : Nat} (outside : v.files.size ≤ id) : v.file id = .empty := by
  rw [file, Array.getElem?_eq_none outside, Option.getD_none]

theorem fileThere {v : Volume} {id : Nat} (long : Sealed.size ≤ (v.file id).content.bytes.size) :
    id < v.files.size := by
  by_contra outside
  rw [fileBeyond (Nat.le_of_not_lt outside)] at long
  cases long

theorem onFileOk {α : Type} {x : FileM α} {id : Nat} {a : α} {v w : Volume} (done : onFile id x v = .ok a w) :
    ∃ d, x ⟨v.file id, []⟩ = .ok a d ∧ w = v.setFile id d.file := by
  unfold onFile at done
  split at done
  · next a' d outcome =>
    cases done
    exact ⟨d, outcome, rfl⟩
  · cases done

theorem existingFound {v : Volume} {text : String} {id : Nat} (opened : v.openExisting text = .ok id) :
    v.openEntry text = .ok (.file id) := by
  unfold openExisting at opened
  simp only [bind, Except.bind] at opened
  split at opened
  · cases opened
  next entry found =>
  split at opened
  · cases opened
  · cases opened
    exact found

theorem openAgain {v : Volume} {text : String} {id : Nat} (opened : v.openExisting text = .ok id) :
    v.openOrCreate text = .ok (id, v) := by
  obtain ⟨place, resolved, here⟩ := openFound (existingFound opened)
  have walked := resolveWalk resolved
  have checked := resolveChecked resolved
  rw [resolveEq, checked] at resolved
  simp only [Except.bind, walked, here] at resolved
  split at resolved
  · cases resolved
  · next slash =>
    unfold openOrCreate
    simp only [bind, Except.bind, checked, if_neg slash, walked, here]
    rfl

end Volume

namespace Site

variable {τ σ : Type} [StatusSource τ] [FileDropper σ]

theorem recoverFound (c : Config) (log : OpenLog) (faultless : log.device.faults = []) {salt : UInt64}
    {rs : List Record} {v : Nat} (found : Found log.device.file.content.bytes salt log.log.header rs v) (source : τ)
    (files : σ) {p : Replay τ} (read : p = rs.foldl Replay.step { table := .new c, source := source }) :
    ∃ log', recover c ⟨log, source, files⟩ =
      .ok ⟨p.stats, (p.table.finalize p.source files).1.1⟩ ⟨log', p.source, (p.table.finalize p.source files).2⟩ := by
  have quiet (op : FileOp) : log.device.Quiet op := by simp [Device.Quiet, faultless]
  have long := Nat.le_trans found.spells.behind found.spells.inside
  rcases recoverScans c log source files with ⟨e, d₁, made, -⟩ | ⟨scan, d₁, d', made, calls, scanned⟩
  · obtain ⟨-, atEnd, armed, -⟩ := newFails made long
    exact absurd armed ((quiet .len).unarmed atEnd)
  obtain ⟨later, -, -⟩ := newOk made
  have none : d₁.Quiet .read := fun f member op =>
    (quiet .read).unarmed f.atEnd (later.armed ⟨f, member, op, rfl⟩)
  rw [← later.file] at calls found long
  obtain ⟨spells, failed⟩ := calls.spelled none (Reader.firstSees long)
  obtain ⟨rfl, rfl⟩ := found.spells.unique spells
  cases failure : scan.failure with
  | none =>
    unfold Reader.Scan.stream at scanned
    rw [failure, Option.toList_none, List.map_nil, List.append_nil] at scanned
    exact ⟨_, scanned.trans (recoverFromRead c _ source files scan.records read)⟩
  | some e =>
    obtain ⟨damage, -, foreign⟩ := (failed e).mp failure
    exact absurd foreign (found.sound damage)

end Site

namespace Offline

theorem openLogLoads {logPath : String} {v w : Volume} {log : OpenLog} (done : openLog logPath v = .ok log w) :
    ∃ id, ∃ h : Header, ∃ l d', v.openExisting logPath = .ok id ∧ Sealed.size ≤ (v.file id).content.bytes.size ∧
      (v.file id).content.bytes.extract 0 Sealed.size = h.encode ∧
      Log.load h.salt h.start ⟨v.file id, []⟩ = .ok l d' ∧ w = v.setFile id d'.file ∧
      log = { device := ⟨w.file id, []⟩, log := l } := by
  unfold openLog at done
  obtain ⟨v₀, v₁, got, rest₁⟩ := bindOk done
  cases got
  obtain ⟨id, v₂, found, rest₂⟩ := bindOk rest₁
  obtain ⟨found, rfl⟩ := Error.ofExceptOk found
  have file := mapErrorOk found
  obtain ⟨r, v₃, probed, rest₃⟩ := bindOk rest₂
  obtain ⟨d, opened, written⟩ := Volume.onFileOk probed
  obtain ⟨long, front, -, rfl⟩ := Reader.ofFileSound (by simp [Device.Quiet]) (by simp [Device.Quiet]) opened
  rw [Volume.setFileSame] at written
  subst written
  obtain ⟨v₄, v₅, got, rest₄⟩ := bindOk rest₃
  cases got
  obtain ⟨⟨id', v₆⟩, v₇, again, rest₅⟩ := bindOk rest₄
  obtain ⟨again, rfl⟩ := Error.ofExceptOk again
  have again := mapErrorOk again
  rw [Volume.openAgain file] at again
  cases again
  obtain ⟨u, v₈, put, rest₆⟩ := bindOk rest₅
  cases put
  obtain ⟨l, v₉, ran, rest₇⟩ := bindOk rest₆
  obtain ⟨d', loaded, written⟩ := Volume.onFileOk ran
  cases rest₇
  exact ⟨id, r.header, l, d', file, long, front, loaded, written, rfl⟩

structure Opened (logPath : String) (v : Volume) (log : OpenLog) (w : Volume) (id : Nat) (held : List Record) :
    Prop where
  file : v.openExisting logPath = .ok id
  front : (v.file id).content.bytes.extract 0 Sealed.size = log.log.header.encode
  spells : Spells (v.file id).content.bytes log.log.header.start firstLink Sealed.size held log.log.offset
  rewritten : v.Rewritten id w
  faultless : log.device.faults = []
  knows : log.log.Knows held
  size : log.device.file.content.bytes.size = log.log.offset
  frames : log.device.file.content.bytes.extract Sealed.size log.log.offset = chain firstLink held

theorem openLogOk {logPath : String} {v w : Volume} {log : OpenLog} (done : openLog logPath v = .ok log w) :
    ∃ id held, Opened logPath v log w id held := by
  obtain ⟨id, h, l, d', file, long, front, loaded, rfl, rfl⟩ := openLogLoads done
  obtain ⟨held, found⟩ := loadFound loaded
  obtain ⟨header, standing, stopped, -⟩ := found.found long
  have same : h = l.header := by
    rw [front, Header.decodeEncode] at header
    exact Except.ok.inj header
  have inside := Volume.fileThere long
  have spells : Spells (v.file id).content.bytes l.header.start firstLink Sealed.size held l.offset := by
    refine ⟨standing, ?_⟩
    cases stopped with
    | noRecord nothing sound => exact nothing
    | atEnd armed => exact absurd armed (Device.Quiet.unarmed (by simp [Device.Quiet]) true)
  refine ⟨id, held, file, same ▸ front, spells, Volume.setRewritten .., rfl, found.knows, ?_, ?_⟩
  · rw [Volume.fileSet inside]
    exact found.size
  · rw [Volume.fileSet inside]
    exact found.frames

theorem openLogCuts {logPath : String} {v : Volume} {id : Nat} (file : v.openExisting logPath = .ok id) {h : Header}
    {rs : List Record} {limit : Nat} (found : Found (v.file id).content.bytes h.salt h rs limit) : ∃ f : File,
      f.content.bytes = (v.file id).content.bytes.extract 0 limit ∧
      (limit = (v.file id).content.bytes.size → f = v.file id) ∧ openLog logPath v =
        .ok { device := ⟨f, []⟩, log := rebuilt h rs limit ((v.file id).content.bytes.size - limit) }
          (v.setFile id f) := by
  have long := Nat.le_trans found.spells.behind found.spells.inside
  have inside := Volume.fileThere long
  have probed : Reader.ofFile ⟨v.file id, []⟩ = .ok (.atFirst h (v.file id).content.bytes) ⟨v.file id, []⟩ :=
    Reader.ofFileHeader (by simp [Device.Quiet]) (by simp [Device.Quiet]) long found.front
  have unarmed (op : FileOp) (atEnd : Bool) : ¬ Device.Armed ⟨v.file id, []⟩ op atEnd := by simp [Device.Armed]
  rcases loadWent (d := ⟨v.file id, []⟩) (unarmed .read true) h.start found with
    ⟨d', loaded, same⟩ | ⟨e, d', -, -, interrupted⟩
  · obtain ⟨h', rs', limit', other, -, kept, -⟩ := loadFinds (unarmed .read true) loaded long
    obtain ⟨-, -, rfl⟩ := found.unique other
    refine ⟨d'.file, kept, same, ?_⟩
    unfold openLog
    simp only [bind, EStateM.bind, getOk, setOk, file, Except.mapError, Error.ofExcept, pure, EStateM.pure,
      Volume.onFile, probed, Volume.setFileSame, Volume.openAgain file, Reader.atFirst, loaded, Volume.fileSet inside]
  · obtain ⟨op, atEnd, armed, -⟩ := interrupted.hit
    exact absurd armed (unarmed op atEnd)

theorem openLogWhole {logPath : String} {v : Volume} {id : Nat} (file : v.openExisting logPath = .ok id)
    {h : Header} {rs : List Record}
    (found : Found (v.file id).content.bytes h.salt h rs (v.file id).content.bytes.size) : openLog logPath v =
      .ok { device := ⟨v.file id, []⟩, log := rebuilt h rs (v.file id).content.bytes.size 0 } v := by
  obtain ⟨f, -, same, opened⟩ := openLogCuts file found
  rw [same rfl, Volume.setFileSame, Nat.sub_self] at opened
  exact opened

section Outcome

variable {o : Offline} {logPath : String} {v w : Volume} {report : RecoveryReport}

theorem recoverOkIff : o.recover logPath v = .ok report w ↔
    v.isPresent logPath = true ∧ v.isDirectory o.dataDir = true ∧ o.config.validate = .ok () ∧
      ∃ log v₁ site, openLog logPath v = .ok log v₁ ∧
        Site.recover o.config ⟨log, o.ledger, (⟨o.dataDir, v₁⟩ : DataDir)⟩ = .ok report site ∧
        w = site.files.volume := by
  constructor
  · intro done
    unfold recover at done
    obtain ⟨v₀, v₁, got, rest₁⟩ := bindOk done
    cases got
    split at rest₁
    · cases rest₁
    next present =>
    obtain ⟨v₂, v₃, got, rest₂⟩ := bindOk rest₁
    cases got
    split at rest₂
    · cases rest₂
    next there =>
    obtain ⟨u, v₄, checked, rest₃⟩ := bindOk rest₂
    obtain ⟨valid, rfl⟩ := Error.ofExceptOk checked
    obtain ⟨log, v₅, opened, rest₄⟩ := bindOk rest₃
    obtain ⟨v₆, v₇, got, rest₅⟩ := bindOk rest₄
    cases got
    cases recovered : Site.recover o.config ⟨log, o.ledger, (⟨o.dataDir, v₅⟩ : DataDir)⟩ with
    | ok report' site =>
      simp only [recovered] at rest₅
      cases rest₅
      exact ⟨by simpa using present, by simpa using there, mapErrorOk valid, log, v₅, site, opened, recovered, rfl⟩
    | error e site =>
      simp only [recovered] at rest₅
      cases rest₅
  · rintro ⟨present, there, valid, log, v₁, site, opened, recovered, rfl⟩
    unfold recover
    simp only [bind, EStateM.bind, getOk, present, there, valid, Except.mapError, Error.ofExcept, Bool.not_true,
      Bool.false_eq_true, if_false, pure, EStateM.pure, opened, recovered, setOk]

theorem recoverOk (done : o.recover logPath v = .ok report w) : ∃ log v₁ site, openLog logPath v = .ok log v₁ ∧
    Site.recover o.config ⟨log, o.ledger, (⟨o.dataDir, v₁⟩ : DataDir)⟩ = .ok report site ∧ w = site.files.volume :=
  (recoverOkIff.mp done).2.2.2

theorem recoverWhole {id : Nat} (present : v.isPresent logPath = true) (there : v.isDirectory o.dataDir = true)
    (valid : o.config.validate = .ok ()) (file : v.openExisting logPath = .ok id) {h : Header} {rs : List Record}
    (found : Found (v.file id).content.bytes h.salt h rs (v.file id).content.bytes.size) {p : Replay Ledger}
    (read : p = rs.foldl Replay.step { table := .new o.config, source := o.ledger }) :
    o.recover logPath v = .ok ⟨p.stats, (p.table.finalize p.source (⟨o.dataDir, v⟩ : DataDir)).1.1⟩
      (p.table.finalize p.source (⟨o.dataDir, v⟩ : DataDir)).2.volume := by
  obtain ⟨log', recovered⟩ := Site.recoverFound o.config ⟨⟨v.file id, []⟩, rebuilt h rs _ 0, none⟩ rfl found
    o.ledger (⟨o.dataDir, v⟩ : DataDir) read
  exact recoverOkIff.mpr ⟨present, there, valid, _, v, _, openLogWhole file found, recovered, rfl⟩

end Outcome

/- A transaction whose files a recovery has to remove: no outcome of it was given, a snapshot lists it, and no
completion names it. -/
structure InDoubt (o : Offline) (rs : List Record) (x : Xid) : Prop where
  valid : x.isValid = true
  recent : x.precedes o.oldest = false
  unknown : x ∉ o.committed ∧ x ∉ o.aborted
  listed : ∃ e ∈ listed rs, e.xid = x
  unnamed : ∀ r ∈ rs, ¬ r.Names x

theorem ledgerOldest (o : Offline) : o.ledger.oldest = o.oldest :=
  (Ledger.setAll ..).1.trans (Ledger.setAll ..).1

theorem ledgerRunning (o : Offline) (x : Xid) :
    o.ledger.statusOf x = .inProgress ↔ x ∉ o.committed ∧ x ∉ o.aborted := by
  have none : ({ oldest := o.oldest } : Ledger).statusOf x = .inProgress := rfl
  rw [ledger, (Ledger.setAll ..).2, (Ledger.setAll ..).2, none]
  by_cases committed : x ∈ o.committed <;> by_cases aborted : x ∈ o.aborted <;> simp [committed, aborted]

theorem inDoubtIff {o : Offline} {rs : List Record} {x : Xid} : o.InDoubt rs x ↔ Log.InDoubt o.ledger rs x := by
  constructor
  · rintro ⟨valid, recent, unknown, listed, unnamed⟩
    exact ⟨valid, by rwa [ledgerOldest], (ledgerRunning o x).mpr unknown, listed, unnamed⟩
  · rintro ⟨valid, recent, running, listed, unnamed⟩
    exact ⟨valid, by rwa [ledgerOldest] at recent, (ledgerRunning o x).mp running, listed, unnamed⟩

def Orphaned (o : Offline) (rs : List Record) (f : RelFile) : Prop :=
  ∃ x, o.InDoubt rs x ∧ (filesOf x (listed rs)).find? (·.node == f.node) = some f

theorem rowsOrphaned {o : Offline} {rs : List Record} {p : Replay Ledger} (a : Replay.Accounts o.ledger rs p)
    (f : RelFile) : (∃ e ∈ p.table.rows, judge p.source e.1 = .inDoubt ∧
      f ∈ RedoTable.distinctNodes e.2) ↔ o.Orphaned rs f := by
  constructor
  · rintro ⟨⟨x, fs⟩, member, -, first⟩
    obtain ⟨doubt, rfl⟩ := a.memRows.mp member
    exact ⟨x, inDoubtIff.mpr doubt, RedoTable.memDistinctFirst.mp first⟩
  · rintro ⟨x, doubt, first⟩
    have member := a.memRows.mpr ⟨inDoubtIff.mp doubt, rfl⟩
    exact ⟨_, member, a.rowsInDoubt _ member, RedoTable.memDistinctFirst.mpr first⟩

theorem recoverFromPurges {o : Offline} (on : o.config.enabled = true) {rs : List Record} {log : OpenLog} {v w : Volume}
    (same : w.names = v.names) (regular : ∀ f, o.Orphaned rs f → DataDir.Regular v o.dataDir f)
    {report : RecoveryReport} {site : Site Ledger DataDir}
    (done : Site.recoverFrom o.config (rs.map .ok) ⟨log, o.ledger, (⟨o.dataDir, w⟩ : DataDir)⟩ = .ok report site) :
    site.files.volume.files = w.files ∧ DataDir.Purged v o.dataDir (o.Orphaned rs) site.files.volume := by
  obtain ⟨p, read⟩ : ∃ p, p = Replay.ofRecords o.config o.ledger rs := ⟨_, rfl⟩
  have a := Replay.accounts on o.ledger rs
  rw [← read] at a
  obtain ⟨report', u, finalized, trim, -⟩ :=
    DataDir.rowsPurge p.source p.table.rows _ w (DataDir.Trim.start w o.dataDir) DataDir.initialNone {}
  rw [Site.recoverFromRecords on log o.ledger _ rs read, finalized] at done
  cases done
  simp only [DataDir.grownNone, rowsOrphaned a] at trim
  exact ⟨trim.files, DataDir.purgedOf same trim regular⟩

theorem removesExactlyOrphans {o : Offline} (on : o.config.enabled = true) {logPath : String} {v w : Volume}
    {report : RecoveryReport} (done : o.recover logPath v = .ok report w) :
    ∃ id, ∃ h : Header, ∃ rs limit, v.openExisting logPath = .ok id ∧
      (v.file id).content.bytes.extract 0 Sealed.size = h.encode ∧
      Spells (v.file id).content.bytes h.start firstLink Sealed.size rs limit ∧
      ((∀ f, o.Orphaned rs f → DataDir.Regular v o.dataDir f) →
        DataDir.Purged v o.dataDir (o.Orphaned rs) w ∧ ∀ other, other ≠ id → w.file other = v.file other) := by
  obtain ⟨log, v₁, site, opened, recovered, rfl⟩ := recoverOk done
  obtain ⟨id, held, opened⟩ := openLogOk opened
  refine ⟨id, log.log.header, held, log.log.offset, opened.file, opened.front, opened.spells, fun regular => ?_⟩
  rcases Site.recoverReads o.config log o.ledger (⟨o.dataDir, v₁⟩ : DataDir) with
    ⟨e, s', source', failed⟩ | ⟨rs, last, d₁, d', made, calls, read⟩
  · rw [recovered] at failed
    cases failed
  have quiet : log.device.Quiet .read := by simp [Device.Quiet, opened.faultless]
  obtain ⟨later, long, -⟩ := newOk made
  have none : d₁.Quiet .read := fun f member op => quiet.unarmed f.atEnd (later.armed ⟨f, member, op, rfl⟩)
  rw [← later.file] at long calls
  obtain ⟨spells, failed⟩ := calls.spelled none (Reader.firstSees long)
  have sound (damage : Damage) (foreign : Foreign d₁.file.content.bytes last.validUpTo (chainLink firstLink rs)
      log.log.header.start damage) : False := by
    cases (failed _).mpr ⟨damage, rfl, foreign⟩
  obtain ⟨-, whole⟩ := opened.knows.spelled spells sound (later.file ▸ opened.frames)
  obtain rfl := whole (by rw [later.file, opened.size])
  obtain ⟨files, purged⟩ := recoverFromPurges on opened.rewritten.names regular (read.symm.trans recovered)
  refine ⟨purged, fun other differs => ?_⟩
  rw [Volume.file, files]
  exact opened.rewritten.others other differs

section OneNode

def lasting : RelFile := ⟨⟨1, 2, 3⟩, false⟩
def passing : RelFile := ⟨⟨1, 2, 3⟩, true⟩

def bothListed : List Record := [⟨1, .pendingDelete, Snapshot.encode [⟨lasting, ⟨7⟩⟩, ⟨passing, ⟨7⟩⟩]⟩]

def bothInLog : ByteArray := Header.encode ⟨5, 1⟩ ++ chain firstLink bothListed

def bothThere : Volume where
  names := [(#["log"], .file 0), (#["base"], .directory), (#["base", "1"], .directory),
    (#["base", "1", "2"], .directory), (#["base", "1", "2", "3"], .file 1), (#["base", "1", "2", "3.1"], .file 2),
    (#["base", "1", "2", "t_3"], .file 3)]
  files := #[⟨[.written bothInLog], []⟩, .empty, .empty, .empty]

def byHand : Offline := { dataDir := "base" }

def passingKept : EStateM.Result Error Volume RecoveryReport → Bool
  | .ok _ w => match w.openEntry (DataDir.relationPath "base" passing) with
    | .ok (.file 3) => true
    | _ => false
  | .error .. => false

theorem passingKeptOk {result : EStateM.Result Error Volume RecoveryReport} (kept : passingKept result = true) :
    ∃ report w, result = .ok report w ∧ w.openEntry (DataDir.relationPath "base" passing) = .ok (.file 3) := by
  unfold passingKept at kept
  split at kept
  · next report w =>
    split at kept
    · next opened => exact ⟨report, w, rfl, opened⟩
    · cases kept
  · cases kept

theorem foundBoth : Found (bothThere.file 0).content.bytes 5 ⟨5, 1⟩ bothListed
    (bothThere.file 0).content.bytes.size := by
  refine foundWhole rfl (fun r member => ?_) ?_
  · obtain rfl : r = _ := by simpa [bothListed] using member
    refine ⟨by decide, ?_⟩
    rw [Snapshot.sizeEncode]
    decide
  · simp [bothThere, Volume.file, Content.bytes, Stretch.bytes, bothInLog]

theorem recoversBoth : ∃ report w, byHand.recover "log" bothThere = .ok report w ∧
    w.openEntry (DataDir.relationPath "base" passing) = .ok (.file 3) := by
  have file : bothThere.openExisting "log" = .ok 0 := by decide +kernel
  have done := recoverWhole (o := byHand) (h := ⟨5, 1⟩) (by decide +kernel) (by decide +kernel) rfl file foundBoth rfl
  apply passingKeptOk
  rw [done]
  decide +kernel

theorem listedBoth : listed bothListed = [⟨lasting, ⟨7⟩⟩, ⟨passing, ⟨7⟩⟩] := by
  have decoded : Snapshot.decode (Snapshot.encode [⟨lasting, ⟨7⟩⟩, ⟨passing, ⟨7⟩⟩]) = .ok _ :=
    Snapshot.decodeEncode (by decide)
  simp [listed, bothListed, Record.listed, decoded]

theorem spellsBoth : (bothThere.file 0).content.bytes.extract 0 Sealed.size = Header.encode ⟨5, 1⟩ ∧
    Spells (bothThere.file 0).content.bytes 1 firstLink Sealed.size bothListed
      (bothThere.file 0).content.bytes.size :=
  ⟨foundBoth.front, foundBoth.spells⟩

theorem regularBoth : ∀ f, f = lasting ∨ f = passing → DataDir.Regular bothThere "base" f := by
  have found : bothThere.resolve (DataDir.unitPath "base" lasting 0) = .ok #["base", "1", "2", "3"] ∧
      bothThere.resolve (DataDir.unitPath "base" lasting 1) = .ok #["base", "1", "2", "3.1"] ∧
      bothThere.resolve (DataDir.unitPath "base" passing 0) = .ok #["base", "1", "2", "t_3"] := by
    decide +kernel
  have missing : bothThere.openEntry (DataDir.unitPath "base" lasting 2) = .error .notFound ∧
      bothThere.openEntry (DataDir.unitPath "base" passing 1) = .error .notFound := by
    decide +kernel
  rintro f (rfl | rfl)
  · refine ⟨.inr ⟨_, 1, found.1, by decide +kernel⟩, 1, fun m some within => ?_, missing.1⟩
    obtain rfl : m = 1 := by omega
    exact ⟨_, 2, found.2.1, by decide +kernel⟩
  · exact ⟨.inr ⟨_, 3, found.2.2, by decide +kernel⟩, 0, fun m some within => by omega, missing.2⟩

theorem inDoubtBoth : byHand.InDoubt bothListed ⟨7⟩ where
  valid := rfl
  recent := rfl
  unknown := by decide
  listed := ⟨⟨lasting, ⟨7⟩⟩, by simp [listedBoth], rfl⟩
  unnamed r member := by
    obtain rfl : r = _ := by simpa [bothListed] using member
    simp [Record.Names, Record.told?]

theorem orphanedBoth {f : RelFile} : byHand.Orphaned bothListed f ↔ f = lasting := by
  have files : filesOf ⟨7⟩ [⟨lasting, ⟨7⟩⟩, ⟨passing, ⟨7⟩⟩] = [lasting, passing] := rfl
  constructor
  · rintro ⟨x, doubt, first⟩
    obtain ⟨e, member, own⟩ := doubt.listed
    rw [listedBoth] at member first
    obtain rfl : x = ⟨7⟩ := by
      simp only [List.mem_cons, List.not_mem_nil, or_false] at member
      rcases member with rfl | rfl <;> exact own.symm
    rw [files] at first
    have member := List.mem_of_find?_eq_some first
    simp only [List.mem_cons, List.not_mem_nil, or_false] at member
    rcases member with rfl | rfl
    · rfl
    · exact absurd first (by decide)
  · rintro rfl
    refine ⟨⟨7⟩, inDoubtBoth, ?_⟩
    rw [listedBoth, files]
    rfl

/-- Of two files of one node that a transaction in doubt has listed, the second stays. -/
theorem secondOfNodeStays : byHand.config.enabled = true ∧
    bothThere.openExisting "log" = .ok 0 ∧
    (bothThere.file 0).content.bytes.extract 0 Sealed.size = Header.encode ⟨5, 1⟩ ∧
    Spells (bothThere.file 0).content.bytes 1 firstLink Sealed.size bothListed
      (bothThere.file 0).content.bytes.size ∧
    (∀ f, f = lasting ∨ f = passing → DataDir.Regular bothThere "base" f) ∧
    byHand.InDoubt bothListed ⟨7⟩ ∧ ⟨passing, ⟨7⟩⟩ ∈ listed bothListed ∧
    ∃ report w, byHand.recover "log" bothThere = .ok report w ∧
      w.openEntry (DataDir.relationPath "base" passing) = .ok (.file 3) :=
  ⟨rfl, by decide +kernel, spellsBoth.1, spellsBoth.2, regularBoth, inDoubtBoth, by simp [listedBoth], recoversBoth⟩

theorem firstOfNodeGoes : byHand.config.enabled = true ∧ ∃ report w, byHand.recover "log" bothThere = .ok report w ∧
    (∀ f, byHand.Orphaned bothListed f ↔ f = lasting) ∧
    DataDir.Purged bothThere "base" (byHand.Orphaned bothListed) w ∧
    ∀ n ≤ 1, w.openEntry (DataDir.unitPath "base" lasting n) = .error .notFound := by
  obtain ⟨report, w, recovered, -⟩ := recoversBoth
  obtain ⟨front, spells⟩ := spellsBoth
  have here : bothThere.openExisting "log" = .ok 0 := by decide +kernel
  obtain ⟨id, h, rs, limit, opened, front', spells', purges⟩ := removesExactlyOrphans rfl recovered
  obtain rfl := Except.ok.inj (here.symm.trans opened)
  have same : Header.decode (Header.encode ⟨5, 1⟩) = Header.decode h.encode := by rw [← front, front']
  rw [Header.decodeEncode, Header.decodeEncode] at same
  obtain rfl := Except.ok.inj same
  obtain ⟨rfl, -⟩ := spells.unique spells'
  obtain ⟨purged, -⟩ := purges fun f orphaned => regularBoth f (.inl (orphanedBoth.mp orphaned))
  refine ⟨rfl, report, w, recovered, fun f => orphanedBoth, purged, fun n few => ?_⟩
  refine purged.gone lasting n (orphanedBoth.mpr rfl) fun m some within => ?_
  obtain rfl : m = 1 := by omega
  exact ⟨#["base", "1", "2", "3.1"], 2, by decide +kernel⟩

end OneNode

end Offline

end OrphanFiles
