import OrphanFiles.Proofs.OfflineRecovery
import OrphanFiles.Proofs.Opening

/-!
Recoveries that fail.  All that a recovery can be refused for is found out before a file is removed: what stands
before the opening of the log changes nothing, an opening that fails leaves the log as it was, and a log that was opened
can only be read in vain if a call on its file fails.  Main statement: a recovery that fails removes nothing, and alters
at most the log, which it does only if such a call failed after the opening.
-/
namespace OrphanFiles

open Log

namespace Error

theorem ofExceptFails {σ α : Type} {x : Except Error α} {e : Error} {s s' : σ} (failed : ofExcept x s = .error e s') :
    x = .error e ∧ s' = s := by
  cases x <;> cases failed
  exact ⟨rfl, rfl⟩

end Error

namespace Log

section Scan

variable {bytes : ByteArray} {start link : UInt64} {off v : Nat} {rs rs' : List Record} {damage : Damage}

theorem Standing.sound (standing : Standing bytes start link off rs bytes.size)
    (other : Standing bytes start link off rs' v) : ¬ Foreign bytes v (chainLink link rs') start damage := by
  induction rs' generalizing link off rs with
  | nil =>
    intro foreign
    obtain rfl := other.none
    cases rs with
    | nil =>
      have full := standing.none
      have room := foreign.room
      rw [Sealed.size] at room
      omega
    | cons x rs =>
      obtain ⟨stands, admitted, -⟩ := standing.first
      exact foreign.apart admitted stands
  | cons y rs' ih =>
    obtain ⟨stands', admitted', rest'⟩ := other.first
    cases rs with
    | nil =>
      have full := standing.none
      have inside := stands'.inside
      rw [Record.extent, Sealed.size] at inside
      omega
    | cons x rs =>
      obtain ⟨stands, admitted, rest⟩ := standing.first
      obtain rfl := stands.unique stands' admitted.small admitted'.small
      exact ih rest rest'

end Scan

open FileM

section File

variable {d d' : Device} {r : Reader} {e : Error}

theorem ofFileOk (done : Reader.ofFile d = .ok r d') : d.Later d' ∧ Sealed.size ≤ d.file.content.bytes.size ∧
    d.file.content.bytes.extract 0 Sealed.size = r.header.encode ∧
    r = .atFirst r.header d.file.content.bytes := by
  unfold Reader.ofFile at done
  obtain ⟨n, d₁, measured, rest₁⟩ := bindOk done
  obtain ⟨later₁, rfl⟩ := lenOk measured
  split at rest₁
  · cases rest₁
  next long =>
  obtain ⟨h, d₂, header, rest₂⟩ := bindOk rest₁
  obtain ⟨later₂, -, decoded⟩ := readHeaderOk header
  obtain ⟨later₃, -, rfl⟩ := newOk rest₂
  rw [later₁.file] at decoded
  refine ⟨later₁.trans (later₂.trans later₃), Nat.le_of_not_lt long, frontDecoded decoded, ?_⟩
  rw [(later₁.trans later₂).file]
  rfl

theorem ofFileFails (failed : Reader.ofFile d = .error e d') : d'.file = d.file := by
  unfold Reader.ofFile at failed
  rcases bindFails failed with measured | ⟨n, d₁, measured, rest₁⟩
  · exact (lenFails measured).1
  obtain ⟨later₁, rfl⟩ := lenOk measured
  split at rest₁
  · cases rest₁
    exact later₁.file
  next long =>
  have long := Nat.le_of_not_lt long
  rw [← later₁.file] at long ⊢
  rcases bindFails rest₁ with header | ⟨h, d₂, header, rest₂⟩
  · exact (readHeaderFails header long).1
  · obtain ⟨later₂, -⟩ := readHeaderOk header
    rw [← later₂.file] at long ⊢
    exact (newFails rest₂ long).1

end File

end Log

namespace Volume

def onArmed {α : Type} (faults : List ArmedFault) (id : Nat) (x : FileM α) : EStateM Error Volume α := fun v =>
  match x ⟨v.file id, faults⟩ with
  | .ok a d => .ok a (v.setFile id d.file)
  | .error e d => .error e (v.setFile id d.file)

variable {α : Type} {faults : List ArmedFault} {x : FileM α} {id : Nat} {a : α} {e : Error} {v w : Volume}

theorem onArmedOk (done : onArmed faults id x v = .ok a w) :
    ∃ d, x ⟨v.file id, faults⟩ = .ok a d ∧ w = v.setFile id d.file := by
  unfold onArmed at done
  split at done
  · next a' d outcome =>
    cases done
    exact ⟨d, outcome, rfl⟩
  · cases done

theorem onArmedFails (failed : onArmed faults id x v = .error e w) :
    ∃ d, x ⟨v.file id, faults⟩ = .error e d ∧ w = v.setFile id d.file := by
  unfold onArmed at failed
  split at failed
  · cases failed
  · next e' d outcome =>
    cases failed
    exact ⟨d, outcome, rfl⟩

end Volume

namespace Offline

/- The failures that are armed on the file of a log: when its header is read, when it is opened, and when its records
are read. -/
structure Trouble where
  probe : List ArmedFault := []
  load : List ArmedFault := []
  read : List ArmedFault := []

def openTroubled (t : Trouble) (logPath : String) : EStateM Error Volume OpenLog := do
  let probe ← Error.ofExcept (((← get).openExisting logPath).mapError .path)
  let header := (← Volume.onArmed t.probe probe Log.Reader.ofFile).header
  let (id, v) ← Error.ofExcept (((← get).openOrCreate logPath).mapError .path)
  set v
  let log ← Volume.onArmed t.load id (Log.load header.salt header.start)
  pure { device := ⟨(← get).file id, t.read⟩, log }

def recoverTroubled (o : Offline) (t : Trouble) (logPath : String) : EStateM Error Volume RecoveryReport := do
  if !(← get).isPresent logPath then throw (.missingLog logPath)
  if !(← get).isDirectory o.dataDir then throw (.missingDataDir o.dataDir)
  Error.ofExcept (o.config.validate.mapError .config)
  let log ← openTroubled t logPath
  let site : Site Ledger DataDir := ⟨log, o.ledger, ⟨o.dataDir, ← get⟩⟩
  match Site.recover o.config site with
  | .ok report site => set site.files.volume; pure report
  | .error e site => set site.files.volume; throw e

theorem untroubled (o : Offline) (logPath : String) : o.recoverTroubled {} logPath = o.recover logPath := rfl

section Opening

variable {t : Trouble} {logPath : String} {v w : Volume} {log : OpenLog} {e : Error}

theorem openTroubledLoads (t : Trouble) (logPath : String) (v : Volume) :
    (∃ e, openTroubled t logPath v = .error e v) ∨
      ∃ id salt start, v.openExisting logPath = .ok id ∧ Sealed.size ≤ (v.file id).content.bytes.size ∧
        openTroubled t logPath v = (do
          let log ← Volume.onArmed t.load id (Log.load salt start)
          pure { device := ⟨(← get).file id, t.read⟩, log } : EStateM Error Volume OpenLog) v := by
  cases file : v.openExisting logPath with
  | error fault =>
    refine .inl ⟨.path fault, ?_⟩
    unfold openTroubled
    simp only [bind, EStateM.bind, getOk, file, Except.mapError, Error.ofExcept]
    rfl
  | ok id =>
    cases probed : Volume.onArmed t.probe id Reader.ofFile v with
    | error e w =>
      obtain ⟨d, unread, rfl⟩ := Volume.onArmedFails probed
      rw [ofFileFails unread, Volume.setFileSame] at probed
      refine .inl ⟨e, ?_⟩
      unfold openTroubled
      simp only [bind, EStateM.bind, getOk, file, Except.mapError, Error.ofExcept, pure, EStateM.pure, probed]
    | ok r w =>
      obtain ⟨d, opened, rfl⟩ := Volume.onArmedOk probed
      obtain ⟨later, long, -⟩ := ofFileOk opened
      rw [later.file, Volume.setFileSame] at probed
      refine .inr ⟨id, r.header.salt, r.header.start, rfl, long, ?_⟩
      unfold openTroubled
      simp only [bind, EStateM.bind, getOk, setOk, file, Except.mapError, Error.ofExcept, pure, EStateM.pure, probed,
        Volume.openAgain file]

theorem openTroubledFails (failed : openTroubled t logPath v = .error e w) : w = v := by
  rcases openTroubledLoads t logPath v with ⟨e', none⟩ | ⟨id, salt, start, -, long, loads⟩
  · rw [none] at failed
    cases failed
    rfl
  rw [loads] at failed
  rcases bindFails failed with ran | ⟨l, v₁, ran, rest⟩
  · obtain ⟨d', unloaded, rfl⟩ := Volume.onArmedFails ran
    rw [(loadBroken unloaded long).1, Volume.setFileSame]
  · cases rest

theorem openTroubledOk (done : openTroubled t logPath v = .ok log w) : ∃ id rs, v.openExisting logPath = .ok id ∧
    v.Rewritten id w ∧ log.device = ⟨w.file id, t.read⟩ ∧ Sealed.size ≤ (w.file id).content.bytes.size ∧
    Standing (w.file id).content.bytes log.log.header.start firstLink Sealed.size rs
      (w.file id).content.bytes.size := by
  rcases openTroubledLoads t logPath v with ⟨e', none⟩ | ⟨id, salt, start, file, long, loads⟩
  · rw [none] at done
    cases done
  rw [loads] at done
  obtain ⟨l, v₁, ran, rest⟩ := bindOk done
  obtain ⟨d', loaded, rfl⟩ := Volume.onArmedOk ran
  cases rest
  obtain ⟨held, left⟩ := loadFound loaded
  obtain ⟨-, standing, -, -⟩ := left.found long
  have bytes := Volume.fileSet (Volume.fileThere long)
  have size := left.size
  refine ⟨id, held, file, Volume.setRewritten .., rfl, ?_, ?_⟩
  · rw [bytes, size]
    exact standing.behind
  · rw [bytes, size]
    exact ⟨standing.behind, Nat.le_of_eq size.symm, left.frames, standing.admitted⟩

end Opening

end Offline

namespace Site

variable {τ σ : Type} [StatusSource τ] [FileDropper σ] {c : Config} {log : OpenLog} {source : τ} {files : σ}
  {e : Error} {s : Site τ σ}

theorem recoverFails (failed : recover c ⟨log, source, files⟩ = .error e s) : s.files = files ∧
    ((∃ d₁, Reader.new log.log.header log.device = .error e d₁) ∨
      ∃ rs last d₁ d', log.device.Later d₁ ∧
        Reader.Calls (.atFirst log.log.header log.device.file.content.bytes) d₁ rs (some e) last d') := by
  rcases recoverScans c log source files with ⟨e', d₁, made, same⟩ | ⟨scan, d₁, d', made, calls, read⟩
  · rw [same] at failed
    cases failed
    exact ⟨rfl, .inl ⟨d₁, made⟩⟩
  obtain ⟨later, -, -⟩ := newOk made
  rw [read] at failed
  unfold Reader.Scan.stream at failed
  cases failure : scan.failure with
  | none =>
    obtain ⟨report, source', files', whole, -⟩ :=
      recoverFromWhole c scan.records { log with device := d' } source files
    rw [failure, Option.toList_none, List.map_nil, List.append_nil, whole] at failed
    cases failed
  | some e' =>
    obtain ⟨source', broken⟩ := recoverFromBroken c scan.records e' [] { log with device := d' } source files
    rw [failure, Option.toList_some, List.map_singleton, broken] at failed
    cases failed
    rw [failure] at calls
    exact ⟨rfl, .inr ⟨scan.records, scan.reader, d₁, d', later, calls⟩⟩

theorem recoverFailsArmed (failed : recover c ⟨log, source, files⟩ = .error e s)
    (long : Sealed.size ≤ log.device.file.content.bytes.size) {rs : List Record}
    (standing : Standing log.device.file.content.bytes log.log.header.start firstLink Sealed.size rs
      log.device.file.content.bytes.size) : log.device.Hit .len e ∨ log.device.Hit .read e := by
  obtain ⟨-, ⟨d₁, made⟩ | ⟨rs', last, d₁, d', later, calls⟩⟩ := recoverFails failed
  · exact .inl (newFails made long).2
  rw [← later.file] at calls long standing
  obtain ⟨-, -, other, stopped⟩ := calls.standing (Reader.firstSees long)
  cases stopped with
  | foreign here => exact absurd here (standing.sound other)
  | broken armed => exact .inr ⟨false, later.armed armed, rfl⟩

theorem firstFailure {items : List (Except Error Record)} (broken : .error e ∈ items) :
    ∃ (rs : List Record) (first : Error) (rest : List (Except Error Record)),
      items = rs.map .ok ++ .error first :: rest := by
  induction items with
  | nil => cases broken
  | cons item items ih =>
    cases item with
    | error first => exact ⟨[], first, items, rfl⟩
    | ok r =>
      obtain ⟨rs, first, rest, same⟩ := ih (by simpa using broken)
      exact ⟨r :: rs, first, rest, by rw [same]; rfl⟩

end Site

namespace Offline

variable {o : Offline} {t : Trouble} {logPath : String} {v w : Volume} {e : Error}

theorem recoverTroubledFails (failed : o.recoverTroubled t logPath v = .error e w) : w = v ∨
    ∃ id, v.openExisting logPath = .ok id ∧ v.Rewritten id w ∧
      (Device.Hit ⟨w.file id, t.read⟩ .len e ∨ Device.Hit ⟨w.file id, t.read⟩ .read e) := by
  unfold recoverTroubled at failed
  rcases bindFails failed with got | ⟨v₀, v₁, got, rest₁⟩
  · cases got
  cases got
  split at rest₁
  · cases rest₁
    exact .inl rfl
  rcases bindFails rest₁ with got | ⟨v₂, v₃, got, rest₂⟩
  · cases got
  cases got
  split at rest₂
  · cases rest₂
    exact .inl rfl
  rcases bindFails rest₂ with invalid | ⟨u, v₄, valid, rest₃⟩
  · exact .inl (Error.ofExceptFails invalid).2
  obtain ⟨-, rfl⟩ := Error.ofExceptOk valid
  rcases bindFails rest₃ with opened | ⟨log, v₅, opened, rest₄⟩
  · exact .inl (openTroubledFails opened)
  obtain ⟨id, rs, file, rewritten, device, long, standing⟩ := openTroubledOk opened
  rcases bindFails rest₄ with got | ⟨v₆, v₇, got, rest₅⟩
  · cases got
  cases got
  cases recovered : Site.recover o.config ⟨log, o.ledger, (⟨o.dataDir, v₅⟩ : DataDir)⟩ with
  | ok report site =>
    simp only [recovered] at rest₅
    cases rest₅
  | error e' site =>
    simp only [recovered] at rest₅
    cases rest₅
    have content : (v₅.file id).content.bytes = log.device.file.content.bytes := by rw [device]
    rw [content] at long standing
    have armed := Site.recoverFailsArmed recovered long standing
    rw [device] at armed
    rw [(Site.recoverFails recovered).1]
    exact .inr ⟨id, file, rewritten, armed⟩

theorem failedRecoveryRemovesNothing :
    (∀ (o : Offline) (logPath : String) (v w : Volume) (e : Error), o.recover logPath v = .error e w → w = v) ∧
    (∀ (o : Offline) (t : Trouble) (logPath : String) (v w : Volume) (e : Error),
      o.recoverTroubled t logPath v = .error e w → w = v ∨ ∃ id, v.openExisting logPath = .ok id ∧ v.Rewritten id w ∧
        ∃ f ∈ t.read, e = .io (.injected f.op f.atEnd)) ∧
    (∀ {τ σ : Type} [StatusSource τ] [FileDropper σ] (c : Config) (items : List (Except Error Record)) (log : OpenLog)
      (source : τ) (files : σ), (∃ e, .error e ∈ items) →
      ∃ (rs : List Record) (e : Error) (rest : List (Except Error Record)), items = rs.map .ok ++ .error e :: rest ∧
        (∀ p : Replay τ, p.run items = (some e, rs.foldl Replay.step p)) ∧
        ∃ source', Site.recoverFrom c items ⟨log, source, Observed.mk files []⟩ =
          .error e ⟨log, source', ⟨files, []⟩⟩) ∧
    ∀ {τ σ : Type} [StatusSource τ] [FileDropper σ] (c : Config) (log : OpenLog) (source : τ) (files : σ) (e : Error)
      (s : Site τ (Observed σ)), Site.recover c ⟨log, source, Observed.mk files []⟩ = .error e s →
        s.files = ⟨files, []⟩ := by
  refine ⟨fun o logPath v w e failed => ?_, fun o t logPath v w e failed => ?_,
    fun c items log source files broken => ?_, fun c log source files e s failed => (Site.recoverFails failed).1⟩
  · rw [← untroubled] at failed
    rcases recoverTroubledFails failed with same | ⟨id, file, rewritten, hit⟩
    · exact same
    · rcases hit with ⟨atEnd, ⟨f, none, -⟩, -⟩ | ⟨atEnd, ⟨f, none, -⟩, -⟩ <;> cases none
  · rcases recoverTroubledFails failed with same | ⟨id, file, rewritten, hit⟩
    · exact .inl same
    · refine .inr ⟨id, file, rewritten, ?_⟩
      rcases hit with ⟨atEnd, ⟨f, member, op, shape⟩, rfl⟩ | ⟨atEnd, ⟨f, member, op, shape⟩, rfl⟩
      · exact ⟨f, member, by rw [op, shape]⟩
      · exact ⟨f, member, by rw [op, shape]⟩
  · obtain ⟨e, broken⟩ := broken
    obtain ⟨rs, first, rest, rfl⟩ := Site.firstFailure broken
    exact ⟨rs, first, rest, rfl, fun p => p.runBroken rs first rest,
      Site.recoverFromBroken c rs first rest log source (Observed.mk files [])⟩

def shortLog : Volume where
  names := [(#["log"], .file 0), (#["base"], .directory), (#["base", "1"], .file 1)]
  files := #[⟨[.written (.mk #[80, 68, 76])], []⟩, .empty]

def refusal : EStateM.Result Error Volume RecoveryReport → Option Error
  | .ok .. => none
  | .error e _ => some e

def listsOne : Record := ⟨1, .pendingDelete, Snapshot.encode [⟨⟨⟨1663, 5, 1⟩, false⟩, ⟨7⟩⟩]⟩

theorem shortLogRefused : byHand.recover "log" shortLog = .error (.corruption .logShort) shortLog ∧
    (Replay.ofRecords {} {} [listsOne]).table.rows = [(⟨7⟩, [⟨⟨1663, 5, 1⟩, false⟩])] ∧
    ∀ (log : OpenLog) (e : Error), ∃ source', Site.recoverFrom {} [.ok listsOne, .error e]
      ⟨log, ({} : Ledger), Observed.mk ({} : DropJournal) []⟩ = .error e ⟨log, source', ⟨{}, []⟩⟩ := by
  refine ⟨?_, by decide +kernel, fun log e => ?_⟩
  · have refused : refusal (byHand.recover "log" shortLog) = some (.corruption .logShort) := by decide +kernel
    cases outcome : byHand.recover "log" shortLog with
    | ok report w =>
      rw [outcome] at refused
      cases refused
    | error e w =>
      rw [outcome] at refused
      cases refused
      rw [failedRecoveryRemovesNothing.1 _ _ _ _ _ outcome]
  · obtain ⟨rs, first, rest, items, -, recovered⟩ := failedRecoveryRemovesNothing.2.2.1 {} [.ok listsOne, .error e] log
      ({} : Ledger) ({} : DropJournal) ⟨e, by simp⟩
    rcases rs with _ | ⟨r, _ | ⟨r', rs⟩⟩
    · cases items
    · cases items
      exact recovered
    · cases items

end Offline
end OrphanFiles
