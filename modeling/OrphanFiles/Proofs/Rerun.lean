import OrphanFiles.Proofs.FailedRecovery

/-!
A recovery that is run again.  What was removed stays removed, and what stood in the way still stands there; so each
relation that was tried once is left alone from then on, whatever else is removed in between, and the log that the first
run left is opened as it is.  Main statement: a second run leaves all as it was, reports the same replay, and fails for
no transaction for which the first did not.
-/
namespace OrphanFiles

open Log

namespace Volume

/- The same volume, but for files of relations that lost their names. -/
structure Fewer (base : Place) (v w : Volume) : Prop where
  cleared : ∃ gone, (∀ p, gone p → Deep base p) ∧ v.Cleared gone w
  files : w.files = v.files

end Volume

namespace DataDir

open Volume RedoTable

theorem finalizeSettled {τ : Type} [StatusSource τ] {v : Volume} {base : Place} {root : String} (t : RedoTable)
    (source : τ) (rooted : v.walk #[] (components root) = .ok base) :
    ∃ w, (t.finalize source (DataDir.mk root v)).2 = ⟨root, w⟩ ∧ Fewer base v w ∧
      ((t.finalize source (DataDir.mk root w)).2 = ⟨root, w⟩ ∧
        (t.finalize source (DataDir.mk root v)).1.1.NoWorse (t.finalize source (DataDir.mk root w)).1.1) := by
  have nothing : FinalizeReport.NoWorse {} {} := ⟨fun _ => id, fun f member => ⟨f, member, rfl⟩⟩
  by_cases on : t.enabled = true
  · simp only [finalizeRows on]
    obtain ⟨report, w, first, trim, settled⟩ := rowsPurge source t.rows _ v (Trim.start v root) initialNone {}
    obtain ⟨report', again, noWorse⟩ := settled _ w trim (initialGrown initialNone) (fun _ _ => id) {} nothing
    rw [first]
    refine ⟨w, rfl, ⟨⟨_, fun p => takenDeep rooted, trim.cleared⟩, trim.files⟩, ?_⟩
    rw [again]
    exact ⟨rfl, noWorse⟩
  · have idle (d : DataDir) : t.finalize source d = (({}, t), d) := by
      obtain ⟨enabled, table⟩ := t
      unfold finalize
      cases table with
      | none => rfl
      | some table => simp only [if_neg on, pureState]
    refine ⟨v, by rw [idle], ⟨⟨_, fun _ none => none.elim, clearedNone rfl⟩, rfl⟩, ?_⟩
    rw [idle]
    exact ⟨rfl, nothing⟩

end DataDir

namespace Volume

variable {v : Volume} {text : String} {p : Place} {id : Nat}

theorem directoryFound : v.isDirectory text = true ↔
    ∃ base, v.resolve text = .ok base ∧ v.lookup base = some .directory := by
  unfold isDirectory find?
  cases v.resolve text with
  | error fault => simp
  | ok place => simp

theorem existingOf (resolved : v.resolve text = .ok p) (here : v.lookup p = some (.file id)) :
    v.isPresent text = true ∧ v.openExisting text = .ok id := by
  constructor
  · simp [isPresent, find?, resolved, here]
  · simp only [openExisting, bind, Except.bind, fileFound resolved here]
    rfl

end Volume

namespace Offline

section Again

variable {o : Offline} {logPath : String} {v w : Volume} {report : RecoveryReport}

theorem openLogFound {log : OpenLog} (opened : openLog logPath v = .ok log w) : ∃ id rs,
    v.openExisting logPath = .ok id ∧ w.names = v.names ∧ log.device = ⟨w.file id, []⟩ ∧
      Found (w.file id).content.bytes log.log.header.salt log.log.header rs (w.file id).content.bytes.size := by
  obtain ⟨id, h₀, l, d', file, long, -, loaded, rfl, rfl⟩ := openLogLoads opened
  obtain ⟨h, rs, torn, rfl, found, -⟩ := loadLeaves (by simp [Device.Armed]) loaded
  refine ⟨id, rs, file, rfl, rfl, ?_⟩
  rw [Volume.fileSet (Volume.fileThere long)]
  have salted := found.salted
  rw [← salted] at found
  exact found

theorem recoversAgain (outside : ∀ base place, v.resolve o.dataDir = .ok base → v.resolve logPath = .ok place →
    ¬ Volume.Inside base place) (done : o.recover logPath v = .ok report w) :
    ∃ report', o.recover logPath w = .ok report' w ∧ report'.replay = report.replay ∧
      report.finalize.NoWorse report'.finalize := by
  obtain ⟨-, there, valid, log, v₁, site, opened, recovered, rfl⟩ := recoverOkIff.mp done
  obtain ⟨id, rs, file, names, device, found⟩ := openLogFound opened
  obtain ⟨base, dir, directory⟩ := Volume.directoryFound.mp there
  obtain ⟨place, resolved, here⟩ := Volume.openFound (Volume.existingFound file)
  have same := Volume.clearedNone names
  -- The first run, by the records that the log holds.
  have content : (v₁.file id).content.bytes = log.device.file.content.bytes := by rw [device]
  obtain ⟨p, read⟩ : ∃ p : Replay Ledger, p = rs.foldl Replay.step { table := .new o.config, source := o.ledger } :=
    ⟨_, rfl⟩
  obtain ⟨log', first⟩ := Site.recoverFound o.config log (by rw [device]) (content ▸ found) o.ledger
    (⟨o.dataDir, v₁⟩ : DataDir) read
  rw [first] at recovered
  cases recovered
  obtain ⟨w, removed, ⟨⟨gone, deep, cleared⟩, files⟩, again, noWorse⟩ :=
    DataDir.finalizeSettled p.table p.source (same.walk (Volume.resolveWalk dir))
  rw [removed]
  have later := same.trans cleared
  -- The second run finds the log and the data directory where they were.
  obtain ⟨resolved', here'⟩ := later.found resolved here fun lost =>
    outside base place dir resolved (deep place (lost.resolve_left not_false)).inside
  obtain ⟨present, file'⟩ := Volume.existingOf resolved' here'
  have there' := Volume.directoryFound.mpr ⟨base, later.staysDirectory dir directory⟩
  have kept : w.file id = v₁.file id := by rw [Volume.file, files, Volume.file]
  rw [← kept] at found
  have done' := recoverWhole present there' valid file' found read
  rw [again] at done'
  exact ⟨_, done', rfl, noWorse⟩

end Again

def blockedSegment : Volume :=
  { bothThere with names := bothThere.names ++ [(#["base", "1", "2", "3.2"], .directory)] }

theorem recoversBlocked : ∃ report w, byHand.recover "log" blockedSegment = .ok report w ∧
    report.finalize.failures.map (·.xid) = [⟨7⟩] := by
  have file : blockedSegment.openExisting "log" = .ok 0 := by decide +kernel
  refine ⟨_, _, recoverWhole (h := ⟨5, 1⟩) (by decide +kernel) (by decide +kernel) rfl file foundBoth rfl, ?_⟩
  decide +kernel

theorem recoversBlockedAgain : ∃ report w report', byHand.recover "log" blockedSegment = .ok report w ∧
    report.finalize.failures.map (·.xid) = [⟨7⟩] ∧ byHand.recover "log" w = .ok report' w ∧
    report'.replay = report.replay ∧ report.finalize.NoWorse report'.finalize := by
  obtain ⟨report, w, done, failed⟩ := recoversBlocked
  have places : blockedSegment.resolve "base" = .ok #["base"] ∧ blockedSegment.resolve "log" = .ok #["log"] := by
    decide +kernel
  have outside (base place : Volume.Place) (dir : blockedSegment.resolve "base" = .ok base)
      (file : blockedSegment.resolve "log" = .ok place) : ¬ Volume.Inside base place := by
    rintro ⟨names, inside, -⟩
    cases places.1.symm.trans dir
    cases places.2.symm.trans file
    simp at inside
  obtain ⟨report', again, same⟩ := recoversAgain outside done
  exact ⟨report, w, report', done, failed, again, same⟩

end Offline
end OrphanFiles
