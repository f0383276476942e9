import OrphanFiles.Proofs.Handle
import OrphanFiles.Proofs.Tally

/-!
On what a recovery decides.  A log ends where no whole record stands any more, so a handle whose file was altered
replays less than it holds; but it replays all that stands in the file, and removes nothing if a reading failed.
-/
namespace OrphanFiles

open Log

namespace ArmedFault

def nth (op : FileOp) : Nat → List ArmedFault → Option ArmedFault
  | 0, fs => (strike op fs).1
  | n + 1, fs => nth op n (strike op fs).2

abbrev own (op : FileOp) (fs : List ArmedFault) : List ArmedFault := fs.filter (·.op = op)

theorem strikeOwn (op : FileOp) (fs : List ArmedFault) :
    (strike op fs).1 = (strike op (own op fs)).1 ∧ own op (strike op fs).2 = (strike op (own op fs)).2 := by
  induction fs with
  | nil => exact ⟨rfl, rfl⟩
  | cons f fs ih =>
    by_cases same : f.op = op
    · cases after : f.after <;> simp [strike, own, same, after]
    · simp [strike, own, same, ih]

theorem strikeOther {op other : FileOp} (differ : other ≠ op) (fs : List ArmedFault) :
    own op (strike other fs).2 = own op fs := by
  induction fs with
  | nil => rfl
  | cons f fs ih =>
    by_cases same : f.op = other
    · cases after : f.after <;> simp [strike, own, same, after, differ]
    · by_cases here : f.op = op <;> simp_all [strike, own]

theorem nthOwn (op : FileOp) (n : Nat) (fs : List ArmedFault) : nth op n fs = nth op n (own op fs) := by
  induction n generalizing fs with
  | zero => exact (strikeOwn op fs).1
  | succ n ih => rw [nth, nth, ih, (strikeOwn op fs).2]

theorem nthOther {op other : FileOp} (differ : other ≠ op) (n : Nat) (fs : List ArmedFault) :
    nth op n (strike other fs).2 = nth op n fs := by
  rw [nthOwn, strikeOther differ, ← nthOwn]

end ArmedFault

def Device.EndsAt (d : Device) (n : Nat) : Prop :=
  ∃ f, ArmedFault.nth .read n d.faults = some f ∧ f.atEnd = true

def Device.readOnce (d : Device) : Device := { d with faults := (ArmedFault.strike .read d.faults).2 }

namespace FileM

variable {d d' : Device} {off n : Nat}

theorem readOrEndOk {bytes? : Option ByteArray} (done : readOrEnd off n d = .ok bytes? d') : d' = d.readOnce ∧
    (ArmedFault.nth .read 0 d.faults = none ∧ bytes? = bytesAt d.file.content.bytes off n ∨
      d.EndsAt 0 ∧ bytes? = none) := by
  unfold Device.EndsAt Device.readOnce ArmedFault.nth
  rcases struck : ArmedFault.strike .read d.faults with ⟨_ | f, faults⟩
  · unfold readOrEnd Error.attempt at done
    simp only [bind, EStateM.bind, readAtPassed struck] at done
    cases here : bytesAt d.file.content.bytes off n with
    | none =>
      simp only [here] at done
      cases done
      exact ⟨rfl, .inl ⟨rfl, rfl⟩⟩
    | some bytes =>
      simp only [here] at done
      cases done
      exact ⟨rfl, .inl ⟨rfl, rfl⟩⟩
  · unfold readOrEnd Error.attempt readAt at done
    simp only [bind, EStateM.bind, callEq, struck] at done
    cases shape : f.atEnd with
    | true =>
      simp only [shape] at done
      cases done
      exact ⟨rfl, .inr ⟨⟨f, rfl, shape⟩, rfl⟩⟩
    | false =>
      simp only [shape] at done
      cases done

end FileM

namespace Log.Reader

open FileM

/- A reading was cut short at a place where a record was looked for: that of its block, or that of its payload. -/
inductive CutShort (d : Device) (bytes : ByteArray) (link : UInt64) (v n : Nat) : Prop where
  | block (inside : v + Sealed.size ≤ bytes.size) (ends : d.EndsAt n)
  | payload {f : Frame} (stands : f.StandsAt bytes v) (linked : f.link = link)
      (passed : ArmedFault.nth .read n d.faults = none) (ends : d.EndsAt (n + 1))

theorem CutShort.before {d d' : Device} {bytes : ByteArray} {link : UInt64} {v n : Nat}
    (short : CutShort d' bytes link v n)
    (same : ∀ i, ArmedFault.nth .read i d'.faults = ArmedFault.nth .read i d.faults) : CutShort d bytes link v n := by
  cases short with
  | block inside ends =>
    unfold Device.EndsAt at ends
    rw [same] at ends
    exact .block inside ends
  | payload stands linked passed ends =>
    unfold Device.EndsAt at ends
    rw [same] at passed ends
    exact .payload stands linked passed ends

section Readings

variable {r r' last : Reader} {d d' : Device} {x : Record} {rs : List Record}

theorem recordReadings (found : r.next d = .ok (some x, r') d') : d' = d.readOnce.readOnce ∧
    ArmedFault.nth .read 0 d.faults = none ∧ ArmedFault.nth .read 1 d.faults = none := by
  unfold next at found
  split at found
  · cases found
  obtain ⟨block?, d₁, read, rest⟩ := bindOk found
  obtain ⟨rfl, passed⟩ := readOrEndOk read
  cases block? with
  | none => cases rest
  | some block =>
    have passed := (passed.resolve_right fun cut => by cases cut.2).1
    rcases frame : r.frame? block with damage | _ | f
    · simp only [frame] at rest
      cases rest
    · simp only [frame] at rest
      cases rest
    simp only [frame] at rest
    obtain ⟨payload?, d₂, read', rest'⟩ := bindOk rest
    obtain ⟨rfl, passed'⟩ := readOrEndOk read'
    cases payload? with
    | none => cases rest'
    | some payload =>
      have passed' := (passed'.resolve_right fun cut => by cases cut.2).1
      rcases record : r.record? f block payload with damage | _ | answer
      · simp only [record] at rest'
        cases rest'
      · simp only [record] at rest'
        cases rest'
      · simp only [record] at rest'
        cases rest'
        exact ⟨rfl, passed, passed'⟩

theorem endReadings (sees : r.Sees d.file.content.bytes) (ended : r.next d = .ok (none, r') d') :
    r.nextIn d.file.content.bytes = .ok r.stop ∨ CutShort d d.file.content.bytes r.link r.offset 0 := by
  unfold next at ended
  unfold nextIn
  split at ended
  · next short => exact .inl (if_pos short)
  next inside =>
  rw [if_neg inside]
  have room : r.offset + Sealed.size ≤ d.file.content.bytes.size := sees.limit ▸ Nat.le_of_not_lt inside
  obtain ⟨block?, d₁, read, rest⟩ := bindOk ended
  obtain ⟨rfl, ⟨passed, rfl⟩ | ⟨ends, -⟩⟩ := readOrEndOk read
  · rw [bytesAtInside room] at rest ⊢
    rcases frame : r.frame? (d.file.content.bytes.extract r.offset (r.offset + Sealed.size)) with damage | _ | f
    · simp only [frame] at rest
      cases rest
    · simp only [frame]
      exact .inl trivial
    simp only [frame] at rest ⊢
    obtain ⟨decoded, linked, -⟩ := frameLinked frame
    obtain ⟨payload?, d₂, read', rest'⟩ := bindOk rest
    obtain ⟨-, ⟨-, rfl⟩ | ⟨ends, -⟩⟩ := readOrEndOk read'
    · left
      rw [show d.readOnce.file = d.file from rfl] at rest'
      cases here : bytesAt d.file.content.bytes (r.offset + Sealed.size) f.size with
      | none => rfl
      | some payload =>
        simp only [here] at rest' ⊢
        rcases record : r.record? f (d.file.content.bytes.extract r.offset (r.offset + Sealed.size)) payload with
          damage | _ | answer
        · simp only [record] at rest'
          cases rest'
        · rfl
        · simp only [record] at rest'
          cases rest'
    · exact .inr (.payload (decodeStanding room decoded) linked passed ends)
  · exact .inr (.block room ends)

theorem Calls.readings (calls : Calls r d rs none last d') (sees : r.Sees d.file.content.bytes) :
    (∀ i < 2 * rs.length, ArmedFault.nth .read i d.faults = none) ∧
      (CutShort d d.file.content.bytes (chainLink r.link rs) last.validUpTo (2 * rs.length) ∨
        (∀ x : Record, x.Admitted r.header.start →
          ¬ x.StandsAt d.file.content.bytes last.validUpTo (chainLink r.link rs)) ∧
        ∀ damage, ¬ Foreign d.file.content.bytes last.validUpTo (chainLink r.link rs) r.header.start damage) := by
  induction rs generalizing r d with
  | nil =>
    cases calls with
    | ended ended =>
    rw [(endStands sees ended).2.1]
    refine ⟨fun i none => absurd none (Nat.not_lt_zero _), ?_⟩
    rcases endReadings sees ended with nothing | short
    · refine .inr ⟨fun x admitted stands => ?_, fun damage foreign => ?_⟩
      · rw [nextStanding sees.limit stands admitted] at nothing
        cases nothing
      · rw [nextForeign sees.limit foreign] at nothing
        cases nothing
    · exact .inl short
  | cons x rs ih =>
    cases calls with
    | record found rest =>
    obtain ⟨rfl, first, second⟩ := recordReadings found
    obtain ⟨-, stands, -, rfl⟩ := recordStands sees found
    obtain ⟨passed, stopped⟩ := ih rest (pastSees sees stands)
    refine ⟨fun i inside => ?_, ?_⟩
    · match i with
      | 0 => exact first
      | 1 => exact second
      | i + 2 =>
        rw [List.length_cons] at inside
        exact passed i (by omega)
    · rw [List.length_cons, Nat.mul_succ]
      refine stopped.imp (fun short => ?_) id
      cases short with
      | block inside ends => exact .block inside ends
      | payload stands linked passed ends => exact .payload stands linked passed ends

end Readings

end Log.Reader

namespace Log

theorem Spells.holds {bytes : ByteArray} {start link : UInt64} {off v m : Nat} {rs held : List Record}
    (spells : Spells bytes start link off rs v) (sound : ∀ damage, ¬ Foreign bytes v (chainLink link rs) start damage)
    (behind : off ≤ m) (inside : m ≤ bytes.size) (frames : bytes.extract off m = chain link held)
    (small : ∀ x ∈ held, x.payload.size ≤ maxPayload) : held <+: rs := by
  induction held generalizing link off rs with
  | nil => exact List.nil_prefix
  | cons x held ih =>
    obtain ⟨stands, room, rest⟩ := chainFirst behind inside frames
    have fits := small x List.mem_cons_self
    cases rs with
    | nil =>
      obtain rfl := spells.none
      rcases UInt64.lt_or_le x.lsn start with below | recent
      · exact absurd (.belowStart (stands.frame fits) rfl below) (sound .belowStart)
      · exact absurd stands (spells.last x ⟨recent, fits⟩)
    | cons y rs =>
      obtain ⟨stands', admitted, rest'⟩ := spells.first
      obtain rfl := stands.unique stands' fits admitted.small
      refine (List.prefix_cons_inj x).mpr (ih ⟨rest', spells.last⟩ sound room rest fun z member => ?_)
      exact small z (List.mem_cons_of_mem _ member)

theorem Knows.spelled {log : Log} {held rs : List Record} {bytes : ByteArray} {v : Nat} (knows : log.Knows held)
    (spells : Spells bytes log.header.start firstLink Sealed.size rs v)
    (sound : ∀ damage, ¬ Foreign bytes v (chainLink firstLink rs) log.header.start damage)
    (frames : bytes.extract Sealed.size log.offset = chain firstLink held) :
    held <+: rs ∧ (bytes.size ≤ log.offset → rs = held) := by
  have size := congrArg ByteArray.size frames
  have long := Nat.le_trans spells.behind spells.inside
  have offset := knows.offset
  rw [ByteArray.size_extract] at size
  have part := spells.holds sound (show Sealed.size ≤ log.offset by omega) (by omega) frames knows.small
  exact ⟨part, fun full => spells.full part (offset ▸ full)⟩

theorem newReadings {d d' : Device} {h : Header} {r : Reader} (made : Reader.new h d = .ok r d') (n : Nat) :
    ArmedFault.nth .read n d'.faults = ArmedFault.nth .read n d.faults := by
  obtain ⟨limit, d₁, measured, rest⟩ := bindOk made
  obtain ⟨u, d₂, called, rest'⟩ := bindOk measured
  cases rest'
  rw [FileM.callEq] at called
  have other := ArmedFault.nthOther (show FileOp.len ≠ .read by decide) n d.faults
  rcases struck : ArmedFault.strike .len d.faults with ⟨_ | f, faults⟩
  · simp only [struck] at called other
    cases called
    split at rest <;> cases rest
    exact other
  · simp only [struck] at called
    cases called

end Log

namespace Site

variable {τ σ : Type} [StatusSource τ] [FileDropper σ]

theorem recoverFromBroken (c : Config) (rs : List Record) (e : Error) (rest : List (Except Error Record))
    (log : OpenLog) (source : τ) (files : σ) : ∃ source',
      recoverFrom c (rs.map .ok ++ .error e :: rest) ⟨log, source, files⟩ = .error e ⟨log, source', files⟩ := by
  unfold recoverFrom
  simp only [Replay.runBroken]
  exact ⟨_, rfl⟩

theorem recoverFromWhole (c : Config) (rs : List Record) (log : OpenLog) (source : τ) (files : σ) :
    ∃ report source' files', recoverFrom c (rs.map .ok) ⟨log, source, files⟩ = .ok report ⟨log, source', files'⟩ ∧
      report.replay.records = rs.length ∧ report.replay.lastLsn = rs.getLast?.map (·.lsn) := by
  obtain ⟨tallied, -⟩ := Replay.runTallied c source rs
  exact ⟨_, _, _, recoverFromRead c log source files rs rfl, tallied.records, tallied.lastLsn⟩

theorem recoverScans (c : Config) (s : OpenLog) (source : τ) (files : σ) :
    (∃ e d₁, Reader.new s.log.header s.device = .error e d₁ ∧
      recover c ⟨s, source, files⟩ = .error e ⟨{ s with device := d₁ }, source, files⟩) ∨
    ∃ (scan : Reader.Scan) (d₁ d' : Device),
      Reader.new s.log.header s.device = .ok (.atFirst s.log.header s.device.file.content.bytes) d₁ ∧
      Reader.Calls (.atFirst s.log.header s.device.file.content.bytes) d₁ scan.records scan.failure scan.reader d' ∧
      recover c ⟨s, source, files⟩ = recoverFrom c scan.stream ⟨{ s with device := d' }, source, files⟩ := by
  cases made : Reader.new s.log.header s.device with
  | error e d₁ =>
    refine .inl ⟨e, d₁, rfl, ?_⟩
    simp only [recover, bind, EStateM.bind, onLog, OpenLog.reader, getOk, OpenLog.onDevice, made]
  | ok r d₁ =>
    obtain ⟨later, long, rfl⟩ := newOk made
    have sees : (Reader.atFirst s.log.header s.device.file.content.bytes).Sees d₁.file.content.bytes := by
      rw [later.file]
      exact Reader.firstSees long
    obtain ⟨scan, d', drained, calls⟩ := Reader.drainCalls sees (Nat.lt_succ_self _)
    have drained : Reader.drain (.atFirst s.log.header s.device.file.content.bytes) d₁ = .ok scan d' := drained
    refine .inr ⟨scan, d₁, d', rfl, calls, ?_⟩
    simp only [recover, bind, EStateM.bind, onLog, OpenLog.reader, getOk, OpenLog.onDevice, made, OpenLog.drain,
      drained]

theorem recoverReads (c : Config) (s : OpenLog) (source : τ) (files : σ) :
    (∃ e s' source', recover c ⟨s, source, files⟩ = .error e ⟨s', source', files⟩) ∨
    ∃ rs last d₁ d',
      Reader.new s.log.header s.device = .ok (.atFirst s.log.header s.device.file.content.bytes) d₁ ∧
      Reader.Calls (.atFirst s.log.header s.device.file.content.bytes) d₁ rs none last d' ∧
      recover c ⟨s, source, files⟩ = recoverFrom c (rs.map .ok) ⟨{ s with device := d' }, source, files⟩ := by
  rcases recoverScans c s source files with ⟨e, d₁, -, failed⟩ | ⟨scan, d₁, d', made, calls, read⟩
  · exact .inl ⟨e, _, source, failed⟩
  rw [read]
  unfold Reader.Scan.stream
  cases failed : scan.failure with
  | some e =>
    obtain ⟨source', broken⟩ := recoverFromBroken c scan.records e [] { s with device := d' } source files
    exact .inl ⟨e, _, source', broken⟩
  | none =>
    rw [failed] at calls
    refine .inr ⟨scan.records, scan.reader, d₁, d', made, calls, ?_⟩
    exact congrArg (recoverFrom c · _) (List.append_nil _)

/-- Whatever became of the file of a handle, and whatever reading of it fails: a recovery fails without a call of the
dropper, or it goes by all the records that stand in the file, up to the first place where none stands or where the
reading of one met the end of the file.  In the first case these are all the records of the handle, if they still stand
in the file. -/
theorem replaysWhatStands {s : OpenLog} {held : List Record} (history : s.log.Held held) (c : Config) (source : τ)
    (files : σ) {bytes : ByteArray} (content : s.device.file.content.bytes = bytes) :
    (∃ e s' source', recover c ⟨s, source, Observed.mk files []⟩ = .error e ⟨s', source', ⟨files, []⟩⟩) ∨
    ∃ rs v report s' source' files',
      recover c ⟨s, source, Observed.mk files []⟩ = .ok report ⟨s', source', files'⟩ ∧
      recoverFrom c (rs.map .ok) ⟨s', source, Observed.mk files []⟩ = .ok report ⟨s', source', files'⟩ ∧
      report.replay.records = rs.length ∧ report.replay.lastLsn = rs.getLast?.map (·.lsn) ∧
      Standing bytes s.log.header.start firstLink Sealed.size rs v ∧
      (∀ i < 2 * rs.length, ArmedFault.nth .read i s.device.faults = none) ∧
      (Reader.CutShort s.device bytes (chainLink firstLink rs) v (2 * rs.length) ∨
        Spells bytes s.log.header.start firstLink Sealed.size rs v ∧
        (bytes.extract Sealed.size s.log.offset = chain firstLink held → held <+: rs ∧
          (bytes.size ≤ s.log.offset → rs = held ∧
            (held = [] ∨ report.replay.lastLsn = some (s.log.nextLsn - 1))))) := by
  subst content
  rcases recoverReads c s source (Observed.mk files []) with failed | ⟨rs, last, d₁, d', made, calls, read⟩
  · exact .inl failed
  right
  obtain ⟨report, source', files', whole, records, lastLsn⟩ :=
    recoverFromWhole c rs { s with device := d' } source (Observed.mk files [])
  obtain ⟨later, long, -⟩ := newOk made
  have sees : (Reader.atFirst s.log.header s.device.file.content.bytes).Sees d₁.file.content.bytes := by
    rw [later.file]
    exact Reader.firstSees long
  obtain ⟨-, -, standing, -⟩ := calls.standing sees
  obtain ⟨passed, stopped⟩ := calls.readings sees
  rw [later.file] at standing stopped
  refine ⟨rs, last.validUpTo, report, _, source', files', read.trans whole, whole, records, lastLsn, standing, ?_, ?_⟩
  · exact fun i inside => (newReadings made i).symm.trans (passed i inside)
  · rcases stopped with short | ⟨nothing, sound⟩
    · exact .inl (short.before (newReadings made))
    · refine .inr ⟨⟨standing, nothing⟩, fun frames => ?_⟩
      obtain ⟨part, full⟩ := history.knows.spelled ⟨standing, nothing⟩ sound frames
      refine ⟨part, fun room => ?_⟩
      have same := full room
      rw [lastLsn, same]
      exact ⟨rfl, history.knows.last⟩

def appendAll (s : OpenLog) : List (Kind × ByteArray) → Option OpenLog
  | [] => some s
  | (kind, payload) :: items => match OpenLog.append kind payload s with
    | .ok _ s => appendAll s items
    | .error .. => none

def openedWith (items : List (Kind × ByteArray)) : Option OpenLog :=
  match load 3 1 ⟨.empty, []⟩ with
  | .ok log d => appendAll ⟨d, log, none⟩ items
  | .error .. => none

theorem appendAllHeld {items : List (Kind × ByteArray)} {s s' : OpenLog} {held : List Record}
    (history : s.log.Held held) (done : appendAll s items = some s') :
    ∃ more, s'.log.Held (held ++ more) ∧ more.length = items.length := by
  induction items generalizing s held with
  | nil =>
    cases done
    exact ⟨[], by rwa [List.append_nil], rfl⟩
  | cons item items ih =>
    unfold appendAll at done
    split at done
    · next lsn s₁ appended =>
      obtain ⟨more, later, length⟩ := ih (.appended history appended) done
      rw [List.append_assoc] at later
      exact ⟨_, later, by rw [List.length_append, length]; exact Nat.add_comm ..⟩
    · cases done

theorem openedHeld {items : List (Kind × ByteArray)} {s : OpenLog} (done : openedWith items = some s) :
    ∃ held, s.log.Held held ∧ items.length ≤ held.length := by
  unfold openedWith at done
  split at done
  · next log d loaded =>
    obtain ⟨held, found⟩ := loadFound loaded
    obtain ⟨more, history, length⟩ := appendAllHeld (s := ⟨d, log, none⟩) (.opened loaded found) done
    exact ⟨_, history, by rw [List.length_append]; omega⟩
  · cases done

def fileAndCommit : List (Kind × ByteArray) :=
  [(.pendingDelete, Snapshot.encode [⟨⟨⟨1663, 5, 100⟩, false⟩, ⟨10⟩⟩]), (.commit, Completion.encode ⟨⟨10⟩, []⟩)]

def commitHidden (s : OpenLog) : List OpenLog :=
  [{ s with device := { s.device with faults := [⟨.read, 2, true⟩] } },
   { s with device := { s.device with file := { s.device.file with
      content := Content.overwrite 130 (.mk #[0xFF]) s.device.file.content } } }]

def dropsOnPart (s : OpenLog) : Bool :=
  match recover {} ⟨s, ({} : Ledger), Observed.mk ({} : DropJournal) []⟩ with
  | .ok report site => report.replay.records = 1 ∧ report.replay.lastLsn = some 1 ∧
      site.files.calls = [([⟨⟨1663, 5, 100⟩, false⟩], true)]
  | .error .. => false

theorem commitPassedOver : ∃ s held, s.log.Held held ∧ 2 ≤ held.length ∧ s.log.nextLsn = 3 ∧
    ∀ s' ∈ commitHidden s, s'.log = s.log ∧ ∃ report site,
      recover {} ⟨s', ({} : Ledger), Observed.mk ({} : DropJournal) []⟩ = .ok report site ∧
        report.replay.records = 1 ∧ report.replay.lastLsn = some 1 ∧
        site.files.calls = [([⟨⟨1663, 5, 100⟩, false⟩], true)] := by
  obtain ⟨facts, drops⟩ : (openedWith fileAndCommit).map (·.log.nextLsn) = some 3 ∧
      ((openedWith fileAndCommit).map fun s => (commitHidden s).all dropsOnPart) = some true := by
    decide +kernel
  obtain ⟨s, opened, next⟩ := Option.map_eq_some_iff.mp facts
  rw [opened, Option.map_some, Option.some.injEq, List.all_eq_true] at drops
  obtain ⟨held, history, length⟩ := openedHeld opened
  refine ⟨s, held, history, length, next, fun s' member => ⟨?_, ?_⟩⟩
  · simp only [commitHidden, List.mem_cons, List.not_mem_nil, or_false] at member
    rcases member with rfl | rfl <;> rfl
  · have drop := drops s' member
    unfold dropsOnPart at drop
    split at drop
    · next report site recovered =>
      exact ⟨report, site, recovered, of_decide_eq_true drop⟩
    · cases drop

/-- The end of the transaction is passed over in both cases, and its file is removed. -/
theorem partOfTheLogDecides : ∃ s held, s.log.Held held ∧ 2 ≤ held.length ∧ s.log.nextLsn = 3 ∧
    ∀ s' ∈ commitHidden s, s'.log = s.log ∧ ∃ report site,
      recover {} ⟨s', ({} : Ledger), Observed.mk ({} : DropJournal) []⟩ = .ok report site ∧
        report.replay.lastLsn = some 1 ∧ site.files.calls = [([⟨⟨1663, 5, 100⟩, false⟩], true)] := by
  obtain ⟨s, held, history, length, next, passed⟩ := commitPassedOver
  refine ⟨s, held, history, length, next, fun s' member => ?_⟩
  obtain ⟨same, report, site, recovered, -, drops⟩ := passed s' member
  exact ⟨same, report, site, recovered, drops⟩

theorem replaysWhatStandsCut : ∃ s held, s.log.Held held ∧ 2 ≤ held.length ∧ s.log.nextLsn = 3 ∧ s.device.EndsAt 2 ∧
    ∃ report site rs v,
      recover {} ⟨s, ({} : Ledger), Observed.mk ({} : DropJournal) []⟩ = .ok report site ∧
      report.replay.lastLsn = some 1 ∧ rs.length = 1 ∧
      Standing s.device.file.content.bytes s.log.header.start firstLink Sealed.size rs v := by
  obtain ⟨s, held, history, length, next, passed⟩ := commitPassedOver
  let struck : OpenLog := { s with device := { s.device with faults := [⟨.read, 2, true⟩] } }
  obtain ⟨-, report, site, recovered, count, last, -⟩ := passed struck List.mem_cons_self
  refine ⟨struck, held, history, length, next, ⟨_, rfl, rfl⟩, ?_⟩
  rcases replaysWhatStands (s := struck) history {} ({} : Ledger) ({} : DropJournal) rfl with
    ⟨e, s', source', failed⟩ | ⟨rs, v, report', s', source', files', done, -, records, -, standing, -⟩
  · rw [recovered] at failed
    cases failed
  · rw [recovered] at done
    cases done
    exact ⟨report, _, rs, v, recovered, last, records.symm.trans count, standing⟩

end Site
end OrphanFiles
