import OrphanFiles.Proofs.OpenLog

/-!
Histories of a log file: it is opened, appended to, synced, closed, and cut off while it is closed.  A chronicle has
no bytes, only the list of the records and how much of the file is left; every history of a file is one of a chronicle.
-/
namespace OrphanFiles

open Log

inductive LogDeed where
  | load (start : UInt64)
  | append (kind : Kind) (payload : ByteArray)
  | sync
  | flush (upto : UInt64)
  | close
  | cut (size : Nat)
  | failWrite (after : Nat) (atEnd : Bool)
  | failSync (after : Nat) (atEnd : Bool)

namespace LogDeed

def isAppend : LogDeed → Bool
  | .append .. => true
  | _ => false

def needsLog : LogDeed → Bool
  | .append .. | .sync | .flush _ => true
  | _ => false

end LogDeed

inductive LogAnswer where
  | done
  | position (lsn : UInt64)
  | failed (e : Error)
  | refused
  deriving DecidableEq

structure LogFile where
  device : Device
  log : Option Log

namespace LogFile

def withLog {α : Type} (f : LogFile) (x : LogM α) (answer : α → LogAnswer) : LogAnswer × LogFile :=
  match f.log with
  | none => (.refused, f)
  | some log => match x ⟨f.device, log, none⟩ with
    | .ok a s => (answer a, ⟨s.device, some s.log⟩)
    | .error e s => (.failed e, ⟨s.device, some s.log⟩)

def arm (f : LogFile) (fault : ArmedFault) : LogFile :=
  { f with device := { f.device with faults := f.device.faults ++ [fault] } }

def shorten (f : LogFile) (size : Nat) : LogFile :=
  let content := f.device.file.content
  { f with device := { f.device with file := { f.device.file with
      content := Content.resize (min size content.size) content } } }

def act (salt : UInt64) (f : LogFile) : LogDeed → LogAnswer × LogFile
  | .load start => match Log.load salt start f.device with
    | .ok log device => (.done, ⟨device, some log⟩)
    | .error e device => (.failed e, ⟨device, none⟩)
  | .append kind payload => f.withLog (OpenLog.append kind payload) .position
  | .sync => f.withLog OpenLog.sync fun _ => .done
  | .flush upto => f.withLog (OpenLog.flush upto) fun _ => .done
  | .close => (.done, { f with log := none })
  | .cut size => if f.log.isSome then (.refused, f) else (.done, f.shorten size)
  | .failWrite after atEnd => (.done, f.arm ⟨.write, after, atEnd⟩)
  | .failSync after atEnd => (.done, f.arm ⟨.sync, after, atEnd⟩)

end LogFile

structure Chronicle where
  start : UInt64 := 0
  items : List Item := []
  left : Nat := 0
  isOpen : Bool := false
  faults : List ArmedFault := []

namespace Chronicle

open ArmedFault (strike)

inductive Step : Chronicle → LogDeed → LogAnswer → Chronicle → Prop where
  | created {C start faults} (short : C.left < Sealed.size) (pass : strike .write C.faults = (none, faults)) :
      Step C (.load start) .done ⟨start, [], Sealed.size, true, faults⟩
  | notCreated {C start f faults} (short : C.left < Sealed.size) (hit : strike .write C.faults = (some f, faults)) :
      Step C (.load start) (.failed (.io (.injected .write f.atEnd))) { C with isOpen := false, faults }
  | reopened {C start kept} (long : Sealed.size ≤ C.left) (part : kept <+: C.items)
      (fits : Sealed.size + extent kept ≤ C.left)
      (longest : ∀ more, more <+: C.items → Sealed.size + extent more ≤ C.left → more <+: kept) :
      Step C (.load start) .done { C with items := kept, left := Sealed.size + extent kept, isOpen := true }
  | appended {C kind payload lsn faults} (live : C.isOpen = true) (small : payload.size ≤ maxPayload)
      (pass : strike .write C.faults = (none, faults)) (next : lsn.toNat = C.start.toNat + C.items.length) :
      Step C (.append kind payload) (.position lsn) { C with
        items := C.items ++ [(kind, payload)], left := C.left + (Sealed.size + payload.size), faults }
  | tooLarge {C kind payload} (live : C.isOpen = true) (large : maxPayload < payload.size) :
      Step C (.append kind payload) (.failed (.invalid .payloadTooLarge)) C
  | notAppended {C kind payload f faults} (live : C.isOpen = true) (small : payload.size ≤ maxPayload)
      (hit : strike .write C.faults = (some f, faults)) :
      Step C (.append kind payload) (.failed (.io (.injected .write f.atEnd))) { C with faults }
  | durable {C upto} (live : C.isOpen = true) : Step C (.flush upto) .done C
  | synced {C deed faults} (live : C.isOpen = true) (syncs : deed = .sync ∨ ∃ upto, deed = .flush upto)
      (pass : strike .sync C.faults = (none, faults)) : Step C deed .done { C with faults }
  | notSynced {C deed f faults} (live : C.isOpen = true) (syncs : deed = .sync ∨ ∃ upto, deed = .flush upto)
      (hit : strike .sync C.faults = (some f, faults)) :
      Step C deed (.failed (.io (.injected .sync f.atEnd))) { C with faults }
  | closed {C} : Step C .close .done { C with isOpen := false }
  | cut {C size} (shut : C.isOpen = false) : Step C (.cut size) .done { C with left := min size C.left }
  | busy {C size} (live : C.isOpen = true) : Step C (.cut size) .refused C
  | shut {C deed} (shut : C.isOpen = false) (needs : deed.needsLog = true) : Step C deed .refused C
  | armedWrite {C after atEnd} :
      Step C (.failWrite after atEnd) .done { C with faults := C.faults ++ [⟨.write, after, atEnd⟩] }
  | armedSync {C after atEnd} :
      Step C (.failSync after atEnd) .done { C with faults := C.faults ++ [⟨.sync, after, atEnd⟩] }

def InRange (C : Chronicle) : Prop := Sealed.size ≤ C.left → C.start.toNat + C.items.length < UInt64.size

end Chronicle

namespace LogFile

structure Keeps (salt : UInt64) (f : LogFile) (C : Chronicle) : Prop where
  faults : f.device.faults = C.faults
  readable : f.device.Readable
  small : ∀ item ∈ C.items, item.2.size ≤ maxPayload
  within : C.left ≤ Sealed.size + extent C.items
  bytes : f.device.file.content.bytes = (image ⟨salt, C.start⟩ C.items).extract 0 C.left
  shut : f.log = none → C.isOpen = false
  held : ∀ log, f.log = some log → C.isOpen = true ∧ C.left = Sealed.size + extent C.items ∧
    OpenLog.Holds ⟨f.device, log, none⟩ ⟨salt, C.start⟩ C.items

section Steps

variable {salt : UInt64} {f : LogFile} {C : Chronicle}

theorem keepsHeld {device : Device} {log : Log} {start : UInt64} {items : List Item} (readable : device.Readable)
    (held : OpenLog.Holds ⟨device, log, none⟩ ⟨salt, start⟩ items) :
    Keeps salt ⟨device, some log⟩ ⟨start, items, Sealed.size + extent items, true, device.faults⟩ where
  faults := rfl
  readable := readable
  small := held.small
  within := Nat.le_refl _
  bytes := by rw [held.bytes, ← sizeImage ⟨salt, start⟩, ByteArray.extract_zero_size]
  shut none := by contradiction
  held log' same := by
    cases same
    exact ⟨rfl, rfl, held⟩

theorem sizeKept (keeps : Keeps salt f C) : f.device.file.content.bytes.size = C.left := by
  have within := keeps.within
  rw [keeps.bytes, ByteArray.size_extract, sizeImage]
  omega

theorem loadKeeps (keeps : Keeps salt f C) (start : UInt64) (room : C.InRange) :
    ∃ C', Chronicle.Step C (.load start) (f.act salt (.load start)).1 C' ∧
      Keeps salt (f.act salt (.load start)).2 C' := by
  have size := sizeKept keeps
  unfold act
  by_cases short : C.left < Sealed.size
  · cases struck : ArmedFault.strike .write C.faults with
    | mk hit faults =>
      have struck' := keeps.faults ▸ struck
      cases hit with
      | none =>
        obtain ⟨content, loaded, held⟩ := loadFresh salt start keeps.readable (size ▸ short) struck'
        simp only [loaded]
        exact ⟨_, .created short struck, keepsHeld (keeps.readable.struck struck' _) held⟩
      | some fault =>
        simp only [loadRefused salt start keeps.readable (size ▸ short) struck']
        refine ⟨_, .notCreated short struck, ?_⟩
        exact { keeps with
          faults := rfl
          readable := keeps.readable.struck struck' _
          shut := fun _ => rfl
          held := fun log none => by contradiction }
  · have long := Nat.le_of_not_lt short
    obtain ⟨log, content, loaded, held⟩ := loadCut start keeps.readable keeps.bytes rfl long keeps.within keeps.small
      (room long)
    simp only [loaded]
    have fits := extentFitting (C.left - Sealed.size) C.items
    refine ⟨_, .reopened long (fittingPrefix (C.left - Sealed.size) C.items) (by omega) (fun more part fits => ?_), ?_⟩
    · exact fittingLongest part (by omega)
    · rw [← keeps.faults]
      exact keepsHeld keeps.readable held

theorem closeKeeps (keeps : Keeps salt f C) : Keeps salt { f with log := none } { C with isOpen := false } :=
  { keeps with shut := fun _ => rfl, held := fun log none => by contradiction }

theorem armKeeps (keeps : Keeps salt f C) {fault : ArmedFault} (op : fault.op = .write ∨ fault.op = .sync) :
    Keeps salt (f.arm fault) { C with faults := C.faults ++ [fault] } :=
  { keeps with
    faults := by simp only [arm, keeps.faults]
    readable := by
      intro other member
      rcases List.mem_append.mp member with old | new
      · exact keeps.readable other old
      · obtain rfl : other = fault := by simpa using new
        exact op
    held := fun log here => by
      obtain ⟨live, left, held⟩ := keeps.held log here
      exact ⟨live, left, { held with }⟩ }

theorem shortenKeeps (keeps : Keeps salt f C) (shut : f.log = none) (size : Nat) :
    Keeps salt (f.shorten size) { C with left := min size C.left } := by
  have length := sizeKept keeps
  rw [Content.sizeBytes] at length
  exact { keeps with
    within := Nat.le_trans (Nat.min_le_right ..) keeps.within
    bytes := by
      have inside : min size C.left ≤ f.device.file.content.bytes.size := by
        rw [sizeKept keeps]
        exact Nat.min_le_right ..
      simp only [shorten, length]
      rw [Content.bytesCut inside, keeps.bytes, ByteArray.extract_extract, Nat.zero_add, Nat.zero_add,
        Nat.min_eq_left (Nat.min_le_right ..)]
    held := fun log here => by
      rw [shorten, shut] at here
      contradiction }

theorem withLogShut {α : Type} (shut : f.log = none) (x : LogM α) (answer : α → LogAnswer) :
    f.withLog x answer = (.refused, f) := by
  rw [withLog, shut]

theorem withLogOk {α : Type} {x : LogM α} {answer : α → LogAnswer} {log : Log} {a : α} {s : OpenLog}
    (live : f.log = some log) (done : x ⟨f.device, log, none⟩ = .ok a s) :
    f.withLog x answer = (answer a, ⟨s.device, some s.log⟩) := by
  rw [withLog, live]
  simp only [done]

theorem withLogError {α : Type} {x : LogM α} {answer : α → LogAnswer} {log : Log} {e : Error} {s : OpenLog}
    (live : f.log = some log) (failed : x ⟨f.device, log, none⟩ = .error e s) :
    f.withLog x answer = (.failed e, ⟨s.device, some s.log⟩) := by
  rw [withLog, live]
  simp only [failed]

theorem refusedKeeps (keeps : Keeps salt f C) {log : Log} (live : f.log = some log) {op : FileOp}
    {hit : Option ArmedFault} {faults : List ArmedFault}
    (struck : ArmedFault.strike op f.device.faults = (hit, faults)) :
    Keeps salt ⟨{ f.device with faults }, some log⟩ { C with faults } :=
  { keeps with
    faults := rfl
    readable := keeps.readable.struck struck _
    shut := fun none => by contradiction
    held := fun log' same => by
      cases same
      obtain ⟨live, left, held⟩ := keeps.held log live
      exact ⟨live, left, { held with }⟩ }

theorem shutKeeps {α : Type} (keeps : Keeps salt f C) (shut : f.log = none) {deed : LogDeed}
    (needs : deed.needsLog = true) (x : LogM α) (answer : α → LogAnswer) :
    ∃ C', Chronicle.Step C deed (f.withLog x answer).1 C' ∧ Keeps salt (f.withLog x answer).2 C' := by
  rw [withLogShut shut]
  exact ⟨C, .shut (keeps.shut shut) needs, keeps⟩

theorem appendKeeps (keeps : Keeps salt f C) (kind : Kind) (payload : ByteArray) (room : C.InRange) :
    ∃ C', Chronicle.Step C (.append kind payload) (f.act salt (.append kind payload)).1 C' ∧
      Keeps salt (f.act salt (.append kind payload)).2 C' := by
  simp only [act]
  cases here : f.log with
  | none => exact shutKeeps keeps here rfl _ _
  | some log =>
    obtain ⟨live, left, held⟩ := keeps.held log here
    by_cases large : maxPayload < payload.size
    · rw [withLogError here (OpenLog.appendTooLarge large)]
      refine ⟨C, .tooLarge live large, ?_⟩
      rw [← here]
      exact keeps
    · have small := Nat.le_of_not_lt large
      cases struck : ArmedFault.strike .write C.faults with
      | mk hit faults =>
        have struck' := keeps.faults ▸ struck
        cases hit with
        | some fault =>
          rw [withLogError here (OpenLog.appendRefused small struck')]
          exact ⟨_, .notAppended live small struck, refusedKeeps keeps here struck'⟩
        | none =>
          obtain ⟨⟨device, log', arriving⟩, done, held, rest, -⟩ := OpenLog.appendDone held small struck'
          obtain rfl : arriving = none := held.alone
          have room := room (by omega)
          have next := positionOf room
          have longer : C.left + (Sealed.size + payload.size) =
              Sealed.size + extent (C.items ++ [(kind, payload)]) := by
            rw [left, extentAppend, Nat.add_assoc]
            rfl
          rw [withLogOk here done]
          subst rest
          refine ⟨_, .appended live small struck next, ?_⟩
          rw [longer, live]
          exact keepsHeld (keeps.readable.struck struck' device.file) held

theorem syncKeeps (keeps : Keeps salt f C) {deed : LogDeed} (syncs : deed = .sync ∨ ∃ upto, deed = .flush upto) :
    ∃ C', Chronicle.Step C deed (f.withLog OpenLog.sync fun _ => .done).1 C' ∧
      Keeps salt (f.withLog OpenLog.sync fun _ => .done).2 C' := by
  cases here : f.log with
  | none =>
    have needs : deed.needsLog = true := by rcases syncs with rfl | ⟨upto, rfl⟩ <;> rfl
    exact shutKeeps keeps here needs _ _
  | some log =>
    obtain ⟨live, left, held⟩ := keeps.held log here
    cases struck : ArmedFault.strike .sync C.faults with
    | mk hit faults =>
      have struck' := keeps.faults ▸ struck
      cases hit with
      | some fault =>
        rw [withLogError here (OpenLog.syncRefused struck')]
        exact ⟨_, .notSynced live syncs struck, refusedKeeps keeps here struck'⟩
      | none =>
        rw [withLogOk here (OpenLog.syncDone rfl struck')]
        refine ⟨_, .synced live syncs struck, ?_⟩
        exact { keeps with
          faults := rfl
          readable := keeps.readable.struck struck' _
          shut := fun none => by contradiction
          held := fun log' same => by
            cases same
            exact ⟨live, left, { held with }⟩ }

theorem flushKeeps (keeps : Keeps salt f C) (upto : UInt64) :
    ∃ C', Chronicle.Step C (.flush upto) (f.act salt (.flush upto)).1 C' ∧
      Keeps salt (f.act salt (.flush upto)).2 C' := by
  simp only [act]
  cases here : f.log with
  | none => exact shutKeeps keeps here rfl _ _
  | some log =>
    by_cases known : ∃ done, log.flushed = some done ∧ upto ≤ done
    · obtain ⟨done, known, enough⟩ := known
      rw [withLogOk here (OpenLog.flushKnown known enough)]
      refine ⟨C, .durable (keeps.held log here).1, ?_⟩
      rw [← here]
      exact keeps
    · have syncs : f.withLog (OpenLog.flush upto) (fun _ => .done) = f.withLog OpenLog.sync fun _ => .done := by
        simp only [withLog, here]
        rw [OpenLog.flushSyncs fun done flushed enough => known ⟨done, flushed, enough⟩]
      rw [syncs]
      exact syncKeeps keeps (.inr ⟨upto, rfl⟩)

theorem actKeeps (keeps : Keeps salt f C) (deed : LogDeed) (room : C.InRange) :
    ∃ C', Chronicle.Step C deed (f.act salt deed).1 C' ∧ Keeps salt (f.act salt deed).2 C' := by
  cases deed with
  | load start => exact loadKeeps keeps start room
  | append kind payload => exact appendKeeps keeps kind payload room
  | sync => exact syncKeeps keeps (.inl rfl)
  | flush upto => exact flushKeeps keeps upto
  | close => exact ⟨_, .closed, closeKeeps keeps⟩
  | cut size =>
    simp only [act]
    cases here : f.log with
    | none => exact ⟨_, .cut (keeps.shut here), shortenKeeps keeps here size⟩
    | some log => exact ⟨C, .busy (keeps.held log here).1, keeps⟩
  | failWrite after atEnd => exact ⟨_, .armedWrite, armKeeps keeps (.inl rfl)⟩
  | failSync after atEnd => exact ⟨_, .armedSync, armKeeps keeps (.inr rfl)⟩

end Steps

structure Shows (salt : UInt64) (f : LogFile) (C : Chronicle) : Prop where
  opened : f.log.isSome = C.isOpen
  bytes : f.device.file.content.bytes = (image ⟨salt, C.start⟩ C.items).extract 0 C.left
  whole : C.isOpen = true → f.device.file.content.bytes = image ⟨salt, C.start⟩ C.items
  next : ∀ log, f.log = some log → log.nextLsn.toNat = C.start.toNat + C.items.length
  read : ∀ log, f.log = some log → ∃ r scan, OpenLog.reader ⟨f.device, log, none⟩ = .ok r ⟨f.device, log, none⟩ ∧
    OpenLog.drain r ⟨f.device, log, none⟩ = .ok scan ⟨f.device, log, none⟩ ∧
    scan.records = records C.start C.items ∧ scan.failure = none

theorem Keeps.shows {salt : UInt64} {f : LogFile} {C : Chronicle} (keeps : Keeps salt f C) (room : C.InRange) :
    Shows salt f C := by
  have opened (log : Log) (here : f.log = some log) : C.start.toNat + C.items.length < UInt64.size :=
    room ((keeps.held log here).2.1 ▸ Nat.le_add_right ..)
  refine ⟨?_, keeps.bytes, fun live => ?_, fun log here => ?_, fun log here => ?_⟩
  · cases here : f.log with
    | none => exact (keeps.shut here).symm
    | some log => exact (keeps.held log here).1.symm
  · cases here : f.log with
    | none => exact absurd ((keeps.shut here).symm.trans live) (by decide)
    | some log => exact (keeps.held log here).2.2.bytes
  · rw [(keeps.held log here).2.2.next]
    exact positionOf (opened log here)
  · exact OpenLog.drainHeld (keeps.held log here).2.2 keeps.readable (opened log here)

/- The answers to all the deeds are those of a chronicle, which is what can be seen before and after each of them, until
the positions start over. -/
inductive Conforms (salt : UInt64) : LogFile → Chronicle → List LogDeed → Prop where
  | nil {f C} (shows : f.Shows salt C) : Conforms salt f C []
  | cons {f C C' deed deeds} (shows : f.Shows salt C) (step : Chronicle.Step C deed (f.act salt deed).1 C')
      (rest : Conforms salt (f.act salt deed).2 C' deeds) : Conforms salt f C (deed :: deeds)
  | startsOver {f C deeds} (beyond : ¬ C.InRange) : Conforms salt f C deeds

theorem keepsConforms {salt : UInt64} {f : LogFile} {C : Chronicle} {deeds : List LogDeed} (keeps : Keeps salt f C) :
    Conforms salt f C deeds := by
  induction deeds generalizing f C with
  | nil =>
    by_cases room : C.InRange
    · exact .nil (keeps.shows room)
    · exact .startsOver room
  | cons deed deeds ih =>
    by_cases room : C.InRange
    · obtain ⟨C', step, next⟩ := actKeeps keeps deed room
      exact .cons (keeps.shows room) step (ih next)
    · exact .startsOver room

/-- Every history of a file is one of a chronicle, as long as the next position is not past the last one. -/
theorem conformsToChronicle (salt : UInt64) (deeds : List LogDeed) :
    Conforms salt ⟨⟨.empty, []⟩, none⟩ {} deeds := by
  refine keepsConforms ?_
  exact {
    faults := rfl
    readable := by simp [Device.Readable]
    small := by simp
    within := Nat.zero_le _
    bytes := (ByteArray.extract_eq_empty_iff.mpr (Nat.zero_le _)).symm
    shut := fun _ => rfl
    held := fun log here => by contradiction }

def failsReading (f : LogFile) : Option Error :=
  f.log.bind fun log => match (OpenLog.reader >>= OpenLog.drain) ⟨f.device, log, none⟩ with
    | .ok scan _ => scan.failure
    | .error e _ => some e

def atLast : LogFile := (act 5 (act 5 ⟨⟨.empty, []⟩, none⟩ (.load (-1))).2 (.append .commit .empty)).2

/-- Behind the last position comes the first of all, and a log cannot be read with a record in front of its start. -/
theorem positionsStartOver : (act 5 atLast (.append .abort .empty)).1 = .position 0 ∧
    failsReading (act 5 atLast (.append .abort .empty)).2 = some (.corruption .belowStart) ∧
    (act 5 (act 5 (act 5 atLast (.append .abort .empty)).2 .close).2 (.load 0)).1 =
      .failed (.corruption .belowStart) := by
  decide +kernel

end LogFile
end OrphanFiles
