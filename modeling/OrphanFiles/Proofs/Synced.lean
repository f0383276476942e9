import OrphanFiles.Proofs.Durability
import OrphanFiles.Proofs.LogHistory

/-!
What an open log calls durable.  It says so of the records that it synced, and of those that it found when it was
opened; so the word can be taken if the file was synced by then.
-/
namespace OrphanFiles

open Log

/- A loss of power that leaves this content leaves a log that begins with the records `kept`. -/
structure Content.Secures (c : Content) (salt : UInt64) (h : Header) (kept : List Item) : Prop where
  front : c.bytes.extract 0 (image h kept).size = image h kept
  reopens : ∀ start, ∃ log content more, Log.load salt start ⟨⟨c, c⟩, []⟩ = .ok log ⟨⟨content, c⟩, []⟩ ∧
    OpenLog.Holds ⟨⟨⟨content, c⟩, []⟩, log, none⟩ h (kept ++ more)

namespace Content

variable {c : Content} {h : Header} {items kept first : List Item} {m : Nat}

theorem Secures.part {salt : UInt64} (secures : c.Secures salt h kept) (part : first <+: kept) :
    c.Secures salt h first := by
  refine ⟨?_, fun start => ?_⟩
  · have shorter : extent first ≤ extent kept := by
      obtain ⟨rest, rfl⟩ := part
      rw [extentAppend]
      exact Nat.le_add_right ..
    have whole := secures.front
    have front := imagePrefix (h := h) part
    rw [sizeImage] at whole
    rw [← whole, ByteArray.extract_extract, Nat.zero_add, Nat.zero_add, Nat.min_eq_left (by omega)] at front
    rw [sizeImage]
    exact front
  · obtain ⟨log, content, more, loaded, held⟩ := secures.reopens start
    obtain ⟨rest, rfl⟩ := part
    rw [List.append_assoc] at held
    exact ⟨log, content, rest ++ more, loaded, held⟩

theorem cutSecures (cut : c.bytes = (image h items).extract 0 m) (long : Sealed.size ≤ m)
    (within : m ≤ Sealed.size + extent items) (small : ∀ item ∈ items, item.2.size ≤ maxPayload)
    (room : h.start.toNat + items.length < UInt64.size) : c.Secures h.salt h (fitting (m - Sealed.size) items) := by
  have fits := extentFitting (m - Sealed.size) items
  refine ⟨?_, fun start => ?_⟩
  · rw [cut, sizeImage, ByteArray.extract_extract, Nat.zero_add, Nat.zero_add, Nat.min_eq_left (by omega),
      imagePrefix (fittingPrefix _ items)]
  · obtain ⟨log, content, loaded, held⟩ := loadCut (d := ⟨⟨c, c⟩, []⟩) start (by simp [Device.Readable]) cut rfl long
      within small room
    exact ⟨log, content, [], loaded, by rw [List.append_nil]; exact held⟩

theorem imageSecures (whole : c.bytes = image h items) (small : ∀ item ∈ items, item.2.size ≤ maxPayload)
    (room : h.start.toNat + items.length < UInt64.size) : c.Secures h.salt h items := by
  have cut : c.bytes = (image h items).extract 0 (Sealed.size + extent items) := by
    rw [whole, ← sizeImage h, ByteArray.extract_zero_size]
  have secures := cutSecures cut (Nat.le_add_right ..) (Nat.le_refl _) small room
  rw [fittingAll (by omega)] at secures
  exact secures

end Content

theorem OpenLog.appendPassed {s : OpenLog} (kind : Kind) {payload : ByteArray} (small : payload.size ≤ maxPayload)
    {faults : List ArmedFault} (struck : ArmedFault.strike .write s.device.faults = (none, faults)) :
    ∃ s', append kind payload s = .ok s.log.nextLsn s' ∧ s'.device.file.stable = s.device.file.stable ∧
      s'.log.flushed = s.log.flushed := by
  unfold append
  simp only [bind, EStateM.bind, if_neg (Nat.not_lt.mpr small), getOk, onDevice, FileM.writeEq, struck]
  exact ⟨_, rfl, rfl, rfl⟩

namespace LogDeed

def isLoad : LogDeed → Bool
  | .load _ => true
  | _ => false

def isCut : LogDeed → Bool
  | .cut _ => true
  | _ => false

end LogDeed

namespace Chronicle

structure Room (C : Chronicle) (deeds : List LogDeed) : Prop where
  log : C.isOpen = true ∨ Sealed.size ≤ C.left →
    C.start.toNat + C.items.length + deeds.countP LogDeed.isAppend < UInt64.size
  loads : ∀ start, LogDeed.load start ∈ deeds → start.toNat + deeds.countP LogDeed.isAppend < UInt64.size

theorem Room.now {C : Chronicle} {deeds : List LogDeed} (room : C.Room deeds) (long : Sealed.size ≤ C.left) :
    C.start.toNat + C.items.length < UInt64.size :=
  Nat.lt_of_le_of_lt (Nat.le_add_right ..) (room.log (.inr long))

theorem Step.room {C C' : Chronicle} {deed : LogDeed} {answer : LogAnswer} {deeds : List LogDeed}
    (step : Step C deed answer C') (room : C.Room (deed :: deeds)) : C'.Room deeds := by
  obtain ⟨log, loads⟩ := room
  rw [List.countP_cons] at log loads
  refine ⟨fun there => ?_, fun start member => ?_⟩
  · cases step with
    | @created start =>
      have := loads start List.mem_cons_self
      simp only [List.length_nil]
      omega
    | notCreated short hit =>
      dsimp only at there
      rcases there with live | long
      · contradiction
      · omega
    | reopened long part fits longest =>
      have := log (.inr long)
      have := part.length_le
      dsimp only
      omega
    | appended live small pass next =>
      have := log (.inl live)
      simp only [LogDeed.isAppend, if_true] at this
      simp only [List.length_append, List.length_singleton]
      omega
    | closed =>
      have := log (.inr (there.resolve_left (by simp)))
      dsimp only
      omega
    | cut shut =>
      dsimp only at there ⊢
      have := log (there.imp_right fun long => Nat.le_trans long (Nat.min_le_right ..))
      omega
    | _ => exact Nat.lt_of_le_of_lt (Nat.add_le_add_left (Nat.le_add_right ..) _) (log there)
  · have := loads start (List.mem_cons_of_mem _ member)
    omega

end Chronicle

namespace LogFile

def Safe (salt : UInt64) (f : LogFile) (h : Header) (l : UInt64) : Prop :=
  ∃ items, f.device.file.content.bytes = image h items ∧ ∀ i, i < items.length → h.start + UInt64.ofNat i ≤ l →
    f.device.file.stable.Secures salt h (items.take (i + 1))

structure Vouches (salt : UInt64) (f : LogFile) (C : Chronicle) (k : Nat) : Prop where
  keeps : Keeps salt f C
  within : k ≤ C.items.length
  secure : k = 0 ∨ f.device.file.stable.Secures salt ⟨salt, C.start⟩ (C.items.take k)
  flushed : ∀ log done, f.log = some log → log.flushed = some done → done.toNat < C.start.toNat + k

structure Leaves (f f' : LogFile) : Prop where
  stable : f'.device.file.stable = f.device.file.stable
  flushed : ∀ log', f'.log = some log' → ∃ log, f.log = some log ∧ log'.flushed = log.flushed

theorem Leaves.refl (f : LogFile) : f.Leaves f := ⟨rfl, fun log here => ⟨log, here, rfl⟩⟩

section Steps

variable {salt : UInt64} {f f' : LogFile} {C C' : Chronicle} {k : Nat} {l : UInt64}

theorem Vouches.safe (vouches : Vouches salt f C k) (room : C.start.toNat + C.items.length < UInt64.size) {log : Log}
    (here : f.log = some log) (below : l.toNat < C.start.toNat + k ∨ k = C.items.length) :
    f.Safe salt log.header l := by
  have held := (vouches.keeps.held log here).2.2
  have header : log.header = ⟨salt, C.start⟩ := held.header
  rw [header]
  refine ⟨C.items, held.bytes, fun i inside upto => ?_⟩
  have position := UInt64.le_iff_toNat_le.mp upto
  rw [positionOf (by dsimp only; omega)] at position
  have known : i + 1 ≤ k := by
    rcases below with below | all
    · dsimp only at position
      omega
    · omega
  refine (vouches.secure.resolve_left (by omega)).part ?_
  exact List.take_prefix_take_left known

theorem Leaves.vouches (leaves : f.Leaves f') (vouches : Vouches salt f C k) (keeps : Keeps salt f' C')
    (start : C'.start = C.start) (longer : C.items <+: C'.items) : Vouches salt f' C' k where
  keeps := keeps
  within := Nat.le_trans vouches.within longer.length_le
  secure := by
    obtain ⟨rest, same⟩ := longer
    rw [leaves.stable, start, ← same, List.take_append_of_le_length vouches.within]
    exact vouches.secure
  flushed log' done here known := by
    obtain ⟨log, before, same⟩ := leaves.flushed log' here
    rw [start]
    exact vouches.flushed log done before (same ▸ known)

theorem appendLeaves (kind : Kind) (payload : ByteArray) : f.Leaves (f.act salt (.append kind payload)).2 := by
  simp only [act]
  cases here : f.log with
  | none =>
    rw [withLogShut here]
    exact .refl f
  | some log =>
    by_cases large : maxPayload < payload.size
    · rw [withLogError here (OpenLog.appendTooLarge large)]
      exact ⟨rfl, fun log' same => ⟨log, here, by cases same; rfl⟩⟩
    · have small := Nat.le_of_not_lt large
      rcases struck : ArmedFault.strike .write f.device.faults with ⟨_ | fault, faults⟩
      · obtain ⟨s', done, stable, flushed⟩ :=
          OpenLog.appendPassed (s := ⟨f.device, log, none⟩) kind small struck
        rw [withLogOk here done]
        exact ⟨stable, fun log' same => ⟨log, here, by cases same; exact flushed⟩⟩
      · rw [withLogError here (OpenLog.appendRefused small struck)]
        exact ⟨rfl, fun log' same => ⟨log, here, by cases same; rfl⟩⟩

theorem stepItems {deed : LogDeed} {answer : LogAnswer} (step : Chronicle.Step C deed answer C')
    (stays : deed.isLoad = false) : C'.start = C.start ∧ C.items <+: C'.items := by
  cases step with
  | created => cases stays
  | reopened => cases stays
  | appended => exact ⟨rfl, List.prefix_append ..⟩
  | _ => exact ⟨rfl, List.prefix_refl _⟩

theorem syncVouches (vouches : Vouches salt f C k) {deed : LogDeed} {deeds : List LogDeed}
    (room : C.Room (deed :: deeds)) (syncs : deed = .sync ∨ ∃ upto, deed = .flush upto) :
    ∃ C' k', Chronicle.Step C deed (f.withLog OpenLog.sync fun _ => .done).1 C' ∧
      Vouches salt (f.withLog OpenLog.sync fun _ => .done).2 C' k' ∧
      ((f.withLog OpenLog.sync fun _ => LogAnswer.done).1 = .done → k' = C'.items.length) := by
  obtain ⟨C', step, keeps⟩ := syncKeeps vouches.keeps syncs
  have stays : deed.isLoad = false := by rcases syncs with rfl | ⟨upto, rfl⟩ <;> rfl
  obtain ⟨start, longer⟩ := stepItems step stays
  cases here : f.log with
  | none =>
    rw [withLogShut here] at step keeps ⊢
    exact ⟨C', k, step, (Leaves.refl f).vouches vouches keeps start longer, by simp⟩
  | some log =>
    rcases struck : ArmedFault.strike .sync f.device.faults with ⟨_ | fault, faults⟩
    · obtain ⟨-, left, held⟩ := vouches.keeps.held log here
      rw [withLogOk here (OpenLog.syncDone rfl struck)] at step keeps ⊢
      obtain ⟨-, left', held'⟩ := keeps.held _ rfl
      refine ⟨C', C'.items.length, step, ⟨keeps, Nat.le_refl _, .inr ?_, ?_⟩, fun _ => rfl⟩
      · rw [List.take_length]
        exact Content.imageSecures held'.bytes keeps.small ((step.room room).now (left' ▸ Nat.le_add_right ..))
      · intro log' done same known
        cases same
        have before := OpenLog.markedFlushed held (room.now (left ▸ Nat.le_add_right ..)) vouches.within
          (vouches.flushed log · here) known
        exact Nat.lt_of_lt_of_le before (by rw [start]; exact Nat.add_le_add_left longer.length_le _)
    · rw [withLogError here (OpenLog.syncRefused struck)] at step keeps ⊢
      have leaves : f.Leaves ⟨{ f.device with faults }, some log⟩ :=
        ⟨rfl, fun log' same => ⟨log, here, by cases same; rfl⟩⟩
      exact ⟨C', k, step, leaves.vouches vouches keeps start longer, by simp⟩

theorem flushVouches (vouches : Vouches salt f C k) {deeds : List LogDeed} {upto : UInt64}
    (room : C.Room (.flush upto :: deeds)) :
    ∃ C' k', Chronicle.Step C (.flush upto) (f.act salt (.flush upto)).1 C' ∧
      Vouches salt (f.act salt (.flush upto)).2 C' k' ∧
      ((f.act salt (.flush upto)).1 = .done → upto.toNat < C'.start.toNat + k' ∨ k' = C'.items.length) := by
  simp only [act]
  cases here : f.log with
  | none =>
    obtain ⟨C', step, keeps⟩ := flushKeeps vouches.keeps upto
    simp only [act] at step keeps
    obtain ⟨start, longer⟩ := stepItems step rfl
    rw [withLogShut here] at step keeps ⊢
    exact ⟨C', k, step, (Leaves.refl f).vouches vouches keeps start longer, by simp⟩
  | some log =>
    by_cases known : ∃ done, log.flushed = some done ∧ upto ≤ done
    · obtain ⟨done, known, enough⟩ := known
      rw [withLogOk here (OpenLog.flushKnown known enough)]
      refine ⟨C, k, .durable (vouches.keeps.held log here).1, ?_, fun _ => .inl ?_⟩
      · rw [← here]
        exact vouches
      · exact Nat.lt_of_le_of_lt (UInt64.le_iff_toNat_le.mp enough) (vouches.flushed log done here known)
    · have syncs : f.withLog (OpenLog.flush upto) (fun _ => .done) = f.withLog OpenLog.sync fun _ => .done := by
        simp only [withLog, here]
        rw [OpenLog.flushSyncs fun done flushed enough => known ⟨done, flushed, enough⟩]
      rw [syncs]
      obtain ⟨C', k', step, vouches, all⟩ := syncVouches vouches room (.inr ⟨upto, rfl⟩)
      exact ⟨C', k', step, vouches, fun done => .inr (all done)⟩

theorem actVouches (vouches : Vouches salt f C k) {deed : LogDeed} {deeds : List LogDeed}
    (room : C.Room (deed :: deeds)) (stays : deed.isLoad = false) (uncut : deed.isCut = false) :
    ∃ C' k', Chronicle.Step C deed (f.act salt deed).1 C' ∧ Vouches salt (f.act salt deed).2 C' k' := by
  cases deed with
  | load start => cases stays
  | cut size => cases uncut
  | sync =>
    obtain ⟨C', k', step, vouches, -⟩ := syncVouches vouches room (.inl rfl)
    exact ⟨C', k', step, vouches⟩
  | flush upto =>
    obtain ⟨C', k', step, vouches, -⟩ := flushVouches vouches room
    exact ⟨C', k', step, vouches⟩
  | append kind payload =>
    obtain ⟨C', step, keeps⟩ := appendKeeps vouches.keeps kind payload room.now
    obtain ⟨start, longer⟩ := stepItems step rfl
    exact ⟨C', k, step, (appendLeaves kind payload).vouches vouches keeps start longer⟩
  | close =>
    have leaves : f.Leaves { f with log := none } := ⟨rfl, nofun⟩
    exact ⟨_, k, .closed, leaves.vouches vouches (closeKeeps vouches.keeps) rfl (List.prefix_refl _)⟩
  | failWrite after atEnd =>
    have leaves : f.Leaves (f.arm ⟨.write, after, atEnd⟩) := ⟨rfl, fun log here => ⟨log, here, rfl⟩⟩
    exact ⟨_, k, .armedWrite, leaves.vouches vouches (armKeeps vouches.keeps (.inl rfl)) rfl (List.prefix_refl _)⟩
  | failSync after atEnd =>
    have leaves : f.Leaves (f.arm ⟨.sync, after, atEnd⟩) := ⟨rfl, fun log here => ⟨log, here, rfl⟩⟩
    exact ⟨_, k, .armedSync, leaves.vouches vouches (armKeeps vouches.keeps (.inr rfl)) rfl (List.prefix_refl _)⟩

def Settled (f : LogFile) : Prop :=
  Sealed.size < f.device.file.content.bytes.size → f.device.file.stable.bytes = f.device.file.content.bytes

theorem extentSome {items : List Item} (some : 0 < items.length) : Sealed.size ≤ extent items := by
  cases items with
  | nil => cases some
  | cons item rest =>
    rw [extent]
    omega

theorem scanFlushed {h : Header} {scan : Reader.Scan} {torn : Nat} {items : List Item}
    (listed : scan.records = records h.start items) (room : h.start.toNat + items.length < UInt64.size) {done : UInt64}
    (known : (ofScan h scan torn).flushed = some done) : done.toNat < h.start.toNat + items.length := by
  unfold ofScan at known
  rw [listed, List.getLast?_eq_getElem?, lengthRecords] at known
  rcases Nat.eq_zero_or_pos items.length with none | some
  · rw [List.length_eq_zero_iff.mp none] at known
    cases known
  · rw [recordsGet (Nat.sub_lt some Nat.one_pos)] at known
    cases known
    dsimp only
    rw [positionOf (by omega)]
    omega

theorem loadVouches (keeps : Keeps salt f C) (start : UInt64) {deeds : List LogDeed}
    (room : C.Room (.load start :: deeds)) (settled : f.Settled) :
    ∃ C' k, Chronicle.Step C (.load start) (f.act salt (.load start)).1 C' ∧
      Vouches salt (f.act salt (.load start)).2 C' k := by
  have size := sizeKept keeps
  by_cases short : C.left < Sealed.size
  · obtain ⟨C', step, kept⟩ := loadKeeps keeps start room.now
    refine ⟨C', 0, step, kept, Nat.zero_le _, .inl rfl, fun log done here known => ?_⟩
    unfold act at here
    rcases struck : ArmedFault.strike .write f.device.faults with ⟨_ | fault, faults⟩
    · obtain ⟨content, loaded, -⟩ := loadFresh salt start keeps.readable (size ▸ short) struck
      simp only [loaded] at here
      cases here
      cases known
    · simp only [loadRefused salt start keeps.readable (size ▸ short) struck] at here
      cases here
  · have long := Nat.le_of_not_lt short
    obtain ⟨scan, torn, content, loaded, listed, held⟩ := loadScanned start keeps.readable keeps.bytes rfl long
      keeps.within keeps.small (room.now long)
    have part := fittingPrefix (C.left - Sealed.size) C.items
    have fits := extentFitting (C.left - Sealed.size) C.items
    have few := part.length_le
    have now := room.now long
    unfold act
    simp only [loaded]
    refine ⟨_, (fitting (C.left - Sealed.size) C.items).length, .reopened long part (by omega)
      (fun more part fits => ?_), ?_, Nat.le_refl _, ?_, fun log done here known => ?_⟩
    · exact fittingLongest part (by omega)
    · rw [← keeps.faults]
      exact keepsHeld keeps.readable held
    · rcases Nat.eq_zero_or_pos (fitting (C.left - Sealed.size) C.items).length with none | some
      · exact .inl none
      · right
        have more := extentSome some
        have stable := settled (by rw [size]; simp only [Sealed.size] at *; omega)
        rw [List.take_length]
        exact Content.cutSecures (stable.trans keeps.bytes) long keeps.within keeps.small now
    · cases here
      exact scanFlushed listed (by dsimp only; omega) known

end Steps

def run (salt : UInt64) (f : LogFile) : List LogDeed → LogFile
  | [] => f
  | deed :: deeds => run salt (f.act salt deed).2 deeds

section Runs

variable {salt : UInt64} {f : LogFile} {C : Chronicle} {deeds rest : List LogDeed}

theorem runAppend (salt : UInt64) (f : LogFile) (deeds rest : List LogDeed) :
    f.run salt (deeds ++ rest) = (f.run salt deeds).run salt rest := by
  induction deeds generalizing f with
  | nil => rfl
  | cons deed deeds ih => exact ih _

theorem runKeeps (keeps : Keeps salt f C) (room : C.Room (deeds ++ rest)) :
    ∃ C', Keeps salt (f.run salt deeds) C' ∧ C'.Room rest := by
  induction deeds generalizing f C with
  | nil => exact ⟨C, keeps, room⟩
  | cons deed deeds ih =>
    obtain ⟨C', step, next⟩ := actKeeps keeps deed room.now
    exact ih next (step.room room)

theorem runVouches {k : Nat} (vouches : Vouches salt f C k) (room : C.Room (deeds ++ rest))
    (stays : ∀ deed ∈ deeds, deed.isLoad = false ∧ deed.isCut = false) :
    ∃ C' k', Vouches salt (f.run salt deeds) C' k' ∧ C'.Room rest := by
  induction deeds generalizing f C k with
  | nil => exact ⟨C, k, vouches, room⟩
  | cons deed deeds ih =>
    obtain ⟨same, uncut⟩ := stays deed List.mem_cons_self
    obtain ⟨C', k', step, next⟩ := actVouches vouches room same uncut
    exact ih next (step.room room) fun deed member => stays deed (List.mem_cons_of_mem _ member)

theorem keepsNew (salt : UInt64) : Keeps salt ⟨⟨.empty, []⟩, none⟩ {} where
  faults := rfl
  readable := by simp [Device.Readable]
  small := by simp
  within := Nat.zero_le _
  bytes := (ByteArray.extract_eq_empty_iff.mpr (Nat.zero_le _)).symm
  shut := fun _ => rfl
  held := fun log here => by contradiction

end Runs

/-- Whatever was done with the file before a log was opened in it, and with the log since then: what it calls durable,
or what it was flushed up to, was in the file at a sync, and a loss of power leaves it; provided that the records that
it found were synced. -/
theorem durableWasSynced (salt start : UInt64) (before after : List LogDeed)
    (room : ∀ s, LogDeed.load s ∈ before ++ .load start :: after →
      s.toNat + (before ++ .load start :: after).countP LogDeed.isAppend < UInt64.size)
    (stays : ∀ deed ∈ after, deed.isLoad = false ∧ deed.isCut = false)
    (settled : (run salt ⟨⟨.empty, []⟩, none⟩ before).Settled) {f : LogFile}
    (reached : run salt ⟨⟨.empty, []⟩, none⟩ (before ++ .load start :: after) = f) {log : Log}
    (here : f.log = some log) :
    (∀ l, log.flushed = some l → f.Safe salt log.header l) ∧
    ∀ l, (f.act salt (.flush l)).1 = .done → (f.act salt (.flush l)).2.Safe salt log.header l := by
  have empty : Chronicle.Room {} (before ++ .load start :: after) := ⟨fun long => absurd long (by decide), room⟩
  obtain ⟨C₀, found, room₀⟩ := runKeeps (keepsNew salt) empty
  obtain ⟨C₁, k₁, step, loaded⟩ := loadVouches found start room₀ settled
  have room₁ := step.room room₀
  rw [← List.append_nil after] at room₁
  obtain ⟨C, k, vouches, room⟩ := runVouches loaded room₁ stays
  rw [runAppend] at reached
  rw [show run salt _ after = f from reached] at vouches
  obtain ⟨-, left, held⟩ := vouches.keeps.held log here
  have long : Sealed.size ≤ C.left := left ▸ Nat.le_add_right ..
  refine ⟨fun l known => vouches.safe (room.now long) here (.inl (vouches.flushed log l here known)), fun l done => ?_⟩
  obtain ⟨log', there⟩ : ∃ log', (f.act salt (.flush l)).2.log = some log' := by
    simp only [act, withLog, here]
    split <;> exact ⟨_, rfl⟩
  have next : C.Room [.flush l] := ⟨room.log, by simp⟩
  obtain ⟨C', k', step, flushed, covered⟩ := flushVouches vouches next
  obtain ⟨-, left', held'⟩ := flushed.keeps.held log' there
  have header : log.header = log'.header := by
    rw [held.header, held'.header, (stepItems step rfl).1]
  rw [header]
  exact flushed.safe ((step.room next).now (left' ▸ Nat.le_add_right ..)) there (covered done)

def reopened : LogFile := run 3 ⟨⟨.empty, []⟩, none⟩ [.load 1, .append .checkpoint .empty, .close, .load 1]

theorem reopenedNotSynced :
    (∃ log, reopened.log = some log ∧ log.flushed = some 1 ∧ ¬ reopened.Safe 3 log.header 1) ∧
      (reopened.act 3 (.flush 1)).1 = .done ∧ (reopened.act 3 (.flush 1)).2.device.file.stable.size = 0 := by
  obtain ⟨facts, content, stable, flushes⟩ :
      reopened.log.map (fun log => (log.flushed, log.header)) = some (some 1, ⟨3, 1⟩) ∧
      reopened.device.file.content.bytes.size = 64 ∧ reopened.device.file.stable.bytes.size = 0 ∧
      (reopened.act 3 (.flush 1)).1 = .done ∧ (reopened.act 3 (.flush 1)).2.device.file.stable.size = 0 := by
    decide +kernel
  refine ⟨?_, flushes⟩
  obtain ⟨log, here, same⟩ := Option.map_eq_some_iff.mp facts
  obtain ⟨known, header⟩ := Prod.mk.inj same
  refine ⟨log, here, known, ?_⟩
  rw [header]
  rintro ⟨items, bytes, synced⟩
  have size := congrArg ByteArray.size bytes
  rw [content, sizeImage, Sealed.size] at size
  have some : 0 < items.length := by
    cases items with
    | nil => simp [extent] at size
    | cons item rest => exact Nat.succ_pos _
  have front := congrArg ByteArray.size (synced 0 some (by decide)).front
  rw [ByteArray.size_extract, sizeImage, stable, Sealed.size] at front
  omega

theorem durableReopened : (∀ s, LogDeed.load s ∈ [.load 1, .append .commit (.mk #[1]), .sync, .close] ++
      .load 1 :: [.append .abort .empty] → s.toNat + 2 < UInt64.size) ∧
    (run 3 ⟨⟨.empty, []⟩, none⟩ [.load 1, .append .commit (.mk #[1]), .sync, .close]).Settled ∧
    ∃ f log, run 3 ⟨⟨.empty, []⟩, none⟩ ([.load 1, .append .commit (.mk #[1]), .sync, .close] ++
      .load 1 :: [.append .abort .empty]) = f ∧ f.log = some log ∧ log.flushed = some 1 ∧ f.Safe 3 log.header 1 ∧
        (f.act 3 (.flush 2)).2.Safe 3 log.header 2 := by
  have room : ∀ s, LogDeed.load s ∈ [.load 1, .append .commit (.mk #[1]), .sync, .close] ++
      .load 1 :: [.append .abort .empty] → s.toNat + 2 < UInt64.size := by
    intro s member
    obtain rfl : s = 1 := by simpa using member
    decide
  have settled : (run 3 ⟨⟨.empty, []⟩, none⟩ [.load 1, .append .commit (.mk #[1]), .sync, .close]).Settled :=
    fun _ => by decide +kernel
  refine ⟨room, settled, ?_⟩
  generalize reached : run 3 ⟨⟨.empty, []⟩, none⟩ ([.load 1, .append .commit (.mk #[1]), .sync, .close] ++
      .load 1 :: [.append .abort .empty]) = f
  obtain ⟨facts, done⟩ : f.log.map (·.flushed) = some (some 1) ∧ (f.act 3 (.flush 2)).1 = .done := by
    rw [← reached]
    decide +kernel
  obtain ⟨log, here, known⟩ := Option.map_eq_some_iff.mp facts
  obtain ⟨durable, flushed⟩ := durableWasSynced 3 1 _ [.append .abort .empty] room (by decide) settled reached here
  exact ⟨f, log, rfl, here, known, durable 1 known, flushed 2 done⟩

end LogFile
end OrphanFiles
