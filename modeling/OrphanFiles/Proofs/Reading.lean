import OrphanFiles.Log.Reader
import OrphanFiles.Proofs.LogImage

/-!
What reading a log gives while no reading fails.  A reader sees no more of a device than the bytes of its file; if
these are a log that was cut off anywhere, it finds the records whose frames the cut left whole.
-/
namespace OrphanFiles

theorem getOk {ε σ : Type} (s : σ) : (get : EStateM ε σ σ) s = .ok s s := rfl
theorem setOk {ε σ : Type} (t s : σ) : (set t : EStateM ε σ PUnit) s = .ok ⟨⟩ t := rfl
theorem modifyOk {ε σ : Type} (f : σ → σ) (s : σ) : (modify f : EStateM ε σ PUnit) s = .ok ⟨⟩ (f s) := rfl

theorem ArmedFault.strikeQuiet {op : FileOp} {fs : List ArmedFault} (quiet : ∀ f ∈ fs, f.op ≠ op) :
    strike op fs = (none, fs) := by
  induction fs with
  | nil => rfl
  | cons f fs ih =>
    have other := quiet f List.mem_cons_self
    have rest := ih fun g member => quiet g (List.mem_cons_of_mem _ member)
    simp only [strike, if_neg other, rest]

def Device.Quiet (d : Device) (op : FileOp) : Prop := ∀ f ∈ d.faults, f.op ≠ op

namespace FileM

theorem callEq (op : FileOp) (d : Device) : call op d = match ArmedFault.strike op d.faults with
    | (none, faults) => .ok () { d with faults }
    | (some f, faults) => .error (.io (.injected op f.atEnd)) { d with faults } := by
  unfold call
  simp only [bind, EStateM.bind, getOk, setOk]
  split
  · next faults struck => simp only [struck]; rfl
  · next f faults struck => simp only [struck]; rfl

theorem callQuiet {op : FileOp} {d : Device} (quiet : d.Quiet op) : call op d = .ok () d := by
  rw [callEq, ArmedFault.strikeQuiet quiet]

def bytesAt (bytes : ByteArray) (off n : Nat) : Option ByteArray :=
  if n = 0 then some .empty else if off + n ≤ bytes.size then some (bytes.extract off (off + n)) else none

theorem readAtPassed {d : Device} {faults : List ArmedFault} (pass : ArmedFault.strike .read d.faults = (none, faults))
    (off n : Nat) : readAt off n d = match bytesAt d.file.content.bytes off n with
      | some bytes => .ok bytes { d with faults }
      | none => .error (.io .endOfFile) { d with faults } := by
  unfold readAt bytesAt
  simp only [bind, EStateM.bind, callEq, pass, content, getOk, pure, EStateM.pure, Content.sizeBytes, Content.readEq]
  by_cases none : n = 0
  · simp only [if_pos none]
    rfl
  · by_cases inside : off + n ≤ d.file.content.size
    · simp only [if_neg none, if_pos inside]
      rfl
    · simp only [if_neg none, if_neg inside]
      rfl

theorem readAtQuiet {d : Device} (quiet : d.Quiet .read) (off n : Nat) :
    readAt off n d = match bytesAt d.file.content.bytes off n with
      | some bytes => .ok bytes d
      | none => .error (.io .endOfFile) d :=
  readAtPassed (ArmedFault.strikeQuiet quiet) off n

theorem readOrEndQuiet {d : Device} (quiet : d.Quiet .read) (off n : Nat) :
    readOrEnd off n d = .ok (bytesAt d.file.content.bytes off n) d := by
  unfold readOrEnd Error.attempt
  simp only [bind, EStateM.bind, readAtQuiet quiet]
  cases bytesAt d.file.content.bytes off n with
  | none => rfl
  | some bytes => rfl

theorem lenQuiet {d : Device} (quiet : d.Quiet .len) : len d = .ok d.file.content.bytes.size d := by
  unfold len
  simp only [bind, EStateM.bind, callQuiet quiet, content, Content.sizeBytes]
  rfl

theorem writeEq (off : Nat) (src : ByteArray) (d : Device) :
    writeAt off src d = match ArmedFault.strike .write d.faults with
      | (none, faults) => .ok () ⟨{ d.file with content := Content.overwrite off src d.file.content }, faults⟩
      | (some f, faults) => .error (.io (.injected .write f.atEnd)) { d with faults } := by
  unfold writeAt
  simp only [bind, EStateM.bind, callEq]
  rcases ArmedFault.strike .write d.faults with ⟨_ | f, faults⟩
  · rfl
  · rfl

theorem syncEq (d : Device) : sync d = match ArmedFault.strike .sync d.faults with
    | (none, faults) => .ok () ⟨{ d.file with stable := d.file.content }, faults⟩
    | (some f, faults) => .error (.io (.injected .sync f.atEnd)) { d with faults } := by
  unfold sync
  simp only [bind, EStateM.bind, callEq]
  rcases ArmedFault.strike .sync d.faults with ⟨_ | f, faults⟩
  · rfl
  · rfl

theorem truncateQuiet {d : Device} (quiet : d.Quiet .truncate) (n : Nat) :
    truncate n d = .ok () { d with file := { d.file with content := Content.resize n d.file.content } } := by
  unfold truncate
  simp only [bind, EStateM.bind, callQuiet quiet]
  rfl

end FileM

namespace Log.Reader

open FileM BigEndian

def nextIn (bytes : ByteArray) (r : Reader) : Except Damage (Option Record × Reader) :=
  if r.offset + Sealed.size > r.limit then .ok r.stop
  else match bytesAt bytes r.offset Sealed.size with
    | none => .ok r.stop
    | some block => match r.frame? block with
      | .error damage => .error damage
      | .ok none => .ok r.stop
      | .ok (some f) => match bytesAt bytes (r.offset + Sealed.size) f.size with
        | none => .ok r.stop
        | some payload => match r.record? f block payload with
          | .error damage => .error damage
          | .ok none => .ok r.stop
          | .ok (some (record, r)) => .ok (some record, r)

theorem nextEq {d : Device} (quiet : d.Quiet .read) (r : Reader) :
    r.next d = match r.nextIn d.file.content.bytes with
      | .ok answer => .ok answer d
      | .error damage => .error (.corruption damage) d := by
  unfold next nextIn
  by_cases ended : r.offset + Sealed.size > r.limit
  · simp only [if_pos ended]
    rfl
  · simp only [if_neg ended, bind, EStateM.bind, readOrEndQuiet quiet, pure]
    cases bytesAt d.file.content.bytes r.offset Sealed.size with
    | none => rfl
    | some block =>
      dsimp only
      rcases r.frame? block with damage | _ | f
      · rfl
      · rfl
      · simp only [EStateM.bind, readOrEndQuiet quiet]
        cases bytesAt d.file.content.bytes (r.offset + Sealed.size) f.size with
        | none => rfl
        | some payload =>
          dsimp only
          rcases r.record? f block payload with damage | _ | ⟨record, r⟩
          · rfl
          · rfl
          · rfl

def drainIn (bytes : ByteArray) : Nat → Reader → Scan
  | 0, r => ⟨[], r, none⟩
  | fuel + 1, r => match r.nextIn bytes with
    | .error damage => ⟨[], r, some (.corruption damage)⟩
    | .ok (none, r) => ⟨[], r, none⟩
    | .ok (some record, r) =>
      let scan := drainIn bytes fuel r
      { scan with records := record :: scan.records }

theorem drainFromEq {d : Device} (quiet : d.Quiet .read) (fuel : Nat) (r : Reader) :
    drainFrom fuel r d = .ok (drainIn d.file.content.bytes fuel r) d := by
  induction fuel generalizing r with
  | zero => rfl
  | succ fuel ih =>
    unfold drainFrom drainIn Error.attempt
    simp only [bind, EStateM.bind, nextEq quiet]
    rcases r.nextIn d.file.content.bytes with damage | ⟨_ | record, r⟩
    · rfl
    · rfl
    · simp only [EStateM.bind, ih]
      rfl

structure Before (bytes : ByteArray) (r : Reader) (lsn : UInt64) (items : List Item) (n : Nat) : Prop where
  rest : bytes.data.toList.drop r.offset = (frames r.link lsn items).data.toList.take n
  within : n ≤ extent items
  limit : r.limit = r.offset + n
  size : r.limit = bytes.size
  valid : r.validUpTo = r.offset
  small : ∀ item ∈ items, item.2.size ≤ maxPayload
  inside : r.header.start.toNat ≤ lsn.toNat
  room : lsn.toNat + items.length < UInt64.size

section Cut

variable {bytes : ByteArray} {r : Reader} {lsn : UInt64} {item : Item} {items : List Item} {n : Nat}

theorem nextEnd (short : r.limit < r.offset + Sealed.size) : r.nextIn bytes = .ok r.stop := by
  rw [nextIn, if_pos short]

theorem bytesAtFront {piece : ByteArray} {rest : List UInt8} {off : Nat}
    (here : bytes.data.toList.drop off = piece.data.toList ++ rest) (length : piece.size = n) :
    bytesAt bytes off n = some piece ∧ bytes.data.toList.drop (off + n) = rest := by
  have length : piece.data.toList.length = n := length
  constructor
  · unfold bytesAt
    by_cases none : n = 0
    · rw [if_pos none]
      congr 1
      exact (ByteArray.size_eq_zero_iff.mp (none ▸ length)).symm
    · have total := congrArg List.length here
      rw [List.length_drop, List.length_append, lengthList] at total
      rw [if_neg none, if_pos (by omega)]
      congr 1
      apply listInj
      rw [listExtract, here, Nat.add_sub_cancel_left, ← length, List.take_left]
  · rw [← List.drop_drop, here, ← length, List.drop_left]

theorem frameDecoded {block : ByteArray} {f : Frame} (decoded : Frame.decode? block = some f) (link : f.link = r.link)
    (inside : ¬ f.lsn < r.header.start) (small : f.size ≤ maxPayload) :
    r.frame? block = .ok (if r.offset + Sealed.size + f.size ≤ r.limit then some f else none) := by
  unfold frame?
  rw [decoded]
  simp only [link, ne_eq, not_true_eq_false, if_false, if_neg inside]
  by_cases whole : r.offset + Sealed.size + f.size ≤ r.limit
  · rw [if_pos whole, if_neg (by omega)]
  · rw [if_neg whole, if_pos (by omega)]

theorem frameOf (before : Before bytes r lsn (item :: items) n) :
    r.frame? (blockOf r.link lsn item) =
      .ok (if Sealed.size + item.2.size ≤ n then some (Frame.ofRecord r.link ⟨lsn, item.1, item.2⟩) else none) := by
  have small := before.small item List.mem_cons_self
  have decoded := Frame.decodeEncode (Frame.ofRecord r.link ⟨lsn, item.1, item.2⟩)
    (Nat.lt_of_le_of_lt small (by decide))
  have inside : ¬ lsn < r.header.start := UInt64.not_lt.mpr (UInt64.le_iff_toNat_le.mpr before.inside)
  have fits : r.offset + Sealed.size + item.2.size ≤ r.limit ↔ Sealed.size + item.2.size ≤ n := by
    have limit := before.limit
    omega
  rw [blockOf, frameDecoded decoded rfl inside small]
  simp only [show (Frame.ofRecord r.link ⟨lsn, item.1, item.2⟩).size = item.2.size from rfl, fits]

theorem frontOf (before : Before bytes r lsn (item :: items) n) (block : Sealed.size ≤ n) :
    bytesAt bytes r.offset Sealed.size = some (blockOf r.link lsn item) ∧
      bytes.data.toList.drop (r.offset + Sealed.size) = (item.2.data.toList ++
        (frames (linkPast r.link lsn item) (lsn + 1) items).data.toList).take (n - Sealed.size) := by
  have rest := before.rest
  have length := (lengthList (blockOf r.link lsn item)).trans (sizeBlockOf ..)
  rw [frames, listAppend, listAppend, List.append_assoc, List.take_append, length,
    List.take_of_length_le (by omega)] at rest
  exact bytesAtFront rest (sizeBlockOf ..)

theorem nextTorn (before : Before bytes r lsn (item :: items) n) (torn : n < Sealed.size + item.2.size) :
    r.nextIn bytes = .ok r.stop := by
  have limit := before.limit
  by_cases block : n < Sealed.size
  · exact nextEnd (by omega)
  · have front := (frontOf before (Nat.le_of_not_lt block)).1
    have frame := frameOf before
    rw [if_neg (by omega)] at frame
    simp only [nextIn, if_neg (show ¬ r.offset + Sealed.size > r.limit by omega), front, frame]

theorem nextWhole (before : Before bytes r lsn (item :: items) n) (whole : Sealed.size + item.2.size ≤ n) :
    ∃ r', r.nextIn bytes = .ok (some ⟨lsn, item.1, item.2⟩, r') ∧ r'.offset = r.offset + (Sealed.size + item.2.size) ∧
      r'.link = linkPast r.link lsn item ∧ Before bytes r' (lsn + 1) items (n - (Sealed.size + item.2.size)) := by
  have limit := before.limit
  have room := before.room
  rw [List.length_cons] at room
  obtain ⟨front, behind⟩ := frontOf before (by omega)
  have frame := frameOf before
  rw [if_pos whole] at frame
  have length : item.2.data.toList.length = item.2.size := rfl
  rw [List.take_append, length, List.take_of_length_le (by omega)] at behind
  obtain ⟨payload, behind⟩ := bytesAtFront behind length
  have step : (lsn + 1).toNat = lsn.toNat + 1 := by
    rw [UInt64.toNat_add]
    exact Nat.mod_eq_of_lt (show lsn.toNat + 1 < UInt64.size by omega)
  have within := before.within
  rw [extent] at within
  have past : Before bytes ⟨r.header, r.offset + Sealed.size + item.2.size, r.limit, linkPast r.link lsn item,
      r.offset + Sealed.size + item.2.size⟩ (lsn + 1) items (n - (Sealed.size + item.2.size)) := {
    rest := by rw [behind, Nat.sub_sub]
    within := by omega
    limit := by dsimp only; omega
    size := before.size
    valid := rfl
    small := fun x member => before.small x (List.mem_cons_of_mem _ member)
    inside := by rw [step]; exact Nat.le_succ_of_le before.inside
    room := by rw [step]; omega }
  have found : r.nextIn bytes = .ok (some ⟨lsn, item.1, item.2⟩, ⟨r.header, r.offset + Sealed.size + item.2.size,
      r.limit, linkPast r.link lsn item, r.offset + Sealed.size + item.2.size⟩) := by
    simp only [nextIn, if_neg (show ¬ r.offset + Sealed.size > r.limit by omega), front, frame]
    simp only [Frame.ofRecord, payload, record?, Kind.ofCodeCode, ne_eq, not_true_eq_false, if_false]
    rfl
  exact ⟨_, found, Nat.add_assoc .., rfl, past⟩

theorem drainBefore {fuel : Nat} (before : Before bytes r lsn items n) (enough : n / Sealed.size < fuel) :
    (drainIn bytes fuel r).records = records lsn (fitting n items) ∧ (drainIn bytes fuel r).failure = none ∧
      (drainIn bytes fuel r).reader.validUpTo = r.offset + extent (fitting n items) ∧
      (drainIn bytes fuel r).reader.link = linkAfter r.link lsn (fitting n items) := by
  induction items generalizing r lsn n fuel with
  | nil =>
    have within := before.within
    have limit := before.limit
    rw [extent] at within
    cases fuel with
    | zero => simp at enough
    | succ fuel =>
      have ended : r.nextIn bytes = .ok r.stop := nextEnd (by simp only [Sealed.size]; omega)
      simp only [drainIn, ended]
      exact ⟨rfl, rfl, before.valid, rfl⟩
  | cons item items ih =>
    cases fuel with
    | zero => simp at enough
    | succ fuel =>
      by_cases whole : Sealed.size + item.2.size ≤ n
      · obtain ⟨r', found, offset, link, behind⟩ := nextWhole before whole
        have enough : (n - (Sealed.size + item.2.size)) / Sealed.size < fuel := by
          simp only [Sealed.size] at whole enough ⊢
          omega
        obtain ⟨listed, failure, valid, last⟩ := ih behind enough
        simp only [drainIn, found, fitting, if_pos whole, records, extent, linkAfter, listed, failure, valid, last,
          offset, link, Nat.add_assoc, and_self]
      · have torn := nextTorn before (Nat.lt_of_not_le whole)
        simp only [drainIn, torn, fitting, if_neg whole]
        exact ⟨rfl, rfl, before.valid, rfl⟩

end Cut

end Log.Reader
end OrphanFiles
