import OrphanFiles.Log
import OrphanFiles.Proofs.Bursts
import OrphanFiles.Proofs.OpenLog
import OrphanFiles.Proofs.Parsing

/-!
Logs of which a few bytes were altered.  Every part of a log is under a checksum, and the checksum of a part is apart
from it; so four consecutive bytes cannot be altered without one of the two telling.  Main statement: a log that was
altered in one frame ends in front of that frame, and one that was altered in its header is refused.
-/
namespace OrphanFiles

namespace Log

open BigEndian FileM

theorem Sealed.alteredBroken {block block' : ByteArray} {off n : Nat} (sized : block.size = size)
    (intact : isIntact block = true) (altered : Altered block block' off n) (few : n ≤ 4)
    (spot : off + n ≤ fieldsSize ∨ fieldsSize ≤ off) : isIntact block' = false := by
  apply Bool.eq_false_iff.mpr
  intro intact'
  rcases spot with fields | sum
  · have stored : word block' fieldsSize 4 = word block fieldsSize 4 := by
      rw [word, word, altered.elsewhere (.inr fields)]
    have sums : checksum (block'.extract 0 fieldsSize) = checksum (block.extract 0 fieldsSize) := by
      apply UInt32.toNat_inj.mp
      rw [← of_decide_eq_true intact', stored, of_decide_eq_true intact]
    have inside := altered.inside (Nat.zero_le _) fields
    exact Crc32.updateAltered inside few .empty (Crc32.updateInj _ (Crc32.valueInj sums))
  · have front : block'.extract 0 fieldsSize = block.extract 0 fieldsSize := altered.elsewhere (.inl sum)
    have whole := closeIntact (altered.size.trans sized) intact'
    rw [front, closeIntact sized intact] at whole
    exact altered.differ whole.symm

theorem Frame.intactEncode (f : Frame) : Sealed.isIntact f.encode = true :=
  Sealed.intactClose (by simp [Sealed.fieldsSize])

theorem Header.intactEncode (h : Header) : Sealed.isIntact h.encode = true :=
  Sealed.intactClose (by simp [Sealed.fieldsSize])

theorem Frame.decodeBroken {block : ByteArray} (broken : Sealed.isIntact block = false) : decode? block = none := by
  rw [decode?, broken]
  rfl

theorem Header.decodeBroken {block : ByteArray} (sized : block.size = Sealed.size)
    (broken : Sealed.isIntact block = false) : ∃ damage, decode block = .error damage := by
  cases decoded : decode block with
  | error damage => exact ⟨damage, rfl⟩
  | ok h =>
    have written := (encodeDecoded decoded).2
    rw [Content.extractWhole (Nat.le_of_eq sized)] at written
    rw [written, intactEncode] at broken
    cases broken

section Image

variable {link lsn : UInt64} {h : Header} {before after : List Item} {item : Item}

theorem chainRecords (items : List Item) : chain link (records lsn items) = frames link lsn items := by
  induction items generalizing link lsn with
  | nil => rfl
  | cons item rest ih => exact congrArg (blockOf link lsn item ++ item.2 ++ ·) ih

theorem chainLinkRecords (items : List Item) : chainLink link (records lsn items) = linkAfter link lsn items := by
  induction items generalizing link lsn with
  | nil => rfl
  | cons item rest ih => exact ih

theorem recordsAdmitted {items : List Item} {start : UInt64} (small : ∀ x ∈ items, x.2.size ≤ maxPayload)
    (past : start ≤ lsn) (room : lsn.toNat + items.length ≤ UInt64.size) :
    ∀ r ∈ records lsn items, r.Admitted start := by
  induction items generalizing lsn with
  | nil => simp [records]
  | cons item rest ih =>
    rw [List.length_cons] at room
    intro r member
    rcases List.mem_cons.mp member with rfl | member
    · exact ⟨past, small item List.mem_cons_self⟩
    · rcases Nat.eq_zero_or_pos rest.length with none | some
      · rw [List.length_eq_zero_iff.mp none] at member
        cases member
      have step : (lsn + 1).toNat = lsn.toNat + 1 := by
        rw [UInt64.toNat_add]
        exact Nat.mod_eq_of_lt (show lsn.toNat + 1 < UInt64.size by omega)
      have past : start ≤ lsn + 1 := by
        rw [UInt64.le_iff_toNat_le] at past ⊢
        omega
      exact ih (fun x inner => small x (List.mem_cons_of_mem _ inner)) past (by omega) r member

theorem imagePieces : (image h (before ++ item :: after)).extract 0 Sealed.size = h.encode ∧
    (image h (before ++ item :: after)).extract Sealed.size (Sealed.size + extent before) =
      frames firstLink h.start before ∧
    (image h (before ++ item :: after)).extract (Sealed.size + extent before)
      (Sealed.size + extent before + Sealed.size) =
        blockOf (linkAfter firstLink h.start before) (h.start + UInt64.ofNat before.length) item ∧
    (image h (before ++ item :: after)).extract (Sealed.size + extent before + Sealed.size)
      (Sealed.size + extent before + Sealed.size + item.2.size) = item.2 := by
  have front := Header.sizeEncode h
  have middle := @sizeFrames firstLink h.start before
  have block := sizeBlockOf (linkAfter firstLink h.start before) (h.start + UInt64.ofNat before.length) item
  rw [image, framesAppend, frames]
  generalize frames (linkPast _ _ item) _ after = rest
  generalize blockOf _ _ item = framed at block ⊢
  generalize frames firstLink h.start before = kept at middle ⊢
  generalize h.encode = header at front ⊢
  refine ⟨?_, ?_, ?_, ?_⟩
  · rw [← front, ByteArray.extract_append_eq_left rfl]
  · rw [← ByteArray.append_assoc, ← front, ← middle, middlePiece]
  · have place := middlePiece (header ++ kept) framed (item.2 ++ rest)
    simp only [ByteArray.size_append, front, middle, block, ByteArray.append_assoc] at place ⊢
    exact place
  · have place := middlePiece (header ++ kept ++ framed) item.2 rest
    simp only [ByteArray.size_append, front, middle, block, ByteArray.append_assoc] at place ⊢
    exact place

end Image

/- Where the bytes of a frame may be altered that stands at an offset: among the fields of its block, in the place of
the checksum of the block, or in the payload. -/
inductive Spot (place size off n : Nat) : Prop where
  | fields (first : place ≤ off) (last : off + n ≤ place + Sealed.fieldsSize)
  | sum (first : place + Sealed.fieldsSize ≤ off) (last : off + n ≤ place + Sealed.size)
  | payload (first : place + Sealed.size ≤ off) (last : off + n ≤ place + Sealed.size + size)

section Frame

variable {bytes bytes' : ByteArray} {h : Header} {before after : List Item} {item : Item} {off n : Nat}

theorem Spot.inside {place size : Nat} (spot : Spot place size off n) :
    place ≤ off ∧ off + n ≤ place + Sealed.size + size := by
  cases spot with
  | fields first last =>
    have shorter : Sealed.fieldsSize ≤ Sealed.size := by decide
    exact ⟨first, by omega⟩
  | sum first last => exact ⟨Nat.le_trans (Nat.le_add_right ..) first, by omega⟩
  | payload first last => exact ⟨Nat.le_trans (Nat.le_add_right ..) first, last⟩

theorem nextAltered {r : Reader} {f : Frame} (stands : f.StandsAt bytes r.offset)
    (whole : r.offset + Sealed.size + f.size ≤ bytes.size)
    (sum : Crc32.ofBytes (bytes.extract (r.offset + Sealed.size) (r.offset + Sealed.size + f.size)) = f.checksum)
    (linked : f.link = r.link) (recent : r.header.start ≤ f.lsn) (small : f.size ≤ maxPayload)
    (altered : Altered bytes bytes' off n) (few : n ≤ 4) (spot : Spot r.offset f.size off n)
    (limit : r.limit = bytes'.size) : r.nextIn bytes' = .ok r.stop := by
  have size := altered.size
  have block := stands.block
  have intact := f.intactEncode
  rw [← block] at intact
  have sized : (bytes.extract r.offset (r.offset + Sealed.size)).size = Sealed.size := by
    rw [block, Frame.sizeEncode]
  have broken (first : r.offset ≤ off) (last : off + n ≤ r.offset + Sealed.size)
      (side : off - r.offset + n ≤ Sealed.fieldsSize ∨ Sealed.fieldsSize ≤ off - r.offset) :
      r.frame? (bytes'.extract r.offset (r.offset + Sealed.size)) = .ok none := by
    have part := Frame.decodeBroken (Sealed.alteredBroken sized intact (altered.inside first last) few side)
    unfold Reader.frame?
    simp only [part]
  rw [Reader.nextInside limit (by omega)]
  cases spot with
  | fields first last =>
    have shorter : Sealed.fieldsSize ≤ Sealed.size := by decide
    rw [broken first (by omega) (.inl (by omega))]
  | sum first last =>
    rw [broken (by omega) last (.inr (by omega))]
  | payload first last =>
    have decoded := Frame.decodeEncode f stands.fits
    have frame := Reader.frameDecoded (r := r) decoded linked (UInt64.not_lt.mpr recent) small
    rw [if_pos (by omega), ← block, ← altered.elsewhere (.inl first)] at frame
    have other := Crc32.bytesAltered (altered.inside first last) few
    rw [sum] at other
    simp only [frame, Reader.record?, if_pos other]

theorem spellsAltered (small : ∀ x ∈ before ++ item :: after, x.2.size ≤ maxPayload)
    (room : h.start.toNat + before.length < UInt64.size)
    (altered : Altered (image h (before ++ item :: after)) bytes off n) (few : n ≤ 4)
    (spot : Spot (Sealed.size + extent before) item.2.size off n) :
    bytes.extract 0 Sealed.size = h.encode ∧
      Spells bytes h.start firstLink Sealed.size (records h.start before) (Sealed.size + extent before) ∧
      ∀ damage, ¬ Foreign bytes (Sealed.size + extent before) (chainLink firstLink (records h.start before)) h.start
        damage := by
  obtain ⟨front, kept, block, payload⟩ := @imagePieces h before after item
  obtain ⟨first, -⟩ := spot.inside
  have total : (image h (before ++ item :: after)).size =
      Sealed.size + extent before + Sealed.size + item.2.size + extent after := by
    rw [sizeImage, extentAppend, extent]
    omega
  have size := altered.size
  have small' := small item (by simp)
  have recent : h.start ≤ h.start + UInt64.ofNat before.length := by
    rw [UInt64.le_iff_toNat_le, positionOf room]
    exact Nat.le_add_right ..
  have stands : (Frame.ofRecord (linkAfter firstLink h.start before)
      ⟨h.start + UInt64.ofNat before.length, item.1, item.2⟩).StandsAt (image h (before ++ item :: after))
        (Sealed.size + extent before) :=
    ⟨by omega, block, Nat.lt_of_le_of_lt small' (by decide)⟩
  let r : Reader := ⟨h, Sealed.size + extent before, bytes.size, linkAfter firstLink h.start before,
    Sealed.size + extent before⟩
  have stops : r.nextIn bytes = .ok r.stop :=
    nextAltered stands (by simp only [Frame.ofRecord, r]; omega) (congrArg Crc32.ofBytes payload) rfl recent small'
      altered few spot rfl
  have standing : Standing bytes h.start firstLink Sealed.size (records h.start before)
      (Sealed.size + extent before) := {
    behind := Nat.le_add_right ..
    inside := by omega
    frames := by rw [altered.elsewhere (.inl first), kept, chainRecords]
    admitted := recordsAdmitted (fun x member => small x (List.mem_append_left _ member)) (UInt64.le_refl _)
      (Nat.le_of_lt room) }
  refine ⟨?_, ⟨standing, fun x admitted stands => ?_⟩, fun damage foreign => ?_⟩
  · rw [altered.elsewhere (.inl (Nat.le_trans (Nat.le_add_right ..) first)), front]
  · rw [chainLinkRecords] at stands
    have found : r.nextIn bytes = .ok (some x, r.past x) := Reader.nextStanding rfl stands admitted
    rw [stops] at found
    cases found
  · rw [chainLinkRecords] at foreign
    have failed : r.nextIn bytes = .error damage := Reader.nextForeign rfl foreign
    rw [stops] at failed
    cases failed

end Frame

section Header

variable {d : Device} {h : Header} {damage : Damage}

theorem loadDamaged (lens : d.Quiet .len) (reads : d.Quiet .read) (long : Sealed.size ≤ d.file.content.bytes.size)
    (damaged : Header.decode (d.file.content.bytes.extract 0 Sealed.size) = .error damage) (salt start : UInt64) :
    load salt start d = .error (.corruption damage) d := by
  have front : bytesAt d.file.content.bytes 0 Sealed.size = some (d.file.content.bytes.extract 0 Sealed.size) :=
    Reader.bytesAtInside (by omega)
  unfold load Reader.readHeader
  simp only [bind, EStateM.bind, lenQuiet lens, if_neg (Nat.not_lt.mpr long), readAtQuiet reads, front, damaged]
  rfl

end Header

theorem alteredBytesAreCaught {h : Header} {items : List Item} (small : ∀ item ∈ items, item.2.size ≤ maxPayload)
    {d : Device} (lens : d.Quiet .len) (reads : d.Quiet .read) {off n : Nat}
    (altered : Altered (image h items) d.file.content.bytes off n) (few : n ≤ 4) :
    (∀ before item after, items = before ++ item :: after → h.start.toNat + before.length < UInt64.size →
      Spot (Sealed.size + extent before) item.2.size off n →
      ∃ r last, Reader.ofFile d = .ok r d ∧ r.header = h ∧
        Reader.Calls r d (records h.start before) none last d) ∧
    (off + n ≤ Sealed.fieldsSize ∨ Sealed.fieldsSize ≤ off ∧ off + n ≤ Sealed.size →
      ∃ damage, Reader.ofFile d = .error (.corruption damage) d ∧
        ∀ salt start, load salt start d = .error (.corruption damage) d) := by
  have long : Sealed.size ≤ d.file.content.bytes.size := by
    rw [altered.size, sizeImage]
    exact Nat.le_add_right ..
  constructor
  · rintro before item after rfl room spot
    obtain ⟨front, spells, sound⟩ := spellsAltered small room altered few spot
    obtain ⟨last, calls, -⟩ := Reader.callsEnded reads (Reader.firstSees long) spells sound
    exact ⟨_, last, Reader.ofFileHeader lens reads long front, rfl, calls⟩
  · intro place
    have front : (image h items).extract 0 Sealed.size = h.encode := by
      rw [image, ← Header.sizeEncode h, ByteArray.extract_append_eq_left rfl]
    have shorter : Sealed.fieldsSize ≤ Sealed.size := by decide
    have inside : Altered ((image h items).extract 0 Sealed.size) (d.file.content.bytes.extract 0 Sealed.size)
        (off - 0) n := altered.inside (Nat.zero_le _) (by omega)
    rw [front, Nat.sub_zero] at inside
    have sized := inside.size.trans (Header.sizeEncode h)
    have broken := Sealed.alteredBroken (Header.sizeEncode h) h.intactEncode inside few (by omega)
    obtain ⟨damage, damaged⟩ := Header.decodeBroken sized broken
    refine ⟨damage, ?_, loadDamaged lens reads long damaged⟩
    rw [Reader.ofFileQuiet lens reads, if_neg (Nat.not_lt.mpr long), damaged]

def halfWritten (start : UInt64) : ByteArray :=
  image ⟨5, start⟩ [(.commit, .mk #[1, 2, 3])] ++
    blockOf (linkAfter firstLink start [(.commit, .mk #[1, 2, 3])]) (start + 1) (.abort, .mk #[4, 5])

def alteredPayload (start : UInt64) : Device where
  file := ⟨[.written (halfWritten start), .written (.mk #[4, 6])], []⟩
  faults := [⟨.sync, 0, false⟩]

theorem payloadAltered (start : UInt64) : Altered (image ⟨5, start⟩ [(.commit, .mk #[1, 2, 3]), (.abort, .mk #[4, 5])])
    (alteredPayload start).file.content.bytes 99 2 := by
  have front : (halfWritten start).size = 99 := by
    rw [halfWritten, ByteArray.size_append, sizeImage, sizeBlockOf]
    rfl
  have other : Altered (halfWritten start ++ .mk #[4, 5] ++ .empty) (halfWritten start ++ .mk #[4, 6] ++ .empty)
      (halfWritten start).size 2 := .replaced (halfWritten start) .empty rfl (by decide)
  have written : halfWritten start ++ .mk #[4, 5] =
      image ⟨5, start⟩ ([(.commit, .mk #[1, 2, 3])] ++ [(.abort, .mk #[4, 5])]) := by
    rw [imageSnoc, ← ByteArray.append_assoc]
    rfl
  have now : (alteredPayload start).file.content.bytes = halfWritten start ++ .mk #[4, 6] := by
    simp [alteredPayload, Content.bytes, Stretch.bytes]
  rw [front, ByteArray.append_empty, ByteArray.append_empty, written, ← now] at other
  exact other

theorem alteredPayloadIsCaught : ∃ r last, Reader.ofFile (alteredPayload 1) = .ok r (alteredPayload 1) ∧
    r.header = ⟨5, 1⟩ ∧
      Reader.Calls r (alteredPayload 1) [⟨1, .commit, .mk #[1, 2, 3]⟩] none last (alteredPayload 1) := by
  have lens : (alteredPayload 1).Quiet .len := by simp [Device.Quiet, alteredPayload]
  have reads : (alteredPayload 1).Quiet .read := by simp [Device.Quiet, alteredPayload]
  have caught := alteredBytesAreCaught (by decide) lens reads (payloadAltered 1) (by decide)
  exact caught.1 [(.commit, .mk #[1, 2, 3])] (.abort, .mk #[4, 5]) [] rfl (by decide) (.payload (by decide) (by decide))

def readsThrough (d : Device) : Option (Nat × Option Error) :=
  match (Reader.ofFile >>= Reader.drain) d with
  | .ok scan _ => some (scan.records.length, scan.failure)
  | .error .. => none

/-- If the altered record has a position in front of the start, that is what its reader finds. -/
theorem alteredBeforeStart : Altered (image ⟨5, -1⟩ [(.commit, .mk #[1, 2, 3]), (.abort, .mk #[4, 5])])
      (alteredPayload (-1)).file.content.bytes 99 2 ∧
    Spot (Sealed.size + extent [(.commit, .mk #[1, 2, 3])]) 2 99 2 ∧
    readsThrough (alteredPayload (-1)) = some (1, some (.corruption .belowStart)) :=
  ⟨payloadAltered (-1), .payload (by decide) (by decide), by decide +kernel⟩

end Log
end OrphanFiles
