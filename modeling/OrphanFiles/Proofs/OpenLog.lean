import OrphanFiles.Log
import OrphanFiles.Proofs.Reading

/-!
One operation on a log.  An open log holds a list of records; appending puts one behind them or leaves all as it is,
and opening a file that was cut off keeps those that are whole.
-/
namespace OrphanFiles

open Log

namespace Content

theorem bytesCut {n : Nat} {c : Content} (inside : n ≤ c.bytes.size) : (resize n c).bytes = c.bytes.extract 0 n := by
  rw [sizeBytes] at inside
  rw [bytesResize, Nat.sub_eq_zero_of_le inside]
  exact ByteArray.append_empty

theorem bytesBehind {src : ByteArray} {c : Content} {off : Nat} (here : c.bytes.size = off) :
    (overwrite off src c).bytes = c.bytes ++ src := by
  rw [sizeBytes] at here
  by_cases none : src.size = 0
  · rw [overwrite, if_pos none, ByteArray.size_eq_zero_iff.mp none, ByteArray.append_empty]
  · have front : c.bytes.extract 0 off = c.bytes := extractWhole (by rw [sizeBytes]; omega)
    have back : c.bytes.extract (off + src.size) c.size = .empty := extractBeyond (by rw [sizeBytes]; omega) _
    rw [bytesOverwrite off src c none, front, back, here, Nat.sub_self, ByteArray.append_empty]
    exact congrArg (· ++ src) ByteArray.append_empty

theorem bytesOver {src : ByteArray} {c : Content} (shorter : c.bytes.size < src.size) :
    (overwrite 0 src c).bytes = src := by
  rw [sizeBytes] at shorter
  have front : c.bytes.extract 0 0 = .empty := ByteArray.extract_eq_empty_iff.mpr (by omega)
  have back : c.bytes.extract (0 + src.size) c.size = .empty := extractBeyond (by rw [sizeBytes]; omega) _
  rw [bytesOverwrite 0 src c (by omega), front, back, Nat.zero_sub, ByteArray.append_empty]
  exact ByteArray.empty_append

end Content

theorem ArmedFault.strikeOps {P : FileOp → Prop} (op : FileOp) {fs : List ArmedFault} (all : ∀ f ∈ fs, P f.op) :
    ∀ f ∈ (strike op fs).2, P f.op := by
  induction fs with
  | nil => simp [strike]
  | cons f fs ih =>
    have head := all f List.mem_cons_self
    have tail := fun g member => all g (List.mem_cons_of_mem _ member)
    unfold strike
    by_cases same : f.op = op
    · rw [if_pos same]
      cases f.after with
      | zero => exact tail
      | succ after =>
        intro g member
        rcases List.mem_cons.mp member with rfl | member
        · exact head
        · exact tail g member
    · rw [if_neg same]
      intro g member
      rcases List.mem_cons.mp member with rfl | member
      · exact head
      · exact ih tail g member

def Device.Readable (d : Device) : Prop := ∀ f ∈ d.faults, f.op = .write ∨ f.op = .sync

theorem Device.Readable.struck {d : Device} (readable : d.Readable) {op : FileOp} {hit : Option ArmedFault}
    {faults : List ArmedFault} (struck : ArmedFault.strike op d.faults = (hit, faults)) (file : File) :
    Device.Readable ⟨file, faults⟩ := by
  have ops := @ArmedFault.strikeOps (fun op => op = .write ∨ op = .sync) op d.faults readable
  rw [struck] at ops
  exact ops

theorem Device.Readable.quiet {d : Device} (readable : d.Readable) {op : FileOp} (write : op ≠ .write)
    (sync : op ≠ .sync) : d.Quiet op := by
  rintro f member rfl
  rcases readable f member with same | same
  · exact write same
  · exact sync same

/- The log in a file whose bytes are those of a log with given records. -/
structure OpenLog.Holds (s : OpenLog) (h : Header) (items : List Item) : Prop where
  bytes : s.device.file.content.bytes = image h items
  header : s.log.header = h
  offset : s.log.offset = Sealed.size + extent items
  link : s.log.link = linkAfter firstLink h.start items
  next : s.log.nextLsn = h.start + UInt64.ofNat items.length
  small : ∀ item ∈ items, item.2.size ≤ maxPayload
  alone : s.arriving = none

namespace Log

section Cut

variable {d : Device} {h : Header} {items : List Item} {m : Nat}

theorem newQuiet (readable : d.Readable) {limit : Nat} (size : d.file.content.bytes.size = limit)
    (long : Sealed.size ≤ limit) : Reader.new h d = .ok ⟨h, Sealed.size, limit, firstLink, Sealed.size⟩ d := by
  have quiet : d.Quiet .len := readable.quiet (by decide) (by decide)
  unfold Reader.new
  simp only [bind, EStateM.bind, FileM.lenQuiet quiet, size, if_neg (Nat.not_lt.mpr long)]
  rfl

theorem beforeCut {bytes : ByteArray} (cut : bytes = (image h items).extract 0 m) (long : Sealed.size ≤ m)
    (within : m ≤ Sealed.size + extent items) (small : ∀ item ∈ items, item.2.size ≤ maxPayload)
    (room : h.start.toNat + items.length < UInt64.size) :
    Reader.Before bytes ⟨h, Sealed.size, m, firstLink, Sealed.size⟩ h.start items (m - Sealed.size) := by
  have length := (BigEndian.lengthList h.encode).trans (Header.sizeEncode h)
  refine ⟨?_, by omega, by dsimp only; omega, ?_, rfl, small, Nat.le_refl _, room⟩
  · rw [cut, BigEndian.listExtract, List.drop_zero, Nat.sub_zero, List.drop_take, image, BigEndian.listAppend, ← length,
      List.drop_left]
  · rw [cut, ByteArray.size_extract, sizeImage]
    dsimp only
    omega

theorem drainCut (readable : d.Readable) (cut : d.file.content.bytes = (image h items).extract 0 m)
    (long : Sealed.size ≤ m) (within : m ≤ Sealed.size + extent items)
    (small : ∀ item ∈ items, item.2.size ≤ maxPayload) (room : h.start.toNat + items.length < UInt64.size) :
    ∃ r scan, Reader.new h d = .ok r d ∧ r.drain d = .ok scan d ∧
      scan.records = records h.start (fitting (m - Sealed.size) items) ∧ scan.failure = none ∧
      scan.reader.validUpTo = Sealed.size + extent (fitting (m - Sealed.size) items) ∧
      scan.reader.link = linkAfter firstLink h.start (fitting (m - Sealed.size) items) := by
  have before := beforeCut cut long within small room
  have quiet : d.Quiet .read := readable.quiet (by decide) (by decide)
  exact ⟨_, _, newQuiet readable before.size.symm long, Reader.drainFromEq quiet _ _,
    Reader.drainBefore before (Nat.lt_succ_self _)⟩

theorem loadRefused (salt start : UInt64) (readable : d.Readable) (short : d.file.content.bytes.size < Sealed.size)
    {f : ArmedFault} {faults : List ArmedFault} (struck : ArmedFault.strike .write d.faults = (some f, faults)) :
    load salt start d = .error (.io (.injected .write f.atEnd)) { d with faults } := by
  have quiet : d.Quiet .len := readable.quiet (by decide) (by decide)
  unfold load
  simp only [bind, EStateM.bind, FileM.lenQuiet quiet, if_pos short, FileM.writeEq, struck]

theorem loadFresh (salt start : UInt64) (readable : d.Readable) (short : d.file.content.bytes.size < Sealed.size)
    {faults : List ArmedFault} (struck : ArmedFault.strike .write d.faults = (none, faults)) :
    ∃ content, load salt start d = .ok (fresh ⟨salt, start⟩) ⟨{ d.file with content }, faults⟩ ∧
      OpenLog.Holds ⟨⟨{ d.file with content }, faults⟩, fresh ⟨salt, start⟩, none⟩ ⟨salt, start⟩ [] := by
  have quiet : d.Quiet .len := readable.quiet (by decide) (by decide)
  have cutQuiet := (readable.struck struck { d.file with
    content := Content.overwrite 0 (Header.encode ⟨salt, start⟩) d.file.content }).quiet
    (show FileOp.truncate ≠ .write by decide) (by decide)
  have size := Header.sizeEncode ⟨salt, start⟩
  have written := Content.bytesOver (size ▸ short)
  have bytes : (Content.resize Sealed.size (Content.overwrite 0 (Header.encode ⟨salt, start⟩) d.file.content)).bytes =
      image ⟨salt, start⟩ [] := by
    rw [Content.bytesCut (Nat.le_of_eq (by rw [written, size])), written, ← size, ByteArray.extract_zero_size]
    exact ByteArray.append_empty.symm
  refine ⟨_, ?_, bytes, rfl, rfl, rfl, (UInt64.add_zero start).symm, by simp, rfl⟩
  unfold load
  simp only [bind, EStateM.bind, FileM.lenQuiet quiet, if_pos short, FileM.writeEq, struck,
    FileM.truncateQuiet cutQuiet]
  rfl

theorem readHeaderCut (readable : d.Readable) (cut : d.file.content.bytes = (image h items).extract 0 m)
    (long : Sealed.size ≤ m) : Reader.readHeader d = .ok h d := by
  have quiet : d.Quiet .read := readable.quiet (by decide) (by decide)
  have size := Header.sizeEncode h
  have front : d.file.content.bytes.data.toList.drop 0 =
      h.encode.data.toList ++ (frames firstLink h.start items).data.toList.take (m - Sealed.size) := by
    rw [cut, BigEndian.listExtract, List.drop_zero, List.drop_zero, Nat.sub_zero, image, BigEndian.listAppend,
      List.take_append, List.take_of_length_le (by rw [BigEndian.lengthList, size]; exact long), BigEndian.lengthList,
      size]
  have block := (Reader.bytesAtFront front size).1
  unfold Reader.readHeader
  simp only [bind, EStateM.bind, FileM.readAtQuiet quiet, block, Header.decodeEncode]
  rfl

theorem ofScanHolds {scan : Reader.Scan} {kept : List Item} (listed : scan.records = records h.start kept)
    (valid : scan.reader.validUpTo = Sealed.size + extent kept)
    (link : scan.reader.link = linkAfter firstLink h.start kept) (small : ∀ item ∈ kept, item.2.size ≤ maxPayload)
    {content : Content} (bytes : content.bytes = image h kept) (torn : Nat) :
    OpenLog.Holds ⟨{ d with file := { d.file with content } }, ofScan h scan torn, none⟩ h kept := by
  have last := @recordsLast h.start kept
  rw [← listed] at last
  unfold ofScan
  cases found : scan.records.getLast? with
  | none =>
    rw [found] at last
    exact ⟨bytes, rfl, valid, link, last, small, rfl⟩
  | some record =>
    rw [found] at last
    exact ⟨bytes, rfl, valid, link, last, small, rfl⟩

theorem loadScanned {salt : UInt64} (start : UInt64) (readable : d.Readable)
    (cut : d.file.content.bytes = (image h items).extract 0 m) (salted : h.salt = salt) (long : Sealed.size ≤ m)
    (within : m ≤ Sealed.size + extent items) (small : ∀ item ∈ items, item.2.size ≤ maxPayload)
    (room : h.start.toNat + items.length < UInt64.size) :
    ∃ scan torn content, load salt start d = .ok (ofScan h scan torn) { d with file := { d.file with content } } ∧
      scan.records = records h.start (fitting (m - Sealed.size) items) ∧
      OpenLog.Holds ⟨{ d with file := { d.file with content } }, ofScan h scan torn, none⟩ h
        (fitting (m - Sealed.size) items) := by
  have quiet : d.Quiet .len := readable.quiet (by decide) (by decide)
  have cutQuiet : d.Quiet .truncate := readable.quiet (by decide) (by decide)
  have size : d.file.content.bytes.size = m := (beforeCut cut long within small room).size.symm
  have header := readHeaderCut readable cut long
  obtain ⟨r, scan, made, drained, listed, failure, valid, link⟩ := drainCut readable cut long within small room
  have part := fittingPrefix (m - Sealed.size) items
  have fits := extentFitting (m - Sealed.size) items
  have kept : d.file.content.bytes.extract 0 scan.reader.validUpTo = image h (fitting (m - Sealed.size) items) := by
    rw [cut, valid, ByteArray.extract_extract, Nat.zero_add, Nat.zero_add, Nat.min_eq_left (by omega), imagePrefix part]
  have held (content : Content) (bytes : content.bytes = image h (fitting (m - Sealed.size) items)) :=
    ofScanHolds (d := d) listed valid link (fun item member => small item (part.subset member)) bytes
      (m - scan.reader.validUpTo)
  by_cases torn : m > scan.reader.validUpTo
  · have cutOff := Content.bytesCut (size ▸ Nat.le_of_lt torn)
    refine ⟨scan, _, _, ?_, listed, held _ (cutOff.trans kept)⟩
    unfold load
    simp only [bind, EStateM.bind, FileM.lenQuiet quiet, size, if_neg (Nat.not_lt.mpr long), header, salted, ne_eq,
      not_true_eq_false, if_false, made, drained, failure, if_pos torn, FileM.truncateQuiet cutQuiet, pure,
      EStateM.pure]
  · have whole := Content.extractWhole (size ▸ Nat.le_of_not_lt torn)
    refine ⟨scan, _, d.file.content, ?_, listed, held _ (whole.symm.trans kept)⟩
    unfold load
    simp only [bind, EStateM.bind, FileM.lenQuiet quiet, size, if_neg (Nat.not_lt.mpr long), header, salted, ne_eq,
      not_true_eq_false, if_false, made, drained, failure, if_neg torn, pure, EStateM.pure]

theorem loadCut {salt : UInt64} (start : UInt64) (readable : d.Readable)
    (cut : d.file.content.bytes = (image h items).extract 0 m) (salted : h.salt = salt) (long : Sealed.size ≤ m)
    (within : m ≤ Sealed.size + extent items) (small : ∀ item ∈ items, item.2.size ≤ maxPayload)
    (room : h.start.toNat + items.length < UInt64.size) :
    ∃ log content, load salt start d = .ok log { d with file := { d.file with content } } ∧
      OpenLog.Holds ⟨{ d with file := { d.file with content } }, log, none⟩ h (fitting (m - Sealed.size) items) := by
  obtain ⟨scan, torn, content, loaded, -, held⟩ := loadScanned start readable cut salted long within small room
  exact ⟨_, content, loaded, held⟩

end Cut

end Log

namespace OpenLog

section Steps

variable {s : OpenLog} {h : Header} {items : List Item} {kind : Kind} {payload : ByteArray}

theorem appendTooLarge (large : maxPayload < payload.size) :
    append kind payload s = .error (.invalid .payloadTooLarge) s := by
  unfold append
  simp only [bind, EStateM.bind, if_pos large]
  rfl

theorem appendRefused (small : payload.size ≤ maxPayload) {f : ArmedFault} {faults : List ArmedFault}
    (struck : ArmedFault.strike .write s.device.faults = (some f, faults)) :
    append kind payload s = .error (.io (.injected .write f.atEnd)) { s with device := { s.device with faults } } := by
  unfold append
  simp only [bind, EStateM.bind, if_neg (Nat.not_lt.mpr small), getOk, onDevice,
    FileM.writeEq, struck]

theorem extendHolds (held : s.Holds h items) (small : payload.size ≤ maxPayload) {faults : List ArmedFault}
    {block : ByteArray} (framed : block = blockOf s.log.link s.log.nextLsn (kind, payload)) :
    OpenLog.Holds ⟨⟨{ s.device.file with
      content := Content.overwrite s.log.offset (block ++ payload) s.device.file.content }, faults⟩,
      s.log.extend block payload, none⟩ h (items ++ [(kind, payload)]) := by
  have size : s.device.file.content.bytes.size = s.log.offset := by rw [held.bytes, sizeImage, held.offset]
  have blockSize : block.size = Sealed.size := framed ▸ sizeBlockOf ..
  have offset := held.offset
  refine ⟨?_, held.header, ?_, ?_, ?_, ?_, rfl⟩
  · rw [Content.bytesBehind size, held.bytes, framed, held.link, held.next, imageSnoc]
  · simp only [extend, blockSize, extentAppend, extent]
    omega
  · simp only [extend, framed, linkAfterAppend, linkAfter, held.link, held.next]
    rfl
  · simp only [extend, held.next, List.length_append, List.length_singleton, ← nextPosition]
    rw [UInt64.add_assoc, UInt64.add_comm _ 1, ← UInt64.add_assoc]
  · intro item member
    rcases List.mem_append.mp member with old | new
    · exact held.small item old
    · obtain rfl : item = (kind, payload) := by simpa using new
      exact small

theorem appendDone (held : s.Holds h items) (small : payload.size ≤ maxPayload) {faults : List ArmedFault}
    (struck : ArmedFault.strike .write s.device.faults = (none, faults)) :
    ∃ s', append kind payload s = .ok (h.start + UInt64.ofNat items.length) s' ∧
      s'.Holds h (items ++ [(kind, payload)]) ∧ s'.device.faults = faults ∧
      s'.device.file.stable = s.device.file.stable ∧ s'.log.flushed = s.log.flushed := by
  obtain ⟨device, log, arriving⟩ := s
  obtain rfl : arriving = none := held.alone
  refine ⟨_, ?_, extendHolds held small rfl, rfl, rfl, rfl⟩
  rw [← held.next]
  unfold append
  simp only [bind, EStateM.bind, if_neg (Nat.not_lt.mpr small), getOk, onDevice,
    FileM.writeEq, struck]
  rfl

theorem syncRefused {f : ArmedFault} {faults : List ArmedFault}
    (struck : ArmedFault.strike .sync s.device.faults = (some f, faults)) :
    sync s = .error (.io (.injected .sync f.atEnd)) { s with device := { s.device with faults } } := by
  unfold sync syncDevice
  simp only [bind, EStateM.bind, getOk, onDevice, FileM.syncEq, struck]

theorem syncDone (alone : s.arriving = none) {faults : List ArmedFault}
    (struck : ArmedFault.strike .sync s.device.faults = (none, faults)) :
    sync s = .ok () { s with
      device := ⟨{ s.device.file with stable := s.device.file.content }, faults⟩
      log := s.log.markSynced s.log.nextLsn } := by
  unfold sync syncDevice
  simp only [bind, EStateM.bind, getOk, onDevice, FileM.syncEq, struck, alone]
  rfl

theorem flushKnown {done upto : UInt64} (known : s.log.flushed = some done) (enough : upto ≤ done) :
    flush upto s = .ok () s := by
  unfold flush
  simp only [bind, EStateM.bind, getOk, known, if_pos (show done ≥ upto from enough)]
  rfl

theorem flushSyncs {upto : UInt64} (unknown : ∀ done, s.log.flushed = some done → ¬ upto ≤ done) :
    flush upto s = sync s := by
  unfold flush
  simp only [bind, EStateM.bind, getOk]
  cases known : s.log.flushed with
  | none => rfl
  | some done => simp only [if_neg (show ¬ done ≥ upto from unknown done known)]

theorem drainHeld (held : s.Holds h items) (readable : s.device.Readable)
    (room : h.start.toNat + items.length < UInt64.size) :
    ∃ r scan, reader s = .ok r s ∧ drain r s = .ok scan s ∧ scan.records = records h.start items ∧
      scan.failure = none := by
  have whole : s.device.file.content.bytes = (image h items).extract 0 (Sealed.size + extent items) := by
    rw [held.bytes, ← sizeImage h, ByteArray.extract_zero_size]
  obtain ⟨r, scan, made, drained, listed, failure, -⟩ := drainCut readable whole (Nat.le_add_right ..) (Nat.le_refl _)
    held.small room
  rw [fittingAll (by omega)] at listed
  refine ⟨r, scan, ?_, ?_, listed, failure⟩
  · unfold reader
    simp only [bind, EStateM.bind, getOk, onDevice, held.header, made]
  · simp only [drain, onDevice, drained]

end Steps

end OpenLog
end OrphanFiles
