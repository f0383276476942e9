import OrphanFiles.Proofs.Handle
import OrphanFiles.Proofs.Parsing

/-!
Opening any file as a log, whatever is in it and whatever fails.  An opening that fails leaves the file as it was; one
that succeeds keeps the records that stand in the file and cuts off the rest, so the next one has nothing left to cut.
Main statement: each outcome that an opening can have, and the same log again from the file that it left.
-/
namespace OrphanFiles

def Device.Hit (d : Device) (op : FileOp) (e : Error) : Prop := ∃ atEnd, d.Armed op atEnd ∧ e = .io (.injected op atEnd)

theorem Device.Later.hit {d d' : Device} {op : FileOp} {e : Error} (later : d.Later d') (hit : d'.Hit op e) :
    d.Hit op e := by
  obtain ⟨atEnd, armed, same⟩ := hit
  exact ⟨atEnd, later.armed armed, same⟩

namespace FileM

variable {d d' : Device} {op : FileOp} {off n : Nat} {src : ByteArray} {e : Error}

theorem callFails (failed : call op d = .error e d') : d'.file = d.file ∧ d.Hit op e := by
  rw [callEq] at failed
  rcases struck : ArmedFault.strike op d.faults with ⟨_ | f, faults⟩
  · simp only [struck] at failed
    cases failed
  · simp only [struck] at failed
    cases failed
    exact ⟨rfl, _, Device.struckArmed struck, rfl⟩

theorem lenFails (failed : len d = .error e d') : d'.file = d.file ∧ d.Hit .len e := by
  rcases bindFails failed with called | ⟨u, d₁, called, rest⟩
  · exact callFails called
  · cases rest

theorem writeFails (failed : writeAt off src d = .error e d') : d'.file = d.file ∧ d.Hit .write e := by
  rcases bindFails failed with called | ⟨u, d₁, called, rest⟩
  · exact callFails called
  · cases rest

theorem truncateFails (failed : truncate n d = .error e d') : d'.file = d.file ∧ d.Hit .truncate e := by
  rcases bindFails failed with called | ⟨u, d₁, called, rest⟩
  · exact callFails called
  · cases rest

theorem readFails (failed : readAt off n d = .error e d') :
    d'.file = d.file ∧ (d.Hit .read e ∨ bytesAt d.file.content.bytes off n = none) := by
  rcases struck : ArmedFault.strike .read d.faults with ⟨_ | f, faults⟩
  · rw [readAtPassed struck] at failed
    split at failed
    · cases failed
    · next none =>
      cases failed
      exact ⟨rfl, .inr none⟩
  · unfold readAt at failed
    rcases bindFails failed with called | ⟨u, d₁, called, rest⟩
    · obtain ⟨same, hit⟩ := callFails called
      exact ⟨same, .inl hit⟩
    · simp only [callEq, struck] at called
      cases called

theorem writeOk {u : Unit} (done : writeAt off src d = .ok u d') :
    d'.file.content = Content.overwrite off src d.file.content ∧
      ∀ {op atEnd}, d'.Armed op atEnd → d.Armed op atEnd := by
  obtain ⟨u', d₁, called, rest⟩ := bindOk done
  have later := callOk called
  cases rest
  rw [later.file]
  exact ⟨rfl, later.armed⟩

end FileM

namespace Log

open FileM

section Spelled

variable {bytes : ByteArray} {h : Header} {rs : List Record} {v : Nat} {salt : UInt64}

/- What a file says that can be opened: a header with the salt, and the records behind it up to `v`.  What follows is
no record, and nothing that only another log can hold. -/
structure Found (bytes : ByteArray) (salt : UInt64) (h : Header) (rs : List Record) (v : Nat) : Prop where
  front : bytes.extract 0 Sealed.size = h.encode
  salted : h.salt = salt
  spells : Spells bytes h.start firstLink Sealed.size rs v
  sound : ∀ damage, ¬ Foreign bytes v (chainLink firstLink rs) h.start damage

theorem Foreign.room {off : Nat} {link start : UInt64} {damage : Damage}
    (foreign : Foreign bytes off link start damage) : off + Sealed.size ≤ bytes.size := by
  cases foreign with
  | belowStart stands => exact stands.inside
  | unknownKind stands => exact stands.inside

theorem Header.encodeInj {h' : Header} (same : h.encode = h'.encode) : h = h' := by
  have decoded := congrArg Header.decode same
  rw [Header.decodeEncode, Header.decodeEncode] at decoded
  exact Except.ok.inj decoded

theorem Found.unique {h' : Header} {rs' : List Record} {v' : Nat} {salt' : UInt64} (found : Found bytes salt h rs v)
    (other : Found bytes salt' h' rs' v') : h = h' ∧ rs = rs' ∧ v = v' := by
  obtain rfl := Header.encodeInj (found.front.symm.trans other.front)
  exact ⟨rfl, found.spells.unique other.spells⟩

theorem Found.bytesEq (found : Found bytes salt h rs v) : bytes.extract 0 v = h.encode ++ chain firstLink rs := by
  rw [← BigEndian.joinPieces _ (Nat.zero_le _) found.spells.behind, found.front, found.spells.frames]

theorem foundWhole (salted : h.salt = salt) (admitted : ∀ r ∈ rs, r.Admitted h.start)
    (whole : bytes = h.encode ++ chain firstLink rs) : Found bytes salt h rs bytes.size := by
  obtain ⟨front, spells⟩ := spellsChain admitted whole
  exact ⟨front, salted, spells, fun damage foreign => absurd foreign.room (by simp [Sealed.size])⟩

theorem foundTorn {rest : ByteArray} (salted : h.salt = salt) (admitted : ∀ r ∈ rs, r.Admitted h.start)
    (torn : rest.size < Sealed.size) (whole : bytes = h.encode ++ chain firstLink rs ++ rest) :
    Found bytes salt h rs (Sealed.size + (chain firstLink rs).size) := by
  have front := Header.sizeEncode h
  have size := congrArg ByteArray.size whole
  rw [ByteArray.size_append, ByteArray.size_append, front] at size
  have frames := BigEndian.middlePiece h.encode (chain firstLink rs) rest
  rw [← whole, front] at frames
  have standing : Standing bytes h.start firstLink Sealed.size rs (Sealed.size + (chain firstLink rs).size) :=
    ⟨Nat.le_add_right .., by omega, frames, admitted⟩
  refine ⟨?_, salted, ⟨standing, fun x _ stands => ?_⟩, fun damage foreign => ?_⟩
  · rw [whole, ByteArray.append_assoc, ← front, ByteArray.extract_append_eq_left rfl]
  · have inside := stands.inside
    rw [Record.extent] at inside
    omega
  · have room := foreign.room
    omega

theorem Found.kept (found : Found bytes salt h rs v) {left : ByteArray} (cut : left = bytes.extract 0 v) :
    Found left salt h rs v := by
  have inside := found.spells.inside
  have size : left.size = v := by
    rw [cut, ByteArray.size_extract]
    omega
  have whole := foundWhole found.salted found.spells.admitted (cut.trans found.bytesEq)
  rwa [size] at whole

theorem foundIff {d : Device} (lens : d.Quiet .len) (reads : d.Quiet .read) :
    Found d.file.content.bytes salt h rs v ↔ h.salt = salt ∧ ∃ r last, Reader.ofFile d = .ok r d ∧ r.header = h ∧
      Reader.Calls r d rs none last d ∧ last.validUpTo = v := by
  constructor
  · intro found
    have long := Nat.le_trans found.spells.behind found.spells.inside
    obtain ⟨last, calls, valid⟩ := Reader.callsEnded reads (Reader.firstSees long) found.spells found.sound
    exact ⟨found.salted, _, last, Reader.ofFileHeader lens reads long found.front, rfl, calls, valid⟩
  · rintro ⟨salted, r, last, opened, rfl, calls, rfl⟩
    obtain ⟨long, front, first, -⟩ := Reader.ofFileSound lens reads opened
    rw [first] at calls
    obtain ⟨spells, failed⟩ := calls.spelled reads (Reader.firstSees long)
    refine ⟨front, salted, spells, fun damage foreign => ?_⟩
    cases (failed _).mpr ⟨damage, rfl, foreign⟩

end Spelled

def rebuilt (h : Header) (rs : List Record) (v torn : Nat) : Log where
  header := h
  offset := v
  link := chainLink firstLink rs
  nextLsn := rs.getLast?.elim h.start (·.lsn + 1)
  flushed := rs.getLast?.map (·.lsn)
  stats := { tornBytes := torn }

theorem ofScanRebuilt {h : Header} {scan : Reader.Scan} {torn : Nat}
    (link : scan.reader.link = chainLink firstLink scan.records) :
    ofScan h scan torn = rebuilt h scan.records scan.reader.validUpTo torn := by
  unfold ofScan rebuilt
  rw [← link]
  cases scan.records.getLast? with
  | none => rfl
  | some last => rfl

inductive Interrupted (d : Device) (e : Error) : Prop where
  | len (hit : d.Hit .len e)
  | read (hit : d.Hit .read e)
  | truncate (hit : d.Hit .truncate e)

theorem Interrupted.hit {d : Device} {e : Error} (interrupted : Interrupted d e) : ∃ op, d.Hit op e := by
  cases interrupted with
  | len hit => exact ⟨_, hit⟩
  | read hit => exact ⟨_, hit⟩
  | truncate hit => exact ⟨_, hit⟩

theorem Interrupted.earlier {d d' : Device} {e : Error} (later : d.Later d') (interrupted : Interrupted d' e) :
    Interrupted d e := by
  cases interrupted with
  | len hit => exact .len (later.hit hit)
  | read hit => exact .read (later.hit hit)
  | truncate hit => exact .truncate (later.hit hit)

inductive Refused (d : Device) (salt : UInt64) : Error → Prop where
  | interrupted {e} (here : Interrupted d e) : Refused d salt e
  | header {damage} (damaged : Header.decode (d.file.content.bytes.extract 0 Sealed.size) = .error damage) :
      Refused d salt (.corruption damage)
  | salt {h : Header} (front : d.file.content.bytes.extract 0 Sealed.size = h.encode) (other : h.salt ≠ salt) :
      Refused d salt (.corruption .salt)
  | frame {h : Header} {rs v damage} (front : d.file.content.bytes.extract 0 Sealed.size = h.encode)
      (salted : h.salt = salt)
      (spells : Spells d.file.content.bytes h.start firstLink Sealed.size rs v)
      (foreign : Foreign d.file.content.bytes v (chainLink firstLink rs) h.start damage) :
      Refused d salt (.corruption damage)

section Long

variable {d d' : Device} {salt start : UInt64} {h : Header} {e : Error}

theorem frontDecoded {bytes : ByteArray} (decoded : Header.decode (bytes.extract 0 Sealed.size) = .ok h) :
    bytes.extract 0 Sealed.size = h.encode := by
  have front := (Header.encodeDecoded decoded).2
  rwa [ByteArray.extract_extract, Nat.zero_add, Nat.zero_add, Nat.min_self] at front

theorem readHeaderFails (failed : Reader.readHeader d = .error e d') (long : Sealed.size ≤ d.file.content.bytes.size) :
    d'.file = d.file ∧ (d.Hit .read e ∨ ∃ damage, e = .corruption damage ∧
      Header.decode (d.file.content.bytes.extract 0 Sealed.size) = .error damage) := by
  have block : bytesAt d.file.content.bytes 0 Sealed.size = some (d.file.content.bytes.extract 0 Sealed.size) :=
    Reader.bytesAtInside (by omega)
  rcases bindFails failed with read | ⟨bytes, d₁, read, rest⟩
  · obtain ⟨same, hit | none⟩ := readFails read
    · exact ⟨same, .inl hit⟩
    · rw [block] at none
      cases none
  · obtain ⟨later, here⟩ := readOk read
    rw [block] at here
    cases here
    cases decoded : Header.decode (d.file.content.bytes.extract 0 Sealed.size) with
    | error damage =>
      simp only [decoded] at rest
      cases rest
      exact ⟨later.file, .inr ⟨damage, rfl, rfl⟩⟩
    | ok h =>
      simp only [decoded] at rest
      cases rest

theorem newFails (failed : Reader.new h d = .error e d') (long : Sealed.size ≤ d.file.content.bytes.size) :
    d'.file = d.file ∧ d.Hit .len e := by
  rcases bindFails failed with measured | ⟨n, d₁, measured, rest⟩
  · exact lenFails measured
  · obtain ⟨-, rfl⟩ := lenOk measured
    rw [if_neg (Nat.not_lt.mpr long)] at rest
    cases rest

theorem drainFails {r : Reader} (sees : r.Sees d.file.content.bytes) : r.drain d ≠ .error e d' := by
  intro failed
  obtain ⟨scan, d₁, drained, -⟩ := Reader.drainCalls sees (Nat.lt_succ_self _)
  rw [Reader.drain, drained] at failed
  cases failed

theorem cutFails {scan : Reader.Scan} (failed : (do
      let size ← len
      if size > scan.reader.validUpTo then truncate scan.reader.validUpTo
      pure (ofScan h scan (size - scan.reader.validUpTo)) : FileM Log) d = .error e d') :
    d'.file = d.file ∧ Interrupted d e := by
  rcases bindFails failed with measured | ⟨n, d₁, measured, rest⟩
  · obtain ⟨same, hit⟩ := lenFails measured
    exact ⟨same, .len hit⟩
  obtain ⟨later, rfl⟩ := lenOk measured
  split at rest
  · rcases bindFails rest with cut | ⟨u, d₂, cut, rest⟩
    · obtain ⟨same, hit⟩ := truncateFails cut
      exact ⟨same.trans later.file, .truncate (later.hit hit)⟩
    · cases rest
  · cases rest

theorem loadBroken (failed : load salt start d = .error e d') (long : Sealed.size ≤ d.file.content.bytes.size) :
    d'.file = d.file ∧ Refused d salt e := by
  unfold load at failed
  rcases bindFails failed with measured | ⟨n, d₁, measured, rest₁⟩
  · obtain ⟨same, hit⟩ := lenFails measured
    exact ⟨same, .interrupted (.len hit)⟩
  obtain ⟨later₁, rfl⟩ := lenOk measured
  rw [if_neg (Nat.not_lt.mpr long)] at rest₁
  rcases bindFails rest₁ with header | ⟨h, d₂, header, rest₂⟩
  · rw [← later₁.file] at long ⊢
    obtain ⟨same, hit | ⟨damage, rfl, damaged⟩⟩ := readHeaderFails header long
    · exact ⟨same, .interrupted (.read (later₁.hit hit))⟩
    · rw [later₁.file] at damaged
      exact ⟨same, .header damaged⟩
  obtain ⟨later₂, -, decoded⟩ := readHeaderOk header
  rw [later₁.file] at decoded
  have front := frontDecoded decoded
  have later := later₁.trans later₂
  split at rest₂
  · next other =>
    cases rest₂
    exact ⟨later.file, .salt front other⟩
  next salted =>
  have salted := Classical.not_not.mp salted
  rw [← later.file] at long
  rcases bindFails rest₂ with made | ⟨r, d₃, made, rest₃⟩
  · obtain ⟨same, hit⟩ := newFails made long
    exact ⟨same.trans later.file, .interrupted (.len (later.hit hit))⟩
  obtain ⟨later₃, -, rfl⟩ := newOk made
  have sees : (Reader.atFirst h d₂.file.content.bytes).Sees d₃.file.content.bytes := by
    rw [later₃.file]
    exact Reader.firstSees long
  have later := later.trans later₃
  rcases bindFails rest₃ with drained | ⟨scan, d₄, drained, rest₄⟩
  · exact absurd drained (drainFails sees)
  obtain ⟨later₄, -, standing, stopped⟩ := (drainOk sees drained).standing sees
  rw [later.file] at standing stopped
  have later := later.trans later₄
  cases failure : scan.failure with
  | some e' =>
    simp only [failure] at rest₄ stopped
    cases rest₄
    cases stopped with
    | foreign here => exact ⟨later.file, .frame front salted ⟨standing, fun x => here.apart⟩ here⟩
    | broken armed =>
      have armed := (later₁.trans (later₂.trans later₃)).armed armed
      exact ⟨later.file, .interrupted (.read ⟨false, armed, rfl⟩)⟩
  | none =>
    simp only [failure] at rest₄
    obtain ⟨same, interrupted⟩ := cutFails rest₄
    exact ⟨same.trans later.file, .interrupted (interrupted.earlier later)⟩

theorem loadFinds {log : Log} (ends : ¬ d.Armed .read true) (done : load salt start d = .ok log d')
    (long : Sealed.size ≤ d.file.content.bytes.size) : ∃ h rs v, Found d.file.content.bytes salt h rs v ∧
      log = rebuilt h rs v (d.file.content.bytes.size - v) ∧
      d'.file.content.bytes = d.file.content.bytes.extract 0 v ∧
      (v = d.file.content.bytes.size → d'.file = d.file) := by
  obtain ⟨h, scan, decoded, salted, link, standing, stopped, made, kept, same⟩ := loadScans done long
  refine ⟨h, scan.records, scan.reader.validUpTo, ⟨frontDecoded decoded, salted, ?_, ?_⟩, ?_, kept, same⟩
  · cases stopped with
    | noRecord nothing sound => exact ⟨standing, nothing⟩
    | atEnd armed => exact absurd armed ends
  · cases stopped with
    | noRecord nothing sound => exact sound
    | atEnd armed => exact absurd armed ends
  · rw [made, ofScanRebuilt link]

theorem loadWent {rs : List Record} {v : Nat} (ends : ¬ d.Armed .read true) (start : UInt64)
    (found : Found d.file.content.bytes salt h rs v) :
    (∃ d', load salt start d = .ok (rebuilt h rs v (d.file.content.bytes.size - v)) d' ∧
      (v = d.file.content.bytes.size → d'.file = d.file)) ∨
      ∃ e d', load salt start d = .error e d' ∧ d'.file = d.file ∧ Interrupted d e := by
  have long := Nat.le_trans found.spells.behind found.spells.inside
  cases outcome : load salt start d with
  | ok log d' =>
    obtain ⟨h', rs', v', other, rfl, -, same⟩ := loadFinds ends outcome long
    obtain ⟨rfl, rfl, rfl⟩ := found.unique other
    exact .inl ⟨d', rfl, same⟩
  | error e d' =>
    obtain ⟨same, refused⟩ := loadBroken outcome long
    cases refused with
    | interrupted here => exact .inr ⟨e, d', rfl, same, here⟩
    | header damaged =>
      rw [found.front, Header.decodeEncode] at damaged
      cases damaged
    | salt front other =>
      obtain rfl := Header.encodeInj (found.front.symm.trans front)
      exact absurd found.salted other
    | frame front salted spells foreign =>
      obtain rfl := Header.encodeInj (found.front.symm.trans front)
      obtain ⟨rfl, rfl⟩ := found.spells.unique spells
      exact absurd foreign (found.sound _)

end Long

section Short

variable {d d' : Device} {salt start : UInt64}

theorem shortBytes {d₁ : Device} (short : d.file.content.bytes.size < Sealed.size)
    (written : d₁.file.content = Content.overwrite 0 (Header.encode ⟨salt, start⟩) d.file.content) :
    d₁.file.content.bytes = Header.encode ⟨salt, start⟩ := by
  rw [written]
  exact Content.bytesOver (by rw [Header.sizeEncode]; exact short)

theorem loadMakes {log : Log} (done : load salt start d = .ok log d')
    (short : d.file.content.bytes.size < Sealed.size) :
    log = fresh ⟨salt, start⟩ ∧ d'.file.content.bytes = Header.encode ⟨salt, start⟩ := by
  unfold load at done
  obtain ⟨n, d₁, measured, rest₁⟩ := bindOk done
  obtain ⟨later, rfl⟩ := lenOk measured
  rw [if_pos short] at rest₁
  obtain ⟨u, d₂, written, rest₂⟩ := bindOk rest₁
  obtain ⟨v, d₃, cut, rest₃⟩ := bindOk rest₂
  cases rest₃
  rw [← later.file] at short
  have bytes := shortBytes short (writeOk written).1
  have size : d₂.file.content.bytes.size = Sealed.size := by rw [bytes, Header.sizeEncode]
  refine ⟨rfl, ?_⟩
  rw [truncateOk cut, Content.bytesCut (Nat.le_of_eq size.symm), ← size, ByteArray.extract_zero_size, bytes]

theorem loadMakesNone {e : Error} (failed : load salt start d = .error e d')
    (short : d.file.content.bytes.size < Sealed.size) : d'.file = d.file ∧ (d.Hit .len e ∨ d.Hit .write e) ∨
      d'.file.content.bytes = Header.encode ⟨salt, start⟩ ∧ d.Hit .truncate e := by
  unfold load at failed
  rcases bindFails failed with measured | ⟨n, d₁, measured, rest₁⟩
  · obtain ⟨same, hit⟩ := lenFails measured
    exact .inl ⟨same, .inl hit⟩
  obtain ⟨later, rfl⟩ := lenOk measured
  rw [if_pos short] at rest₁
  rcases bindFails rest₁ with written | ⟨u, d₂, written, rest₂⟩
  · obtain ⟨same, hit⟩ := writeFails written
    exact .inl ⟨same.trans later.file, .inr (later.hit hit)⟩
  rcases bindFails rest₂ with cut | ⟨v, d₃, cut, rest₃⟩
  · obtain ⟨content, armed⟩ := writeOk written
    obtain ⟨same, atEnd, truncates, shape⟩ := truncateFails cut
    rw [← later.file] at short
    exact .inr ⟨by rw [same, shortBytes short content], atEnd, later.armed (armed truncates), shape⟩
  · cases rest₃

end Short

theorem loadLeaves {d d' : Device} {salt start : UInt64} {log : Log} (ends : ¬ d.Armed .read true)
    (done : load salt start d = .ok log d') : ∃ h rs torn, log = rebuilt h rs d'.file.content.bytes.size torn ∧
      Found d'.file.content.bytes salt h rs d'.file.content.bytes.size ∧
      (Sealed.size ≤ d.file.content.bytes.size →
        Found d.file.content.bytes salt h rs d'.file.content.bytes.size) := by
  by_cases short : d.file.content.bytes.size < Sealed.size
  · obtain ⟨rfl, bytes⟩ := loadMakes done short
    have size : d'.file.content.bytes.size = Sealed.size := by rw [bytes, Header.sizeEncode]
    refine ⟨⟨salt, start⟩, [], 0, by rw [size]; rfl, foundWhole rfl (by simp) ?_, fun long => ?_⟩
    · rw [bytes, chain, ByteArray.append_empty]
    · exact absurd short (Nat.not_lt.mpr long)
  · obtain ⟨h, rs, v, found, rfl, kept, -⟩ := loadFinds ends done (Nat.le_of_not_lt short)
    have inside := found.spells.inside
    have size : d'.file.content.bytes.size = v := by
      rw [kept, ByteArray.size_extract]
      omega
    rw [size]
    exact ⟨h, rs, _, rfl, found.kept kept, fun _ => found⟩

theorem opensWholeOrNotAtAll {d : Device} (ends : ¬ d.Armed .read true) (salt start : UInt64) :
    (Sealed.size ≤ d.file.content.bytes.size →
      (∃ e d', load salt start d = .error e d' ∧ d'.file = d.file ∧ Refused d salt e) ∨
      ∃ h rs v d', Found d.file.content.bytes salt h rs v ∧
        load salt start d = .ok (rebuilt h rs v (d.file.content.bytes.size - v)) d' ∧
        d'.file.content.bytes = d.file.content.bytes.extract 0 v) ∧
    (d.file.content.bytes.size < Sealed.size →
      (∃ e d', load salt start d = .error e d' ∧ (d'.file = d.file ∧ (d.Hit .len e ∨ d.Hit .write e) ∨
        d'.file.content.bytes = Header.encode ⟨salt, start⟩ ∧ d.Hit .truncate e)) ∨
      ∃ d', load salt start d = .ok (fresh ⟨salt, start⟩) d' ∧
        d'.file.content.bytes = Header.encode ⟨salt, start⟩) ∧
    ∀ log d', load salt start d = .ok log d' → ∃ rs,
      (Sealed.size ≤ d.file.content.bytes.size → Found d.file.content.bytes salt log.header rs log.offset) ∧
      Found d'.file.content.bytes salt log.header rs log.offset ∧
      ∀ start' d₁, d₁.file = d'.file → ¬ d₁.Armed .read true →
        (∃ d₂, load salt start' d₁ = .ok { log with stats := {} } d₂ ∧ d₂.file = d₁.file) ∨
        ∃ e d₂, load salt start' d₁ = .error e d₂ ∧ d₂.file = d₁.file ∧ Interrupted d₁ e := by
  refine ⟨fun long => ?_, fun short => ?_, fun log d' done => ?_⟩
  · cases outcome : load salt start d with
    | error e d' => exact .inl ⟨e, d', rfl, loadBroken outcome long⟩
    | ok log d' =>
      obtain ⟨h, rs, v, found, rfl, kept, -⟩ := loadFinds ends outcome long
      exact .inr ⟨h, rs, v, d', found, rfl, kept⟩
  · cases outcome : load salt start d with
    | error e d' => exact .inl ⟨e, d', rfl, loadMakesNone outcome short⟩
    | ok log d' =>
      obtain ⟨rfl, bytes⟩ := loadMakes outcome short
      exact .inr ⟨d', rfl, bytes⟩
  · obtain ⟨h, rs, torn, rfl, now, before⟩ := loadLeaves ends done
    refine ⟨rs, before, now, fun start' d₁ same ends' => ?_⟩
    rw [← same] at now ⊢
    rcases loadWent ends' start' now with ⟨d₂, again, still⟩ | failed
    · rw [Nat.sub_self] at again
      exact .inl ⟨d₂, again, still rfl⟩
    · exact .inr failed

theorem opensAndReopens : ∃ d', load 5 9 Reader.oneRecord =
      .ok (rebuilt ⟨5, 1⟩ [⟨1, .commit, .mk #[1, 2, 3]⟩] 67 1) d' ∧
    ∃ d₂, load 5 2 ⟨d'.file, []⟩ = .ok (rebuilt ⟨5, 1⟩ [⟨1, .commit, .mk #[1, 2, 3]⟩] 67 0) d₂ ∧ d₂.file = d'.file := by
  have bytes : Reader.oneRecord.file.content.bytes =
      Header.encode ⟨5, 1⟩ ++ chain firstLink [⟨1, .commit, .mk #[1, 2, 3]⟩] ++ .mk #[7] := by
    simp only [Reader.oneRecord, Content.bytes, Stretch.bytes, image, ByteArray.append_empty]
    rfl
  have size : Reader.oneRecord.file.content.bytes.size = 68 := by
    rw [bytes, ByteArray.size_append, ByteArray.size_append, Header.sizeEncode, chain, ByteArray.size_append,
      Record.sizeFramed]
    rfl
  have admitted : ∀ r ∈ [Record.mk 1 .commit (.mk #[1, 2, 3])], r.Admitted 1 := fun r member => by
    obtain rfl := List.mem_singleton.mp member
    exact ⟨by decide, by decide⟩
  have found : Found Reader.oneRecord.file.content.bytes 5 ⟨5, 1⟩ _ _ := foundTorn rfl admitted (by decide) bytes
  have quiet (op : FileOp) (other : .sync ≠ op) (atEnd : Bool) : ¬ Reader.oneRecord.Armed op atEnd := by
    simp [Device.Armed, Reader.oneRecord, other]
  obtain ⟨d', done, -⟩ | ⟨e, d', -, -, interrupted⟩ := loadWent (quiet .read (by decide) true) 9 found
  · rw [size] at done
    obtain ⟨rs, -, -, again⟩ := (opensWholeOrNotAtAll (quiet .read (by decide) true) 5 9).2.2 _ d' done
    have unarmed (op : FileOp) (atEnd : Bool) : ¬ Device.Armed ⟨d'.file, []⟩ op atEnd := by simp [Device.Armed]
    obtain ⟨d₂, reopened, same⟩ | ⟨e, d₂, -, -, interrupted⟩ := again 2 ⟨d'.file, []⟩ rfl (unarmed .read true)
    · exact ⟨d', done, d₂, reopened, same⟩
    · obtain ⟨op, atEnd, armed, -⟩ := interrupted.hit
      exact absurd armed (unarmed op atEnd)
  · cases interrupted with
    | len hit => exact absurd hit.choose_spec.1 (quiet .len (by decide) _)
    | read hit => exact absurd hit.choose_spec.1 (quiet .read (by decide) _)
    | truncate hit => exact absurd hit.choose_spec.1 (quiet .truncate (by decide) _)

end Log
end OrphanFiles
