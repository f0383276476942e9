import OrphanFiles.Proofs.Canonical
import OrphanFiles.Proofs.Reading

/-!
The grammar of a log, for any bytes at all.  Records stand behind the header, each with its frame and linked to the
one before; the grammar says which records those are, and no reader is mentioned in it.  Main statement: reading
gives these records and no others, and fails only at a frame that belongs into the chain but that no log can hold.
-/
namespace OrphanFiles.Log

open BigEndian FileM

structure Frame.StandsAt (bytes : ByteArray) (off : Nat) (f : Frame) : Prop where
  inside : off + Sealed.size ≤ bytes.size
  block : bytes.extract off (off + Sealed.size) = f.encode
  fits : f.size < Nat.pow 256 4

/- A frame that belongs into the chain at a place, but that the log of a start cannot hold. -/
inductive Foreign (bytes : ByteArray) (off : Nat) (link start : UInt64) : Damage → Prop where
  | belowStart {f : Frame} (stands : f.StandsAt bytes off) (linked : f.link = link) (below : f.lsn < start) :
      Foreign bytes off link start .belowStart
  | unknownKind {f : Frame} (stands : f.StandsAt bytes off) (linked : f.link = link) (recent : start ≤ f.lsn)
      (small : f.size ≤ maxPayload) (whole : off + Sealed.size + f.size ≤ bytes.size)
      (sum : Crc32.ofBytes (bytes.extract (off + Sealed.size) (off + Sealed.size + f.size)) = f.checksum)
      (unknown : Kind.ofCode? f.kind = none) : Foreign bytes off link start .unknownKind

namespace Record

def block (link : UInt64) (r : Record) : ByteArray := (Frame.ofRecord link r).encode

def framed (link : UInt64) (r : Record) : ByteArray := r.block link ++ r.payload

def linkPast (link : UInt64) (r : Record) : UInt64 := nextLink link (r.block link) r.payload

def extent (r : Record) : Nat := Sealed.size + r.payload.size

structure StandsAt (bytes : ByteArray) (off : Nat) (link : UInt64) (r : Record) : Prop where
  inside : off + r.extent ≤ bytes.size
  framed : bytes.extract off (off + r.extent) = r.framed link

structure Admitted (start : UInt64) (r : Record) : Prop where
  recent : start ≤ r.lsn
  small : r.payload.size ≤ maxPayload

theorem sizeBlock (link : UInt64) (r : Record) : (r.block link).size = Sealed.size := Frame.sizeEncode _

theorem sizeFramed (link : UInt64) (r : Record) : (r.framed link).size = r.extent := by
  simp only [framed, ByteArray.size_append, sizeBlock, extent]

variable {bytes : ByteArray} {off : Nat} {link : UInt64} {r : Record}

theorem standsIff : r.StandsAt bytes off link ↔ off + Sealed.size + r.payload.size ≤ bytes.size ∧
    bytes.extract off (off + Sealed.size) = r.block link ∧
      bytes.extract (off + Sealed.size) (off + Sealed.size + r.payload.size) = r.payload := by
  have pieces : bytes.extract off (off + r.extent) = bytes.extract off (off + Sealed.size) ++
      bytes.extract (off + Sealed.size) (off + Sealed.size + r.payload.size) := by
    rw [joinPieces bytes (Nat.le_add_right ..) (Nat.le_add_right ..), extent, Nat.add_assoc]
  constructor
  · intro stands
    have inside := stands.inside
    have framed := stands.framed
    rw [extent, ← Nat.add_assoc] at inside
    have length : (bytes.extract off (off + Sealed.size)).size = (r.block link).size := by
      rw [sizeBlock, ByteArray.size_extract]
      omega
    rw [pieces, Record.framed, ByteArray.append_eq_append_iff_of_size_eq_left length] at framed
    exact ⟨inside, framed⟩
  · rintro ⟨inside, block, payload⟩
    refine ⟨?_, ?_⟩
    · rw [extent, ← Nat.add_assoc]
      exact inside
    · rw [pieces, block, payload, framed]

theorem StandsAt.frame (stands : r.StandsAt bytes off link) (small : r.payload.size ≤ maxPayload) :
    (Frame.ofRecord link r).StandsAt bytes off := by
  obtain ⟨inside, block, -⟩ := standsIff.mp stands
  exact ⟨by omega, block, Nat.lt_of_le_of_lt small (by decide)⟩

theorem StandsAt.unique {x : Record} (stands : r.StandsAt bytes off link) (other : x.StandsAt bytes off link)
    (small : r.payload.size ≤ maxPayload) (small' : x.payload.size ≤ maxPayload) : r = x := by
  have decoded := Frame.decodeEncode _ (stands.frame small).fits
  have decoded' := Frame.decodeEncode _ (other.frame small').fits
  rw [← (stands.frame small).block, (other.frame small').block, decoded'] at decoded
  obtain ⟨lsn, kind, size, -, -⟩ := Frame.mk.inj (Option.some.inj decoded)
  have kinds := congrArg Kind.ofCode? kind
  rw [Kind.ofCodeCode, Kind.ofCodeCode] at kinds
  have payload := (standsIff.mp stands).2.2
  have payload' := (standsIff.mp other).2.2
  rw [size] at payload'
  obtain ⟨lsn', kind', content⟩ := x
  cases lsn
  cases Option.some.inj kinds
  cases payload.symm.trans payload'
  rfl

end Record

def chain (link : UInt64) : List Record → ByteArray
  | [] => .empty
  | r :: rs => r.framed link ++ chain (r.linkPast link) rs

def chainLink (link : UInt64) : List Record → UInt64
  | [] => link
  | r :: rs => chainLink (r.linkPast link) rs

/- The records `rs` stand one after the other from an offset on, and end at `v`. -/
structure Standing (bytes : ByteArray) (start link : UInt64) (off : Nat) (rs : List Record) (v : Nat) : Prop where
  behind : off ≤ v
  inside : v ≤ bytes.size
  frames : bytes.extract off v = chain link rs
  admitted : ∀ r ∈ rs, r.Admitted start

structure Spells (bytes : ByteArray) (start link : UInt64) (off : Nat) (rs : List Record) (v : Nat) : Prop
    extends Standing bytes start link off rs v where
  last : ∀ r : Record, r.Admitted start → ¬ r.StandsAt bytes v (chainLink link rs)

section Chain

variable {bytes : ByteArray} {start link : UInt64} {off v : Nat} {r : Record} {rs : List Record}

theorem chainRoom (link : UInt64) (rs : List Record) : Sealed.size * rs.length ≤ (chain link rs).size := by
  induction rs generalizing link with
  | nil => exact Nat.zero_le _
  | cons r rs ih =>
    have rest := ih (r.linkPast link)
    rw [chain, ByteArray.size_append, Record.sizeFramed, Record.extent, List.length_cons, Nat.mul_succ]
    omega

theorem chainAppend (link : UInt64) (xs ys : List Record) :
    chain link (xs ++ ys) = chain link xs ++ chain (chainLink link xs) ys := by
  induction xs generalizing link with
  | nil => exact ByteArray.empty_append.symm
  | cons x xs ih => simp only [List.cons_append, chain, chainLink, ih, ByteArray.append_assoc]

theorem chainLinkAppend (link : UInt64) (xs ys : List Record) :
    chainLink link (xs ++ ys) = chainLink (chainLink link xs) ys := by
  induction xs generalizing link with
  | nil => rfl
  | cons x xs ih => exact ih _

theorem standingNil (inside : off ≤ bytes.size) : Standing bytes start link off [] off where
  behind := Nat.le_refl _
  inside := inside
  frames := ByteArray.extract_eq_empty_iff.mpr (by omega)
  admitted := by simp

theorem Standing.none (standing : Standing bytes start link off [] v) : v = off := by
  have length := congrArg ByteArray.size standing.frames
  have behind := standing.behind
  have inside := standing.inside
  rw [ByteArray.size_extract, chain, ByteArray.size_empty] at length
  omega

theorem Standing.cons (stands : r.StandsAt bytes off link) (admitted : r.Admitted start)
    (rest : Standing bytes start (r.linkPast link) (off + r.extent) rs v) :
    Standing bytes start link off (r :: rs) v where
  behind := Nat.le_trans (Nat.le_add_right ..) rest.behind
  inside := rest.inside
  frames := by
    rw [chain, ← stands.framed, ← rest.frames, joinPieces bytes (Nat.le_add_right ..) rest.behind]
  admitted := by
    intro x member
    rcases List.mem_cons.mp member with rfl | member
    · exact admitted
    · exact rest.admitted x member

theorem chainFirst (behind : off ≤ v) (inside : v ≤ bytes.size) (frames : bytes.extract off v = chain link (r :: rs)) :
    r.StandsAt bytes off link ∧ off + r.extent ≤ v ∧ bytes.extract (off + r.extent) v = chain (r.linkPast link) rs := by
  have length := congrArg ByteArray.size frames
  rw [ByteArray.size_extract, chain, ByteArray.size_append, Record.sizeFramed] at length
  have room : off + r.extent ≤ v := by omega
  have head : (bytes.extract off (off + r.extent)).size = (r.framed link).size := by
    rw [Record.sizeFramed, ByteArray.size_extract]
    omega
  rw [← joinPieces bytes (Nat.le_add_right off r.extent) room, chain,
    ByteArray.append_eq_append_iff_of_size_eq_left head] at frames
  exact ⟨⟨by omega, frames.1⟩, room, frames.2⟩

theorem Standing.first (standing : Standing bytes start link off (r :: rs) v) :
    r.StandsAt bytes off link ∧ r.Admitted start ∧ Standing bytes start (r.linkPast link) (off + r.extent) rs v := by
  obtain ⟨stands, room, rest⟩ := chainFirst standing.behind standing.inside standing.frames
  refine ⟨stands, standing.admitted r List.mem_cons_self, room, standing.inside, rest, fun x member => ?_⟩
  exact standing.admitted x (List.mem_cons_of_mem _ member)

theorem Spells.unique {rs' : List Record} {v' : Nat} (spells : Spells bytes start link off rs v)
    (other : Spells bytes start link off rs' v') : rs = rs' ∧ v = v' := by
  induction rs generalizing link off rs' with
  | nil =>
    obtain rfl := spells.none
    cases rs' with
    | nil => exact ⟨rfl, other.none.symm⟩
    | cons x rs' =>
      obtain ⟨stands, admitted, -⟩ := other.first
      exact absurd stands (spells.last x admitted)
  | cons x rs ih =>
    obtain ⟨stands, admitted, rest⟩ := spells.first
    cases rs' with
    | nil =>
      obtain rfl := other.none
      exact absurd stands (other.last x admitted)
    | cons y rs' =>
      obtain ⟨stands', admitted', rest'⟩ := other.first
      obtain rfl := stands.unique stands' admitted.small admitted'.small
      obtain ⟨rfl, rfl⟩ := ih ⟨rest, spells.last⟩ ⟨rest', other.last⟩
      exact ⟨rfl, rfl⟩

theorem spellsChain {h : Header} (admitted : ∀ r ∈ rs, r.Admitted h.start)
    (whole : bytes = h.encode ++ chain firstLink rs) :
    bytes.extract 0 Sealed.size = h.encode ∧ Spells bytes h.start firstLink Sealed.size rs bytes.size := by
  have front : h.encode.size = Sealed.size := Header.sizeEncode h
  have size : bytes.size = Sealed.size + (chain firstLink rs).size := by rw [whole, ByteArray.size_append, front]
  refine ⟨?_, ⟨by omega, Nat.le_refl _, ?_, admitted⟩, fun x _ stands => ?_⟩
  · rw [whole, ← front, ByteArray.extract_append_eq_left rfl]
  · rw [whole, ByteArray.extract_append_eq_right front.symm (by rw [← whole, size, front])]
  · have inside := stands.inside
    rw [Record.extent, Sealed.size] at inside
    omega

theorem Standing.few (standing : Standing bytes start link off rs v) :
    rs.length ≤ (bytes.size - off) / Sealed.size := by
  have room := chainRoom link rs
  have behind := standing.behind
  have inside := standing.inside
  rw [← standing.frames, ByteArray.size_extract] at room
  rw [Nat.le_div_iff_mul_le (by decide), Nat.mul_comm]
  omega

theorem Standing.full {held : List Record} (standing : Standing bytes start link off rs v) (part : held <+: rs)
    (full : bytes.size ≤ off + (chain link held).size) : rs = held := by
  obtain ⟨more, rfl⟩ := part
  have size := congrArg ByteArray.size standing.frames
  have room := chainRoom (chainLink link held) more
  have behind := standing.behind
  have inside := standing.inside
  rw [ByteArray.size_extract, chainAppend, ByteArray.size_append] at size
  rw [Sealed.size] at room
  have none : more.length = 0 := by omega
  rw [List.length_eq_zero_iff.mp none, List.append_nil]

end Chain

namespace Reader

def past (r : Reader) (x : Record) : Reader :=
  { r with offset := r.offset + x.extent, link := x.linkPast r.link, validUpTo := r.offset + x.extent }

section Step

variable {bytes : ByteArray} {r : Reader} {x : Record} {damage : Damage}

theorem bytesAtInside {off n : Nat} (inside : off + n ≤ bytes.size) :
    bytesAt bytes off n = some (bytes.extract off (off + n)) := by
  unfold bytesAt
  split
  · next none =>
    rw [none, ByteArray.extract_eq_empty_iff.mpr (by omega)]
  · rfl

theorem frameLinked {block : ByteArray} {f : Frame} (found : r.frame? block = .ok (some f)) :
    Frame.decode? block = some f ∧ f.link = r.link ∧ r.header.start ≤ f.lsn ∧ f.size ≤ maxPayload ∧
      r.offset + Sealed.size + f.size ≤ r.limit := by
  unfold frame? at found
  split at found
  · cases found
  next f' decoded =>
  split at found
  · cases found
  next linked =>
  split at found
  · cases found
  next recent =>
  split at found
  · cases found
  next fits =>
  cases found
  exact ⟨decoded, Classical.not_not.mp linked, UInt64.not_lt.mp recent, by omega, by omega⟩

theorem frameForeign {block : ByteArray} (failed : r.frame? block = .error damage) :
    ∃ f, Frame.decode? block = some f ∧ f.link = r.link ∧ f.lsn < r.header.start ∧ damage = .belowStart := by
  unfold frame? at failed
  split at failed
  · cases failed
  next f decoded =>
  split at failed
  · cases failed
  next linked =>
  split at failed
  · next below =>
    cases failed
    exact ⟨f, decoded, Classical.not_not.mp linked, below, rfl⟩
  · split at failed <;> cases failed

theorem recordKnown {r' : Reader} {f : Frame} {block payload : ByteArray}
    (found : r.record? f block payload = .ok (some (x, r'))) :
    Crc32.ofBytes payload = f.checksum ∧ Kind.ofCode? f.kind = some x.kind ∧ x.lsn = f.lsn ∧ x.payload = payload ∧
      r' = { r with
        offset := r.offset + Sealed.size + f.size
        validUpTo := r.offset + Sealed.size + f.size
        link := nextLink r.link block payload } := by
  unfold record? at found
  split at found
  · cases found
  next sum =>
  split at found
  · cases found
  next kind known =>
  cases found
  exact ⟨Classical.not_not.mp sum, known, rfl, rfl, rfl⟩

theorem recordUnknown {f : Frame} {block payload : ByteArray} (failed : r.record? f block payload = .error damage) :
    Crc32.ofBytes payload = f.checksum ∧ Kind.ofCode? f.kind = none ∧ damage = .unknownKind := by
  unfold record? at failed
  split at failed
  · cases failed
  next sum =>
  split at failed
  · next unknown =>
    cases failed
    exact ⟨Classical.not_not.mp sum, unknown, rfl⟩
  · cases failed

theorem frameOfRecord {f : Frame} (sum : Crc32.ofBytes x.payload = f.checksum)
    (known : Kind.ofCode? f.kind = some x.kind) (lsn : x.lsn = f.lsn) (size : x.payload.size = f.size) :
    Frame.ofRecord f.link x = f := by
  obtain ⟨lsn', kind, size', link, checksum⟩ := f
  simp only [Frame.ofRecord, Frame.mk.injEq]
  exact ⟨lsn, Kind.codeOfCode known, size, trivial, sum⟩

theorem decodeStanding {off : Nat} (inside : off + Sealed.size ≤ bytes.size) {f : Frame}
    (decoded : Frame.decode? (bytes.extract off (off + Sealed.size)) = some f) : f.StandsAt bytes off := by
  have sized : (bytes.extract off (off + Sealed.size)).size = Sealed.size := by
    rw [ByteArray.size_extract]
    omega
  obtain ⟨encoded, fits⟩ := Frame.encodeDecoded sized decoded
  exact ⟨inside, encoded.symm, fits⟩

theorem nextInside (limit : r.limit = bytes.size) (inside : r.offset + Sealed.size ≤ bytes.size) :
    r.nextIn bytes = match r.frame? (bytes.extract r.offset (r.offset + Sealed.size)) with
      | .error damage => .error damage
      | .ok none => .ok r.stop
      | .ok (some f) => match r.record? f (bytes.extract r.offset (r.offset + Sealed.size))
          (bytes.extract (r.offset + Sealed.size) (r.offset + Sealed.size + f.size)) with
        | .error damage => .error damage
        | .ok none => .ok r.stop
        | .ok (some (record, r)) => .ok (some record, r) := by
  unfold nextIn
  rw [if_neg (by omega), bytesAtInside inside]
  dsimp only
  rcases frame : r.frame? (bytes.extract r.offset (r.offset + Sealed.size)) with damage | _ | f
  · rfl
  · rfl
  · have whole := (frameLinked frame).2.2.2.2
    rw [limit] at whole
    have payload := bytesAtInside whole
    rcases record : r.record? f (bytes.extract r.offset (r.offset + Sealed.size))
      (bytes.extract (r.offset + Sealed.size) (r.offset + Sealed.size + f.size)) with damage | _ | ⟨x, r'⟩ <;>
    simp only [payload, record]

theorem nextStanding (limit : r.limit = bytes.size) (stands : x.StandsAt bytes r.offset r.link)
    (admitted : x.Admitted r.header.start) : r.nextIn bytes = .ok (some x, r.past x) := by
  obtain ⟨inside, block, payload⟩ := Record.standsIff.mp stands
  have decoded : Frame.decode? (x.block r.link) = some (Frame.ofRecord r.link x) :=
    Frame.decodeEncode _ (Nat.lt_of_le_of_lt admitted.small (by decide))
  have frame := frameDecoded (r := r) decoded rfl (UInt64.not_lt.mpr admitted.recent) admitted.small
  have size : (Frame.ofRecord r.link x).size = x.payload.size := rfl
  rw [size, limit, if_pos inside] at frame
  have sum : Crc32.ofBytes x.payload = (Frame.ofRecord r.link x).checksum := rfl
  have known : Kind.ofCode? (Frame.ofRecord r.link x).kind = some x.kind := Kind.ofCodeCode x.kind
  rw [nextInside limit (by omega), block]
  simp only [frame, size, payload, record?, sum, known, ne_eq, not_true_eq_false, if_false]
  simp only [past, Record.extent, Nat.add_assoc]
  rfl

theorem nextSound (limit : r.limit = bytes.size) {r' : Reader} (found : r.nextIn bytes = .ok (some x, r')) :
    x.StandsAt bytes r.offset r.link ∧ x.Admitted r.header.start ∧ r' = r.past x := by
  by_cases inside : r.offset + Sealed.size ≤ bytes.size
  · rw [nextInside limit inside] at found
    split at found
    · cases found
    · cases found
    next f frame =>
    split at found
    · cases found
    · cases found
    next x' r'' record =>
    cases found
    obtain ⟨decoded, linked, recent, small, whole⟩ := frameLinked frame
    obtain ⟨sum, known, lsn, payload, rfl⟩ := recordKnown record
    have stands := decodeStanding inside decoded
    rw [limit] at whole
    have size : x.payload.size = f.size := by
      rw [payload, ByteArray.size_extract]
      omega
    rw [← payload] at sum
    have same := frameOfRecord sum known lsn size
    rw [linked] at same
    refine ⟨Record.standsIff.mpr ⟨size ▸ whole, ?_, ?_⟩, ⟨lsn ▸ recent, size ▸ small⟩, ?_⟩
    · rw [stands.block, Record.block, same]
    · rw [size, payload]
    · rw [past, Record.linkPast, Record.block, same, ← stands.block, Record.extent, size, payload, Nat.add_assoc]
  · rw [nextEnd (by omega)] at found
    cases found

theorem nextFault (limit : r.limit = bytes.size) (failed : r.nextIn bytes = .error damage) :
    Foreign bytes r.offset r.link r.header.start damage := by
  by_cases inside : r.offset + Sealed.size ≤ bytes.size
  · rw [nextInside limit inside] at failed
    split at failed
    · next damage' frame =>
      cases failed
      obtain ⟨f, decoded, linked, below, rfl⟩ := frameForeign frame
      exact .belowStart (decodeStanding inside decoded) linked below
    · cases failed
    next f frame =>
    split at failed
    · next damage' record =>
      cases failed
      obtain ⟨decoded, linked, recent, small, whole⟩ := frameLinked frame
      obtain ⟨sum, unknown, rfl⟩ := recordUnknown record
      exact .unknownKind (decodeStanding inside decoded) linked recent small (limit ▸ whole) sum unknown
    · cases failed
    · cases failed
  · rw [nextEnd (by omega)] at failed
    cases failed

theorem nextForeign (limit : r.limit = bytes.size) (foreign : Foreign bytes r.offset r.link r.header.start damage) :
    r.nextIn bytes = .error damage := by
  cases foreign with
  | @belowStart f stands linked below =>
    have decoded : Frame.decode? f.encode = some f := Frame.decodeEncode f stands.fits
    have frame : r.frame? f.encode = .error .belowStart := by
      unfold frame?
      rw [decoded]
      dsimp only
      rw [if_neg (Classical.not_not.mpr linked), if_pos below]
    rw [nextInside limit stands.inside, stands.block, frame]
  | @unknownKind f stands linked recent small whole sum unknown =>
    have frame := frameDecoded (r := r) (Frame.decodeEncode f stands.fits) linked (UInt64.not_lt.mpr recent) small
    rw [limit, if_pos whole] at frame
    rw [nextInside limit stands.inside, stands.block]
    simp only [frame, record?, sum, unknown, ne_eq, not_true_eq_false, if_false]

theorem nextStops {r' : Reader} (ended : r.nextIn bytes = .ok (none, r')) :
    r' = { r with offset := r.limit } := by
  unfold nextIn at ended
  split at ended
  · exact (Prod.ext_iff.mp (Except.ok.inj ended)).2.symm
  split at ended
  · exact (Prod.ext_iff.mp (Except.ok.inj ended)).2.symm
  split at ended
  · cases ended
  · exact (Prod.ext_iff.mp (Except.ok.inj ended)).2.symm
  split at ended
  · exact (Prod.ext_iff.mp (Except.ok.inj ended)).2.symm
  split at ended
  · cases ended
  · exact (Prod.ext_iff.mp (Except.ok.inj ended)).2.symm
  · cases ended

end Step

end Reader

namespace Foreign

variable {bytes : ByteArray} {off : Nat} {link start : UInt64} {damage damage' : Damage}

theorem apart (foreign : Foreign bytes off link start damage) {x : Record} (admitted : x.Admitted start) :
    ¬ x.StandsAt bytes off link := by
  intro stands
  let r : Reader := ⟨⟨0, start⟩, off, bytes.size, link, off⟩
  have fails : r.nextIn bytes = .error damage := Reader.nextForeign rfl foreign
  have reads : r.nextIn bytes = .ok (some x, r.past x) := Reader.nextStanding rfl stands admitted
  rw [fails] at reads
  cases reads

theorem unique (foreign : Foreign bytes off link start damage) (other : Foreign bytes off link start damage') :
    damage = damage' := by
  let r : Reader := ⟨⟨0, start⟩, off, bytes.size, link, off⟩
  have first : r.nextIn bytes = .error damage := Reader.nextForeign rfl foreign
  have second : r.nextIn bytes = .error damage' := Reader.nextForeign rfl other
  exact Except.error.inj (first.symm.trans second)

end Foreign

end OrphanFiles.Log
