import OrphanFiles.Proofs.Calls

/-!
The reader of a log and the grammar agree, on a device of which nothing fails: a file is opened exactly if a header
stands in it, and what is read is what the grammar says, up to the place where no further record stands.
-/
namespace OrphanFiles.Log.Reader

open FileM

section Opening

variable {d : Device} {h : Header}

theorem ofFileQuiet (lens : d.Quiet .len) (reads : d.Quiet .read) : ofFile d =
    if d.file.content.bytes.size < Sealed.size then .error (.corruption .logShort) d
    else match Header.decode (d.file.content.bytes.extract 0 Sealed.size) with
      | .ok h => .ok (atFirst h d.file.content.bytes) d
      | .error damage => .error (.corruption damage) d := by
  unfold ofFile
  simp only [bind, EStateM.bind, lenQuiet lens]
  split
  · rfl
  · next long =>
    have front : bytesAt d.file.content.bytes 0 Sealed.size = some (d.file.content.bytes.extract 0 Sealed.size) :=
      bytesAtInside (by omega)
    unfold readHeader
    simp only [bind, EStateM.bind, readAtQuiet reads, front]
    cases Header.decode (d.file.content.bytes.extract 0 Sealed.size) with
    | error damage => rfl
    | ok h =>
      unfold new
      simp only [bind, EStateM.bind, pure, EStateM.pure, lenQuiet lens, if_neg long]
      rfl

theorem ofFileHeader (lens : d.Quiet .len) (reads : d.Quiet .read) (long : Sealed.size ≤ d.file.content.bytes.size)
    (front : d.file.content.bytes.extract 0 Sealed.size = h.encode) :
    ofFile d = .ok (atFirst h d.file.content.bytes) d := by
  rw [ofFileQuiet lens reads, if_neg (Nat.not_lt.mpr long), front, Header.decodeEncode]

theorem ofFileSound (lens : d.Quiet .len) (reads : d.Quiet .read) {r : Reader} {d' : Device}
    (opened : ofFile d = .ok r d') : Sealed.size ≤ d.file.content.bytes.size ∧
      d.file.content.bytes.extract 0 Sealed.size = r.header.encode ∧
        r = atFirst r.header d.file.content.bytes ∧ d' = d := by
  rw [ofFileQuiet lens reads] at opened
  split at opened
  · cases opened
  next long =>
  split at opened
  · next h decoded =>
    cases opened
    have front := (Header.encodeDecoded decoded).2
    rw [ByteArray.extract_extract, Nat.zero_add, Nat.zero_add, Nat.min_self] at front
    exact ⟨Nat.le_of_not_lt long, front, rfl, rfl⟩
  · cases opened

end Opening

section Run

variable {r last : Reader} {d d' : Device} {rs : List Record} {failure : Option Error} {v : Nat}

theorem Calls.unchanged (reads : d.Quiet .read) (calls : Calls r d rs failure last d') : d' = d := by
  induction calls with
  | ended last =>
    rw [nextEq reads] at last
    split at last <;> cases last
    rfl
  | failed last =>
    rw [nextEq reads] at last
    split at last <;> cases last
    rfl
  | record first rest ih =>
    rw [nextEq reads] at first
    split at first <;> cases first
    exact ih reads

theorem callsSpelled (reads : d.Quiet .read) (sees : r.Sees d.file.content.bytes)
    (spells : Spells d.file.content.bytes r.header.start r.link r.offset rs v) :
    ∃ failure last, Calls r d rs failure last d ∧ last.validUpTo = v := by
  induction rs generalizing r with
  | nil =>
    have here := spells.none
    cases call : r.next d with
    | error e d' =>
      have calls := Calls.failed call
      obtain rfl := calls.unchanged reads
      exact ⟨_, _, calls, here ▸ sees.valid⟩
    | ok answer d' =>
      obtain ⟨_ | x, r'⟩ := answer
      · have calls := Calls.ended call
        obtain rfl := calls.unchanged reads
        exact ⟨_, _, calls, here ▸ (endStands sees call).2.1⟩
      · obtain ⟨-, stands, admitted, -⟩ := recordStands sees call
        subst here
        exact absurd stands (spells.last x admitted)
  | cons x rs ih =>
    obtain ⟨stands, admitted, rest⟩ := spells.first
    have call : r.next d = .ok (some x, r.past x) d := by
      rw [nextEq reads, nextStanding sees.limit stands admitted]
    obtain ⟨failure, last, calls, valid⟩ := ih (pastSees sees stands) ⟨rest, spells.last⟩
    exact ⟨failure, last, .record call calls, valid⟩

theorem Calls.spelled (reads : d.Quiet .read) (sees : r.Sees d.file.content.bytes)
    (calls : Calls r d rs failure last d') :
    Spells d.file.content.bytes r.header.start r.link r.offset rs last.validUpTo ∧
      ∀ e, failure = some e ↔ ∃ damage, e = .corruption damage ∧
        Foreign d.file.content.bytes last.validUpTo (chainLink r.link rs) r.header.start damage := by
  obtain ⟨-, -, standing, stopped⟩ := calls.standing sees
  cases stopped with
  | noRecord nothing sound =>
    refine ⟨⟨standing, nothing⟩, fun e => ⟨nofun, fun ⟨damage, _, foreign⟩ => ?_⟩⟩
    exact absurd foreign (sound damage)
  | foreign here =>
    refine ⟨⟨standing, fun x => here.apart⟩, fun e => ⟨fun same => ?_, fun ⟨damage, same, other⟩ => ?_⟩⟩
    · exact ⟨_, (Option.some.inj same).symm, here⟩
    · rw [same, here.unique other]
  | atEnd armed => exact absurd armed (reads.unarmed _)
  | broken armed => exact absurd armed (reads.unarmed _)

theorem callsEnded (reads : d.Quiet .read) (sees : r.Sees d.file.content.bytes)
    (spells : Spells d.file.content.bytes r.header.start r.link r.offset rs v)
    (sound : ∀ damage, ¬ Foreign d.file.content.bytes v (chainLink r.link rs) r.header.start damage) :
    ∃ last, Calls r d rs none last d ∧ last.validUpTo = v := by
  obtain ⟨failure, last, calls, valid⟩ := callsSpelled reads sees spells
  cases failure with
  | none => exact ⟨last, calls, valid⟩
  | some e =>
    obtain ⟨damage, -, foreign⟩ := ((calls.spelled reads sees).2 e).mp rfl
    rw [valid] at foreign
    exact absurd foreign (sound damage)

end Run

theorem parsesExactlyTheGrammar {d : Device} (lens : d.Quiet .len) (reads : d.Quiet .read) {bytes : ByteArray}
    (content : d.file.content.bytes = bytes) :
    (∀ h, (∃ r d', ofFile d = .ok r d' ∧ r.header = h) ↔
      Sealed.size ≤ bytes.size ∧ bytes.extract 0 Sealed.size = h.encode) ∧
    ∀ r d', ofFile d = .ok r d' →
      (∀ rs v, (∃ failure last d'', Calls r d' rs failure last d'' ∧ last.validUpTo = v) ↔
        Spells bytes r.header.start firstLink Sealed.size rs v) ∧
      (∀ rs v, Spells bytes r.header.start firstLink Sealed.size rs v →
        bytes.extract 0 v = r.header.encode ++ chain firstLink rs) ∧
      (∃ scan, r.drain d' = .ok scan d' ∧ Calls r d' scan.records scan.failure scan.reader d') ∧
      ∀ rs failure last d'', Calls r d' rs failure last d'' →
        rs.length ≤ (bytes.size - Sealed.size) / Sealed.size ∧
        ∀ e, failure = some e ↔ ∃ damage, e = .corruption damage ∧
          Foreign bytes last.validUpTo (chainLink firstLink rs) r.header.start damage := by
  subst content
  refine ⟨fun h => ⟨?_, fun ⟨long, front⟩ => ⟨_, d, ofFileHeader lens reads long front, rfl⟩⟩, ?_⟩
  · rintro ⟨r, d', opened, rfl⟩
    obtain ⟨long, front, -⟩ := ofFileSound lens reads opened
    exact ⟨long, front⟩
  intro r d' opened
  obtain ⟨long, front, first, rfl⟩ := ofFileSound lens reads opened
  generalize r.header = h at front first ⊢
  subst first
  have sees := firstSees (h := h) long
  refine ⟨fun rs v => ⟨?_, fun spells => ?_⟩, fun rs v spells => ?_, ?_, fun rs failure last d'' calls => ?_⟩
  · rintro ⟨failure, last, d'', calls, rfl⟩
    exact (calls.spelled reads sees).1
  · obtain ⟨failure, last, calls, valid⟩ := callsSpelled reads sees spells
    exact ⟨failure, last, _, calls, valid⟩
  · rw [← BigEndian.joinPieces _ (Nat.zero_le _) spells.behind, front, spells.frames]
  · obtain ⟨scan, d'', drained, calls⟩ := drainCalls sees (Nat.lt_succ_self _)
    obtain rfl := calls.unchanged reads
    exact ⟨scan, drained, calls⟩
  · obtain ⟨spells, failed⟩ := calls.spelled reads sees
    exact ⟨spells.toStanding.few, failed⟩

def oneRecord : Device where
  file := ⟨[.written (image ⟨5, 1⟩ [(.commit, .mk #[1, 2, 3])]), .written (.mk #[7])], []⟩
  faults := [⟨.sync, 0, false⟩]

theorem parsesOneRecord : oneRecord.Quiet .len ∧ oneRecord.Quiet .read ∧ ∃ r d', ofFile oneRecord = .ok r d' ∧
    r.header = ⟨5, 1⟩ ∧ ∃ failure last d'', Calls r d' [⟨1, .commit, .mk #[1, 2, 3]⟩] failure last d'' ∧
      last.validUpTo = 67 := by
  have lens : oneRecord.Quiet .len := by simp [Device.Quiet, oneRecord]
  have reads : oneRecord.Quiet .read := by simp [Device.Quiet, oneRecord]
  obtain ⟨opens, reading⟩ := parsesExactlyTheGrammar lens reads rfl
  obtain ⟨r, d', opened, header⟩ := (opens ⟨5, 1⟩).mpr (by decide +kernel)
  have size : oneRecord.file.content.bytes.size = 68 := by decide +kernel
  refine ⟨lens, reads, r, d', opened, header, ((reading r d' opened).1 _ _).mpr ?_⟩
  rw [header]
  refine ⟨⟨by decide, by decide +kernel, by decide +kernel, ?_⟩, fun x _ stands => ?_⟩
  · intro x member
    obtain rfl : x = ⟨1, .commit, .mk #[1, 2, 3]⟩ := by simpa using member
    exact ⟨by decide, by decide⟩
  · have inside := stands.inside
    rw [size, Record.extent, Sealed.size] at inside
    omega

end OrphanFiles.Log.Reader
