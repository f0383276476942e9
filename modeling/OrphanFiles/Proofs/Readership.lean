import OrphanFiles.Proofs.SharedLog

/-!
Readers of a log that is written while they read.  A reader sees the file as far as it reached when the reader was made,
and what is in front of that place never changes.  Main statement: each reader yields the records that were there when
it was made, one after the other, and nothing after them, whatever is done in between.
-/
namespace OrphanFiles

open Log

inductive ReadTurn where
  | append (kind : Kind) (payload : ByteArray)
  | sync
  | arrive (kind : Kind) (payload : ByteArray)
  | enter
  | next (i : Nat)

def ReadTurn.isNext (i : Nat) : ReadTurn → Bool
  | .next j => j = i
  | _ => false

inductive ReadReply where
  | done (new : List Record)
  | failed (e : Error)
  | entered (validUpTo : Nat)
  | read (record : Option Record) (validUpTo : Nat)
  | nobody

def ReadReply.failure? : ReadReply → Option Error
  | .failed e => some e
  | _ => none

structure Readership where
  log : OpenLog
  readers : List Reader := []

namespace Readership

def act (f : Readership) : ReadTurn → ReadReply × Readership
  | .append kind payload => match OpenLog.append kind payload f.log with
    | .ok lsn s => (.done [⟨lsn, kind, payload⟩], { f with log := s })
    | .error e s => (.failed e, { f with log := s })
  | .sync => match OpenLog.sync f.log with
    | .ok _ s => (.done f.log.arrivals, { f with log := s })
    | .error e s => (.failed e, { f with log := s })
  | .arrive kind payload => (.done [], { f with log := { f.log with arriving := some (kind, payload) } })
  | .enter => match OpenLog.reader f.log with
    | .ok r s => (.entered r.validUpTo, ⟨s, f.readers ++ [r]⟩)
    | .error e s => (.failed e, { f with log := s })
  | .next i => match f.readers[i]? with
    | none => (.nobody, f)
    | some r => match OpenLog.onDevice r.next f.log with
      | .ok (record, r) s => (.read record r.validUpTo, ⟨s, f.readers.set i r⟩)
      | .error e s => (.failed e, { f with log := s })

def run (f : Readership) : List ReadTurn → List (ReadTurn × ReadReply) × Readership
  | [] => ([], f)
  | turn :: turns =>
    let (reply, f) := f.act turn
    let (replies, f) := f.run turns
    ((turn, reply) :: replies, f)

def added (replies : List (ReadTurn × ReadReply)) : List Record := replies.flatMap fun
  | (_, .done new) => new
  | _ => []

def heard (i : Nat) (replies : List (ReadTurn × ReadReply)) : List ReadReply :=
  (replies.filter (·.1.isNext i)).map Prod.snd

end Readership

namespace Log

def endOf (rs : List Record) : Nat := rs.foldl (· + ·.extent) Sealed.size

namespace Reader

section Views

open FileM

variable {bytes more : ByteArray} {start link : UInt64} {off v m n : Nat} {r : Reader} {x : Record} {rs : List Record}

theorem bytesAtCut (front : off + n ≤ m) (inside : m ≤ bytes.size) :
    bytesAt (bytes.extract 0 m) off n = bytesAt bytes off n := by
  have size : (bytes.extract 0 m).size = m := by
    rw [ByteArray.size_extract]
    omega
  rw [bytesAtInside (by omega), bytesAtInside (by omega), ByteArray.extract_extract, Nat.zero_add, Nat.zero_add,
    Nat.min_eq_left front]

theorem nextWithin (inside : r.limit ≤ bytes.size) : r.nextIn bytes = r.nextIn (bytes.extract 0 r.limit) := by
  unfold nextIn
  by_cases ended : r.offset + Sealed.size > r.limit
  · rw [if_pos ended, if_pos ended]
  · rw [if_neg ended, if_neg ended, bytesAtCut (Nat.le_of_not_lt ended) inside]
    cases bytesAt bytes r.offset Sealed.size with
    | none => rfl
    | some block =>
      dsimp only
      rcases frame : r.frame? block with damage | _ | f
      · rfl
      · rfl
      · have whole := (frameLinked frame).2.2.2.2
        dsimp only
        rw [bytesAtCut whole inside]

theorem standingWithin (alike : bytes.extract 0 v = more.extract 0 v) (inside : v ≤ more.size)
    (standing : Standing bytes start link off rs v) : Standing more start link off rs v := by
  refine ⟨standing.behind, inside, ?_, standing.admitted⟩
  have piece (b : ByteArray) : b.extract off v = (b.extract 0 v).extract off v := by
    rw [ByteArray.extract_extract, Nat.zero_add, Nat.zero_add, Nat.min_self]
  rw [piece, ← alike, ← piece, standing.frames]

/- A reader that has yielded so many of the records that were there when it was made. -/
structure Views (bytes : ByteArray) (present : List Record) (count : Nat) (r : Reader) : Prop where
  standing : Standing bytes r.header.start r.link r.offset (present.drop count) r.limit
  valid : r.validUpTo = r.offset
  place : r.offset = endOf (present.take count)

variable {present : List Record} {count : Nat}

theorem Views.inside (views : Views bytes present count r) : r.limit ≤ bytes.size := views.standing.inside

theorem Views.within (views : Views bytes present count r) (alike : bytes.extract 0 r.limit = more.extract 0 r.limit)
    (inside : r.limit ≤ more.size) : Views more present count r :=
  ⟨standingWithin alike inside views.standing, views.valid, views.place⟩

theorem viewsEnded (views : Views bytes present count r) (ended : present[count]? = none) :
    r.nextIn bytes = .ok (none, r) ∧ Views bytes present (count + 1) r := by
  have few := List.getElem?_eq_none_iff.mp ended
  have standing := views.standing
  rw [List.drop_of_length_le few] at standing
  have last := standing.none
  have still : r.stop = (none, r) := by
    obtain ⟨header, offset, limit, link, valid⟩ := r
    dsimp only at last
    subst last
    rfl
  refine ⟨?_, ?_, views.valid, ?_⟩
  · rw [nextEnd (by rw [Sealed.size]; omega), still]
  · rw [List.drop_of_length_le (Nat.le_succ_of_le few)]
    exact standing
  · rw [views.place, List.take_of_length_le few, List.take_of_length_le (Nat.le_succ_of_le few)]

theorem viewsRecord (views : Views bytes present count r) (here : present[count]? = some x) :
    r.nextIn bytes = .ok (some x, r.past x) ∧ Views bytes present (count + 1) (r.past x) := by
  obtain ⟨inside, same⟩ := List.getElem?_eq_some_iff.mp here
  have rest : present.drop count = x :: present.drop (count + 1) := by rw [List.drop_eq_getElem_cons inside, same]
  have front : present.take (count + 1) = present.take count ++ [x] := by
    rw [List.take_succ_eq_append_getElem inside, same]
  have size : (bytes.extract 0 r.limit).size = r.limit := by
    rw [ByteArray.size_extract, Nat.sub_zero, Nat.min_eq_left views.inside]
  have cut : Views (bytes.extract 0 r.limit) present count r := by
    refine views.within ?_ (Nat.le_of_eq size.symm)
    rw [ByteArray.extract_extract, Nat.zero_add, Nat.zero_add, Nat.min_self]
  obtain ⟨stands, admitted, -⟩ := (rest ▸ cut.standing).first
  refine ⟨?_, (rest ▸ views.standing).first.2.2, rfl, ?_⟩
  · rw [nextWithin views.inside, nextStanding size.symm stands admitted]
  · rw [front, endOf, List.foldl_append, ← endOf, ← views.place]
    rfl

theorem Views.next (views : Views bytes present count r) :
    ∃ r', r.nextIn bytes = .ok (present[count]?, r') ∧ Views bytes present (count + 1) r' := by
  cases here : present[count]? with
  | none => exact ⟨r, viewsEnded views here⟩
  | some x => exact ⟨r.past x, viewsRecord views here⟩

end Views
end Reader
end Log

namespace OpenLog

section Devices

variable {s : OpenLog}

theorem appendReadable (readable : s.device.Readable) (kind : Kind) (payload : ByteArray) :
    Ends (append kind payload s) (fun _ s' => s'.device.Readable) (fun s' => s'.device.Readable) := by
  by_cases large : maxPayload < payload.size
  · rw [appendTooLarge large]
    exact readable
  have small := Nat.le_of_not_lt large
  rcases struck : ArmedFault.strike .write s.device.faults with ⟨_ | fault, faults⟩
  · rw [appendWrites kind small struck]
    exact readable.struck struck _
  · rw [appendRefused small struck]
    exact readable.struck struck _

theorem syncReadable (readable : s.device.Readable) :
    Ends (sync s) (fun _ s' => s'.device.Readable) (fun s' => s'.device.Readable) := by
  rcases struck : ArmedFault.strike .sync s.device.faults with ⟨_ | fault, faults⟩
  · have readable := readable.struck struck { s.device.file with stable := s.device.file.content }
    cases arrives : s.arriving with
    | none =>
      rw [syncDone arrives struck]
      exact readable
    | some item =>
      obtain ⟨kind, payload⟩ := item
      rw [syncArrives arrives struck]
      exact Ends.bind (appendReadable readable kind payload) fun _ _ => id
  · rw [syncRefused struck]
    exact readable.struck struck _

end Devices
end OpenLog

namespace Readership

structure Holds (f : Readership) (h : Header) (held : List Record) : Prop where
  header : f.log.log.header = h
  stands : f.log.Stands held
  readable : f.log.device.Readable

structure Serves (f : Readership) (i : Nat) (present : List Record) (count : Nat) : Prop where
  holds : ∃ h held, f.Holds h held
  reader : ∃ r, f.readers[i]? = some r ∧ r.Views f.log.device.file.content.bytes present count

section Turns

variable {f : Readership} {h : Header} {i count : Nat} {present held new : List Record} {s : OpenLog} {r : Reader}
  {turn : ReadTurn}

theorem viewsGrown (stands : f.log.Stands held) (grows : f.log.Grows new s)
    (views : r.Views f.log.device.file.content.bytes present count) :
    r.Views s.device.file.content.bytes present count := by
  have after := (grows.stands held stands).bytes
  rw [grows.header, chainAppend, ← ByteArray.append_assoc, ← stands.bytes] at after
  have inside := views.inside
  rw [after]
  refine views.within ?_ ?_
  · rw [ByteArray.extract_append, Nat.sub_eq_zero_of_le inside, Nat.zero_sub,
      ByteArray.extract_eq_empty_iff.mpr (Nat.min_le_left ..), ByteArray.append_empty]
  · rw [ByteArray.size_append]
    exact Nat.le_add_right_of_le inside

theorem Holds.grown (holds : f.Holds h held) (grows : f.log.Grows new s) (readable : s.device.Readable)
    (readers : List Reader) : Holds ⟨s, readers⟩ h (held ++ new) :=
  ⟨grows.header.trans holds.header, grows.stands held holds.stands, readable⟩

inductive Went (f : Readership) (turn : ReadTurn) : Prop where
  | wrote {reply s} (other : ∀ i, turn ≠ .next i) (same : f.act turn = (reply, ⟨s, f.readers⟩))
      (grows : f.log.Grows (added [(turn, reply)]) s) (readable : s.device.Readable)
  | entered {reply r} (enter : turn = .enter) (same : f.act turn = (reply, ⟨f.log, f.readers ++ [r]⟩))
      (nothing : added [(turn, reply)] = [])
  | looked {i reply readers} (next : turn = .next i) (same : f.act turn = (reply, ⟨f.log, readers⟩))
      (nothing : added [(turn, reply)] = []) (others : ∀ j, j ≠ i → readers[j]? = f.readers[j]?)

theorem appendWent (readable : f.log.device.Readable) (kind : Kind) (payload : ByteArray) :
    f.Went (.append kind payload) := by
  have grows := OpenLog.appendGrows f.log kind payload
  have quiet := OpenLog.appendReadable readable kind payload
  cases outcome : OpenLog.append kind payload f.log with
  | ok lsn s =>
    rw [outcome] at grows quiet
    have same : f.act (.append kind payload) = (.done [⟨lsn, kind, payload⟩], { f with log := s }) := by
      simp only [act, outcome]
    exact .wrote nofun same grows.1 quiet
  | error e s =>
    rw [outcome] at grows quiet
    have same : f.act (.append kind payload) = (.failed e, { f with log := s }) := by simp only [act, outcome]
    exact .wrote nofun same grows quiet

theorem syncWent (readable : f.log.device.Readable) : f.Went .sync := by
  have grows := OpenLog.syncAdds f.log
  have quiet := OpenLog.syncReadable readable
  cases outcome : OpenLog.sync f.log with
  | ok u s =>
    rw [outcome] at grows quiet
    have same : f.act .sync = (.done f.log.arrivals, { f with log := s }) := by simp only [act, outcome]
    refine .wrote nofun same ?_ quiet
    rw [added, List.flatMap_singleton]
    exact grows.1
  | error e s =>
    rw [outcome] at grows quiet
    have same : f.act .sync = (.failed e, { f with log := s }) := by simp only [act, outcome]
    exact .wrote nofun same grows quiet

theorem enters (holds : f.Holds h held) : f.act .enter = (.entered Sealed.size,
    ⟨f.log, f.readers ++ [.atFirst f.log.log.header f.log.device.file.content.bytes]⟩) := by
  have long : Sealed.size ≤ f.log.device.file.content.bytes.size := by
    rw [holds.stands.bytes, ByteArray.size_append, Header.sizeEncode]
    exact Nat.le_add_right ..
  have made : OpenLog.reader f.log = .ok (.atFirst f.log.log.header f.log.device.file.content.bytes) f.log := by
    unfold OpenLog.reader
    simp only [bind, EStateM.bind, getOk, OpenLog.onDevice, newQuiet holds.readable rfl long]
    rfl
  simp only [act, made]
  rfl

theorem nextReads (readable : f.log.device.Readable) (r : Reader) : OpenLog.onDevice r.next f.log =
    match r.nextIn f.log.device.file.content.bytes with
    | .ok answer => .ok answer f.log
    | .error damage => .error (.corruption damage) f.log := by
  unfold OpenLog.onDevice
  rw [Reader.nextEq (readable.quiet (by decide) (by decide))]
  cases r.nextIn f.log.device.file.content.bytes with
  | ok answer => rfl
  | error damage => rfl

theorem nextWent (readable : f.log.device.Readable) (i : Nat) : f.Went (.next i) := by
  cases here : f.readers[i]? with
  | none =>
    have same : f.act (.next i) = (.nobody, f) := by simp only [act, here]
    exact .looked rfl same rfl fun _ _ => rfl
  | some r =>
    have reads := nextReads readable r
    cases found : r.nextIn f.log.device.file.content.bytes with
    | error damage =>
      rw [found] at reads
      have same : f.act (.next i) = (.failed (.corruption damage), f) := by simp only [act, here, reads]
      exact .looked rfl same rfl fun _ _ => rfl
    | ok answer =>
      rw [found] at reads
      have same : f.act (.next i) = (.read answer.1 answer.2.validUpTo, ⟨f.log, f.readers.set i answer.2⟩) := by
        simp only [act, here, reads]
      exact .looked rfl same rfl fun j other => List.getElem?_set_ne other.symm

theorem actWent (holds : f.Holds h held) (turn : ReadTurn) : f.Went turn := by
  cases turn with
  | append kind payload => exact appendWent holds.readable kind payload
  | sync => exact syncWent holds.readable
  | arrive kind payload => exact .wrote nofun rfl (OpenLog.growsNothing rfl rfl) holds.readable
  | enter => exact .entered rfl (enters holds) rfl
  | next i => exact nextWent holds.readable i

theorem actHolds (holds : f.Holds h held) (turn : ReadTurn) :
    (f.act turn).2.Holds h (held ++ added [(turn, (f.act turn).1)]) := by
  cases actWent holds turn with
  | wrote other same grows readable =>
    rw [same]
    exact holds.grown grows readable f.readers
  | entered enter same nothing =>
    rw [same, nothing, List.append_nil]
    exact ⟨holds.header, holds.stands, holds.readable⟩
  | looked next same nothing others =>
    rw [same, nothing, List.append_nil]
    exact ⟨holds.header, holds.stands, holds.readable⟩

theorem addedCons (turn : ReadTurn) (reply : ReadReply) (replies : List (ReadTurn × ReadReply)) :
    added ((turn, reply) :: replies) = added [(turn, reply)] ++ added replies := by
  simp [added]

theorem runHolds (holds : f.Holds h held) (turns : List ReadTurn) :
    (f.run turns).2.Holds h (held ++ added (f.run turns).1) := by
  induction turns generalizing f held with
  | nil =>
    rw [show added (f.run []).1 = [] from rfl, List.append_nil]
    exact holds
  | cons turn turns ih =>
    have last := ih (actHolds holds turn)
    rw [List.append_assoc, ← addedCons] at last
    exact last

theorem actServes (serves : f.Serves i present count) (other : turn ≠ .next i) :
    (f.act turn).2.Serves i present count := by
  obtain ⟨⟨h, held, holds⟩, r, here, views⟩ := serves
  have after := actHolds holds turn
  refine ⟨⟨h, _, after⟩, r, ?_⟩
  cases actWent holds turn with
  | wrote _ same grows readable =>
    rw [same]
    exact ⟨here, viewsGrown holds.stands grows views⟩
  | entered enter same nothing =>
    rw [same]
    refine ⟨?_, views⟩
    rw [List.getElem?_append_left (List.getElem?_eq_some_iff.mp here).1]
    exact here
  | @looked j reply readers next same nothing others =>
    rw [same]
    refine ⟨?_, views⟩
    rw [others i fun own => other (own ▸ next)]
    exact here

theorem nextServes (serves : f.Serves i present count) : ∃ f', f'.Serves i present (count + 1) ∧
    f.act (.next i) = (.read present[count]? (endOf (present.take (count + 1))), f') := by
  obtain ⟨⟨h, held, holds⟩, r, here, views⟩ := serves
  obtain ⟨r', answer, views'⟩ := views.next
  have reads := nextReads holds.readable r
  rw [answer] at reads
  have inside := (List.getElem?_eq_some_iff.mp here).1
  refine ⟨⟨f.log, f.readers.set i r'⟩, ⟨⟨h, held, holds.header, holds.stands, holds.readable⟩, r', ?_, views'⟩, ?_⟩
  · exact List.getElem?_set_self inside
  · simp only [act, here, reads]
    rw [views'.valid, views'.place]

theorem nextOnly (mine : turn.isNext i = true) : turn = .next i := by
  cases turn with
  | next j => rw [of_decide_eq_true mine]
  | append | sync | arrive | enter => contradiction

theorem runServes (serves : f.Serves i present count) (turns : List ReadTurn) : heard i (f.run turns).1 =
    (List.range' count (turns.countP (·.isNext i))).map fun k => .read present[k]? (endOf (present.take (k + 1))) := by
  induction turns generalizing f count with
  | nil => rfl
  | cons turn turns ih =>
    by_cases own : turn = .next i
    · subst own
      obtain ⟨f', serves', same⟩ := nextServes serves
      have mine : ReadTurn.isNext i (.next i) = true := decide_eq_true rfl
      have first : heard i (f.run (.next i :: turns)).1 =
          .read present[count]? (endOf (present.take (count + 1))) :: heard i (f'.run turns).1 := by
        simp only [run, same, heard, List.filter_cons, mine, if_true, List.map_cons]
      rw [first, ih serves', List.countP_cons_of_pos mine, List.range'_succ, List.map_cons]
    · have others : ¬ turn.isNext i = true := fun mine => own (nextOnly mine)
      have rest : heard i (f.run (turn :: turns)).1 = heard i ((f.act turn).2.run turns).1 := by
        simp only [run, heard, List.filter_cons, if_neg others]
      rw [rest, ih (actServes serves own), List.countP_cons_of_neg others]

end Turns

theorem readersAreSnapshots {salt start : UInt64} {d d' : Device} {log : Log} (opened : load salt start d = .ok log d')
    (readable : d'.Readable) : ∃ found, OpenLog.Stands ⟨d', log, none⟩ found ∧
      ∀ (before after : List ReadTurn) (replies : List (ReadTurn × ReadReply)) (f : Readership),
        run ⟨⟨d', log, none⟩, []⟩ before = (replies, f) → f.log.Stands (found ++ added replies) ∧
          ((∀ r ∈ added replies, log.header.start ≤ r.lsn) → ∃ f', f.act .enter = (.entered Sealed.size, f') ∧
            heard f.readers.length (f'.run after).1 =
              (List.range (after.countP (·.isNext f.readers.length))).map fun k =>
                .read (found ++ added replies)[k]? (endOf ((found ++ added replies).take (k + 1)))) := by
  obtain ⟨found, stands, first⟩ := OpenLog.loadHolds opened
  refine ⟨found, stands, fun before after replies f reached => ?_⟩
  have holds := runHolds (f := ⟨⟨d', log, none⟩, []⟩) ⟨rfl, stands, readable⟩ before
  rw [reached] at holds
  dsimp only at holds
  refine ⟨holds.stands, fun recent => ⟨_, enters holds, ?_⟩⟩
  -- what the file holds in front of the reader is read as it was written only if its header admits every record
  have admitted (r : Record) (member : r ∈ found ++ added replies) : r.Admitted f.log.log.header.start := by
    refine ⟨?_, holds.stands.knows.small r member⟩
    rw [holds.header]
    rcases List.mem_append.mp member with old | new
    · exact first r old
    · exact recent r new
  have spells := (spellsChain admitted holds.stands.bytes).2
  have serves : Serves ⟨f.log, f.readers ++ [.atFirst f.log.log.header f.log.device.file.content.bytes]⟩
      f.readers.length (found ++ added replies) 0 :=
    ⟨⟨_, _, holds.header, holds.stands, holds.readable⟩, _, List.getElem?_concat_length, spells.toStanding, rfl, rfl⟩
  rw [runServes serves after, List.range_eq_range']

theorem readsFirstOnly : ∃ d', load 3 1 ⟨.empty, []⟩ = .ok (fresh ⟨3, 1⟩) d' ∧ d'.Readable ∧
    ∃ f f', (run ⟨⟨d', fresh ⟨3, 1⟩, none⟩, []⟩ [.append .checkpoint .empty]).2 = f ∧
      f.act .enter = (.entered 32, f') ∧
      heard 0 (f'.run [.next 0, .append .abort .empty, .next 0, .enter, .next 1, .sync, .next 0]).1 =
        [.read (some ⟨1, .checkpoint, .empty⟩) 64, .read none 64, .read none 64] := by
  obtain ⟨content, loaded, -⟩ := loadFresh (d := ⟨.empty, []⟩) 3 1 (by simp [Device.Readable]) (by decide)
    (show ArmedFault.strike .write [] = (none, []) from rfl)
  have readable : Device.Readable ⟨⟨content, []⟩, []⟩ := by simp [Device.Readable]
  obtain ⟨found, stands, reads⟩ := readersAreSnapshots loaded readable
  have room := chainRoom firstLink found
  have offset : Sealed.size = Sealed.size + (chain firstLink found).size := stands.knows.offset
  rw [Sealed.size] at room offset
  obtain rfl : found = [] := List.length_eq_zero_iff.mp (by omega)
  obtain ⟨-, entering⟩ := reads [.append .checkpoint .empty]
    [.next 0, .append .abort .empty, .next 0, .enter, .next 1, .sync, .next 0] _ _ rfl
  have recent : ∀ r ∈ [Record.mk 1 .checkpoint .empty], (1 : UInt64) ≤ r.lsn := by decide
  obtain ⟨f', entered, heard⟩ := entering recent
  exact ⟨_, loaded, readable, _, f', rfl, entered, heard⟩

/-- A record behind the last position is in front of the start, and its reader fails. -/
theorem readsNoneStartedOver : ∃ d', load 3 (-1) ⟨.empty, []⟩ = .ok (fresh ⟨3, -1⟩) d' ∧ d'.Readable ∧
    (run ⟨⟨d', fresh ⟨3, -1⟩, none⟩, []⟩
      [.append .checkpoint .empty, .append .abort .empty, .enter, .next 0, .next 0]).1.map (·.2.failure?) =
        [none, none, none, none, some (.corruption .belowStart)] :=
  ⟨⟨⟨_, []⟩, []⟩, rfl, by simp [Device.Readable], by decide +kernel⟩

end Readership
end OrphanFiles
