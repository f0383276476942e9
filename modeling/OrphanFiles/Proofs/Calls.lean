import OrphanFiles.Proofs.Grammar

/-!
Reading a log on any device.  One call answers what the bytes say, or is cut short by a failure that was armed; so
the records that are read stand in the file in any case, and only such a failure can hide the ones behind them.
-/
namespace OrphanFiles

def Device.Armed (d : Device) (op : FileOp) (atEnd : Bool) : Prop := ∃ f ∈ d.faults, f.op = op ∧ f.atEnd = atEnd

structure Device.Later (d d' : Device) : Prop where
  file : d'.file = d.file
  armed : ∀ {op atEnd}, d'.Armed op atEnd → d.Armed op atEnd

theorem Device.Later.refl (d : Device) : d.Later d := ⟨rfl, id⟩

theorem Device.Later.trans {d₁ d₂ d₃ : Device} (first : d₁.Later d₂) (second : d₂.Later d₃) : d₁.Later d₃ :=
  ⟨second.file.trans first.file, fun armed => first.armed (second.armed armed)⟩

theorem Device.Quiet.unarmed {d : Device} {op : FileOp} (quiet : d.Quiet op) (atEnd : Bool) : ¬ d.Armed op atEnd := by
  intro ⟨f, member, same, _⟩
  exact quiet f member same

namespace ArmedFault

theorem strikeFrom (op : FileOp) (fs : List ArmedFault) :
    (∀ f, (strike op fs).1 = some f → f ∈ fs ∧ f.op = op) ∧
      ∀ g ∈ (strike op fs).2, ∃ f ∈ fs, f.op = g.op ∧ f.atEnd = g.atEnd := by
  induction fs with
  | nil => simp [strike]
  | cons f fs ih =>
    have old (g : ArmedFault) (member : g ∈ fs) : ∃ f' ∈ f :: fs, f'.op = g.op ∧ f'.atEnd = g.atEnd :=
      ⟨g, List.mem_cons_of_mem _ member, rfl, rfl⟩
    unfold strike
    split
    · next same =>
      cases f.after with
      | zero =>
        refine ⟨fun g fired => ?_, old⟩
        cases fired
        exact ⟨List.mem_cons_self, same⟩
      | succ after =>
        refine ⟨by simp, fun g member => ?_⟩
        rcases List.mem_cons.mp member with rfl | member
        · exact ⟨f, List.mem_cons_self, rfl, rfl⟩
        · exact old g member
    · refine ⟨fun g fired => ?_, fun g member => ?_⟩
      · exact ⟨List.mem_cons_of_mem _ (ih.1 g fired).1, (ih.1 g fired).2⟩
      · rcases List.mem_cons.mp member with rfl | member
        · exact ⟨g, List.mem_cons_self, rfl, rfl⟩
        · obtain ⟨f', older, same⟩ := ih.2 g member
          exact ⟨f', List.mem_cons_of_mem _ older, same⟩

end ArmedFault

theorem Device.struckLater {d : Device} {op : FileOp} {hit : Option ArmedFault} {faults : List ArmedFault}
    (struck : ArmedFault.strike op d.faults = (hit, faults)) : d.Later ⟨d.file, faults⟩ := by
  refine ⟨rfl, fun {op' atEnd} ⟨g, member, same, shape⟩ => ?_⟩
  have rest := (ArmedFault.strikeFrom op d.faults).2 g
  rw [struck] at rest
  obtain ⟨f, older, op, atEnd⟩ := rest member
  exact ⟨f, older, op.trans same, atEnd.trans shape⟩

theorem Device.struckArmed {d : Device} {op : FileOp} {f : ArmedFault} {faults : List ArmedFault}
    (struck : ArmedFault.strike op d.faults = (some f, faults)) : d.Armed op f.atEnd := by
  have fired := (ArmedFault.strikeFrom op d.faults).1 f
  rw [struck] at fired
  exact ⟨f, (fired rfl).1, (fired rfl).2, rfl⟩

namespace FileM

inductive ReadWent (off n : Nat) (d d' : Device) : Prop where
  | answered (same : readOrEnd off n d = .ok (bytesAt d.file.content.bytes off n) d')
  | atEnd (armed : d.Armed .read true) (same : readOrEnd off n d = .ok none d')
  | broken (armed : d.Armed .read false) (same : readOrEnd off n d = .error (.io (.injected .read false)) d')

theorem readWent (off n : Nat) (d : Device) : ∃ d', d.Later d' ∧ ReadWent off n d d' := by
  rcases struck : ArmedFault.strike .read d.faults with ⟨_ | f, faults⟩
  · refine ⟨⟨d.file, faults⟩, Device.struckLater struck, .answered ?_⟩
    unfold readOrEnd Error.attempt
    simp only [bind, EStateM.bind, readAtPassed struck]
    cases bytesAt d.file.content.bytes off n with
    | none => rfl
    | some bytes => rfl
  · have armed := Device.struckArmed struck
    refine ⟨⟨d.file, faults⟩, Device.struckLater struck, ?_⟩
    cases shape : f.atEnd with
    | true =>
      refine .atEnd (shape ▸ armed) ?_
      unfold readOrEnd Error.attempt readAt
      simp only [bind, EStateM.bind, callEq, struck, shape]
      rfl
    | false =>
      refine .broken (shape ▸ armed) ?_
      unfold readOrEnd Error.attempt readAt
      simp only [bind, EStateM.bind, callEq, struck, shape]
      rfl

end FileM

namespace Log.Reader

open FileM

inductive Went (r : Reader) (d d' : Device) : Prop where
  | answered (same : r.next d = match r.nextIn d.file.content.bytes with
      | .ok answer => .ok answer d'
      | .error damage => .error (.corruption damage) d')
  | atEnd (armed : d.Armed .read true) (same : r.next d = .ok r.stop d')
  | broken (armed : d.Armed .read false) (same : r.next d = .error (.io (.injected .read false)) d')

theorem wentPayload {r : Reader} {d d₁ : Device} {f : Frame} {block : ByteArray}
    (inside : ¬ r.offset + Sealed.size > r.limit) (later : d.Later d₁)
    (front : readOrEnd r.offset Sealed.size d = .ok (some block) d₁)
    (here : bytesAt d.file.content.bytes r.offset Sealed.size = some block) (frame : r.frame? block = .ok (some f)) :
    ∃ d', d.Later d' ∧ r.Went d d' := by
  obtain ⟨d₂, more, went⟩ := readWent (r.offset + Sealed.size) f.size d₁
  refine ⟨d₂, later.trans more, ?_⟩
  cases went with
  | answered same =>
    refine .answered ?_
    unfold next nextIn
    simp only [if_neg inside, bind, EStateM.bind, front, frame, here, same, later.file]
    cases bytesAt d.file.content.bytes (r.offset + Sealed.size) f.size with
    | none => rfl
    | some payload =>
      dsimp only
      rcases r.record? f block payload with damage | _ | ⟨record, r⟩
      · rfl
      · rfl
      · rfl
  | atEnd armed same =>
    refine .atEnd (later.armed armed) ?_
    unfold next
    simp only [if_neg inside, bind, EStateM.bind, front, frame, same]
    rfl
  | broken armed same =>
    refine .broken (later.armed armed) ?_
    unfold next
    simp only [if_neg inside, bind, EStateM.bind, front, frame, same]

theorem nextWent (r : Reader) (d : Device) : ∃ d', d.Later d' ∧ r.Went d d' := by
  by_cases ended : r.offset + Sealed.size > r.limit
  · refine ⟨d, .refl d, .answered ?_⟩
    unfold next nextIn
    simp only [if_pos ended]
    rfl
  · obtain ⟨d₁, later, went⟩ := readWent r.offset Sealed.size d
    cases went with
    | answered same =>
      cases here : bytesAt d.file.content.bytes r.offset Sealed.size with
      | none =>
        refine ⟨d₁, later, .answered ?_⟩
        unfold next nextIn
        simp only [if_neg ended, bind, EStateM.bind, same, here]
        rfl
      | some block =>
        rw [here] at same
        rcases frame : r.frame? block with damage | _ | f
        · refine ⟨d₁, later, .answered ?_⟩
          unfold next nextIn
          simp only [if_neg ended, bind, EStateM.bind, same, here, frame]
          rfl
        · refine ⟨d₁, later, .answered ?_⟩
          unfold next nextIn
          simp only [if_neg ended, bind, EStateM.bind, same, here, frame]
          rfl
        · exact wentPayload ended later same here frame
    | atEnd armed same =>
      refine ⟨d₁, later, .atEnd armed ?_⟩
      unfold next
      simp only [if_neg ended, bind, EStateM.bind, same]
      rfl
    | broken armed same =>
      refine ⟨d₁, later, .broken armed ?_⟩
      unfold next
      simp only [if_neg ended, bind, EStateM.bind, same]

/- The calls of a reader up to the first that gives no record: the records, the failure if that call failed, and the
reader after it. -/
inductive Calls : Reader → Device → List Record → Option Error → Reader → Device → Prop where
  | ended {r d r' d'} (last : r.next d = .ok (none, r') d') : Calls r d [] none r' d'
  | failed {r d e d'} (last : r.next d = .error e d') : Calls r d [] (some e) r d'
  | record {r d x r₁ d₁ rs failure r' d'} (first : r.next d = .ok (some x, r₁) d₁)
      (rest : Calls r₁ d₁ rs failure r' d') : Calls r d (x :: rs) failure r' d'

/- Why no record was read at a place. -/
inductive Stopped (d : Device) (bytes : ByteArray) (start link : UInt64) (v : Nat) : Option Error → Prop where
  | noRecord (nothing : ∀ x : Record, x.Admitted start → ¬ x.StandsAt bytes v link)
      (sound : ∀ damage, ¬ Foreign bytes v link start damage) : Stopped d bytes start link v none
  | foreign {damage} (here : Foreign bytes v link start damage) :
      Stopped d bytes start link v (some (.corruption damage))
  | atEnd (armed : d.Armed .read true) : Stopped d bytes start link v none
  | broken (armed : d.Armed .read false) : Stopped d bytes start link v (some (.io (.injected .read false)))

structure Sees (r : Reader) (bytes : ByteArray) : Prop where
  limit : r.limit = bytes.size
  inside : r.offset ≤ bytes.size
  valid : r.validUpTo = r.offset

def atFirst (h : Header) (bytes : ByteArray) : Reader := ⟨h, Sealed.size, bytes.size, firstLink, Sealed.size⟩

theorem firstSees {h : Header} {bytes : ByteArray} (long : Sealed.size ≤ bytes.size) : (atFirst h bytes).Sees bytes :=
  ⟨rfl, long, rfl⟩

section Run

variable {r r' : Reader} {d d' : Device} {x : Record}

theorem Stopped.earlier {d₁ : Device} {bytes : ByteArray} {start link : UInt64} {v : Nat} {failure : Option Error}
    (later : d.Later d₁) (stopped : Stopped d₁ bytes start link v failure) : Stopped d bytes start link v failure := by
  cases stopped with
  | noRecord nothing sound => exact .noRecord nothing sound
  | foreign here => exact .foreign here
  | atEnd armed => exact .atEnd (later.armed armed)
  | broken armed => exact .broken (later.armed armed)

theorem pastSees {bytes : ByteArray} (sees : r.Sees bytes) (stands : x.StandsAt bytes r.offset r.link) :
    (r.past x).Sees bytes := ⟨sees.limit, stands.inside, rfl⟩

theorem recordStands (sees : r.Sees d.file.content.bytes) (found : r.next d = .ok (some x, r') d') :
    d.Later d' ∧ x.StandsAt d.file.content.bytes r.offset r.link ∧ x.Admitted r.header.start ∧ r' = r.past x := by
  obtain ⟨d₁, later, went⟩ := r.nextWent d
  cases went with
  | answered same =>
    rw [same] at found
    split at found
    · next answer answered =>
      cases found
      exact ⟨later, nextSound sees.limit answered⟩
    · cases found
  | atEnd armed same =>
    rw [same] at found
    cases found
  | broken armed same =>
    rw [same] at found
    cases found

theorem endStands (sees : r.Sees d.file.content.bytes) (ended : r.next d = .ok (none, r') d') :
    d.Later d' ∧ r'.validUpTo = r.offset ∧ r'.link = r.link ∧
      Stopped d d.file.content.bytes r.header.start r.link r.offset none := by
  obtain ⟨d₁, later, went⟩ := r.nextWent d
  cases went with
  | answered same =>
    rw [same] at ended
    split at ended
    · next answer answered =>
      cases ended
      have stop := nextStops answered
      refine ⟨later, ?_, ?_, .noRecord (fun x admitted stands => ?_) fun damage foreign => ?_⟩
      · rw [stop]
        exact sees.valid
      · rw [stop]
      · rw [nextStanding sees.limit stands admitted] at answered
        cases answered
      · rw [nextForeign sees.limit foreign] at answered
        cases answered
    · cases ended
  | atEnd armed same =>
    rw [same] at ended
    cases ended
    exact ⟨later, sees.valid, rfl, .atEnd armed⟩
  | broken armed same =>
    rw [same] at ended
    cases ended

theorem failureStands {e : Error} (sees : r.Sees d.file.content.bytes) (failed : r.next d = .error e d') :
    d.Later d' ∧ Stopped d d.file.content.bytes r.header.start r.link r.offset (some e) := by
  obtain ⟨d₁, later, went⟩ := r.nextWent d
  cases went with
  | answered same =>
    rw [same] at failed
    split at failed
    · cases failed
    · next damage fault =>
      cases failed
      exact ⟨later, .foreign (nextFault sees.limit fault)⟩
  | atEnd armed same =>
    rw [same] at failed
    cases failed
  | broken armed same =>
    rw [same] at failed
    cases failed
    exact ⟨later, .broken armed⟩

theorem Calls.standing {rs : List Record} {failure : Option Error} (calls : Calls r d rs failure r' d')
    (sees : r.Sees d.file.content.bytes) : d.Later d' ∧ r'.link = chainLink r.link rs ∧
      Standing d.file.content.bytes r.header.start r.link r.offset rs r'.validUpTo ∧
        Stopped d d.file.content.bytes r.header.start (chainLink r.link rs) r'.validUpTo failure := by
  induction calls with
  | ended last =>
    obtain ⟨later, valid, link, stopped⟩ := endStands sees last
    rw [valid]
    exact ⟨later, link, standingNil sees.inside, stopped⟩
  | failed last =>
    obtain ⟨later, stopped⟩ := failureStands sees last
    rw [sees.valid]
    exact ⟨later, rfl, standingNil sees.inside, stopped⟩
  | record first rest ih =>
    obtain ⟨later, stands, admitted, rfl⟩ := recordStands sees first
    obtain ⟨more, link, standing, stopped⟩ := ih (later.file ▸ pastSees sees stands)
    rw [later.file] at standing stopped
    exact ⟨later.trans more, link, .cons stands admitted standing, stopped.earlier later⟩

theorem drainCalls {fuel : Nat} (sees : r.Sees d.file.content.bytes)
    (enough : (r.limit - r.offset) / Sealed.size < fuel) :
    ∃ scan d', drainFrom fuel r d = .ok scan d' ∧ Calls r d scan.records scan.failure scan.reader d' := by
  induction fuel generalizing r d with
  | zero => exact absurd enough (Nat.not_lt_zero _)
  | succ fuel ih =>
    unfold drainFrom Error.attempt
    simp only [bind, EStateM.bind]
    cases call : r.next d with
    | error e d' => exact ⟨_, d', rfl, .failed call⟩
    | ok answer d₁ =>
      obtain ⟨_ | x, r₁⟩ := answer
      · exact ⟨_, d₁, rfl, .ended call⟩
      · obtain ⟨later, stands, admitted, rfl⟩ := recordStands sees call
        have enough : ((r.past x).limit - (r.past x).offset) / Sealed.size < fuel := by
          have limit := sees.limit
          have inside := stands.inside
          simp only [past, Record.extent, Sealed.size] at inside enough ⊢
          omega
        obtain ⟨scan, d', drained, calls⟩ := ih (later.file ▸ pastSees sees stands) enough
        simp only [EStateM.bind, drained]
        exact ⟨_, d', rfl, .record call calls⟩

end Run

end Log.Reader
end OrphanFiles
