import OrphanFiles.Checkpoint
import OrphanFiles.Proofs.Bodies
import OrphanFiles.Proofs.CheckpointLimits

/-!
The calls that a checkpoint makes of its log, whatever log that is and whichever of them fail.  A log that notes its
calls answers like the log itself, so the notes tell what the checkpoint does on any log.
-/
namespace OrphanFiles

inductive LogCall where
  | insert (kind : Log.Kind) (payload : ByteArray)
  | flush (upto : UInt64)

structure Note (σ : Type) where
  call : LogCall
  before : σ
  answer : Except Error (Option UInt64)

def Note.told {σ : Type} (n : Note σ) : LogCall × Except Error (Option UInt64) := (n.call, n.answer)

def concluded {σ α : Type} : Except Error α → σ → EStateM.Result Error σ α
  | .ok a, s => .ok a s
  | .error e, s => .error e s

theorem concludedInj {σ α : Type} {answer answer' : Except Error α} {s s' : σ}
    (same : concluded answer s = concluded answer' s') : answer = answer' ∧ s = s' := by
  cases answer <;> cases answer' <;> cases same <;> exact ⟨rfl, rfl⟩

structure Overheard (σ : Type) where
  log : σ
  notes : List (Note σ) := []

namespace Overheard

variable {σ α : Type}

def hear (call : LogCall) (position : α → Option UInt64) (x : EStateM Error σ α) : EStateM Error (Overheard σ) α :=
  fun o => match x o.log with
  | .ok a log => .ok a ⟨log, o.notes ++ [⟨call, o.log, .ok (position a)⟩]⟩
  | .error e log => .error e ⟨log, o.notes ++ [⟨call, o.log, .error e⟩]⟩

instance [RecordLog σ] : RecordLog (Overheard σ) where
  insert kind payload := hear (.insert kind payload) some (RecordLog.insert kind payload)
  flush upto := hear (.flush upto) (fun _ => none) (RecordLog.flush upto)

end Overheard

/- Calls that are made one after the other, each with the answer that is due, up to the first that fails. -/
inductive Follows : List (LogCall × Option UInt64) → List (LogCall × Except Error (Option UInt64)) → Option Error → Prop
  where
  | done : Follows [] [] none
  | next {call answer script told failure} (rest : Follows script told failure) :
      Follows ((call, answer) :: script) ((call, .ok answer) :: told) failure
  | stops {call answer script e} : Follows ((call, answer) :: script) [(call, .error e)] (some e)

section Scripts

variable {script script' : List (LogCall × Option UInt64)} {told told' : List (LogCall × Except Error (Option UInt64))}
  {failure : Option Error} {e : Error}

theorem Follows.then (first : Follows script told none) (second : Follows script' told' failure) :
    Follows (script ++ script') (told ++ told') failure := by
  generalize same : (none : Option Error) = whole at first
  induction first with
  | done => exact second
  | next rest ih => exact .next (ih same)
  | stops => cases same

theorem Follows.cut (first : Follows script told (some e)) (script' : List (LogCall × Option UInt64)) :
    Follows (script ++ script') told (some e) := by
  generalize same : some e = whole at first
  induction first with
  | done => cases same
  | next rest ih => exact .next (ih same)
  | stops =>
    cases same
    exact .stops

theorem Follows.called (follows : Follows script told failure) {t : LogCall × Except Error (Option UInt64)}
    (member : t ∈ told) : ∃ due ∈ script, due.1 = t.1 := by
  induction follows with
  | done => cases member
  | next rest ih =>
    rcases List.mem_cons.mp member with rfl | member
    · exact ⟨_, List.mem_cons_self, rfl⟩
    · obtain ⟨due, inside, same⟩ := ih member
      exact ⟨due, List.mem_cons_of_mem _ inside, same⟩
  | stops =>
    obtain rfl := List.mem_singleton.mp member
    exact ⟨_, List.mem_cons_self, rfl⟩

end Scripts

section Calls

variable {σ : Type} [RecordLog σ]

def LogCall.perform : LogCall → EStateM Error σ (Option UInt64)
  | .insert kind payload => some <$> RecordLog.insert kind payload
  | .flush upto => (fun _ => none) <$> RecordLog.flush upto

inductive Linked : σ → List (Note σ) → σ → Prop where
  | nil {s} : Linked s [] s
  | cons {s call answer s₁ notes s'} (performed : call.perform s = concluded answer s₁) (rest : Linked s₁ notes s') :
      Linked s (⟨call, s, answer⟩ :: notes) s'

theorem Linked.append {s s₁ s' : σ} {notes notes' : List (Note σ)} (first : Linked s notes s₁)
    (second : Linked s₁ notes' s') : Linked s (notes ++ notes') s' := by
  induction first with
  | nil => exact second
  | cons performed rest ih => exact .cons performed (ih second)

theorem Linked.succeeds {s s' : σ} {notes : List (Note σ)} (linked : Linked s notes s') {call : LogCall}
    {answer : Option UInt64} {script : List (LogCall × Option UInt64)} {failure : Option Error}
    (follows : Follows ((call, answer) :: script) (notes.map Note.told) failure) {n : Note σ} (member : n ∈ notes)
    {position : Option UInt64} (done : n.answer = .ok position) :
    ∃ s₁ rest, notes = ⟨call, s, .ok answer⟩ :: rest ∧ call.perform s = concluded (.ok answer) s₁ ∧
      Linked s₁ rest s' ∧ Follows script (rest.map Note.told) failure := by
  cases linked with
  | nil => cases member
  | @cons _ call' answer' s₁ rest _ performed linked =>
    rw [List.map_cons] at follows
    generalize told : rest.map Note.told = others at follows
    cases follows with
    | next follows => exact ⟨s₁, rest, rfl, performed, linked, told ▸ follows⟩
    | stops =>
      obtain rfl := List.map_eq_nil_iff.mp told
      obtain rfl := List.mem_singleton.mp member
      cases done

/- Work on a log whose calls are noted comes to the same as without the notes. -/
structure Works {α : Type} (x : EStateM Error σ α) (heard : EStateM Error (Overheard σ) α) (s : σ)
    (notes : List (Note σ)) (s' : σ) (answer : Except Error α) : Prop where
  plain : x s = concluded answer s'
  noted : ∀ earlier, heard ⟨s, earlier⟩ = concluded answer ⟨s', earlier ++ notes⟩
  linked : Linked s notes s'

theorem Works.unique {α : Type} {x : EStateM Error σ α} {heard : EStateM Error (Overheard σ) α} {s s₁ s₂ : σ}
    {notes notes' : List (Note σ)} {answer answer' : Except Error α} (works : Works x heard s notes s₁ answer)
    (other : Works x heard s notes' s₂ answer') : notes = notes' ∧ s₁ = s₂ ∧ answer = answer' := by
  obtain ⟨rfl, same⟩ := concludedInj ((works.noted []).symm.trans (other.noted []))
  cases same
  exact ⟨rfl, rfl, rfl⟩

section Work

variable {α β : Type} {x : EStateM Error σ α} {heard : EStateM Error (Overheard σ) α} {f : α → EStateM Error σ β}
  {heard' : α → EStateM Error (Overheard σ) β} {s s₁ s' : σ} {notes notes' : List (Note σ)}

theorem Works.returns (a : α) (s : σ) : Works (pure a) (pure a) s [] s (.ok a) where
  plain := rfl
  noted earlier := by rw [List.append_nil]; rfl
  linked := .nil

theorem Works.stops {e : Error} (works : Works x heard s notes s' (.error e)) :
    Works (x >>= f) (heard >>= heard') s notes s' (.error e) where
  plain := by simp only [Bind.bind, EStateM.bind, works.plain, concluded]
  noted earlier := by simp only [Bind.bind, EStateM.bind, works.noted, concluded]
  linked := works.linked

theorem Works.bind {a : α} {answer : Except Error β} (first : Works x heard s notes s₁ (.ok a))
    (second : Works (f a) (heard' a) s₁ notes' s' answer) :
    Works (x >>= f) (heard >>= heard') s (notes ++ notes') s' answer where
  plain := by simp only [Bind.bind, EStateM.bind, first.plain, concluded, second.plain]
  noted earlier := by
    simp only [Bind.bind, EStateM.bind, first.noted, concluded, second.noted, List.append_assoc]
  linked := first.linked.append second.linked

theorem Works.map {answer : Except Error α} (works : Works x heard s notes s' answer) (g : α → β) :
    Works (g <$> x) (g <$> heard) s notes s' (answer.map g) where
  plain := by
    simp only [Functor.map, EStateM.map, works.plain]
    cases answer <;> rfl
  noted earlier := by
    simp only [Functor.map, EStateM.map, works.noted]
    cases answer <;> rfl
  linked := works.linked

theorem hearWorks (call : LogCall) (position : α → Option UInt64) (performs : call.perform = position <$> x) (s : σ) :
    ∃ s' answer, Works x (Overheard.hear call position x) s [⟨call, s, answer.map position⟩] s' answer := by
  have performed : call.perform s = (position <$> x) s := by rw [performs]
  simp only [Functor.map, EStateM.map] at performed
  cases went : x s with
  | ok a s' =>
    rw [went] at performed
    exact ⟨s', .ok a, went, fun earlier => by simp only [Overheard.hear, went]; rfl, .cons performed .nil⟩
  | error e s' =>
    rw [went] at performed
    exact ⟨s', .error e, went, fun earlier => by simp only [Overheard.hear, went]; rfl, .cons performed .nil⟩

end Work

def durably (kind : Log.Kind) (payload : ByteArray) (lsn : UInt64) : List (LogCall × Option UInt64) :=
  [(.insert kind payload, some lsn), (.flush lsn, none)]

theorem insertWorks (kind : Log.Kind) (payload : ByteArray) (s : σ) : ∃ notes s' answer,
    Works (RecordLog.insertDurable kind payload) (RecordLog.insertDurable kind payload) s notes s' answer ∧
    ∃ lsn, answer = .ok lsn ∧ Follows (durably kind payload lsn) (notes.map Note.told) none ∨
      ∃ e, answer = .error e ∧ Follows (durably kind payload lsn) (notes.map Note.told) (some e) := by
  obtain ⟨s₁, inserted, works⟩ := hearWorks (.insert kind payload) some rfl s
  cases inserted with
  | error e => exact ⟨_, s₁, .error e, works.stops, 0, .inr ⟨e, rfl, .stops⟩⟩
  | ok lsn =>
    obtain ⟨s₂, flushed, works'⟩ := hearWorks (.flush lsn) (fun _ => none) rfl s₁
    cases flushed with
    | error e => exact ⟨_, s₂, .error e, works.bind works'.stops, lsn, .inr ⟨e, rfl, .next .stops⟩⟩
    | ok done =>
      exact ⟨_, s₂, .ok lsn, works.bind (works'.bind (.returns lsn s₂)), lsn, .inl ⟨rfl, .next (.next .done)⟩⟩

end Calls

namespace Registry

section Checkpoints

variable {σ : Type} [RecordLog σ] {r : Registry}

def payload? (r : Registry) : Option ByteArray :=
  match r.dump with
  | .ok (some b) => some (Snapshot.encode b.entries.toList)
  | _ => none

def stores (payload? : Option ByteArray) (snapshot : UInt64) : List (LogCall × Option UInt64) :=
  payload?.elim [] (durably .pendingDelete · snapshot)

def script (payload? : Option ByteArray) (snapshot marker : UInt64) : List (LogCall × Option UInt64) :=
  stores payload? snapshot ++ durably .checkpoint .empty marker

theorem persistWorks (grows : ∀ e, r.dump ≠ .error e) (s : σ) : ∃ notes s' answer,
    Works r.persist r.persist s notes s' answer ∧
    ∃ a, answer = .ok (r.payload?.map fun _ => a) ∧ Follows (stores r.payload? a) (notes.map Note.told) none ∨
      ∃ e, answer = .error e ∧ Follows (stores r.payload? a) (notes.map Note.told) (some e) := by
  unfold persist payload?
  cases dumped : r.dump with
  | error e => exact absurd dumped (grows e)
  | ok snapshot =>
    cases snapshot with
    | none => exact ⟨[], s, .ok none, .returns none s, 0, .inl ⟨rfl, .done⟩⟩
    | some buffer =>
      obtain ⟨notes, s', answer, works, a, went⟩ :=
        insertWorks .pendingDelete (Snapshot.encode buffer.entries.toList) s
      refine ⟨notes, s', answer.map some, works.map some, a, ?_⟩
      rcases went with ⟨rfl, follows⟩ | ⟨e, rfl, follows⟩
      · exact .inl ⟨rfl, follows⟩
      · exact .inr ⟨e, rfl, follows⟩

def Went (payload? : Option ByteArray) (notes : List (Note σ)) (answer : Except Error CheckpointReport) : Prop :=
  ∃ a b, answer = .ok ⟨payload?.map fun _ => a, b⟩ ∧ Follows (script payload? a b) (notes.map Note.told) none ∨
    ∃ e, answer = .error e ∧ Follows (script payload? a b) (notes.map Note.told) (some e)

theorem checkpointWorks (grows : ∀ e, r.dump ≠ .error e) (s : σ) : ∃ notes s' answer,
    Works r.checkpoint r.checkpoint s notes s' answer ∧ Went r.payload? notes answer := by
  obtain ⟨notes, s₁, stored, works, a, ⟨rfl, follows⟩ | ⟨e, rfl, follows⟩⟩ := persistWorks grows s
  · obtain ⟨notes', s', marked, works', b, ⟨rfl, follows'⟩ | ⟨e, rfl, follows'⟩⟩ := insertWorks .checkpoint .empty s₁
    · refine ⟨notes ++ (notes' ++ []), s', _, works.bind (works'.bind (.returns _ s')), a, b, .inl ⟨rfl, ?_⟩⟩
      rw [List.append_nil, List.map_append]
      exact follows.then follows'
    · refine ⟨notes ++ notes', s', _, works.bind works'.stops, a, b, .inr ⟨e, rfl, ?_⟩⟩
      rw [List.map_append]
      exact follows.then follows'
  · exact ⟨notes, s₁, .error e, works.stops, a, 0, .inr ⟨e, rfl, follows.cut _⟩⟩

theorem runPayload {c : Config} {r : Registry} (made : new c = .ok r) (requests : List Request)
    {reg : Registry} (reached : reg = (Hall.run ⟨r, []⟩ requests).registry) (grows : ∀ e, reg.dump ≠ .error e) :
    (reg.payload? = none ↔ reg.entries = []) ∧
      ∀ payload, reg.payload? = some payload → Snapshot.decode payload = .ok reg.entries := by
  subst reached
  have dumps := runDumps made requests
  generalize (Hall.run ⟨r, []⟩ requests).registry = reg at dumps grows
  by_cases empty : reg.entries = []
  · have none : reg.payload? = none := by simp only [payload?, dumps.nothing empty]
    exact ⟨iff_of_true none empty, fun payload some => by rw [none] at some; cases some⟩
  · have fits : c.initialEntries * Snapshot.slotSize ≤ Snapshot.maxAllocation :=
      Nat.le_of_not_lt fun beyond => grows _ (dumps.refused empty beyond)
    obtain ⟨b, dumped, listed⟩ := dumps.dumped empty fits
    have stored : reg.payload? = some (Snapshot.encode reg.entries) := by simp only [payload?, dumped, listed]
    rw [stored]
    refine ⟨iff_of_false (by simp) empty, ?_⟩
    rintro payload ⟨⟩
    exact Snapshot.decodeEncode (Nat.lt_trans dumps.few (by decide))

end Checkpoints
end Registry
end OrphanFiles
