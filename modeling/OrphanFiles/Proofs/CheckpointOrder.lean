import OrphanFiles.Proofs.CheckpointCalls
import OrphanFiles.Proofs.Cluster
import OrphanFiles.Proofs.SharedLog

/-!
Checkpoints of a log that others use too, and what their markers vouch for.  Main statement: whatever fails, and whoever
calls in between, a marker is written only behind a snapshot that is durable by then, so no cut of the file keeps the
marker and loses the snapshot.
-/
namespace OrphanFiles

open Log

theorem pastConcluded {σ α : Type} {x : EStateM Error σ α} {s s' : σ} {answer : Except Error α}
    (done : x s = concluded answer s') : past x s = s' := by
  unfold past
  rw [done]
  cases answer <;> rfl

/- A log that others use too.  Each time it was called, the next turn is theirs. -/
structure Shared where
  log : OpenLog
  turns : List (List LogMove)

namespace Shared

def call {α : Type} (x : LogM α) : EStateM Error Shared α := fun s =>
  match x s.log with
  | .ok a log => .ok a ⟨log.moves (s.turns.headD []), s.turns.tail⟩
  | .error e log => .error e ⟨log.moves (s.turns.headD []), s.turns.tail⟩

instance : RecordLog Shared where
  insert kind payload := call (OpenLog.append kind payload)
  flush upto := call (OpenLog.flush upto)

section Growth

variable {s s' : Shared} {notes : List (Note Shared)}

theorem callEnds {α : Type} {x : LogM α} {P : α → OpenLog → Prop} {Q : OpenLog → Prop} (ends : Ends (x s.log) P Q) :
    Ends (call x s) (fun a s' => ∃ log, P a log ∧ log.Grown s'.log) (fun s' => ∃ log, Q log ∧ log.Grown s'.log) := by
  unfold call
  cases outcome : x s.log with
  | ok a log =>
    rw [outcome] at ends
    exact ⟨log, ends, OpenLog.movesGrow ..⟩
  | error e log =>
    rw [outcome] at ends
    exact ⟨log, ends, OpenLog.movesGrow ..⟩

theorem insertGrows (s : Shared) (kind : Kind) (payload : ByteArray) : Ends ((LogCall.insert kind payload).perform s)
    (fun answer s' => ∃ lsn new, answer = some lsn ∧ s.log.Grows (⟨lsn, kind, payload⟩ :: new) s'.log ∧
      lsn = s.log.log.nextLsn ∧ (Ongoing (⟨lsn, kind, payload⟩ :: new) → lsn < s'.log.log.nextLsn))
    (fun s' => s.log.Grown s'.log) := by
  refine Ends.map ((callEnds (OpenLog.appendGrows s.log kind payload)).mono ?_ ?_)
  · rintro lsn s' ⟨log, ⟨grows, placed, next⟩, new, grows'⟩
    refine ⟨lsn, new, rfl, grows.trans grows', placed, fun ongoing => ?_⟩
    have one := UInt64.lt_add_one (ongoing _ List.mem_cons_self)
    rw [← next] at one
    exact UInt64.lt_of_lt_of_le one (grows'.next fun r member => ongoing r (List.mem_cons_of_mem _ member))
  · rintro s' ⟨log, grows, grown⟩
    exact OpenLog.Grown.trans ⟨[], grows⟩ grown

theorem flushGrows (s : Shared) (upto : UInt64) : Ends ((LogCall.flush upto).perform s)
    (fun _ s' => s.log.Grown s'.log ∧ (s.log.log.header.start ≤ upto → upto < s.log.log.nextLsn →
      ∃ done, s'.log.log.flushed = some done ∧ upto ≤ done))
    (fun s' => s.log.Grown s'.log) := by
  refine Ends.map ((callEnds (OpenLog.flushGrows s.log upto)).mono ?_ ?_)
  · rintro - s' ⟨log, ⟨grown, covers⟩, new, grows⟩
    refine ⟨grown.trans ⟨new, grows⟩, fun behind before => ?_⟩
    obtain ⟨done, known, enough⟩ := covers behind before
    obtain ⟨later, known, more⟩ := grows.flushed done known
    exact ⟨later, known, UInt64.le_trans enough more⟩
  · rintro s' ⟨log, grown, grown'⟩
    exact grown.trans grown'

theorem performGrows (call : LogCall) (s : Shared) :
    Ends (call.perform s) (fun _ s' => s.log.Grown s'.log) (fun s' => s.log.Grown s'.log) := by
  cases call with
  | insert kind payload =>
    refine (insertGrows s kind payload).mono ?_ fun _ => id
    rintro - s' ⟨lsn, new, -, grows, -⟩
    exact ⟨_, grows⟩
  | flush upto => exact (flushGrows s upto).mono (fun _ _ done => done.1) fun _ => id

theorem linkedGrow (linked : Linked s notes s') : s.log.Grown s'.log := by
  induction linked with
  | nil => exact ⟨[], OpenLog.growsNothing rfl rfl⟩
  | @cons s call answer s₁ notes s' performed rest ih =>
    have grown := performGrows call s
    rw [performed] at grown
    cases answer with
    | ok a => exact OpenLog.Grown.trans grown ih
    | error e => exact OpenLog.Grown.trans grown ih

end Growth

end Shared

inductive LogEvent where
  | move (m : LogMove)
  | checkpoint (r : Registry) (turns : List (List LogMove))

namespace OpenLog

def after (s : OpenLog) : LogEvent → OpenLog
  | .move m => s.move m
  | .checkpoint r turns => (past r.checkpoint (⟨s, turns⟩ : Shared)).log

def events (s : OpenLog) (es : List LogEvent) : OpenLog := es.foldl after s

theorem afterGrows (s : OpenLog) (event : LogEvent) : s.Grown (s.after event) := by
  cases event with
  | move m => exact moveGrows s m
  | checkpoint r turns =>
    by_cases grows : ∀ e, r.dump ≠ .error e
    · obtain ⟨notes, s', answer, works, -⟩ := Registry.checkpointWorks grows (⟨s, turns⟩ : Shared)
      rw [after, pastConcluded works.plain]
      exact Shared.linkedGrow works.linked
    · obtain ⟨e, dumped⟩ := not_forall_not.mp grows
      have failed : r.checkpoint (⟨s, turns⟩ : Shared) = concluded (.error e) ⟨s, turns⟩ := by
        simp only [Registry.checkpoint, Registry.persist, bind, EStateM.bind, dumped]
        rfl
      rw [after, pastConcluded failed]
      exact ⟨[], growsNothing rfl rfl⟩

theorem eventsGrow (s : OpenLog) (es : List LogEvent) : s.Grown (s.events es) := by
  induction es generalizing s with
  | nil => exact ⟨[], growsNothing rfl rfl⟩
  | cons event es ih => exact (afterGrows s event).trans (ih (s.after event))

end OpenLog

section Marker

variable {s' : Shared} {notes : List (Note Shared)} {held : List Record} {payload : ByteArray} {a b : UInt64}

theorem markerBehind {s : Shared} (stands : s.log.Stands held) (linked : Linked s notes s') {failure : Option Error}
    (follows : Follows (Registry.script (some payload) a b) (notes.map Note.told) failure) {n : Note Shared}
    (member : n ∈ notes) (marks : n.call = .insert .checkpoint .empty) {c : UInt64} (done : n.answer = .ok (some c)) :
    (∃ m ∈ notes, m.told = (.insert .pendingDelete payload, .ok (some a))) ∧
    ∃ between rest, n.before.log.Stands (held ++ ⟨a, .pendingDelete, payload⟩ :: between) ∧
      s'.log.Stands (held ++ ⟨a, .pendingDelete, payload⟩ :: between ++ ⟨c, .checkpoint, .empty⟩ :: rest) ∧
      (Ongoing (held ++ ⟨a, .pendingDelete, payload⟩ :: between) →
        ∃ done, n.before.log.log.flushed = some done ∧ a ≤ done) := by
  -- the marker is the third call: the two in front of it succeeded, and it is none of them
  obtain ⟨s₁, rest₁, rfl, inserted, linked, follows⟩ := linked.succeeds follows member done
  refine ⟨⟨_, List.mem_cons_self, rfl⟩, ?_⟩
  obtain rfl | member := List.mem_cons.mp member
  · cases marks
  obtain ⟨s₂, rest₂, rfl, flushed, linked, follows⟩ := linked.succeeds follows member done
  obtain rfl | member := List.mem_cons.mp member
  · cases marks
  obtain ⟨s₃, rest₃, rfl, marked, linked, follows⟩ := linked.succeeds follows member done
  obtain rfl | member := List.mem_cons.mp member
  swap
  · obtain ⟨due, inside, same⟩ := follows.called (List.mem_map_of_mem member)
    obtain rfl := List.mem_singleton.mp inside
    cases same.trans marks
  cases done
  have inserts := Shared.insertGrows s .pendingDelete payload
  have flushes := Shared.flushGrows s₁ a
  have marks := Shared.insertGrows s₂ .checkpoint .empty
  rw [inserted] at inserts
  rw [flushed] at flushes
  rw [marked] at marks
  obtain ⟨_, new₁, ⟨⟩, grows₁, placed, before⟩ := inserts
  obtain ⟨⟨new₂, grows₂⟩, covers⟩ := flushes
  obtain ⟨_, new₃, ⟨⟩, grows₃, -⟩ := marks
  obtain ⟨new₄, grows₄⟩ := Shared.linkedGrow linked
  have written := grows₂.stands _ (grows₁.stands held stands)
  rw [List.append_assoc, List.cons_append] at written
  refine ⟨new₁ ++ new₂, new₃ ++ new₄, written, ?_, fun ongoing => covers ?_ (before fun r member => ongoing r ?_)⟩
  · have all := grows₄.stands _ (grows₃.stands _ written)
    rwa [List.append_assoc, List.cons_append] at all
  · rw [grows₁.header, placed]
    exact stands.placed fun r member => ongoing r (List.mem_append_left _ member)
  · rw [← List.cons_append, ← List.append_assoc]
    exact List.mem_append_left _ (List.mem_append_right _ member)

end Marker

/- A marker in the file of `last` behind the snapshot that it vouches for; it was written to the log `s`, whose file
was all that stands in front of it.  No cut of the file keeps the marker and loses the snapshot. -/
structure Vouched (s last : OpenLog) (front : List Record) (snapshot : Record) (between : List Record) (marker : Record)
    (rest : List Record) : Prop where
  written : s.device.file.content.bytes = s.log.header.encode ++ chain firstLink (front ++ snapshot :: between)
  bytes : last.device.file.content.bytes =
    last.log.header.encode ++ chain firstLink (front ++ snapshot :: between ++ marker :: rest)
  flushed : Ongoing (front ++ snapshot :: between) → ∃ done, s.log.flushed = some done ∧ snapshot.lsn ≤ done
  cuts : ∀ {n d salt start log d' scan s'}, d.file.content.bytes = last.device.file.content.bytes.extract 0 n →
    Log.load salt start d = .ok log d' → OpenLog.readThrough ⟨d', log, none⟩ = .ok scan s' →
      scan.records <+: front ++ snapshot :: between ++ marker :: rest ∧
      (front.length + between.length + 1 < scan.records.length →
        ∃ kept, scan.records = front ++ snapshot :: between ++ marker :: kept)

theorem vouchedOf {s last : OpenLog} {front between rest : List Record} {snapshot marker : Record}
    (before : s.Stands (front ++ snapshot :: between))
    (stands : last.Stands (front ++ snapshot :: between ++ marker :: rest))
    (flushed : Ongoing (front ++ snapshot :: between) → ∃ done, s.log.flushed = some done ∧ snapshot.lsn ≤ done) :
    Vouched s last front snapshot between marker rest where
  written := before.bytes
  bytes := stands.bytes
  flushed := flushed
  cuts cut opened read := by
    have part := OpenLog.cutReads stands cut opened read
    refine ⟨part, fun long => ?_⟩
    have upTo : front ++ snapshot :: between ++ [marker] <+: front ++ snapshot :: between ++ marker :: rest :=
      (List.prefix_append_right_inj _).mpr ⟨rest, rfl⟩
    obtain ⟨kept, same⟩ := List.prefix_of_prefix_length_le upTo part (by simp; omega)
    exact ⟨kept, by rw [← same, List.append_assoc]; rfl⟩

namespace Registry

theorem checkpointsInOrder {c : Config} {r : Registry} (made : new c = .ok r) (requests : List Request)
    {reg : Registry} (reached : reg = (Hall.run ⟨r, []⟩ requests).registry) (grows : ∀ e, reg.dump ≠ .error e) :
    (∀ {σ : Type} [RecordLog σ] (s : σ), ∃ notes s' answer,
      Works reg.checkpoint reg.checkpoint s notes s' answer ∧ Went reg.payload? notes answer) ∧
    (reg.payload? = none ↔ reg.entries = []) ∧
    (∀ payload, reg.payload? = some payload → Snapshot.decode payload = .ok reg.entries) ∧
    (∀ cl : Cluster, (cl.act .checkpoint).2.hall = cl.hall) ∧
    ∀ {salt start d log d'}, Log.load salt start d = .ok log d' → ∀ earlier turns later notes s' answer,
      Works reg.checkpoint reg.checkpoint (⟨OpenLog.events ⟨d', log, none⟩ earlier, turns⟩ : Shared) notes s' answer →
      reg.entries ≠ [] → ∀ n ∈ notes, n.call = .insert .checkpoint .empty → ∀ b, n.answer = .ok (some b) →
        ∃ front a payload between rest, Snapshot.decode payload = .ok reg.entries ∧
          (∃ m ∈ notes, m.told = (.insert .pendingDelete payload, .ok (some a))) ∧
          Vouched n.before.log (OpenLog.events ⟨d', log, none⟩ (earlier ++ .checkpoint reg turns :: later)) front
            ⟨a, .pendingDelete, payload⟩ between ⟨b, .checkpoint, .empty⟩ rest := by
  obtain ⟨nothing, lists⟩ := runPayload made requests reached grows
  refine ⟨fun s => checkpointWorks grows s, nothing, lists, fun cl => ?_, ?_⟩
  · unfold Cluster.act Cluster.onLog
    cases cl.hall.registry.checkpoint cl.log <;> rfl
  intro salt start d log d' opened earlier turns later notes s' answer works pending n member marks b done
  obtain ⟨held, stands⟩ := OpenLog.loadStands opened
  obtain ⟨new, before⟩ := OpenLog.eventsGrow ⟨d', log, none⟩ earlier
  obtain ⟨payload, stored⟩ := Option.ne_none_iff_exists'.mp (mt nothing.mp pending)
  obtain ⟨notes', s₁, answer', works', a, b', went⟩ :=
    checkpointWorks grows (⟨OpenLog.events ⟨d', log, none⟩ earlier, turns⟩ : Shared)
  obtain ⟨rfl, rfl, rfl⟩ := works.unique works'
  rw [stored] at went
  obtain ⟨failure, follows⟩ : ∃ failure, Follows (script (some payload) a b') (notes.map Note.told) failure := by
    rcases went with ⟨-, follows⟩ | ⟨e, -, follows⟩
    · exact ⟨_, follows⟩
    · exact ⟨_, follows⟩
  obtain ⟨inserted, between, rest, written, stands, flushed⟩ :=
    markerBehind (before.stands held stands) works.linked follows member marks done
  have whole : OpenLog.events ⟨d', log, none⟩ (earlier ++ .checkpoint reg turns :: later) = s'.log.events later := by
    rw [OpenLog.events, List.foldl_append, List.foldl_cons]
    show OpenLog.events (past reg.checkpoint (⟨OpenLog.events ⟨d', log, none⟩ earlier, turns⟩ : Shared)).log later = _
    rw [pastConcluded works.plain]
  obtain ⟨more, after⟩ := OpenLog.eventsGrow s'.log later
  rw [whole]
  refine ⟨_, a, payload, between, rest ++ more, lists payload stored, inserted, vouchedOf written ?_ flushed⟩
  have all := after.stands _ stands
  rwa [List.append_assoc, List.cons_append] at all

def endsWithin : List (List LogMove) := [[.append .abort .empty], [], [.arm ⟨.sync, 0, false⟩]]

def failsToSync : List (LogCall × Except Error (Option UInt64)) :=
  [(.insert .pendingDelete (Snapshot.encode [⟨⟨⟨1663, 5, 100⟩, false⟩, ⟨10⟩⟩]), .ok (some 2)), (.flush 2, .ok none),
    (.insert .checkpoint .empty, .ok (some 4)), (.flush 4, .error (.io (.injected .sync false)))]

theorem vouchedThoughFailed : ∃ r reg log d' notes s' answer n, new (.compact 2 4) = .ok r ∧
    reg = (Hall.run ⟨r, []⟩ oneAdded).registry ∧ (∀ e, reg.dump ≠ .error e) ∧
    Log.load 3 1 ⟨.empty, []⟩ = .ok log d' ∧
    Works reg.checkpoint reg.checkpoint
      (⟨OpenLog.events ⟨d', log, none⟩ [.move (.append .commit .empty)], endsWithin⟩ : Shared) notes s' answer ∧
    notes.map Note.told = failsToSync ∧ n ∈ notes ∧ n.told = (.insert .checkpoint .empty, .ok (some 4)) ∧
    ∃ front a payload between rest, Snapshot.decode payload = .ok [⟨⟨⟨1663, 5, 100⟩, false⟩, ⟨10⟩⟩] ∧
      (∃ m ∈ notes, m.told = (.insert .pendingDelete payload, .ok (some a))) ∧
      Vouched n.before.log (OpenLog.events ⟨d', log, none⟩
        ([.move (.append .commit .empty)] ++ .checkpoint reg endsWithin :: [.move .sync])) front
        ⟨a, .pendingDelete, payload⟩ between ⟨4, .checkpoint, .empty⟩ rest := by
  obtain ⟨r, reg, log, d', made, reached, grows, opened, listed, told⟩ : ∃ r reg log d', new (.compact 2 4) = .ok r ∧
      reg = (Hall.run ⟨r, []⟩ oneAdded).registry ∧ (∀ e, reg.dump ≠ .error e) ∧
      Log.load 3 1 ⟨.empty, []⟩ = .ok log d' ∧ reg.entries = [⟨⟨⟨1663, 5, 100⟩, false⟩, ⟨10⟩⟩] ∧
      (past reg.checkpoint (⟨⟨OpenLog.events ⟨d', log, none⟩ [.move (.append .commit .empty)], endsWithin⟩, []⟩ :
        Overheard Shared)).notes.map Note.told = failsToSync :=
    ⟨_, _, _, _, rfl, rfl, nofun, rfl, rfl, rfl⟩
  obtain ⟨calls, -, -, -, vouches⟩ := checkpointsInOrder made oneAdded reached grows
  obtain ⟨notes, s', answer, works, -⟩ := calls (⟨OpenLog.events ⟨d', log, none⟩
    [.move (.append .commit .empty)], endsWithin⟩ : Shared)
  rw [pastConcluded (works.noted []), List.nil_append] at told
  obtain ⟨n, member, marks⟩ : ∃ n ∈ notes, n.told = (.insert .checkpoint .empty, .ok (some 4)) :=
    List.mem_map.mp (by rw [told]; simp [failsToSync])
  have vouched := vouches opened _ _ [.move .sync] notes s' answer works (by simp [listed]) n member
    (congrArg Prod.fst marks) 4 (congrArg Prod.snd marks)
  rw [listed] at vouched
  exact ⟨r, reg, log, d', notes, s', answer, n, made, reached, grows, opened, works, told, member, marks, vouched⟩

/-- If the snapshot has the last position, its marker is put behind it though nothing is known to be durable. -/
theorem markerUnvouched : ∃ r reg log d' notes s' n, new (.compact 2 4) = .ok r ∧
    reg = (Hall.run ⟨r, []⟩ oneAdded).registry ∧ Log.load 3 (-1) ⟨.empty, []⟩ = .ok log d' ∧
    Works reg.checkpoint reg.checkpoint (⟨⟨d', log, none⟩, []⟩ : Shared) notes s' (.ok ⟨some (-1), 0⟩) ∧
    n ∈ notes ∧ n.told = (.insert .checkpoint .empty, .ok (some 0)) ∧ n.before.log.log.flushed = none := by
  obtain ⟨r, reg, log, d', made, reached, grows, opened, answered, found⟩ : ∃ r reg log d',
      new (.compact 2 4) = .ok r ∧ reg = (Hall.run ⟨r, []⟩ oneAdded).registry ∧ (∀ e, reg.dump ≠ .error e) ∧
      Log.load 3 (-1) ⟨.empty, []⟩ = .ok log d' ∧
      (∃ o : Overheard Shared, reg.checkpoint ⟨⟨⟨d', log, none⟩, []⟩, []⟩ = concluded (.ok ⟨some (-1), 0⟩) o) ∧
      ∃ n ∈ (past reg.checkpoint (⟨⟨⟨d', log, none⟩, []⟩, []⟩ : Overheard Shared)).notes,
        n.told = (.insert .checkpoint .empty, .ok (some 0)) ∧ n.before.log.log.flushed = none :=
    ⟨_, _, _, _, rfl, rfl, nofun, rfl, ⟨_, rfl⟩, _, .tail _ (.tail _ (.head _)), rfl, rfl⟩
  obtain ⟨notes, s', answer, works, -⟩ := checkpointWorks grows (⟨⟨d', log, none⟩, []⟩ : Shared)
  obtain ⟨o, answered⟩ := answered
  obtain ⟨rfl, -⟩ := concludedInj ((works.noted []).symm.trans answered)
  rw [pastConcluded (works.noted []), List.nil_append] at found
  obtain ⟨n, member, told, unknown⟩ := found
  exact ⟨r, reg, log, d', notes, s', n, made, reached, opened, works, member, told, unknown⟩

end Registry

end OrphanFiles
