import OrphanFiles.Checkpoint
import OrphanFiles.Proofs.Handle
import OrphanFiles.Proofs.RegistryLists
import OrphanFiles.Proofs.Sayings

/-!
What a log is sure to keep.  Of the records of an open log the first few were synced; a flush that succeeds, and a
checkpoint that does, puts all that it is about among them.
-/
namespace OrphanFiles

open Log

def Ends {σ α : Type} (outcome : EStateM.Result Error σ α) (P : α → σ → Prop) (Q : σ → Prop) : Prop :=
  match outcome with
  | .ok a s => P a s
  | .error _ s => Q s

theorem Ends.bind {σ α β : Type} {x : EStateM Error σ α} {f : α → EStateM Error σ β} {s : σ} {P : α → σ → Prop}
    {P' : β → σ → Prop} {Q : σ → Prop} (first : Ends (x s) P Q) (next : ∀ a s', P a s' → Ends (f a s') P' Q) :
    Ends ((x >>= f) s) P' Q := by
  simp only [Bind.bind, EStateM.bind]
  unfold Ends at first
  cases outcome : x s with
  | ok a s' =>
    rw [outcome] at first
    exact next a s' first
  | error e s' =>
    rw [outcome] at first
    exact first

theorem Ends.map {σ α β : Type} {x : EStateM Error σ α} {f : α → β} {s : σ} {P : β → σ → Prop} {Q : σ → Prop}
    (ends : Ends (x s) (fun a s' => P (f a) s') Q) : Ends ((f <$> x) s) P Q := by
  simp only [Functor.map, EStateM.map]
  unfold Ends at ends ⊢
  cases outcome : x s with
  | ok a s' =>
    rw [outcome] at ends
    exact ends
  | error e s' =>
    rw [outcome] at ends
    exact ends

theorem Ends.mono {σ α : Type} {outcome : EStateM.Result Error σ α} {P P' : α → σ → Prop} {Q Q' : σ → Prop}
    (ends : Ends outcome P Q) (done : ∀ a s, P a s → P' a s) (failed : ∀ s, Q s → Q' s) : Ends outcome P' Q' := by
  cases outcome with
  | ok a s => exact done a s ends
  | error e s => exact failed s ends

theorem Ends.and {σ α : Type} {outcome : EStateM.Result Error σ α} {P P' : α → σ → Prop} {Q Q' : σ → Prop}
    (first : Ends outcome P Q) (second : Ends outcome P' Q') :
    Ends outcome (fun a s => P a s ∧ P' a s) (fun s => Q s ∧ Q' s) := by
  cases outcome with
  | ok a s => exact ⟨first, second⟩
  | error e s => exact ⟨first, second⟩

theorem Ends.given {σ α : Type} {outcome : EStateM.Result Error σ α} {P : α → σ → Prop} {Q : σ → Prop} {R : Prop}
    (ends : R → Ends outcome P Q) : Ends outcome (fun a s => R → P a s) (fun s => R → Q s) := by
  cases outcome with
  | ok a s => exact ends
  | error e s => exact ends

namespace OpenLog

/- The first `k` records are synced, and none is known to be that is not among them. -/
structure Durable (s : OpenLog) (h : Header) (items : List Item) (k : Nat) : Prop where
  held : s.Holds h items
  readable : s.device.Readable
  room : h.start.toNat + items.length < UInt64.size
  within : k ≤ items.length
  synced : k = 0 ∨ Sealed.size + extent (items.take k) ≤ s.device.file.stable.size
  older : s.device.file.stable.size ≤ s.device.file.content.size
  flushed : ∀ done, s.log.flushed = some done → done.toNat < h.start.toNat + k

section Calls

variable {s : OpenLog} {h : Header} {items : List Item} {k : Nat}

theorem struckDurable (durable : s.Durable h items k) {op : FileOp} {hit : Option ArmedFault}
    {faults : List ArmedFault} (struck : ArmedFault.strike op s.device.faults = (hit, faults)) :
    Durable { s with device := { s.device with faults } } h items k :=
  { durable with held := { durable.held with }, readable := durable.readable.struck struck _ }

theorem appendDurable (durable : s.Durable h items k) (kind : Kind) (payload : ByteArray) :
    Ends (append kind payload s)
      (fun lsn s' => lsn.toNat = h.start.toNat + items.length ∧
        (h.start.toNat + items.length + 1 < UInt64.size → s'.Durable h (items ++ [(kind, payload)]) k))
      (fun s' => s'.Durable h items k) := by
  by_cases large : maxPayload < payload.size
  · rw [appendTooLarge large]
    exact durable
  · have small := Nat.le_of_not_lt large
    rcases struck : ArmedFault.strike .write s.device.faults with ⟨_ | fault, faults⟩
    · obtain ⟨s', done, held, rest, stable, flushed⟩ := appendDone durable.held small struck
      rw [done]
      refine ⟨positionOf durable.room, fun room => ⟨held, ?_, ?_, ?_, ?_, ?_, flushed ▸ durable.flushed⟩⟩
      · subst rest
        exact durable.readable.struck struck s'.device.file
      · rw [List.length_append, List.length_singleton]
        exact room
      · rw [List.length_append]
        exact Nat.le_add_right_of_le durable.within
      · rw [stable, List.take_append_of_le_length durable.within]
        exact durable.synced
      · have before := congrArg ByteArray.size durable.held.bytes
        have after := congrArg ByteArray.size held.bytes
        rw [Content.sizeBytes, sizeImage] at before after
        have older := durable.older
        rw [stable, after, extentAppend]
        omega
    · rw [appendRefused small struck]
      exact struckDurable durable struck

theorem markedFlushed (held : s.Holds h items) (room : h.start.toNat + items.length < UInt64.size)
    (within : k ≤ items.length) (flushed : ∀ done, s.log.flushed = some done → done.toNat < h.start.toNat + k)
    {done : UInt64} (known : (s.log.markSynced s.log.nextLsn).flushed = some done) :
    done.toNat < h.start.toNat + items.length := by
  have next := positionOf room
  rw [← held.next] at next
  have old (done : UInt64) (known : s.log.flushed = some done) : done.toNat < h.start.toNat + items.length := by
    have := flushed done known
    omega
  unfold markSynced at known
  rw [held.header] at known
  by_cases more : s.log.nextLsn > h.start
  · have more' := UInt64.lt_iff_toNat_lt.mp more
    have one : (1 : UInt64).toNat = 1 := rfl
    have last : (s.log.nextLsn - 1).toNat < h.start.toNat + items.length := by
      rw [UInt64.toNat_sub_of_le _ _ (UInt64.le_iff_toNat_le.mpr (by omega)), next, one]
      omega
    simp only [if_pos more, Option.some.injEq] at known
    subst known
    cases before : s.log.flushed with
    | none => exact last
    | some done =>
      rw [Option.elim_some, show max done (s.log.nextLsn - 1) = if done ≤ s.log.nextLsn - 1 then _ else _ from rfl]
      split
      · exact last
      · exact old done before
  · simp only [if_neg more] at known
    exact old done known

theorem syncDurable (durable : s.Durable h items k) :
    Ends (sync s) (fun _ s' => s'.Durable h items items.length) (fun s' => s'.Durable h items k) := by
  rcases struck : ArmedFault.strike .sync s.device.faults with ⟨_ | fault, faults⟩
  · rw [syncDone durable.held.alone struck]
    refine {
      durable with
      held := { durable.held with }
      readable := durable.readable.struck struck _
      within := Nat.le_refl _
      synced := .inr ?_
      older := Nat.le_refl _
      flushed := fun done known => markedFlushed durable.held durable.room durable.within durable.flushed known }
    apply Nat.le_of_eq
    rw [List.take_length, ← sizeImage h, ← durable.held.bytes, Content.sizeBytes]
  · rw [syncRefused struck]
    exact struckDurable durable struck

theorem flushDurable (durable : s.Durable h items k) (upto : UInt64) : Ends (flush upto s)
    (fun _ s' => ∃ k', k ≤ k' ∧ s'.Durable h items k' ∧
      (upto.toNat < h.start.toNat + items.length → upto.toNat < h.start.toNat + k'))
    (fun s' => s'.Durable h items k) := by
  by_cases known : ∃ done, s.log.flushed = some done ∧ upto ≤ done
  · obtain ⟨done, known, enough⟩ := known
    rw [flushKnown known enough]
    refine ⟨k, Nat.le_refl k, durable, fun _ => ?_⟩
    exact Nat.lt_of_le_of_lt (UInt64.le_iff_toNat_le.mp enough) (durable.flushed done known)
  · rw [flushSyncs fun done flushed enough => known ⟨done, flushed, enough⟩]
    refine (syncDurable durable).mono (fun _ s' synced => ?_) fun s' failed => failed
    exact ⟨items.length, durable.within, synced, id⟩

end Calls

section Counts

variable {s : OpenLog}

theorem appendCounts (alone : s.arriving = none) (kind : Kind) (payload : ByteArray) : Ends (append kind payload s)
    (fun _ s' => s'.arriving = none ∧ s'.log.stats.records = s.log.stats.records + 1 ∧ payload.size ≤ maxPayload)
    (fun s' => s'.arriving = none ∧ s'.log.stats.records = s.log.stats.records) := by
  by_cases large : maxPayload < payload.size
  · rw [appendTooLarge large]
    exact ⟨alone, rfl⟩
  have small := Nat.le_of_not_lt large
  rcases struck : ArmedFault.strike .write s.device.faults with ⟨_ | fault, faults⟩
  · rw [appendWrites kind small struck]
    exact ⟨alone, rfl, small⟩
  · rw [appendRefused small struck]
    exact ⟨alone, rfl⟩

theorem syncCounts (alone : s.arriving = none) : Ends (sync s)
    (fun _ s' => s'.arriving = none ∧ s'.log.stats.records = s.log.stats.records)
    (fun s' => s'.arriving = none ∧ s'.log.stats.records = s.log.stats.records) := by
  rcases struck : ArmedFault.strike .sync s.device.faults with ⟨_ | fault, faults⟩
  · rw [syncDone alone struck]
    exact ⟨alone, rfl⟩
  · rw [syncRefused struck]
    exact ⟨alone, rfl⟩

theorem flushCounts (alone : s.arriving = none) (upto : UInt64) : Ends (flush upto s)
    (fun _ s' => s'.arriving = none ∧ s'.log.stats.records = s.log.stats.records)
    (fun s' => s'.arriving = none ∧ s'.log.stats.records = s.log.stats.records) := by
  by_cases known : ∃ done, s.log.flushed = some done ∧ upto ≤ done
  · obtain ⟨done, known, enough⟩ := known
    rw [flushKnown known enough]
    exact ⟨alone, rfl⟩
  · rw [flushSyncs fun done flushed enough => known ⟨done, flushed, enough⟩]
    exact syncCounts alone

end Counts

def Secures (s : OpenLog) (h : Header) (said : List Saying) (covered : List PendingFile) : Prop :=
  ∃ k, s.Durable h (said.map Saying.item) k ∧ ∀ e ∈ covered, e ∈ Saying.listed (said.take k)

/- The log was told all this; unless the positions start over, it holds just that and secures what is `covered`. -/
structure Told (s : OpenLog) (h : Header) (said : List Saying) (covered : List PendingFile) : Prop where
  alone : s.arriving = none
  counted : s.log.stats.records = said.length
  plain : ∀ t ∈ said, t.Plain
  secures : h.start.toNat + said.length < UInt64.size → s.Secures h said covered

section Told

variable {s : OpenLog} {h : Header} {said : List Saying} {covered : List PendingFile} {t : Saying}

theorem Secures.fewer (secures : s.Secures h said covered) {fewer : List PendingFile}
    (part : ∀ e ∈ fewer, e ∈ covered) : s.Secures h said fewer := by
  obtain ⟨k, durable, lists⟩ := secures
  exact ⟨k, durable, fun e member => lists e (part e member)⟩

theorem Told.fewer (told : s.Told h said covered) {fewer : List PendingFile} (part : ∀ e ∈ fewer, e ∈ covered) :
    s.Told h said fewer :=
  { told with secures := fun room => (told.secures room).fewer part }

theorem Told.goesOn (told : s.Told h said covered) {s' : OpenLog} {more : List PendingFile}
    (counts : s'.arriving = none ∧ s'.log.stats.records = s.log.stats.records)
    (secures : h.start.toNat + said.length < UInt64.size → s'.Secures h said more) : s'.Told h said more :=
  ⟨counts.1, counts.2.trans told.counted, told.plain, secures⟩

theorem appendSecures (secures : s.Secures h said covered) (t : Saying) : Ends (append t.item.1 t.item.2 s)
    (fun lsn s' => lsn.toNat = h.start.toNat + said.length ∧
      (h.start.toNat + (said ++ [t]).length < UInt64.size → s'.Secures h (said ++ [t]) covered))
    (fun s' => s'.Secures h said covered) := by
  obtain ⟨k, durable, lists⟩ := secures
  refine (appendDurable durable t.item.1 t.item.2).mono (fun lsn s' done => ?_) fun s' failed => ⟨k, failed, lists⟩
  obtain ⟨position, longer⟩ := done
  have within := durable.within
  rw [List.length_map] at position within longer
  refine ⟨position, fun room => ⟨k, ?_, ?_⟩⟩
  · rw [List.map_append]
    exact longer (by rwa [List.length_append] at room)
  · rw [List.take_append_of_le_length within]
    exact lists

theorem appendTold (told : s.Told h said covered) (valid : ∀ e ∈ t.lists, e.xid.isValid = true) :
    Ends (append t.item.1 t.item.2 s)
      (fun lsn s' => s'.Told h (said ++ [t]) covered ∧
        (h.start.toNat + said.length < UInt64.size → lsn.toNat = h.start.toNat + said.length))
      (fun s' => s'.Told h said covered) := by
  have counts := appendCounts told.alone t.item.1 t.item.2
  have secured := Ends.given fun room => appendSecures (told.secures room) t
  refine (counts.and secured).mono ?_ ?_
  · rintro lsn s' ⟨⟨alone, records, small⟩, done⟩
    refine ⟨⟨alone, ?_, fun u member => ?_, fun room => ?_⟩, fun room => (done room).1⟩
    · rw [records, told.counted, List.length_append]
      rfl
    · rcases List.mem_append.mp member with old | new
      · exact told.plain u old
      · obtain rfl := List.mem_singleton.mp new
        exact Saying.plainStored small valid
    · have longer : (said ++ [t]).length = said.length + 1 := List.length_append
      exact (done (by omega)).2 room
  · rintro s' ⟨counts, failed⟩
    exact told.goesOn counts failed

theorem Secures.all {k : Nat} (durable : s.Durable h (said.map Saying.item) k) (whole : said.length ≤ k)
    (lists : ∀ e ∈ covered, e ∈ Saying.listed said) : s.Secures h said (Saying.listed said ++ covered) := by
  refine ⟨k, durable, fun e member => ?_⟩
  rw [List.take_of_length_le whole]
  exact (List.mem_append.mp member).elim id (lists e)

theorem syncSecures (secures : s.Secures h said covered) : Ends (sync s)
    (fun _ s' => s'.Secures h said (Saying.listed said ++ covered)) (fun s' => s'.Secures h said covered) := by
  obtain ⟨k, durable, lists⟩ := secures
  refine (syncDurable durable).mono (fun _ s' done => ?_) fun s' failed => ⟨k, failed, lists⟩
  refine .all done (Nat.le_of_eq (List.length_map _).symm) fun e member => ?_
  exact Saying.listedPart (List.take_prefix k said) (lists e member)

theorem flushSecures (secures : s.Secures h said covered) (upto : UInt64) : Ends (flush upto s)
    (fun _ s' => s'.Secures h said covered ∧ (upto.toNat + 1 = h.start.toNat + said.length →
      s'.Secures h said (Saying.listed said ++ covered)))
    (fun s' => s'.Secures h said covered) := by
  obtain ⟨k, durable, lists⟩ := secures
  refine (flushDurable durable upto).mono (fun _ s' done => ?_) fun s' failed => ⟨k, failed, lists⟩
  -- a flush need not sync, so all is secured only if it asks for the last record
  obtain ⟨k', more, durable', reaches⟩ := done
  rw [List.length_map] at reaches
  refine ⟨⟨k', durable', fun e member => ?_⟩, fun last => .all durable' (by omega) fun e member => ?_⟩
  · exact Saying.listedPart (List.take_prefix_take_left more) (lists e member)
  · exact Saying.listedPart (List.take_prefix k said) (lists e member)

theorem syncTold (told : s.Told h said covered) : Ends (sync s)
    (fun _ s' => s'.Told h said (Saying.listed said ++ covered)) (fun s' => s'.Told h said covered) := by
  refine ((syncCounts told.alone).and (.given fun room => syncSecures (told.secures room))).mono ?_ ?_
  · rintro - s' ⟨counts, done⟩
    exact told.goesOn counts done
  · rintro s' ⟨counts, failed⟩
    exact told.goesOn counts failed

theorem flushTold (told : s.Told h said covered) (upto : UInt64) : Ends (flush upto s)
    (fun _ s' => s'.Told h said covered ∧
      ((h.start.toNat + said.length < UInt64.size → upto.toNat + 1 = h.start.toNat + said.length) →
        s'.Told h said (Saying.listed said ++ covered)))
    (fun s' => s'.Told h said covered) := by
  refine ((flushCounts told.alone upto).and (.given fun room => flushSecures (told.secures room) upto)).mono ?_ ?_
  · rintro - s' ⟨counts, done⟩
    exact ⟨told.goesOn counts fun room => (done room).1,
      fun last => told.goesOn counts fun room => (done room).2 (last room)⟩
  · rintro s' ⟨counts, failed⟩
    exact told.goesOn counts failed

theorem insertTold (told : s.Told h said covered) (valid : ∀ e ∈ t.lists, e.xid.isValid = true) :
    Ends (RecordLog.insertDurable t.item.1 t.item.2 s)
      (fun _ s' => s'.Told h (said ++ [t]) (t.lists ++ covered))
      (fun s' => ∃ part, part <+: [t] ∧ s'.Told h (said ++ part) covered) := by
  have longer : (said ++ [t]).length = said.length + 1 := List.length_append
  unfold RecordLog.insertDurable
  refine Ends.bind ((appendTold told valid).mono (fun _ _ => id) fun s' failed => ?_) ?_
  · exact ⟨[], List.nil_prefix, by rwa [List.append_nil]⟩
  rintro lsn s' ⟨told', position⟩
  refine Ends.bind ((flushTold told' lsn).mono (fun _ _ => id) fun s'' failed => ?_) ?_
  · exact ⟨[t], List.prefix_refl _, failed⟩
  rintro - s'' ⟨-, secured⟩
  refine (secured fun room => ?_).fewer fun e member => ?_
  · rw [position (by omega), longer, Nat.add_assoc]
  · rw [Saying.listedAppend]
    rcases List.mem_append.mp member with new | old
    · have own : e ∈ Saying.listed [t] := by simpa [Saying.listed] using new
      exact List.mem_append_left _ (List.mem_append_right _ own)
    · exact List.mem_append_right _ old

end Told

end OpenLog

namespace Registry

def due (r : Registry) : List Saying := (if r.entries = [] then [] else [.snapshot r.entries]) ++ [.marker]

theorem checkpointTold {r : Registry} (on : r.enabled = true) (valid : ∀ e ∈ r.entries, e.xid.isValid = true)
    {s : OpenLog} {h : Header} {said : List Saying} {covered : List PendingFile} (told : s.Told h said covered) :
    Ends (r.checkpoint s) (fun _ s' => s'.Told h (said ++ r.due) (r.entries ++ covered))
      (fun s' => ∃ part, part <+: r.due ∧ s'.Told h (said ++ part) covered) := by
  have persisted : ∃ snapshot, r.due = snapshot ++ [.marker] ∧ Ends (r.persist s)
      (fun _ s' => s'.Told h (said ++ snapshot) (r.entries ++ covered))
      (fun s' => ∃ part, part <+: snapshot ∧ s'.Told h (said ++ part) covered) := by
    refine ⟨_, rfl, ?_⟩
    cases dumped : r.dump with
    | error e =>
      simp only [persist, dumped]
      exact ⟨[], List.nil_prefix, by rwa [List.append_nil]⟩
    | ok snapshot =>
      rcases dumpLists on dumped with ⟨none, rfl⟩ | ⟨some, b, rfl, lists⟩
      · simp only [persist, dumped, none, if_true, List.append_nil]
        exact told
      · simp only [persist, dumped, lists, if_neg some]
        exact (OpenLog.insertTold (t := .snapshot r.entries) told valid).map
  obtain ⟨snapshot, due, persisted⟩ := persisted
  rw [due]
  unfold checkpoint
  refine Ends.bind (persisted.mono (fun _ _ => id) fun s' failed => ?_) fun _ s' done => ?_
  · obtain ⟨part, first, told⟩ := failed
    exact ⟨part, first.trans (List.prefix_append ..), told⟩
  have marked := OpenLog.insertTold (t := .marker) done (by simp [Saying.lists])
  refine Ends.bind (marked.mono (fun _ _ => id) fun s'' failed => ?_) fun _ s'' done => ?_
  · obtain ⟨part, first, told⟩ := failed
    refine ⟨snapshot ++ part, (List.prefix_append_right_inj _).mpr first, ?_⟩
    rw [← List.append_assoc]
    exact told.fewer fun e => List.mem_append_right _
  · rw [← List.append_assoc]
    exact done

end Registry
end OrphanFiles
