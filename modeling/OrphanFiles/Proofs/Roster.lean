import OrphanFiles.Proofs.RegistryLists

/-!
What the processes at a registry see of it.  A roster keeps, for each slot, a plain list of entries under the tokens
that were given out for them, newest first; every run of requests to a registry is a run of a roster.
-/
namespace OrphanFiles

inductive Request where
  | attach (id : UInt32)
  | attachAuxiliary
  | add (handle : Nat) (file : RelFile) (xid : Xid)
  | remove (handle : Nat) (t : Token)
  | drop (handle : Nat)
  deriving DecidableEq, Repr

inductive Reply where
  | handle (n : Nat)
  | token (t : Token)
  | removed
  | left (count : Nat)
  | refused (e : Error)
  | noHandle
  deriving DecidableEq

/- A registry and the handles on it, in the order in which they were given out. -/
structure Hall where
  registry : Registry
  handles : List (Option Backend) := []

namespace Hall

def live (h : Hall) (n : Nat) : Option Backend := h.handles[n]?.join

def act (h : Hall) : Request → Reply × Hall
  | .attach id => match h.registry.attach id with
    | .error e => (.refused e, h)
    | .ok (b, r) => (.handle h.handles.length, ⟨r, h.handles ++ [some b]⟩)
  | .attachAuxiliary =>
    (.handle h.handles.length, { h with handles := h.handles ++ [some Registry.attachAuxiliary] })
  | .add n file xid => match h.live n with
    | none => (.noHandle, h)
    | some b => match h.registry.add b file xid with
      | (.ok t, r) => (.token t, { h with registry := r })
      | (.error e, r) => (.refused e, { h with registry := r })
  | .remove n t => match h.live n with
    | none => (.noHandle, h)
    | some b => (.removed, { h with registry := h.registry.remove b t })
  | .drop n => match h.live n with
    | none => (.noHandle, h)
    | some b =>
      let (left, r) := h.registry.detach b
      (.left left, ⟨r, h.handles.set n none⟩)

def run (h : Hall) : List Request → Hall
  | [] => h
  | q :: qs => run (h.act q).2 qs

end Hall

structure Roster where
  handles : List (Option (Option UInt32)) := []
  lists : List Listing
  issued : List Token := []

namespace Roster

def empty (slots : Nat) : Roster where
  lists := List.replicate slots []

def row (R : Roster) (slot : UInt32) : Listing := Registry.rowOf R.lists slot
def setRow (R : Roster) (slot : UInt32) (row : Listing) : Roster := { R with lists := R.lists.set slot.toNat row }
def size (R : Roster) : Nat := R.lists.flatten.length
def live (R : Roster) (n : Nat) : Option (Option UInt32) := R.handles[n]?.join

def handleOf? : Request → Option Nat
  | .attach _ | .attachAuxiliary => none
  | .add n .. | .remove n _ | .drop n => some n

inductive Step (nodes : Nat) : Roster → Request → Reply → Roster → Prop where
  | attached {R id} (inside : id.toNat < R.lists.length) (idle : some (some id) ∉ R.handles) :
      Step nodes R (.attach id) (.handle R.handles.length) { R with handles := R.handles ++ [some (some id)] }
  | outside {R id} (outside : R.lists.length ≤ id.toNat) :
      Step nodes R (.attach id) (.refused (.invalid .backendOutOfRange)) R
  | taken {R id} (inside : id.toNat < R.lists.length) (taken : some (some id) ∈ R.handles) :
      Step nodes R (.attach id) (.refused (.invalid (.backendAttached id))) R
  | auxiliary {R} :
      Step nodes R .attachAuxiliary (.handle R.handles.length) { R with handles := R.handles ++ [some none] }
  | listed {R n slot file xid t} (live : R.live n = some (some slot)) (valid : xid.isValid = true)
      (room : R.size < nodes) (named : t.isValid = true) (fresh : t ∉ R.issued) :
      Step nodes R (.add n file xid) (.token t)
        { R.setRow slot ((t, ⟨file, xid⟩) :: R.row slot) with issued := t :: R.issued }
  | full {R n slot file xid} (live : R.live n = some (some slot)) (valid : xid.isValid = true)
      (full : R.size = nodes) : Step nodes R (.add n file xid) (.refused (.outOfMemory slot nodes)) R
  | unlisted {R n slot file xid} (live : R.live n = some slot) (nothing : slot = none ∨ xid.isValid = false) :
      Step nodes R (.add n file xid) (.token .invalid) R
  | removed {R n slot t e newer older} (live : R.live n = some (some slot))
      (listed : R.row slot = newer ++ (t, e) :: older) :
      Step nodes R (.remove n t) .removed (R.setRow slot (newer ++ older))
  | stale {R n slot t} (live : R.live n = some slot)
      (absent : ∀ own, slot = some own → ∀ e, (t, e) ∉ R.row own) : Step nodes R (.remove n t) .removed R
  | dropped {R n slot} (live : R.live n = some (some slot)) :
      Step nodes R (.drop n) (.left (R.row slot).length) { R.setRow slot [] with handles := R.handles.set n none }
  | auxiliaryDropped {R n} (live : R.live n = some none) :
      Step nodes R (.drop n) (.left 0) { R with handles := R.handles.set n none }
  | gone {R n q} (names : handleOf? q = some n) (gone : R.live n = none) : Step nodes R q .noHandle R

end Roster

structure Seats (handles : List (Option (Option UInt32))) (attached : List UInt32) (slots : Nat) : Prop where
  attached : ∀ id, id ∈ attached ↔ some (some id) ∈ handles
  inside : ∀ id, some (some id) ∈ handles → id.toNat < slots
  single : ∀ (m n : Nat) (id : UInt32), handles[m]? = some (some (some id)) →
    handles[n]? = some (some (some id)) → m = n

namespace Seats

variable {handles : List (Option (Option UInt32))} {attached : List UInt32} {slots : Nat}

theorem empty : Seats [] [] slots := ⟨by simp, by simp, by simp⟩

theorem take (seats : Seats handles attached slots) {id : UInt32} (inside : id.toNat < slots)
    (idle : id ∉ attached) : Seats (handles ++ [some (some id)]) (id :: attached) slots := by
  have absent := mt (seats.attached id).mpr idle
  refine ⟨fun other => ?_, fun other member => ?_, fun m n other left right => ?_⟩
  · simp [seats.attached other, or_comm]
  · rcases List.mem_append.mp member with old | new
    · exact seats.inside other old
    · obtain rfl : other = id := by simpa using new
      exact inside
  · rw [List.getElem?_append] at left right
    have fresh {k : Nat} (place : handles[k]? = some (some (some id))) : False :=
      absent (List.mem_of_getElem? place)
    split at left
    · split at right
      · exact seats.single m n other left right
      · have := List.mem_of_getElem? right
        obtain rfl : other = id := by simpa using this
        exact (fresh left).elim
    · have := List.mem_of_getElem? left
      obtain rfl : other = id := by simpa using this
      split at right
      · exact (fresh right).elim
      · have last {k : Nat} (found : [some (some other)][k]? = some (some (some other))) : k = 0 := by
          have := (List.getElem?_eq_some_iff.mp found).1
          simpa using this
        have := last left
        have := last right
        omega

theorem auxiliary (seats : Seats handles attached slots) : Seats (handles ++ [some none]) attached slots := by
  refine ⟨fun id => by simp [seats.attached id], fun id member => seats.inside id (by simpa using member),
    fun m n id left right => ?_⟩
  have old {k : Nat} (found : (handles ++ [some none])[k]? = some (some (some id))) :
      handles[k]? = some (some (some id)) := by
    rw [List.getElem?_append] at found
    split at found
    · exact found
    · have := List.mem_of_getElem? found
      simp at this
  exact seats.single m n id (old left) (old right)

theorem leave (seats : Seats handles attached slots) {n : Nat} {slot : Option UInt32}
    (live : handles[n]? = some (some slot)) (attached' : List UInt32)
    (rest : ∀ id, id ∈ attached' ↔ some id ≠ slot ∧ id ∈ attached) : Seats (handles.set n none) attached' slots := by
  have inside := (List.getElem?_eq_some_iff.mp live).1
  have stay (m : Nat) (id : UInt32) : (handles.set n none)[m]? = some (some (some id)) ↔
      m ≠ n ∧ handles[m]? = some (some (some id)) := by
    rw [List.getElem?_set]
    by_cases same : n = m
    · subst same; simp [inside]
    · simp [same, Ne.symm same]
  have left (id : UInt32) : some (some id) ∈ handles.set n none ↔ some id ≠ slot ∧ some (some id) ∈ handles := by
    simp only [List.mem_iff_getElem?, stay]
    constructor
    · rintro ⟨m, differ, found⟩
      refine ⟨?_, m, found⟩
      rintro rfl
      exact differ (seats.single m n id found live)
    · rintro ⟨other, m, found⟩
      refine ⟨m, ?_, found⟩
      rintro rfl
      rw [live] at found
      cases found
      exact other rfl
  refine ⟨fun id => ?_, fun id member => ?_, fun k m id here there => ?_⟩
  · rw [rest, left, seats.attached]
  · exact seats.inside id ((left id).mp member).2
  · exact seats.single k m id ((stay k id).mp here).2 ((stay m id).mp there).2

end Seats

namespace Hall

structure Shows (h : Hall) (c : Config) (R : Roster) : Prop where
  handles : R.handles = h.handles.map (·.map Backend.slot)
  lengths : ∀ n b, h.live n = some b → h.registry.pendingLen b = b.slot.elim 0 fun slot => (R.row slot).length
  lists : ∀ slot : UInt32, slot.toNat < c.maxBackends →
    (h.registry.nodes (h.registry.head slot)).map Node.entry = (R.row slot).map Prod.snd
  inUse : h.registry.pool.inUse = R.size
  capacity : h.registry.pool.capacity = c.poolNodes
  nothing : R.lists.flatten = [] → h.registry.dump = .ok none
  dumped : R.lists.flatten ≠ [] → c.initialEntries * Snapshot.slotSize ≤ Snapshot.maxAllocation →
    ∃ b, h.registry.dump = .ok (some b) ∧ b.entries.toList = R.lists.flatten.map Prod.snd
  refused : R.lists.flatten ≠ [] → Snapshot.maxAllocation < c.initialEntries * Snapshot.slotSize →
    h.registry.dump = .error (.bufferExhausted (Config.saturate c.initialEntries))

structure Follows (h : Hall) (c : Config) (R : Roster) : Prop where
  enabled : h.registry.enabled = true
  mirrors : h.registry.Mirrors R.lists
  capacity : h.registry.pool.capacity = c.poolNodes
  initial : h.registry.initialEntries = c.initialEntries
  handles : R.handles = h.handles.map (·.map Backend.slot)
  slots : h.registry.slots = R.lists.length
  width : R.lists.length = c.maxBackends
  seats : Seats R.handles h.registry.attached R.lists.length
  issued : ∀ t ∈ R.issued, t.serial < h.registry.nextSerial
  valid : ∀ x ∈ R.lists.flatten, x.2.xid.isValid = true

section Steps

variable {h : Hall} {c : Config} {R : Roster}

theorem liveSlot (follows : h.Follows c R) (n : Nat) : R.live n = (h.live n).map Backend.slot := by
  simp only [Roster.live, live, follows.handles, List.getElem?_map]
  rcases h.handles[n]? with _ | _ | b <;> rfl

theorem liveHandle (follows : h.Follows c R) {n : Nat} {b : Backend} (live : h.live n = some b) :
    R.handles[n]? = some (some b.slot) := by
  have := liveSlot follows n
  rw [live] at this
  simpa [Roster.live, Option.join_eq_some_iff] using this

theorem slotInside (follows : h.Follows c R) {n : Nat} {slot : UInt32} (live : h.live n = some ⟨some slot⟩) :
    slot.toNat < h.registry.heads.size := by
  rw [← follows.mirrors.sized]
  exact follows.seats.inside slot (List.mem_of_getElem? (liveHandle follows live))

theorem attachFollows (follows : h.Follows c R) (id : UInt32) :
    ∃ R', Roster.Step c.poolNodes R (.attach id) (h.act (.attach id)).1 R' ∧ (h.act (.attach id)).2.Follows c R' := by
  have length : R.handles.length = h.handles.length := by rw [follows.handles, List.length_map]
  unfold act Registry.attach
  by_cases outside : h.registry.slots ≤ id.toNat
  · simp only [if_pos outside]
    exact ⟨R, .outside (follows.slots ▸ outside), follows⟩
  · have inside : id.toNat < R.lists.length := follows.slots ▸ Nat.lt_of_not_le outside
    by_cases taken : id ∈ h.registry.attached
    · simp only [if_neg outside, if_pos taken]
      exact ⟨R, .taken inside ((follows.seats.attached id).mp taken), follows⟩
    · simp only [if_neg outside, if_neg taken]
      rw [← length]
      refine ⟨_, .attached inside (mt (follows.seats.attached id).mpr taken), ?_⟩
      exact {
        enabled := follows.enabled
        mirrors := { follows.mirrors with }
        capacity := follows.capacity
        initial := follows.initial
        handles := by simp [follows.handles]
        slots := follows.slots
        width := follows.width
        seats := follows.seats.take inside taken
        issued := follows.issued
        valid := follows.valid }

theorem auxiliaryFollows (follows : h.Follows c R) :
    ∃ R', Roster.Step c.poolNodes R .attachAuxiliary (h.act .attachAuxiliary).1 R' ∧
      (h.act .attachAuxiliary).2.Follows c R' := by
  have length : R.handles.length = h.handles.length := by rw [follows.handles, List.length_map]
  unfold act
  rw [← length]
  refine ⟨_, .auxiliary, ?_⟩
  exact { follows with
    handles := by simp [follows.handles, Registry.attachAuxiliary]
    seats := follows.seats.auxiliary }

theorem relisted (follows : h.Follows c R) {slot : UInt32} {row : Listing} {issued : List Token} {r : Registry}
    (kept : Registry.Kept h.registry r) (mirrors : r.Mirrors (R.lists.set slot.toNat row))
    (serials : ∀ t ∈ issued, t.serial < r.nextSerial) (valid : ∀ x ∈ row, x.2.xid.isValid = true) :
    Follows { h with registry := r } c { R.setRow slot row with issued } where
  enabled := kept.enabled.trans follows.enabled
  mirrors := mirrors
  capacity := kept.capacity.trans follows.capacity
  initial := kept.initialEntries.trans follows.initial
  handles := follows.handles
  slots := by simpa [Roster.setRow] using kept.slots.trans follows.slots
  width := by simpa [Roster.setRow] using follows.width
  seats := by
    simp only [Roster.setRow, kept.attached, List.length_set]
    exact follows.seats
  issued := serials
  valid := by
    intro x member
    simp only [Roster.setRow] at member
    obtain ⟨list, listed, inside⟩ := List.mem_flatten.mp member
    rcases List.mem_or_eq_of_mem_set listed with old | new
    · exact follows.valid x (List.mem_flatten.mpr ⟨list, old, inside⟩)
    · exact valid x (new ▸ inside)

theorem rowValid (follows : h.Follows c R) (slot : UInt32) : ∀ x ∈ R.row slot, x.2.xid.isValid = true := by
  intro x member
  unfold Roster.row Registry.rowOf at member
  cases found : R.lists[slot.toNat]? with
  | none => simp [found] at member
  | some list =>
    rw [found] at member
    exact follows.valid x (List.mem_flatten.mpr ⟨list, List.mem_of_getElem? found, member⟩)

theorem addFollows (follows : h.Follows c R) (n : Nat) (file : RelFile) (xid : Xid) :
    ∃ R', Roster.Step c.poolNodes R (.add n file xid) (h.act (.add n file xid)).1 R' ∧
      (h.act (.add n file xid)).2.Follows c R' := by
  have slotOf := liveSlot follows n
  cases live : h.live n with
  | none =>
    rw [live] at slotOf
    simp only [act, live]
    exact ⟨R, .gone rfl slotOf, follows⟩
  | some b =>
    obtain ⟨_ | slot⟩ := b
    · rw [live] at slotOf
      simp only [act, live, Registry.add]
      exact ⟨R, .unlisted slotOf (.inl rfl), follows⟩
    · have inside := slotInside follows live
      rw [live] at slotOf
      simp only [act, live, Registry.add, follows.enabled, Bool.true_and]
      cases valid : xid.isValid with
      | false => exact ⟨R, .unlisted slotOf (.inr valid), follows⟩
      | true =>
        have counted := follows.mirrors.counted
        by_cases full : h.registry.pool.inUse = h.registry.pool.capacity
        · simp only [if_true, Registry.linkFull follows.mirrors full, follows.capacity]
          refine ⟨R, .full slotOf valid ?_, ?_⟩
          · rw [Roster.size, ← counted, full, follows.capacity]
          · exact { follows with
              mirrors := Registry.spentMirrors follows.mirrors
              issued := fun t member => Nat.lt_succ_of_lt (follows.issued t member) }
        · obtain ⟨p, r, linked, named, kept, serial, mirrors⟩ :=
            Registry.linkRoom follows.mirrors inside full ⟨file, xid⟩
          simp only [if_true, linked]
          have bound := Pool.inUseBound follows.mirrors.sound
          have fresh : (⟨p, h.registry.nextSerial⟩ : Token) ∉ R.issued := by
            intro member
            exact absurd (follows.issued _ member) (Nat.lt_irrefl _)
          refine ⟨_, .listed slotOf valid ?_ named fresh, relisted follows kept mirrors ?_ ?_⟩
          · rw [Roster.size, ← counted, ← follows.capacity]
            omega
          · intro t member
            rw [serial]
            rcases List.mem_cons.mp member with rfl | old
            · exact Nat.lt_succ_self _
            · exact Nat.lt_succ_of_lt (follows.issued t old)
          · intro x member
            rcases List.mem_cons.mp member with rfl | old
            · exact valid
            · exact rowValid follows slot x old

theorem removeFollows (follows : h.Follows c R) (n : Nat) (t : Token) :
    ∃ R', Roster.Step c.poolNodes R (.remove n t) (h.act (.remove n t)).1 R' ∧
      (h.act (.remove n t)).2.Follows c R' := by
  have slotOf := liveSlot follows n
  cases live : h.live n with
  | none =>
    rw [live] at slotOf
    simp only [act, live]
    exact ⟨R, .gone rfl slotOf, follows⟩
  | some b =>
    obtain ⟨_ | slot⟩ := b
    · rw [live] at slotOf
      simp only [act, live, Registry.remove]
      exact ⟨R, .stale slotOf (fun own same => by contradiction), follows⟩
    · have inside := slotInside follows live
      rw [live] at slotOf
      simp only [act, live, Registry.remove, follows.enabled, Bool.true_and]
      by_cases listed : ∃ e, (t, e) ∈ R.row slot
      · obtain ⟨e, member⟩ := listed
        have named : t.isValid = true := Registry.listedValid follows.mirrors inside member
        obtain ⟨newer, older, split⟩ := List.append_of_mem member
        obtain ⟨kept, serial, mirrors⟩ := Registry.unlinkListed follows.mirrors inside split
        rw [if_pos named]
        refine ⟨_, .removed slotOf split, relisted follows kept mirrors ?_ fun x member => ?_⟩
        · rw [serial]
          exact follows.issued
        · have valid := rowValid follows slot x
          rw [split] at valid
          exact valid (List.perm_middle.mem_iff.mpr (List.mem_cons_of_mem _ member))
      · have absent : ∀ x ∈ R.row slot, x.1 ≠ t := by
          intro x member same
          exact listed ⟨x.2, same ▸ member⟩
        rw [Registry.unlinkAbsent follows.mirrors inside absent, ite_self]
        refine ⟨R, .stale slotOf fun own same e member => ?_, follows⟩
        cases same
        exact listed ⟨e, member⟩

theorem dropFollows (follows : h.Follows c R) (n : Nat) :
    ∃ R', Roster.Step c.poolNodes R (.drop n) (h.act (.drop n)).1 R' ∧ (h.act (.drop n)).2.Follows c R' := by
  have slotOf := liveSlot follows n
  cases live : h.live n with
  | none =>
    rw [live] at slotOf
    simp only [act, live]
    exact ⟨R, .gone rfl slotOf, follows⟩
  | some b =>
    have place := liveHandle follows live
    obtain ⟨_ | slot⟩ := b
    · rw [live] at slotOf
      simp only [act, live, Registry.detach]
      refine ⟨_, .auxiliaryDropped slotOf, ?_⟩
      exact { follows with
        handles := by simp [follows.handles, List.map_set]
        seats := follows.seats.leave place _ (by simp) }
    · have inside := slotInside follows live
      rw [live] at slotOf
      obtain ⟨r, cleared, kept, serial, mirrors⟩ := Registry.clearedRow follows.mirrors inside
      simp only [act, live, Registry.detach, follows.enabled, if_true, cleared]
      have relisted := relisted follows kept mirrors (serial ▸ follows.issued) (by simp)
      refine ⟨_, .dropped slotOf, ?_⟩
      exact { relisted with
        mirrors := { relisted.mirrors with }
        handles := by simp [follows.handles, List.map_set]
        seats := relisted.seats.leave place _ fun id => by simp [and_comm, bne_iff_ne] }

theorem actFollows (follows : h.Follows c R) (q : Request) :
    ∃ R', Roster.Step c.poolNodes R q (h.act q).1 R' ∧ (h.act q).2.Follows c R' := by
  cases q with
  | attach id => exact attachFollows follows id
  | attachAuxiliary => exact auxiliaryFollows follows
  | add n file xid => exact addFollows follows n file xid
  | remove n t => exact removeFollows follows n t
  | drop n => exact dropFollows follows n

theorem newFollows {r : Registry} (made : Registry.new c = .ok r) (on : c.enabled = true) :
    (⟨r, []⟩ : Hall).Follows c (Roster.empty c.maxBackends) := by
  have mirrors := Registry.newMirrors made
  obtain ⟨valid, made⟩ := Registry.newOk made
  obtain ⟨-, -, -, few, -⟩ := Config.validateOk.mp valid
  simp only [on, if_true] at made
  subst made
  unfold Roster.empty
  rw [Array.size_replicate] at mirrors
  refine ⟨rfl, mirrors, ?_, rfl, rfl, by simp, by simp, Seats.empty, by simp, by simp⟩
  simp only [Pool.withCapacity]
  omega

theorem runFollows (follows : h.Follows c R) (requests : List Request) : ∃ R', (h.run requests).Follows c R' := by
  induction requests generalizing h R with
  | nil => exact ⟨R, follows⟩
  | cons q qs ih =>
    obtain ⟨R', -, next⟩ := actFollows follows q
    exact ih next

theorem Follows.shows (follows : h.Follows c R) (positive : 0 < c.initialEntries) : h.Shows c R := by
  have entries := Registry.entriesListed follows.mirrors
  have filled := Snapshot.Buffer.fillNew positive (Nat.le_of_lt (Registry.entriesFew follows.mirrors))
  have dump := Registry.dumpEq follows.enabled
  rw [follows.initial] at dump
  rw [entries] at filled dump
  refine ⟨follows.handles, fun n b live => ?_, fun slot inside => ?_, follows.mirrors.counted, follows.capacity,
    fun none => ?_, fun some fits => ?_, fun some refused => ?_⟩
  · obtain ⟨_ | slot⟩ := b
    · rfl
    · simp only [Registry.pendingLen, if_pos follows.enabled, Option.elim_some]
      rw [← List.length_map Node.entry, Registry.nodesListed follows.mirrors (slotInside follows live), List.length_map]
      rfl
  · refine Registry.nodesListed follows.mirrors ?_
    rwa [← follows.mirrors.sized, follows.width]
  · rw [dump, none]
    rfl
  · rw [if_neg fun both => Nat.not_lt.mpr fits both.2] at filled
    obtain ⟨b, filled, all⟩ := filled
    rw [dump, filled]
    refine ⟨b, ?_, all⟩
    have : b.entries.isEmpty = false := by
      rw [← Array.isEmpty_toList, all]
      simpa using some
    simp [Except.map, this]
  · rw [if_pos ⟨by simpa using some, refused⟩] at filled
    rw [dump, filled]
    rfl

end Steps

/- The answers to all the requests are those of a roster, which is what can be seen before and after each of them. -/
inductive Conforms (c : Config) : Hall → Roster → List Request → Prop where
  | nil {h R} (shows : h.Shows c R) : Conforms c h R []
  | cons {h R R' q qs} (shows : h.Shows c R) (step : Roster.Step c.poolNodes R q (h.act q).1 R')
      (rest : Conforms c (h.act q).2 R' qs) : Conforms c h R (q :: qs)

theorem followsConforms {h : Hall} {c : Config} {R : Roster} (follows : h.Follows c R) (positive : 0 < c.initialEntries)
    (requests : List Request) : Conforms c h R requests := by
  induction requests generalizing h R with
  | nil => exact .nil (follows.shows positive)
  | cons q qs ih =>
    obtain ⟨R', step, next⟩ := actFollows follows q
    exact .cons (follows.shows positive) step (ih next)

theorem conformsToRoster {c : Config} {r : Registry} (made : Registry.new c = .ok r) (on : c.enabled = true)
    (requests : List Request) : Conforms c ⟨r, []⟩ (Roster.empty c.maxBackends) requests := by
  obtain ⟨valid, -⟩ := Registry.newOk made
  obtain ⟨-, -, -, -, positive⟩ := Config.validateOk.mp valid
  exact followsConforms (newFollows made on) positive requests

theorem conformsReused : ∃ r, Registry.new (.compact 2 1) = .ok r ∧ (Config.compact 2 1).enabled = true ∧
    Conforms (.compact 2 1) ⟨r, []⟩ (Roster.empty 2) [.attach 0, .attach 1,
      .add 0 ⟨⟨1663, 5, 1⟩, false⟩ ⟨7⟩, .remove 0 ⟨⟨0⟩, 1⟩, .add 1 ⟨⟨1663, 5, 2⟩, false⟩ ⟨8⟩, .remove 0 ⟨⟨0⟩, 1⟩,
      .remove 1 ⟨⟨0⟩, 1⟩, .remove 0 ⟨⟨0⟩, 2⟩, .add 0 ⟨⟨1663, 5, 3⟩, true⟩ ⟨7⟩, .drop 1, .attach 1] :=
  ⟨_, rfl, rfl, conformsToRoster rfl rfl _⟩

end Hall
end OrphanFiles
