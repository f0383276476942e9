import OrphanFiles.Proofs.Pool
import OrphanFiles.Proofs.SnapshotBuffer
import OrphanFiles.Registry

/-!
The lists that the nodes of a registry form.  A listing names each node of a list by its token, newest first;
a registry mirrors the listings of its slots if following the links gives them, and no other node is in use.
-/
namespace OrphanFiles

abbrev Listing := List (Token × PendingFile)

namespace Listing

def ptrs (xs : Listing) : List NodePtr := xs.map fun x => x.1.ptr

theorem memPtrs {xs : Listing} {x : Token × PendingFile} (member : x ∈ xs) : x.1.ptr ∈ xs.ptrs :=
  List.mem_map.mpr ⟨x, member, rfl⟩

theorem memPtrsCons {q : NodePtr} {x : Token × PendingFile} {xs : Listing} :
    q ∈ ptrs (x :: xs) ↔ q = x.1.ptr ∨ q ∈ xs.ptrs :=
  List.mem_cons

theorem nodupCons {x : Token × PendingFile} {xs : Listing} :
    (ptrs (x :: xs)).Nodup ↔ x.1.ptr ∉ xs.ptrs ∧ xs.ptrs.Nodup :=
  List.nodup_cons

theorem nodupMiddle {x : Token × PendingFile} {xs ys : Listing} :
    (ptrs (xs ++ x :: ys)).Nodup ↔ x.1.ptr ∉ ptrs (xs ++ ys) ∧ (ptrs (xs ++ ys)).Nodup :=
  (List.perm_middle.map _).nodup_iff.trans List.nodup_cons

end Listing

def Node.body (n : Node) : PendingFile × UInt32 × Nat := (n.entry, n.owner, n.serial)

namespace Registry

def Segment (pool : Pool Node) (owner : UInt32) : NodePtr → NodePtr → Listing → NodePtr → NodePtr → Prop
  | prev, p, [], last, stop => prev = last ∧ p = stop
  | prev, p, (t, e) :: rest, last, stop => p = t.ptr ∧ ∃ next,
      pool.get? p = some ⟨e, owner, t.serial, prev, next⟩ ∧ Segment pool owner p next rest last stop

section Segments

variable {pool pool' : Pool Node} {owner : UInt32} {prev p last stop : NodePtr} {xs ys : Listing}

theorem segmentAppend : Segment pool owner prev p (xs ++ ys) last stop ↔
    ∃ m n, Segment pool owner prev p xs m n ∧ Segment pool owner m n ys last stop := by
  induction xs generalizing prev p with
  | nil => simp [Segment]
  | cons x xs ih =>
    obtain ⟨t, e⟩ := x
    simp only [List.cons_append, Segment, ih]
    constructor
    · rintro ⟨here, next, node, m, n, front, back⟩
      exact ⟨m, n, ⟨here, next, node, front⟩, back⟩
    · rintro ⟨m, n, ⟨here, next, node, front⟩, back⟩
      exact ⟨here, next, node, m, n, front, back⟩

theorem segmentNode (seg : Segment pool owner prev p xs last stop) {x : Token × PendingFile} (member : x ∈ xs) :
    ∃ before after, pool.get? x.1.ptr = some ⟨x.2, owner, x.1.serial, before, after⟩ := by
  induction xs generalizing prev p with
  | nil => contradiction
  | cons y ys ih =>
    obtain ⟨rfl, next, node, rest⟩ := seg
    rcases List.mem_cons.mp member with rfl | member
    · exact ⟨_, _, node⟩
    · exact ih rest member

theorem segmentPtr (seg : Segment pool owner prev p xs last stop) {q : NodePtr} (member : q ∈ xs.ptrs) :
    ∃ n, pool.get? q = some n ∧ n.owner = owner := by
  obtain ⟨x, listed, rfl⟩ := List.mem_map.mp member
  obtain ⟨before, after, node⟩ := segmentNode seg listed
  exact ⟨_, node, rfl⟩

theorem segmentFrame (seg : Segment pool owner prev p xs last stop)
    (same : ∀ q ∈ xs.ptrs, pool'.get? q = pool.get? q) : Segment pool' owner prev p xs last stop := by
  induction xs generalizing prev p with
  | nil => exact seg
  | cons x xs ih =>
    obtain ⟨rfl, next, node, rest⟩ := seg
    have here := same x.1.ptr List.mem_cons_self
    exact ⟨rfl, next, here.trans node, ih rest fun q member => same q (List.mem_cons_of_mem _ member)⟩

theorem segmentLast (seg : Segment pool owner prev p xs last stop) (some : xs ≠ []) : last ∈ xs.ptrs := by
  induction xs generalizing prev p with
  | nil => exact absurd rfl some
  | cons x xs ih =>
    obtain ⟨rfl, next, -, rest⟩ := seg
    cases xs with
    | nil => exact List.mem_cons.mpr (.inl rest.1.symm)
    | cons y ys => exact List.mem_cons_of_mem _ (ih rest (by simp))

theorem segmentFirst (seg : Segment pool owner prev p xs last stop) : p = stop ∨ p ∈ xs.ptrs := by
  cases xs with
  | nil => exact .inl seg.2
  | cons x xs => exact .inr (List.mem_cons.mpr (.inl seg.1))

theorem getModifyIf (sound : pool.Sound) (q r : NodePtr) (f : Node → Node) :
    (if q.isValid then pool.modify q f else pool).get? r = if q = r then (pool.get? r).map f else pool.get? r := by
  split
  · exact Pool.getModify pool q r f
  · next invalid =>
    obtain rfl : q = .nil := by simpa [NodePtr.isValid] using invalid
    split
    · next same => subst same; simp [Pool.getNil sound]
    · rfl

theorem modifyIfSound (sound : pool.Sound) (q : NodePtr) (f : Node → Node) :
    (if q.isValid then pool.modify q f else pool).Sound := by
  split
  · exact Pool.modifySound sound q f
  · exact sound

theorem relinkFront (seg : Segment pool owner prev p xs last .nil) (distinct : xs.ptrs.Nodup) (q : NodePtr)
    (get : ∀ r, pool'.get? r = if p = r then (pool.get? r).map ({ · with prev := q }) else pool.get? r) :
    ∃ last', Segment pool' owner q p xs last' .nil := by
  cases xs with
  | nil => exact ⟨q, rfl, seg.2⟩
  | cons x xs =>
    obtain ⟨rfl, next, node, rest⟩ := seg
    obtain ⟨fresh, -⟩ := Listing.nodupCons.mp distinct
    refine ⟨last, rfl, next, by simp [get, node], segmentFrame rest fun r member => ?_⟩
    have other : x.1.ptr ≠ r := by
      rintro rfl
      exact fresh member
    rw [get, if_neg other]

theorem relinkBack (seg : Segment pool owner prev p xs last stop) (some : xs ≠ []) (distinct : xs.ptrs.Nodup)
    (q : NodePtr)
    (get : ∀ r, pool'.get? r = if last = r then (pool.get? r).map ({ · with next := q }) else pool.get? r) :
    Segment pool' owner prev p xs last q := by
  induction xs generalizing prev p with
  | nil => exact absurd rfl some
  | cons x xs ih =>
    obtain ⟨rfl, next, node, rest⟩ := seg
    obtain ⟨fresh, distinct⟩ := Listing.nodupCons.mp distinct
    cases xs with
    | nil =>
      obtain ⟨rfl, rfl⟩ := rest
      exact ⟨rfl, q, by simp [get, node], rfl, rfl⟩
    | cons y ys =>
      have other : last ≠ x.1.ptr := by
        rintro rfl
        exact fresh (segmentLast rest (by simp))
      exact ⟨rfl, next, by rw [get, if_neg other, node], ih rest (by simp) distinct⟩

theorem nodesOfSegment (sound : pool.Sound) (seg : Segment pool owner prev p xs last .nil) {fuel : Nat}
    (enough : xs.length ≤ fuel) : (nodesFrom pool fuel p).map Node.entry = xs.map Prod.snd := by
  induction xs generalizing prev p fuel with
  | nil =>
    obtain ⟨-, rfl⟩ := seg
    cases fuel with
    | zero => rfl
    | succ fuel => simp [nodesFrom, Pool.getNil sound]
  | cons x xs ih =>
    obtain ⟨rfl, next, node, rest⟩ := seg
    cases fuel with
    | zero => simp at enough
    | succ fuel =>
      simp only [nodesFrom, node, List.map_cons]
      rw [ih rest (by simpa using enough)]

end Segments

def rowOf (lists : List Listing) (slot : UInt32) : Listing := lists[slot.toNat]?.getD []

theorem rowOfSet (lists : List Listing) (slot other : UInt32) (row : Listing) (inside : slot.toNat < lists.length) :
    rowOf (lists.set slot.toNat row) other = if other = slot then row else rowOf lists other := by
  unfold rowOf
  by_cases same : other = slot
  · subst same; simp [inside]
  · have differ : slot.toNat ≠ other.toNat := fun e => same (UInt32.toNat_inj.mp e.symm)
    simp [same, differ]

theorem lengthSet {lists : List Listing} {slot : UInt32} (inside : slot.toNat < lists.length) (row : Listing) :
    (lists.set slot.toNat row).flatten.length + (rowOf lists slot).length = lists.flatten.length + row.length := by
  have around : lists = lists.take slot.toNat ++ lists[slot.toNat] :: lists.drop (slot.toNat + 1) := by
    rw [← List.drop_eq_getElem_cons inside, List.take_append_drop]
  have total : lists.flatten.length = (lists.take slot.toNat).flatten.length +
      (lists[slot.toNat].length + (lists.drop (slot.toNat + 1)).flatten.length) := by
    conv => lhs; rw [around]
    rw [List.flatten_append, List.flatten_cons, List.length_append, List.length_append]
  rw [List.set_eq_take_append_cons_drop, if_pos inside]
  simp only [rowOf, List.getElem?_eq_getElem inside, Option.getD_some, List.flatten_append, List.flatten_cons,
    List.length_append]
  omega

theorem rowLength (lists : List Listing) (slot : UInt32) : (rowOf lists slot).length ≤ lists.flatten.length := by
  unfold rowOf
  cases found : lists[slot.toNat]? with
  | none => simp
  | some row =>
    have := List.sublist_flatten_of_mem (List.mem_of_getElem? found)
    exact this.length_le

structure Mirrors (r : Registry) (lists : List Listing) : Prop where
  sound : r.pool.Sound
  sized : lists.length = r.heads.size
  narrow : r.heads.size < 0x100000000
  chained : ∀ slot : UInt32, slot.toNat < r.heads.size →
    ∃ last, Segment r.pool slot .nil (r.head slot) (rowOf lists slot) last .nil
  distinct : ∀ slot, (rowOf lists slot).ptrs.Nodup
  owned : ∀ q n, r.pool.get? q = some n → (⟨q, n.serial⟩, n.entry) ∈ rowOf lists n.owner
  counted : r.pool.inUse = lists.flatten.length
  fresh : ∀ slot, ∀ x ∈ rowOf lists slot, x.1.serial < r.nextSerial

def Apart (slot : UInt32) (pool pool' : Pool Node) : Prop :=
  ∀ q n, n.owner ≠ slot → (pool'.get? q = some n ↔ pool.get? q = some n)

theorem Apart.trans {slot : UInt32} {a b c : Pool Node} (first : Apart slot a b) (second : Apart slot b c) :
    Apart slot a c :=
  fun q n other => (second q n other).trans (first q n other)

theorem apartAt {slot : UInt32} {pool pool' : Pool Node} (q : NodePtr)
    (same : ∀ r, q ≠ r → pool'.get? r = pool.get? r) (before : ∀ n, pool.get? q = some n → n.owner = slot)
    (after : ∀ n, pool'.get? q = some n → n.owner = slot) : Apart slot pool pool' := by
  intro r n other
  by_cases here : q = r
  · subst here
    constructor
    · intro found
      exact absurd (after n found) other
    · intro found
      exact absurd (before n found) other
  · rw [same r here]

theorem apartModify {slot : UInt32} {pool : Pool Node} (sound : pool.Sound) (q : NodePtr) (f : Node → Node)
    (keeps : ∀ n, (f n).owner = n.owner) (own : ∀ n, pool.get? q = some n → n.owner = slot) :
    Apart slot pool (if q.isValid then pool.modify q f else pool) := by
  refine apartAt q (fun r differ => by rw [getModifyIf sound, if_neg differ]) own fun n found => ?_
  rw [getModifyIf sound, if_pos rfl] at found
  obtain ⟨n, node, rfl⟩ := Option.map_eq_some_iff.mp found
  exact (keeps n).trans (own n node)

theorem Apart.segment {slot owner : UInt32} {pool pool' : Pool Node} (apart : Apart slot pool pool')
    (other : owner ≠ slot) {prev p last stop : NodePtr} {xs : Listing}
    (seg : Segment pool owner prev p xs last stop) : Segment pool' owner prev p xs last stop := by
  refine segmentFrame seg fun q member => ?_
  obtain ⟨n, node, rfl⟩ := segmentPtr seg member
  rw [node, (apart q n other).mpr node]

theorem replaceRow {r : Registry} {lists : List Listing} (m : r.Mirrors lists) {slot : UInt32}
    (inside : slot.toNat < r.heads.size) {pool : Pool Node} {h last : NodePtr} {row : Listing} {serial : Nat}
    (sound : pool.Sound) (apart : Apart slot r.pool pool) (chain : Segment pool slot .nil h row last .nil)
    (distinct : row.ptrs.Nodup)
    (own : ∀ q n, pool.get? q = some n → n.owner = slot → (⟨q, n.serial⟩, n.entry) ∈ row)
    (counted : pool.inUse + (rowOf lists slot).length = r.pool.inUse + row.length)
    (fresh : ∀ x ∈ row, x.1.serial < serial) (later : r.nextSerial ≤ serial) :
    ({ r with pool, nextSerial := serial }.setHead slot h).Mirrors (lists.set slot.toNat row) := by
  have inside' : slot.toNat < lists.length := m.sized ▸ inside
  have row' (other : UInt32) := rowOfSet lists slot other row inside'
  refine ⟨sound, by simpa [setHead] using m.sized, by simpa [setHead] using m.narrow, fun other bound => ?_,
    fun other => ?_, fun q n node => ?_, ?_, fun other x member => ?_⟩
  · rw [row']
    have bound : other.toNat < r.heads.size := by simpa [setHead] using bound
    split
    · next same =>
      subst same
      refine ⟨last, ?_⟩
      simpa [head, setHead, inside] using chain
    · next differ =>
      obtain ⟨last, seg⟩ := m.chained other bound
      have unmoved : ({ r with pool, nextSerial := serial }.setHead slot h).head other = r.head other := by
        have : slot.toNat ≠ other.toNat := fun e => differ (UInt32.toNat_inj.mp e.symm)
        simp [head, setHead, this]
      rw [unmoved]
      exact ⟨last, apart.segment differ seg⟩
  · rw [row']
    split
    · exact distinct
    · exact m.distinct other
  · rw [row']
    split
    · next same => exact own q n node same
    · next differ => exact m.owned q n ((apart q n differ).mp node)
  · have := lengthSet inside' row
    have := m.counted
    simp only [setHead]
    omega
  · rw [row'] at member
    split at member
    · exact fresh x member
    · exact Nat.lt_of_lt_of_le (m.fresh other x member) later

theorem bodyModifyIf {pool : Pool Node} (sound : pool.Sound) (q : NodePtr) {f : Node → Node}
    (keeps : ∀ n, (f n).body = n.body) (r : NodePtr) :
    ((if q.isValid then pool.modify q f else pool).get? r).map Node.body = (pool.get? r).map Node.body := by
  rw [getModifyIf sound]
  split
  · simp [Option.map_map, Function.comp_def, keeps]
  · rfl

structure Kept (r r' : Registry) : Prop where
  enabled : r'.enabled = r.enabled
  initialEntries : r'.initialEntries = r.initialEntries
  slots : r'.slots = r.slots
  attached : r'.attached = r.attached
  capacity : r'.pool.capacity = r.pool.capacity

theorem newOk {c : Config} {r : Registry} (made : new c = .ok r) : c.validate = .ok () ∧ r = {
    enabled := c.enabled
    initialEntries := c.initialEntries
    heads := Array.replicate (if c.enabled then c.maxBackends else 0) .nil
    slots := c.maxBackends
    pool := .withCapacity (if c.enabled then c.poolNodes else 0)
    nextSerial := 1 } := by
  unfold new at made
  cases valid : c.validate with
  | error fault =>
    rw [valid] at made
    contradiction
  | ok u =>
    rw [valid] at made
    cases made
    exact ⟨rfl, rfl⟩

theorem rowOfReplicate (n : Nat) (slot : UInt32) : rowOf (List.replicate n []) slot = [] := by
  simp only [rowOf, List.getElem?_replicate]
  split <;> rfl

theorem newMirrors {c : Config} {r : Registry} (made : new c = .ok r) :
    r.Mirrors (List.replicate r.heads.size []) := by
  obtain ⟨valid, made⟩ := newOk made
  obtain ⟨-, narrow, -⟩ := Config.validateOk.mp valid
  have few : r.heads.size ≤ c.maxBackends := by
    rw [made, Array.size_replicate]
    split <;> omega
  have nothing := rowOfReplicate r.heads.size
  have vacant (q : NodePtr) : r.pool.get? q = none := by
    simp [made, Pool.withCapacity, Pool.get?]
  refine ⟨made ▸ Pool.newSound _, List.length_replicate, by omega, fun slot inside => ⟨.nil, ?_⟩, fun slot => ?_,
    fun q n found => ?_, by simp [made, Pool.withCapacity], fun slot x member => ?_⟩
  · rw [nothing]
    refine ⟨rfl, ?_⟩
    rw [made] at inside ⊢
    rw [Array.size_replicate] at inside
    simp [head, inside]
  · simp [nothing, Listing.ptrs]
  · rw [vacant] at found
    contradiction
  · simp [nothing] at member

section Operations

variable {r : Registry} {lists : List Listing} {slot : UInt32}

theorem rowInside (m : r.Mirrors lists) (slot : UInt32) : (rowOf lists slot).length ≤ r.pool.capacity := by
  have := rowLength lists slot
  have := m.counted
  have := Pool.inUseBound m.sound
  omega

theorem ptrsInside (m : r.Mirrors lists) (slot : UInt32) : (rowOf lists slot).ptrs.length ≤ r.pool.capacity := by
  rw [Listing.ptrs, List.length_map]
  exact rowInside m slot

theorem headVacant (m : r.Mirrors lists) (inside : slot.toNat < r.heads.size) {q : NodePtr}
    (vacant : r.pool.get? q = none) (valid : q.isValid = true) : r.head slot ≠ q := by
  obtain ⟨last, seg⟩ := m.chained slot inside
  rintro rfl
  cases row : rowOf lists slot with
  | nil =>
    rw [row] at seg
    simp [NodePtr.isValid, seg.2] at valid
  | cons x xs =>
    rw [row] at seg
    obtain ⟨here, next, node, -⟩ := seg
    rw [vacant] at node
    contradiction

theorem vacantUnlisted (m : r.Mirrors lists) (inside : slot.toNat < r.heads.size) {q : NodePtr}
    (vacant : r.pool.get? q = none) : q ∉ (rowOf lists slot).ptrs := by
  obtain ⟨last, seg⟩ := m.chained slot inside
  intro member
  obtain ⟨n, found, -⟩ := segmentPtr seg member
  rw [vacant] at found
  contradiction

theorem headOwn (m : r.Mirrors lists) (inside : slot.toNat < r.heads.size) {n : Node}
    (found : r.pool.get? (r.head slot) = some n) : n.owner = slot := by
  obtain ⟨last, seg⟩ := m.chained slot inside
  cases row : rowOf lists slot with
  | nil =>
    rw [row] at seg
    rw [seg.2, Pool.getNil m.sound] at found
    contradiction
  | cons x xs =>
    rw [row] at seg
    obtain ⟨here, next, node, -⟩ := seg
    rw [node] at found
    cases found
    rfl

theorem ownedBody (m : r.Mirrors lists) {q : NodePtr} {n : Node}
    (body : (r.pool.get? q).map Node.body = some n.body) (owner : n.owner = slot) :
    (⟨q, n.serial⟩, n.entry) ∈ rowOf lists slot := by
  obtain ⟨n', found, same⟩ := Option.map_eq_some_iff.mp body
  simp only [Node.body, Prod.mk.injEq] at same
  have listed := m.owned q n' found
  rwa [same.1, same.2.1, same.2.2, owner] at listed

theorem linkFull (m : r.Mirrors lists) (full : r.pool.inUse = r.pool.capacity) (entry : PendingFile) :
    r.link slot entry = (.error (.outOfMemory slot r.pool.capacity), { r with nextSerial := r.nextSerial + 1 }) := by
  simp only [link, (Pool.allocateEqNone m.sound _).mpr full]

theorem spentMirrors (m : r.Mirrors lists) : ({ r with nextSerial := r.nextSerial + 1 } : Registry).Mirrors lists :=
  { m with fresh := fun slot x member => Nat.lt_succ_of_lt (m.fresh slot x member) }

theorem prepend (m : r.Mirrors lists) (inside : slot.toNat < r.heads.size) {entry : PendingFile} {p : NodePtr}
    {pool : Pool Node} (placed : r.pool.allocate ⟨entry, slot, r.nextSerial, .nil, r.head slot⟩ = some (p, pool)) :
    p.isValid = true ∧ ({ r with
      pool := if (r.head slot).isValid then pool.modify (r.head slot) ({ · with prev := p }) else pool
      nextSerial := r.nextSerial + 1 }.setHead slot p).Mirrors
        (lists.set slot.toNat ((⟨p, r.nextSerial⟩, entry) :: rowOf lists slot)) := by
  have taken := Pool.allocated m.sound placed
  have here := taken.get p
  rw [if_pos rfl] at here
  have valid := Pool.occupiedValid taken.sound here
  have differ := headVacant m inside taken.vacant valid
  have unlisted := vacantUnlisted m inside taken.vacant
  have others : ∀ q ∈ (rowOf lists slot).ptrs, pool.get? q = r.pool.get? q := by
    intro q member
    rw [taken.get, if_neg fun (same : p = q) => unlisted (same ▸ member)]
  have own : ∀ n, pool.get? (r.head slot) = some n → n.owner = slot := by
    intro n found
    rw [taken.get, if_neg differ.symm] at found
    exact headOwn m inside found
  have apart : Apart slot r.pool pool := by
    refine apartAt p (fun q other => by rw [taken.get, if_neg other]) (fun n found => ?_) fun n found => ?_
    · rw [taken.vacant] at found
      contradiction
    · rw [here] at found
      cases found
      rfl
  obtain ⟨last, seg⟩ := m.chained slot inside
  obtain ⟨last, seg⟩ := relinkFront (segmentFrame seg others) (m.distinct slot) p
    fun q => getModifyIf taken.sound (r.head slot) q _
  refine ⟨valid, replaceRow m inside (modifyIfSound taken.sound _ _)
    (apart.trans (apartModify taken.sound _ _ (fun n => rfl) own)) ⟨rfl, r.head slot, ?_, seg⟩
    (List.nodup_cons.mpr ⟨unlisted, m.distinct slot⟩) (fun q n found owner => ?_) ?_
    (fun x member => ?_) (Nat.le_succ _)⟩
  · rw [getModifyIf taken.sound, if_neg differ, here]
  · have body := bodyModifyIf taken.sound (r.head slot) (f := ({ · with prev := p })) (fun n => rfl) q
    rw [found, taken.get] at body
    split at body
    · next same =>
      subst same
      simp only [Option.map_some, Node.body, Option.some.injEq, Prod.mk.injEq] at body
      rw [body.1, body.2.2]
      exact List.mem_cons_self
    · exact List.mem_cons_of_mem _ (ownedBody m body.symm owner)
  · have more := taken.inUse
    rw [List.length_cons]
    split
    · simp only [Pool.modify]; omega
    · omega
  · rcases List.mem_cons.mp member with rfl | member
    · exact Nat.lt_succ_self _
    · exact Nat.lt_succ_of_lt (m.fresh slot x member)

theorem linkRoom (m : r.Mirrors lists) (inside : slot.toNat < r.heads.size) (room : r.pool.inUse ≠ r.pool.capacity)
    (entry : PendingFile) : ∃ p r', r.link slot entry = (.ok ⟨p, r.nextSerial⟩, r') ∧ p.isValid = true ∧ Kept r r' ∧
      r'.nextSerial = r.nextSerial + 1 ∧
      r'.Mirrors (lists.set slot.toNat ((⟨p, r.nextSerial⟩, entry) :: rowOf lists slot)) := by
  obtain ⟨⟨p, pool⟩, placed⟩ := Option.ne_none_iff_exists'.mp
    (mt (Pool.allocateEqNone m.sound ⟨entry, slot, r.nextSerial, .nil, r.head slot⟩).mp room)
  obtain ⟨valid, mirrors⟩ := prepend m inside placed
  have capacity := (Pool.allocated m.sound placed).capacity
  have linked : r.link slot entry = (.ok ⟨p, r.nextSerial⟩, { r with
      pool := if (r.head slot).isValid then pool.modify (r.head slot) ({ · with prev := p }) else pool
      nextSerial := r.nextSerial + 1 }.setHead slot p) := by
    simp only [link]
    rw [show ({ r with nextSerial := r.nextSerial + 1 } : Registry).head slot = r.head slot from rfl, placed]
  refine ⟨p, _, linked, valid, ⟨rfl, rfl, rfl, rfl, ?_⟩, rfl, mirrors⟩
  simp only [setHead]
  split
  · exact capacity
  · exact capacity

def passedOver (pool : Pool Node) (n : Node) : Pool Node :=
  let pool := if n.next.isValid then pool.modify n.next ({ · with prev := n.prev }) else pool
  if n.prev.isValid then pool.modify n.prev ({ · with next := n.next }) else pool

theorem unlinkEq {t : Token} {n n' : Node} {pool : Pool Node} (inside : slot.toNat < r.heads.size)
    (found : r.pool.get? t.ptr = some n) (same : n.serial = t.serial ∧ n.owner = slot)
    (released : (passedOver r.pool n).release t.ptr = some (n', pool)) :
    r.unlink slot t = { r with pool }.setHead slot (if n.prev.isValid then r.head slot else n.next) := by
  have unmoved : ∀ r' : Registry, slot.toNat < r'.heads.size → r'.setHead slot (r'.head slot) = r' := by
    intro r' inside
    have unmoved : r'.heads.setIfInBounds slot.toNat (r'.head slot) = r'.heads := by
      simp [head, Array.setIfInBounds_def, inside]
    simp only [setHead, unmoved]
  simp only [unlink, found, if_pos same]
  simp only [passedOver] at released
  by_cases first : n.prev.isValid = true
  · simp only [if_pos first] at released ⊢
    rw [released]
    exact (unmoved { r with pool } inside).symm
  · simp only [if_neg first] at released ⊢
    simp only [setHead, released]

theorem passedOverSound {pool : Pool Node} (sound : pool.Sound) (n : Node) : (passedOver pool n).Sound :=
  modifyIfSound (modifyIfSound sound _ _) _ _

theorem passedOverBody {pool : Pool Node} (sound : pool.Sound) (n : Node) (q : NodePtr) :
    ((passedOver pool n).get? q).map Node.body = (pool.get? q).map Node.body := by
  have back := bodyModifyIf sound n.next (f := ({ · with prev := n.prev })) (fun n => rfl) q
  have front := bodyModifyIf (modifyIfSound sound n.next ({ · with prev := n.prev })) n.prev
    (f := ({ · with next := n.next })) (fun n => rfl) q
  exact front.trans back

theorem passedOverCounts (pool : Pool Node) (n : Node) :
    (passedOver pool n).inUse = pool.inUse ∧ (passedOver pool n).capacity = pool.capacity := by
  unfold passedOver
  split <;> split <;> exact ⟨rfl, rfl⟩

theorem passedOverSegment {pool : Pool Node} {t : Token} {e : PendingFile} {n : Node} {xs ys : Listing}
    {h last : NodePtr} (sound : pool.Sound) (seg : Segment pool slot .nil h (xs ++ (t, e) :: ys) last .nil)
    (distinct : (xs ++ (t, e) :: ys).ptrs.Nodup) (found : pool.get? t.ptr = some n) :
    ∃ last, Segment (passedOver pool n) slot .nil (if n.prev.isValid then h else n.next) (xs ++ ys) last .nil := by
  obtain ⟨m, p, front, rfl, next, node, back⟩ := segmentAppend.mp seg
  rw [found] at node
  cases node
  simp only [Listing.ptrs, List.map_append, List.map_cons] at distinct
  obtain ⟨distinctFront, distinctBack, apart⟩ := List.nodup_append.mp distinct
  have distinctBack := (List.nodup_cons.mp distinctBack).2
  have valid {q : NodePtr} (member : q ∈ xs.ptrs) : q.isValid = true := by
    obtain ⟨n, node, -⟩ := segmentPtr front member
    exact Pool.occupiedValid sound node
  -- the node behind points back to the one before
  have get (q : NodePtr) := getModifyIf sound next q ({ · with prev := m })
  have behind : ∀ q ∈ xs.ptrs, next ≠ q := by
    rintro q member rfl
    rcases segmentFirst back with none | listed
    · subst none
      exact absurd (valid member) (by decide)
    · exact apart next member next (List.mem_cons_of_mem _ listed) rfl
  have front := segmentFrame front fun q member => (get q).trans (if_neg (behind q member))
  obtain ⟨last, back⟩ := relinkFront back distinctBack m get
  -- and the node before, or the head, leads on to the one behind
  unfold passedOver
  cases xs with
  | nil =>
    obtain ⟨rfl, -⟩ := front
    exact ⟨last, back⟩
  | cons x xs =>
    have before := segmentLast front (by simp)
    simp only [if_pos (valid before)]
    have get (q : NodePtr) := Pool.getModify (if next.isValid then pool.modify next ({ · with prev := m }) else pool)
      m q ({ · with next })
    have front := relinkBack front (by simp) distinctFront next get
    have back := segmentFrame back fun q member => (get q).trans
      (if_neg fun same => apart m before q (List.mem_cons_of_mem _ member) same)
    exact ⟨last, segmentAppend.mpr ⟨m, next, front, back⟩⟩

theorem neighboursOwn {pool : Pool Node} {t : Token} {e : PendingFile} {n : Node} {xs ys : Listing}
    {h last : NodePtr} (sound : pool.Sound) (seg : Segment pool slot .nil h (xs ++ (t, e) :: ys) last .nil)
    (found : pool.get? t.ptr = some n) :
    (∀ n', pool.get? n.prev = some n' → n'.owner = slot) ∧ ∀ n', pool.get? n.next = some n' → n'.owner = slot := by
  obtain ⟨m, p, front, rfl, next, node, back⟩ := segmentAppend.mp seg
  rw [found] at node
  cases node
  have own {q : NodePtr} {zs : Listing} {a b c d} (seg : Segment pool slot a b zs c d) (place : q = .nil ∨ q ∈ zs.ptrs)
      (n' : Node) (found : pool.get? q = some n') : n'.owner = slot := by
    rcases place with rfl | listed
    · rw [Pool.getNil sound] at found
      contradiction
    · obtain ⟨n, node, owner⟩ := segmentPtr seg listed
      rw [found] at node
      cases node
      exact owner
  refine ⟨own front ?_, own back (segmentFirst back)⟩
  cases xs with
  | nil => exact .inl front.1.symm
  | cons x xs => exact .inr (segmentLast front (by simp))

theorem passedOverApart {pool : Pool Node} {n : Node} (sound : pool.Sound)
    (before : ∀ n', pool.get? n.prev = some n' → n'.owner = slot)
    (behind : ∀ n', pool.get? n.next = some n' → n'.owner = slot) : Apart slot pool (passedOver pool n) := by
  refine (apartModify sound n.next ({ · with prev := n.prev }) (fun _ => rfl) behind).trans
    (apartModify (modifyIfSound sound _ _) n.prev ({ · with next := n.next }) (fun _ => rfl) fun n' found => ?_)
  have body := bodyModifyIf sound n.next (f := ({ · with prev := n.prev })) (fun n => rfl) n.prev
  rw [found] at body
  obtain ⟨n0, found, same⟩ := Option.map_eq_some_iff.mp body.symm
  simp only [Node.body, Prod.mk.injEq] at same
  rw [← same.2.1]
  exact before n0 found

theorem tokenListed (m : r.Mirrors lists) (inside : slot.toNat < r.heads.size) {t : Token} {n : Node}
    (found : r.pool.get? t.ptr = some n) :
    (n.serial = t.serial ∧ n.owner = slot) ↔ ∃ x ∈ rowOf lists slot, x.1 = t := by
  constructor
  · rintro ⟨serial, rfl⟩
    exact ⟨_, m.owned t.ptr n found, serial ▸ rfl⟩
  · rintro ⟨x, member, rfl⟩
    obtain ⟨last, seg⟩ := m.chained slot inside
    obtain ⟨before, after, node⟩ := segmentNode seg member
    rw [found] at node
    cases node
    exact ⟨rfl, rfl⟩

theorem listedValid (m : r.Mirrors lists) (inside : slot.toNat < r.heads.size) {x : Token × PendingFile}
    (member : x ∈ rowOf lists slot) : x.1.isValid = true := by
  obtain ⟨last, seg⟩ := m.chained slot inside
  obtain ⟨before, after, node⟩ := segmentNode seg member
  exact Pool.occupiedValid m.sound node

theorem unlinkAbsent (m : r.Mirrors lists) (inside : slot.toNat < r.heads.size) {t : Token}
    (absent : ∀ x ∈ rowOf lists slot, x.1 ≠ t) : r.unlink slot t = r := by
  unfold unlink
  split
  · rfl
  · next n found =>
    rw [if_neg]
    intro matching
    obtain ⟨x, member, same⟩ := (tokenListed m inside found).mp matching
    exact absent x member same

theorem unlinkListed (m : r.Mirrors lists) (inside : slot.toNat < r.heads.size) {t : Token} {e : PendingFile}
    {xs ys : Listing} (split : rowOf lists slot = xs ++ (t, e) :: ys) :
    Kept r (r.unlink slot t) ∧ (r.unlink slot t).nextSerial = r.nextSerial ∧
      (r.unlink slot t).Mirrors (lists.set slot.toNat (xs ++ ys)) := by
  obtain ⟨last, seg⟩ := m.chained slot inside
  obtain ⟨before, after, found⟩ := segmentNode seg (x := (t, e)) (by simp [split])
  have distinct := m.distinct slot
  rw [split] at seg distinct
  have body := passedOverBody m.sound ⟨e, slot, t.serial, before, after⟩
  obtain ⟨n, here, same⟩ := Option.map_eq_some_iff.mp ((body t.ptr).trans (by rw [found]; rfl))
  obtain ⟨pool, out, gone⟩ := Pool.released (passedOverSound m.sound _) here
  have counts := passedOverCounts r.pool ⟨e, slot, t.serial, before, after⟩
  have own := neighboursOwn m.sound seg found
  have apart : Apart slot r.pool pool := by
    refine (passedOverApart m.sound own.1 own.2).trans (apartAt t.ptr (fun q other => (gone.get q).trans (if_neg other))
      (fun n' found => ?_) fun n' found => ?_)
    · rw [here] at found
      cases found
      simp only [Node.body, Prod.mk.injEq] at same
      exact same.2.1
    · rw [gone.get, if_pos rfl] at found
      contradiction
  obtain ⟨last, seg⟩ := passedOverSegment m.sound seg distinct found
  obtain ⟨absent, distinct⟩ := Listing.nodupMiddle.mp distinct
  have seg := segmentFrame seg fun q member =>
    (gone.get q).trans (if_neg fun (same : t.ptr = q) => absent (same ▸ member))
  rw [unlinkEq inside found ⟨rfl, rfl⟩ out]
  refine ⟨⟨rfl, rfl, rfl, rfl, gone.capacity.trans counts.2⟩, rfl,
    replaceRow m inside gone.sound apart seg distinct (fun q n' found owner => ?_) ?_ (fun x member => ?_)
    (Nat.le_refl _)⟩
  · rw [gone.get] at found
    split at found <;> try contradiction
    next other =>
      have body := body q
      rw [found] at body
      have listed := ownedBody m body.symm owner
      rw [split] at listed
      rcases List.mem_cons.mp (List.perm_middle.mem_iff.mp listed) with this | rest
      · cases this
        exact absurd rfl other
      · exact rest
  · have := gone.inUse
    rw [split]
    simp only [List.length_append, List.length_cons]
    omega
  · refine m.fresh slot x ?_
    rw [split]
    exact List.perm_middle.mem_iff.mpr (List.mem_cons_of_mem _ member)

structure Cleared (pool pool' : Pool Node) (row : Listing) : Prop where
  sound : pool'.Sound
  capacity : pool'.capacity = pool.capacity
  inUse : pool'.inUse + row.length = pool.inUse
  get : ∀ q, pool'.get? q = if q ∈ row.ptrs then none else pool.get? q

inductive Sweep : Pool Node → NodePtr → List NodePtr → Pool Node → Prop where
  | ends {pool p} (missing : pool.release p = none) : Sweep pool p [] pool
  | frees {pool pool' pool'' p n qs} (freed : pool.release p = some (n, pool')) (rest : Sweep pool' n.next qs pool'') :
      Sweep pool p (p :: qs) pool''

theorem Sweep.releases {pool pool' : Pool Node} {p : NodePtr} {qs : List NodePtr} (sweep : Sweep pool p qs pool')
    {fuel : Nat} (enough : qs.length ≤ fuel) : releaseFrom pool fuel p = (qs.length, pool') := by
  induction sweep generalizing fuel with
  | ends missing => cases fuel <;> simp [releaseFrom, missing]
  | frees freed rest ih =>
    cases fuel with
    | zero => simp at enough
    | succ fuel => simp only [releaseFrom, freed, ih (by simpa using enough), List.length_cons]

theorem segmentSweep {pool : Pool Node} (sound : pool.Sound) {prev p last : NodePtr} {row : Listing}
    (seg : Segment pool slot prev p row last .nil) (distinct : row.ptrs.Nodup) :
    ∃ pool', Sweep pool p row.ptrs pool' ∧ Cleared pool pool' row := by
  induction row generalizing pool prev p with
  | nil =>
    obtain ⟨-, rfl⟩ := seg
    exact ⟨pool, .ends (Pool.releaseVacant (Pool.getNil sound)), sound, rfl, rfl, fun q => by simp [Listing.ptrs]⟩
  | cons x row ih =>
    obtain ⟨rfl, next, node, rest⟩ := seg
    obtain ⟨fresh, distinct⟩ := Listing.nodupCons.mp distinct
    obtain ⟨pool', out, gone⟩ := Pool.released sound node
    have rest := segmentFrame rest fun q member =>
      (gone.get q).trans (if_neg fun (same : x.1.ptr = q) => fresh (same ▸ member))
    obtain ⟨pool'', sweep, cleared⟩ := ih gone.sound rest distinct
    refine ⟨pool'', .frees out sweep, cleared.sound, cleared.capacity.trans gone.capacity, ?_, fun q => ?_⟩
    · have := cleared.inUse
      have := gone.inUse
      rw [List.length_cons]
      omega
    · rw [cleared.get, gone.get]
      by_cases here : x.1.ptr = q
      · simp [here, Listing.memPtrsCons]
      · simp [here, Ne.symm here, Listing.memPtrsCons]

theorem clearedRow (m : r.Mirrors lists) (inside : slot.toNat < r.heads.size) :
    ∃ r', r.clear slot = ((rowOf lists slot).length, r') ∧ Kept r r' ∧ r'.nextSerial = r.nextSerial ∧
      r'.Mirrors (lists.set slot.toNat []) := by
  obtain ⟨last, seg⟩ := m.chained slot inside
  obtain ⟨pool, sweep, cleared⟩ := segmentSweep m.sound seg (m.distinct slot)
  have out := sweep.releases (ptrsInside m slot)
  rw [Listing.ptrs, List.length_map] at out
  have listed {q : NodePtr} {n : Node} (found : r.pool.get? q = some n) (own : n.owner = slot) :
      q ∈ (rowOf lists slot).ptrs := own ▸ Listing.memPtrs (m.owned q n found)
  have apart : Apart slot r.pool pool := by
    intro q n other
    rw [cleared.get]
    split
    · next member =>
      obtain ⟨n', found, owner⟩ := segmentPtr seg member
      rw [found]
      simp only [reduceCtorEq, Option.some.injEq, false_iff]
      rintro rfl
      exact other owner
    · rfl
  have chain : Segment pool slot .nil .nil [] .nil .nil := ⟨rfl, rfl⟩
  refine ⟨{ r with pool }.setHead slot .nil, by simp only [clear, out],
    ⟨rfl, rfl, rfl, rfl, cleared.capacity⟩, rfl, replaceRow m inside cleared.sound apart chain .nil
    (fun q n found own => ?_) ?_ (fun x member => by contradiction) (Nat.le_refl _)⟩
  · rw [cleared.get] at found
    split at found <;> try contradiction
    next unlisted => exact absurd (listed found own) unlisted
  · rw [List.length_nil]
    exact cleared.inUse

theorem nodesListed (m : r.Mirrors lists) (inside : slot.toNat < r.heads.size) :
    (r.nodes (r.head slot)).map Node.entry = (rowOf lists slot).map Prod.snd := by
  obtain ⟨last, seg⟩ := m.chained slot inside
  exact nodesOfSegment m.sound seg (rowInside m slot)

theorem slotNumber (m : r.Mirrors lists) {i : Nat} (inside : i < r.heads.size) : (UInt32.ofNat i).toNat = i :=
  UInt32.toNat_ofNat_of_lt' (Nat.lt_trans inside m.narrow)

theorem entriesListed (m : r.Mirrors lists) : r.entries = lists.flatten.map Prod.snd := by
  rw [entries, List.flatMap_def, List.map_flatten]
  congr 1
  refine List.ext_getElem (by simp [m.sized]) fun i inHeads inLists => ?_
  have inside : i < r.heads.size := by simpa using inHeads
  have place := slotNumber m inside
  have listed := @nodesListed r lists (UInt32.ofNat i) m (by rwa [place])
  rw [head, rowOf, place] at listed
  simpa [inside, show i < lists.length from m.sized ▸ inside] using listed

theorem entriesFew (m : r.Mirrors lists) : r.entries.length < 0x100000000 := by
  have := m.counted
  have := Pool.inUseBound m.sound
  have := r.pool.bound
  rw [entriesListed m, List.length_map]
  omega

theorem dumpEq (on : r.enabled = true) :
    r.dump = (r.entries.foldlM Snapshot.Buffer.push (.withStep r.initialEntries)).map
      fun out => if out.entries.isEmpty then none else some out := by
  unfold dump
  rw [if_pos on]
  rfl

theorem dumpLists (on : r.enabled = true) {snapshot : Option Snapshot.Buffer} (dumped : r.dump = .ok snapshot) :
    r.entries = [] ∧ snapshot = none ∨ r.entries ≠ [] ∧ ∃ b, snapshot = some b ∧ b.entries.toList = r.entries := by
  rw [dumpEq on] at dumped
  cases filled : r.entries.foldlM Snapshot.Buffer.push (.withStep r.initialEntries) with
  | error failure =>
    rw [filled] at dumped
    contradiction
  | ok out =>
    have all : out.entries.toList = r.entries := Snapshot.Buffer.fillKeeps filled
    rw [filled] at dumped
    cases dumped
    dsimp only
    rw [← all]
    split
    · next none => exact .inl ⟨by simpa using none, rfl⟩
    · next some => exact .inr ⟨by simpa using some, out, rfl, rfl⟩

end Operations

end Registry
end OrphanFiles
