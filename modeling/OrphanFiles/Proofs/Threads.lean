import OrphanFiles.Proofs.RegistryLists

/-!
The shape of the lists in the pool.  In every registry that comes about, the links of each slot thread some nodes of its
own one after the other, no node is left over, and no serial number stands twice; so whatever goes along a list comes to
its end, and meets each of its nodes once.  The serial numbers have no bound here; a counter of 64 bits gives out the
same ones until it has come round.
-/
namespace OrphanFiles.Registry

def Hosts (r : Registry) (b : Backend) : Prop := ∀ slot, b.slot = some slot → slot.toNat < r.slots

/- The registries that come about by calls of any processes in any order, whether or not they hold their slots at the
time.  A list may also be cleared while its process goes on. -/
inductive Arises (c : Config) : Registry → Prop where
  | made {r} (made : new c = .ok r) : Arises c r
  | attached {r r' b id} (before : Arises c r) (taken : r.attach id = .ok (b, r')) : Arises c r'
  | added {r b} (before : Arises c r) (hosts : r.Hosts b) (file : RelFile) (xid : Xid) : Arises c (r.add b file xid).2
  | removed {r b} (before : Arises c r) (hosts : r.Hosts b) (t : Token) : Arises c (r.remove b t)
  | detached {r b} (before : Arises c r) (hosts : r.Hosts b) : Arises c (r.detach b).2
  | cleared {r} (before : Arises c r) (slot : UInt32) : Arises c (r.clear slot).2

def Chain (pool : Pool Node) (owner : UInt32) : NodePtr → NodePtr → List NodePtr → Prop
  | _, p, [] => p = .nil
  | prev, p, q :: qs => p = q ∧ ∃ n, pool.get? q = some n ∧ n.owner = owner ∧ n.prev = prev ∧
      Chain pool owner q n.next qs

/- Going along the links from a place, as far as there are nodes: the places that are met, and where there is no node
any more.  If that is not the end of the list, the list is broken off. -/
inductive Walk (pool : Pool Node) : NodePtr → List NodePtr → NodePtr → Prop where
  | ends {p} (missing : pool.get? p = none) : Walk pool p [] p
  | meets {p n qs stop} (found : pool.get? p = some n) (rest : Walk pool n.next qs stop) : Walk pool p (p :: qs) stop

structure Threads (r : Registry) (chain : UInt32 → List NodePtr) : Prop where
  narrow : r.heads.size < 0x100000000
  linked : ∀ slot, slot.toNat < r.heads.size → Chain r.pool slot .nil (r.head slot) (chain slot)
  acyclic : ∀ slot, slot.toNat < r.heads.size → (chain slot).Nodup
  disjoint : ∀ slot other, slot.toNat < r.heads.size → other.toNat < r.heads.size → slot ≠ other →
    (chain slot).Disjoint (chain other)
  occupied : ∀ q, (r.pool.get? q).isSome = true ↔ ∃ slot : UInt32, slot.toNat < r.heads.size ∧ q ∈ chain slot
  serials : ∀ q q' n n', r.pool.get? q = some n → r.pool.get? q' = some n' → n.serial = n'.serial → q = q'
  below : ∀ q n, r.pool.get? q = some n → n.serial < r.nextSerial
  walks : ∀ slot, slot.toNat < r.heads.size →
    ∀ qs stop, Walk r.pool (r.head slot) qs stop ↔ qs = chain slot ∧ stop = .nil
  listed : ∀ slot, slot.toNat < r.heads.size → (r.nodes (r.head slot)).map some = (chain slot).map r.pool.get?
  length : ∀ slot, slot.toNat < r.heads.size → r.pendingLen ⟨some slot⟩ = (chain slot).length
  dumped : r.entries.map some = (List.range r.heads.size).flatMap fun i =>
    (chain (.ofNat i)).map fun q => (r.pool.get? q).map Node.entry
  swept : ∀ slot, slot.toNat < r.heads.size → ∃ pool,
    (∀ qs pool', Sweep r.pool (r.head slot) qs pool' ↔ qs = chain slot ∧ pool' = pool) ∧
    r.clear slot = ((chain slot).length, { r with pool }.setHead slot .nil)

section Walks

variable {pool : Pool Node} {owner : UInt32} {prev p last : NodePtr} {qs : List NodePtr} {row : Listing}

theorem segmentChain (seg : Segment pool owner prev p row last .nil) : Chain pool owner prev p row.ptrs := by
  induction row generalizing prev p with
  | nil => exact seg.2
  | cons x row ih =>
    obtain ⟨rfl, next, node, rest⟩ := seg
    exact ⟨rfl, _, node, rfl, rfl, ih rest⟩

theorem chainWalk (sound : pool.Sound) (chain : Chain pool owner prev p qs) : Walk pool p qs .nil := by
  induction qs generalizing prev p with
  | nil =>
    obtain rfl := chain
    exact .ends (Pool.getNil sound)
  | cons q qs ih =>
    obtain ⟨rfl, n, node, -, -, rest⟩ := chain
    exact .meets node (ih rest)

theorem Walk.unique {qs' : List NodePtr} {stop stop' : NodePtr} (walk : Walk pool p qs stop)
    (other : Walk pool p qs' stop') : qs' = qs ∧ stop' = stop := by
  induction walk generalizing qs' stop' with
  | ends missing =>
    cases other with
    | ends => exact ⟨rfl, rfl⟩
    | meets found =>
      rw [missing] at found
      contradiction
  | meets found rest ih =>
    cases other with
    | ends missing =>
      rw [missing] at found
      contradiction
    | meets found' rest' =>
      rw [found] at found'
      cases found'
      obtain ⟨rfl, rfl⟩ := ih rest'
      exact ⟨rfl, rfl⟩

theorem Walk.nodes {stop : NodePtr} (walk : Walk pool p qs stop) {fuel : Nat} (enough : qs.length ≤ fuel) :
    (nodesFrom pool fuel p).map some = qs.map pool.get? := by
  induction walk generalizing fuel with
  | ends missing => cases fuel <;> simp [nodesFrom, missing]
  | meets found rest ih =>
    cases fuel with
    | zero => simp at enough
    | succ fuel => simp only [nodesFrom, found, List.map_cons, ih (by simpa using enough)]

theorem Sweep.unique {qs' : List NodePtr} {pool' pool'' : Pool Node} (sweep : Sweep pool p qs pool')
    (other : Sweep pool p qs' pool'') : qs' = qs ∧ pool'' = pool' := by
  induction sweep generalizing qs' pool'' with
  | ends missing =>
    cases other with
    | ends => exact ⟨rfl, rfl⟩
    | frees freed =>
      rw [missing] at freed
      contradiction
  | frees freed rest ih =>
    cases other with
    | ends missing =>
      rw [missing] at freed
      contradiction
    | frees freed' rest' =>
      rw [freed] at freed'
      cases freed'
      obtain ⟨rfl, rfl⟩ := ih rest'
      exact ⟨rfl, rfl⟩

end Walks

def Distinct (lists : List Listing) : Prop := ∀ slot other, ∀ x ∈ rowOf lists slot, ∀ y ∈ rowOf lists other,
  x.1.serial = y.1.serial → x.1.ptr = y.1.ptr

structure Orderly (r : Registry) (lists : List Listing) : Prop where
  mirrors : r.Mirrors lists
  distinct : Distinct lists
  tracked : r.enabled = true → r.heads.size = r.slots
  untracked : r.enabled = false → r.heads.size = 0

section Shape

variable {r : Registry} {lists : List Listing} {slot : UInt32}

theorem rowPlace {x : Token × PendingFile} (m : r.Mirrors lists) (member : x ∈ rowOf lists slot) :
    slot.toNat < r.heads.size := by
  rw [← m.sized]
  refine Nat.lt_of_not_le fun outside => ?_
  rw [rowOf, List.getElem?_eq_none outside] at member
  contradiction

theorem rowChain (m : r.Mirrors lists) (inside : slot.toNat < r.heads.size) :
    Chain r.pool slot .nil (r.head slot) (rowOf lists slot).ptrs := by
  obtain ⟨last, seg⟩ := m.chained slot inside
  exact segmentChain seg

theorem rowNode (m : r.Mirrors lists) (inside : slot.toNat < r.heads.size) {q : NodePtr}
    (member : q ∈ (rowOf lists slot).ptrs) : ∃ n, r.pool.get? q = some n ∧ n.owner = slot := by
  obtain ⟨last, seg⟩ := m.chained slot inside
  exact segmentPtr seg member

theorem rowsDisjoint (m : r.Mirrors lists) {other : UInt32} (inside : slot.toNat < r.heads.size)
    (inside' : other.toNat < r.heads.size) (differ : slot ≠ other) :
    (rowOf lists slot).ptrs.Disjoint (rowOf lists other).ptrs := by
  intro q here there
  obtain ⟨n, found, owner⟩ := rowNode m inside here
  obtain ⟨n', found', owner'⟩ := rowNode m inside' there
  rw [found] at found'
  cases found'
  exact differ (owner.symm.trans owner')

theorem rowsOccupied (m : r.Mirrors lists) (q : NodePtr) : (r.pool.get? q).isSome = true ↔
    ∃ slot : UInt32, slot.toNat < r.heads.size ∧ q ∈ (rowOf lists slot).ptrs := by
  rw [Option.isSome_iff_exists]
  constructor
  · rintro ⟨n, found⟩
    have member := m.owned q n found
    exact ⟨n.owner, rowPlace m member, Listing.memPtrs member⟩
  · rintro ⟨slot, inside, member⟩
    obtain ⟨n, found, -⟩ := rowNode m inside member
    exact ⟨n, found⟩

theorem rowWalks (m : r.Mirrors lists) (inside : slot.toNat < r.heads.size) (qs : List NodePtr) (stop : NodePtr) :
    Walk r.pool (r.head slot) qs stop ↔ qs = (rowOf lists slot).ptrs ∧ stop = .nil := by
  have walk := chainWalk m.sound (rowChain m inside)
  refine ⟨walk.unique, ?_⟩
  rintro ⟨rfl, rfl⟩
  exact walk

theorem rowNodes (m : r.Mirrors lists) (inside : slot.toNat < r.heads.size) :
    (r.nodes (r.head slot)).map some = (rowOf lists slot).ptrs.map r.pool.get? :=
  (chainWalk m.sound (rowChain m inside)).nodes (ptrsInside m slot)

theorem rowSwept (m : r.Mirrors lists) (inside : slot.toNat < r.heads.size) : ∃ pool,
    (∀ qs pool', Sweep r.pool (r.head slot) qs pool' ↔ qs = (rowOf lists slot).ptrs ∧ pool' = pool) ∧
    r.clear slot = ((rowOf lists slot).ptrs.length, { r with pool }.setHead slot .nil) := by
  obtain ⟨last, seg⟩ := m.chained slot inside
  obtain ⟨pool, sweep, -⟩ := segmentSweep m.sound seg (m.distinct slot)
  refine ⟨pool, fun qs pool' => ⟨sweep.unique, ?_⟩, by rw [clear, sweep.releases (ptrsInside m slot)]⟩
  rintro ⟨rfl, rfl⟩
  exact sweep

theorem headsListed (m : r.Mirrors lists) :
    r.heads.toList = (List.range r.heads.size).map fun i => r.head (.ofNat i) := by
  refine List.ext_getElem (by simp) fun i listed _ => ?_
  have inside : i < r.heads.size := by simpa using listed
  rw [List.getElem_map, List.getElem_range, head, slotNumber m inside, Array.getElem?_eq_getElem inside]
  exact Array.getElem_toList inside

theorem rowsDumped (m : r.Mirrors lists) : r.entries.map some = (List.range r.heads.size).flatMap fun i =>
    (rowOf lists (.ofNat i)).ptrs.map fun q => (r.pool.get? q).map Node.entry := by
  rw [entries, headsListed m, List.flatMap_map, List.map_flatMap, List.flatMap_def, List.flatMap_def]
  congr 1
  refine List.map_congr_left fun i member => ?_
  have inside := List.mem_range.mp member
  have nodes := rowNodes m (by rwa [slotNumber m inside])
  have places := congrArg (List.map (Option.map Node.entry)) nodes
  simpa [List.map_map, Function.comp_def] using places

theorem Orderly.enabled (o : r.Orderly lists) (inside : slot.toNat < r.heads.size) : r.enabled = true := by
  rw [← Bool.not_eq_false]
  intro off
  rw [o.untracked off] at inside
  contradiction

theorem Orderly.length (o : r.Orderly lists) (inside : slot.toNat < r.heads.size) :
    r.pendingLen ⟨some slot⟩ = (rowOf lists slot).ptrs.length := by
  have length := congrArg List.length (rowNodes o.mirrors inside)
  rw [List.length_map, List.length_map] at length
  simp only [pendingLen, if_pos (o.enabled inside)]
  exact length

theorem Orderly.threads (o : r.Orderly lists) : r.Threads fun slot => (rowOf lists slot).ptrs where
  narrow := o.mirrors.narrow
  linked _ := rowChain o.mirrors
  acyclic slot _ := o.mirrors.distinct slot
  disjoint _ _ := rowsDisjoint o.mirrors
  occupied := rowsOccupied o.mirrors
  serials q q' n n' found found' := o.distinct _ _ _ (o.mirrors.owned q n found) _ (o.mirrors.owned q' n' found')
  below q n found := o.mirrors.fresh _ _ (o.mirrors.owned q n found)
  walks _ := rowWalks o.mirrors
  listed _ := rowNodes o.mirrors
  length _ := o.length
  dumped := rowsDumped o.mirrors
  swept _ := rowSwept o.mirrors

end Shape

section Calls

variable {c : Config} {r r' : Registry} {lists : List Listing} {slot : UInt32}

theorem distinctSet (m : r.Mirrors lists) (distinct : Distinct lists) (inside : slot.toNat < r.heads.size)
    {row : Listing} (old : ∀ x ∈ row, x ∈ rowOf lists slot ∨ x.1.serial = r.nextSerial)
    (single : ∀ x ∈ row, ∀ y ∈ row, x.1.serial = r.nextSerial → y.1.serial = r.nextSerial → x.1.ptr = y.1.ptr) :
    Distinct (lists.set slot.toNat row) := by
  have rows (other : UInt32) := rowOfSet lists slot other row (m.sized ▸ inside)
  have known (other : UInt32) (x : Token × PendingFile) (member : x ∈ rowOf (lists.set slot.toNat row) other) :
      x ∈ rowOf lists other ∨ (x ∈ row ∧ x.1.serial = r.nextSerial) := by
    rw [rows] at member
    split at member
    · next same =>
      subst same
      exact (old x member).imp id fun new => ⟨member, new⟩
    · exact .inl member
  intro one other x here y there same
  rcases known one x here with before | ⟨within, new⟩
  · have less := m.fresh one x before
    rcases known other y there with before' | ⟨-, new⟩
    · exact distinct one other x before y before' same
    · omega
  · rcases known other y there with before | ⟨within', new'⟩
    · have less := m.fresh other y before
      omega
    · exact single x within y within' new new'

theorem Orderly.relisted (o : r.Orderly lists) {row : Listing} (kept : Kept r r')
    (m : r'.Mirrors (lists.set slot.toNat row)) (distinct : Distinct (lists.set slot.toNat row)) :
    r'.Orderly (lists.set slot.toNat row) := by
  have size : r'.heads.size = r.heads.size := by rw [← m.sized, ← o.mirrors.sized, List.length_set]
  refine ⟨m, distinct, fun on => ?_, fun off => ?_⟩
  · rw [size, kept.slots]
    exact o.tracked (kept.enabled ▸ on)
  · rw [size]
    exact o.untracked (kept.enabled ▸ off)

theorem Orderly.thinned (o : r.Orderly lists) (inside : slot.toNat < r.heads.size) {row : Listing} (kept : Kept r r')
    (m : r'.Mirrors (lists.set slot.toNat row)) (part : row ⊆ rowOf lists slot) :
    r'.Orderly (lists.set slot.toNat row) := by
  refine o.relisted kept m (distinctSet o.mirrors o.distinct inside (fun x member => .inl (part member)) ?_)
  intro x member y _ new _
  exact absurd new (Nat.ne_of_lt (o.mirrors.fresh slot x (part member)))

theorem linkOrderly (o : r.Orderly lists) (inside : slot.toNat < r.heads.size) (entry : PendingFile) :
    ∃ lists', (r.link slot entry).2.Orderly lists' := by
  by_cases full : r.pool.inUse = r.pool.capacity
  · rw [linkFull o.mirrors full]
    exact ⟨lists, { o with mirrors := spentMirrors o.mirrors }⟩
  · obtain ⟨p, r', linked, -, kept, -, mirrors⟩ := linkRoom o.mirrors inside full entry
    rw [linked]
    have first {x : Token × PendingFile} (member : x ∈ (⟨p, r.nextSerial⟩, entry) :: rowOf lists slot)
        (new : x.1.serial = r.nextSerial) : x.1.ptr = p := by
      rcases List.mem_cons.mp member with rfl | old
      · rfl
      · exact absurd new (Nat.ne_of_lt (o.mirrors.fresh slot x old))
    refine ⟨_, o.relisted kept mirrors (distinctSet o.mirrors o.distinct inside (fun x member => ?_) ?_)⟩
    · rcases List.mem_cons.mp member with rfl | old
      · exact .inr rfl
      · exact .inl old
    · intro x member y member' new new'
      rw [first member new, first member' new']

theorem unlinkOrderly (o : r.Orderly lists) (inside : slot.toNat < r.heads.size) (t : Token) :
    ∃ lists', (r.unlink slot t).Orderly lists' := by
  by_cases listed : ∃ e, (t, e) ∈ rowOf lists slot
  · obtain ⟨e, member⟩ := listed
    obtain ⟨newer, older, split⟩ := List.append_of_mem member
    obtain ⟨kept, -, mirrors⟩ := unlinkListed o.mirrors inside split
    refine ⟨_, o.thinned inside kept mirrors fun x member => ?_⟩
    rw [split]
    exact List.perm_middle.mem_iff.mpr (List.mem_cons_of_mem _ member)
  · have absent : ∀ x ∈ rowOf lists slot, x.1 ≠ t := by
      rintro x member rfl
      exact listed ⟨x.2, member⟩
    rw [unlinkAbsent o.mirrors inside absent]
    exact ⟨lists, o⟩

theorem clearOutside (o : r.Orderly lists) (outside : r.heads.size ≤ slot.toNat) : (r.clear slot).2 = r := by
  have none : r.head slot = .nil := by simp [head, outside]
  have nothing : releaseFrom r.pool r.pool.capacity .nil = (0, r.pool) := by
    cases r.pool.capacity with
    | zero => rfl
    | succ fuel => rw [releaseFrom, Pool.releaseVacant (Pool.getNil o.mirrors.sound)]
  simp only [clear, none, nothing, setHead, Array.setIfInBounds_eq_of_size_le outside]

theorem clearOrderly (o : r.Orderly lists) (slot : UInt32) : ∃ lists', (r.clear slot).2.Orderly lists' := by
  rcases Nat.lt_or_ge slot.toNat r.heads.size with inside | outside
  · obtain ⟨r', cleared, kept, -, mirrors⟩ := clearedRow o.mirrors inside
    rw [cleared]
    exact ⟨_, o.thinned inside kept mirrors (List.nil_subset _)⟩
  · rw [clearOutside o outside]
    exact ⟨lists, o⟩

theorem hostsSeat : r.Hosts ⟨some slot⟩ ↔ slot.toNat < r.slots := by
  simp [Hosts]

theorem hostsInside (o : r.Orderly lists) (on : r.enabled = true) {b : Backend} (hosts : r.Hosts b)
    (seat : b.slot = some slot) : slot.toNat < r.heads.size := by
  rw [o.tracked on]
  exact hosts slot seat

theorem addOrderly (o : r.Orderly lists) {b : Backend} (hosts : r.Hosts b) (file : RelFile) (xid : Xid) :
    ∃ lists', (r.add b file xid).2.Orderly lists' := by
  unfold add
  split
  · exact ⟨lists, o⟩
  · next slot seat =>
    split
    · next both =>
      have on := (Bool.and_eq_true_iff.mp both).1
      exact linkOrderly o (hostsInside o on hosts seat) ⟨file, xid⟩
    · exact ⟨lists, o⟩

theorem removeOrderly (o : r.Orderly lists) {b : Backend} (hosts : r.Hosts b) (t : Token) :
    ∃ lists', (r.remove b t).Orderly lists' := by
  unfold remove
  split
  · exact ⟨lists, o⟩
  · next slot seat =>
    split
    · next both =>
      have on := (Bool.and_eq_true_iff.mp both).1
      exact unlinkOrderly o (hostsInside o on hosts seat) t
    · exact ⟨lists, o⟩

theorem Orderly.attaching (o : r.Orderly lists) (attached : List UInt32) : { r with attached }.Orderly lists :=
  { o with mirrors := { o.mirrors with } }

theorem detachOrderly (o : r.Orderly lists) (b : Backend) : ∃ lists', (r.detach b).2.Orderly lists' := by
  cases seat : b.slot with
  | none =>
    rw [detach, seat]
    exact ⟨lists, o⟩
  | some slot =>
    by_cases on : r.enabled = true
    · obtain ⟨lists', o'⟩ := clearOrderly o slot
      simp only [detach, seat, if_pos on]
      exact ⟨lists', o'.attaching _⟩
    · simp only [detach, seat, if_neg on]
      exact ⟨lists, o.attaching _⟩

theorem attachOrderly (o : r.Orderly lists) {b : Backend} {id : UInt32} (taken : r.attach id = .ok (b, r')) :
    r'.Orderly lists := by
  unfold attach at taken
  split at taken <;> try contradiction
  split at taken <;> try contradiction
  cases taken
  exact o.attaching _

theorem newOrderly (made : new c = .ok r) : r.Orderly (List.replicate r.heads.size []) := by
  refine ⟨newMirrors made, fun slot other x member => ?_, fun on => ?_, fun off => ?_⟩
  · rw [rowOfReplicate] at member
    contradiction
  · obtain ⟨-, rfl⟩ := newOk made
    simp_all
  · obtain ⟨-, rfl⟩ := newOk made
    simp_all

theorem arisesOrderly (arises : Arises c r) : ∃ lists, r.Orderly lists := by
  induction arises with
  | made made => exact ⟨_, newOrderly made⟩
  | attached before taken ih =>
    obtain ⟨lists, o⟩ := ih
    exact ⟨lists, attachOrderly o taken⟩
  | added before hosts file xid ih =>
    obtain ⟨lists, o⟩ := ih
    exact addOrderly o hosts file xid
  | removed before hosts t ih =>
    obtain ⟨lists, o⟩ := ih
    exact removeOrderly o hosts t
  | detached before hosts ih =>
    obtain ⟨lists, o⟩ := ih
    exact detachOrderly o _
  | cleared before slot ih =>
    obtain ⟨lists, o⟩ := ih
    exact clearOrderly o slot

end Calls

theorem listsAreThreads {c : Config} {r : Registry} (arises : Arises c r) : ∃ chain, r.Threads chain := by
  obtain ⟨lists, o⟩ := arisesOrderly arises
  exact ⟨_, o.threads⟩

theorem threadsAfterReuse : ∃ r, Arises (.compact 2 3) r ∧ r.entries = [⟨⟨⟨1663, 5, 104⟩, false⟩, ⟨14⟩⟩] ∧
    r.pool.inUse = 1 ∧ r.nextSerial = 6 ∧ ∃ chain, r.Threads chain := by
  have made : Arises (.compact 2 3) _ := .made rfl
  have one := made.added (hostsSeat.mpr (by decide)) ⟨⟨1663, 5, 100⟩, false⟩ ⟨10⟩ (b := ⟨some 0⟩)
  have two := one.added (hostsSeat.mpr (by decide)) ⟨⟨1663, 5, 101⟩, false⟩ ⟨11⟩ (b := ⟨some 0⟩)
  have three := two.added (hostsSeat.mpr (by decide)) ⟨⟨1663, 5, 102⟩, false⟩ ⟨12⟩ (b := ⟨some 0⟩)
  have refused := three.added (hostsSeat.mpr (by decide)) ⟨⟨1663, 5, 103⟩, false⟩ ⟨13⟩ (b := ⟨some 0⟩)
  have removed := refused.removed (hostsSeat.mpr (by decide)) ⟨⟨1⟩, 2⟩ (b := ⟨some 0⟩)
  have stale := removed.removed (hostsSeat.mpr (by decide)) ⟨⟨1⟩, 2⟩ (b := ⟨some 0⟩)
  have reused := stale.added (hostsSeat.mpr (by decide)) ⟨⟨1663, 5, 104⟩, false⟩ ⟨14⟩ (b := ⟨some 1⟩)
  have cleared := reused.cleared 0
  exact ⟨_, cleared, by decide +kernel, by decide +kernel, by decide +kernel, listsAreThreads cleared⟩

end OrphanFiles.Registry
