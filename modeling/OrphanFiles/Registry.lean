import OrphanFiles.Pool
import OrphanFiles.Snapshot.Buffer

/-!
The registry of pending files.  Each backend slot has a doubly linked list of nodes, newest first; the nodes
of all lists come from one pool.  A node is named by its place and by a serial number that is given out once,
so a token that outlived its entry removes nothing.
-/
namespace OrphanFiles

structure Node where
  entry : PendingFile
  owner : UInt32
  /-- Serial numbers have no bound, in a node, a token and the registry; a counter of 64 bits gives out the same ones
  until it has come round, and what happens then is left out. -/
  serial : Nat
  prev : NodePtr
  next : NodePtr
  deriving DecidableEq, Repr

structure Token where
  ptr : NodePtr
  /-- Without a bound, as at `Node.serial`. -/
  serial : Nat
  deriving DecidableEq, Repr

namespace Token

def invalid : Token := ⟨.nil, 0⟩
def isValid (t : Token) : Bool := t.ptr.isValid

end Token

structure Backend where
  slot : Option UInt32
  deriving DecidableEq, Repr

structure Registry where
  enabled : Bool
  initialEntries : Nat
  heads : Array NodePtr
  slots : Nat
  attached : List UInt32 := []
  pool : Pool Node
  /-- Without a bound, as at `Node.serial`. -/
  nextSerial : Nat

namespace Registry

def new (c : Config) : Except Error Registry := do
  c.validate.mapError .config
  let lists := if c.enabled then c.maxBackends else 0
  let nodes := if c.enabled then c.poolNodes else 0
  pure {
    enabled := c.enabled
    initialEntries := c.initialEntries
    heads := Array.replicate lists .nil
    slots := c.maxBackends
    pool := .withCapacity nodes
    nextSerial := 1 }

/-! ### The lists -/

def nodesFrom (pool : Pool Node) : Nat → NodePtr → List Node
  | 0, _ => []
  | fuel + 1, p => match pool.get? p with
    | none => []
    | some n => n :: nodesFrom pool fuel n.next

/-- The nodes of a list, newest first.  A list has no more nodes than the pool. -/
def nodes (r : Registry) (head : NodePtr) : List Node := nodesFrom r.pool r.pool.capacity head

def head (r : Registry) (slot : UInt32) : NodePtr := r.heads[slot.toNat]?.getD .nil

def setHead (r : Registry) (slot : UInt32) (p : NodePtr) : Registry :=
  { r with heads := r.heads.setIfInBounds slot.toNat p }

/-- Puts a new node at the front of the list of a slot.  The serial number is spent even if the pool is full. -/
def link (r : Registry) (slot : UInt32) (entry : PendingFile) : Except Error Token × Registry :=
  let serial := r.nextSerial
  let r := { r with nextSerial := serial + 1 }
  let old := r.head slot
  match r.pool.allocate ⟨entry, slot, serial, .nil, old⟩ with
  | none => (.error (.outOfMemory slot r.pool.capacity), r)
  | some (p, pool) =>
    let pool := if old.isValid then pool.modify old ({ · with prev := p }) else pool
    (.ok ⟨p, serial⟩, { r with pool }.setHead slot p)

def unlink (r : Registry) (slot : UInt32) (t : Token) : Registry :=
  match r.pool.get? t.ptr with
  | none => r
  | some n =>
    if n.serial = t.serial ∧ n.owner = slot then
      let pool := if n.next.isValid then r.pool.modify n.next ({ · with prev := n.prev }) else r.pool
      let r := if n.prev.isValid
        then { r with pool := pool.modify n.prev ({ · with next := n.next }) }
        else { r with pool }.setHead slot n.next
      match r.pool.release t.ptr with
      | none => r
      | some (_, pool) => { r with pool }
    else r

def releaseFrom (pool : Pool Node) : Nat → NodePtr → Nat × Pool Node
  | 0, _ => (0, pool)
  | fuel + 1, p => match pool.release p with
    | none => (0, pool)
    | some (n, pool) =>
      let (count, pool) := releaseFrom pool fuel n.next
      (count + 1, pool)

def clear (r : Registry) (slot : UInt32) : Nat × Registry :=
  let (count, pool) := releaseFrom r.pool r.pool.capacity (r.head slot)
  (count, { r with pool }.setHead slot .nil)

/-! ### What a process does -/

def attach (r : Registry) (id : UInt32) : Except Error (Backend × Registry) :=
  if r.slots ≤ id.toNat then .error (.invalid .backendOutOfRange)
  else if id ∈ r.attached then .error (.invalid (.backendAttached id))
  else .ok (⟨some id⟩, { r with attached := id :: r.attached })

def attachAuxiliary : Backend := ⟨none⟩

def add (r : Registry) (b : Backend) (file : RelFile) (xid : Xid) : Except Error Token × Registry :=
  match b.slot with
  | none => (.ok .invalid, r)
  | some slot => if r.enabled && xid.isValid then r.link slot ⟨file, xid⟩ else (.ok .invalid, r)

def remove (r : Registry) (b : Backend) (t : Token) : Registry :=
  match b.slot with
  | none => r
  | some slot => if r.enabled && t.isValid then r.unlink slot t else r

def pendingLen (r : Registry) (b : Backend) : Nat :=
  match b.slot with
  | none => 0
  | some slot => if r.enabled then (r.nodes (r.head slot)).length else 0

def detach (r : Registry) (b : Backend) : Nat × Registry :=
  match b.slot with
  | none => (0, r)
  | some slot =>
    let (left, r) := if r.enabled then r.clear slot else (0, r)
    (left, { r with attached := r.attached.filter (· != slot) })

/-! ### All lists at once -/

def entries (r : Registry) : List PendingFile :=
  r.heads.toList.flatMap fun head => (r.nodes head).map Node.entry

def dump (r : Registry) : Except Error (Option Snapshot.Buffer) := do
  if r.enabled then
    let out ← r.entries.foldlM Snapshot.Buffer.push (.withStep r.initialEntries)
    pure (if out.entries.isEmpty then none else some out)
  else pure none

end Registry
end OrphanFiles
