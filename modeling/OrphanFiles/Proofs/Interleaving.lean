import Mathlib.Data.List.Nodup
import Mathlib.Logic.Function.Basic
import OrphanFiles.Proofs.RegistryLists

/-!
Processes that share a registry, each with a slot of its own.  The nodes and the serial numbers that a process is given
depend on what all of them do; what it sees depends on its own moves only.  Main statement: two runs in which each
process makes the same moves look to every process as if it were alone, and leave the same entries.
-/
namespace OrphanFiles

/- What a process does next.  It removes an entry by the number of its addition, counted from zero. -/
inductive Move where
  | attach
  | add (file : RelFile) (xid : Xid)
  | remove (k : Nat)
  | drop
  deriving DecidableEq, Repr

inductive Outcome where
  | attached
  | refused (e : Error)
  | added (valid : Bool)
  | removed
  | left (count : Nat)
  | nothing
  deriving DecidableEq

structure Sight where
  outcome : Outcome
  pending : Option Nat
  deriving DecidableEq

def Outcome.isShort : Outcome → Bool
  | .refused (.outOfMemory ..) => true
  | _ => false

structure Process where
  handle : Option Backend := none
  tokens : List Token := []

def Process.move (p : Process) (r : Registry) (slot : UInt32) : Move → Outcome × Registry × Process
  | .attach => match r.attach slot with
    | .error e => (.refused e, r, p)
    | .ok (b, r) => (.attached, r, { p with handle := some b })
  | .add file xid => match p.handle with
    | none => (.nothing, r, p)
    | some b => match r.add b file xid with
      | (.error e, r) => (.refused e, r, p)
      | (.ok t, r) => (.added t.isValid, r, { p with tokens := p.tokens ++ [t] })
  | .remove k => match p.handle, p.tokens[k]? with
    | some b, some t => (.removed, r.remove b t, p)
    | _, _ => (.nothing, r, p)
  | .drop => match p.handle with
    | none => (.nothing, r, p)
    | some b =>
      let (left, r) := r.detach b
      (.left left, r, { p with handle := none })

structure Crowd where
  registry : Registry
  process : UInt32 → Process := fun _ => {}

namespace Crowd

def start (r : Registry) : Crowd := { registry := r }

def put (f : Crowd) (slot : UInt32) (r : Registry) (p : Process) : Crowd := ⟨r, Function.update f.process slot p⟩

def act (f : Crowd) (slot : UInt32) (m : Move) : Sight × Crowd :=
  let (outcome, r, p) := (f.process slot).move f.registry slot m
  (⟨outcome, p.handle.map r.pendingLen⟩, f.put slot r p)

def run (f : Crowd) : List (UInt32 × Move) → List (UInt32 × Sight) × Crowd
  | [] => ([], f)
  | (slot, m) :: rest =>
    let (sight, f) := f.act slot m
    let (sights, f) := f.run rest
    ((slot, sight) :: sights, f)

def own {α : Type} (slot : UInt32) (xs : List (UInt32 × α)) : List α := (xs.filter (·.1 = slot)).map Prod.snd

theorem ownSame {α : Type} (slot : UInt32) (x : α) (xs : List (UInt32 × α)) :
    own slot ((slot, x) :: xs) = x :: own slot xs := by simp [own]

theorem ownOther {α : Type} {slot other : UInt32} (differ : other ≠ slot) (x : α) (xs : List (UInt32 × α)) :
    own other ((slot, x) :: xs) = own other xs := by simp [own, differ.symm]

end Crowd

/- A process as it would be alone: its entries, newest first, under the numbers of their additions. -/
structure Alone where
  seated : Bool := false
  added : Nat := 0
  entries : List (Nat × PendingFile) := []

namespace Alone

def move (a : Alone) (c : Config) (slot : UInt32) : Move → Outcome × Alone
  | .attach =>
    if c.maxBackends ≤ slot.toNat then (.refused (.invalid .backendOutOfRange), a)
    else if a.seated then (.refused (.invalid (.backendAttached slot)), a)
    else (.attached, { a with seated := true })
  | .add file xid =>
    if a.seated then
      if c.enabled && xid.isValid then
        (.added true, { a with added := a.added + 1, entries := (a.added, ⟨file, xid⟩) :: a.entries })
      else (.added false, { a with added := a.added + 1 })
    else (.nothing, a)
  | .remove k =>
    if a.seated && decide (k < a.added) then (.removed, { a with entries := a.entries.filter (·.1 != k) })
    else (.nothing, a)
  | .drop =>
    if a.seated then (.left a.entries.length, { a with seated := false, entries := [] }) else (.nothing, a)

def pending (a : Alone) : Option Nat := if a.seated then some a.entries.length else none

def act (a : Alone) (c : Config) (slot : UInt32) (m : Move) : Sight × Alone :=
  let (outcome, a) := a.move c slot m
  (⟨outcome, a.pending⟩, a)

def run (a : Alone) (c : Config) (slot : UInt32) : List Move → List Sight × Alone
  | [] => ([], a)
  | m :: rest =>
    let (sight, a) := a.act c slot m
    let (sights, a) := a.run c slot rest
    (sight :: sights, a)

theorem filterAbsent {xs : List (Nat × PendingFile)} {k : Nat} (absent : ∀ e, (k, e) ∉ xs) :
    xs.filter (·.1 != k) = xs :=
  List.filter_eq_self.mpr fun x member => bne_iff_ne.mpr fun same => absent x.2 (same ▸ member)

end Alone

namespace Process

def token (p : Process) (k : Nat) : Token := p.tokens[k]?.getD .invalid

theorem tokenBefore {p : Process} {k : Nat} (before : k < p.tokens.length) (t : Token) :
    token { p with tokens := p.tokens ++ [t] } k = p.token k := by
  simp only [token, List.getElem?_append_left before]

theorem tokenLast (p : Process) (t : Token) : token { p with tokens := p.tokens ++ [t] } p.tokens.length = t := by
  simp [token]

structure Stands (p : Process) (c : Config) (r : Registry) (slot : UInt32) (row : Listing) (a : Alone) :
    Prop where
  handle : p.handle = if a.seated then some ⟨some slot⟩ else none
  attached : slot ∈ r.attached ↔ a.seated = true
  inside : a.seated = true → slot.toNat < c.maxBackends
  tokens : p.tokens.length = a.added
  row : row = a.entries.map fun x => (p.token x.1, x.2)
  numbered : ∀ x ∈ a.entries, x.1 < a.added
  fresh : ∀ t ∈ p.tokens, t.isValid = true → t.serial < r.nextSerial
  differ : ∀ i j, i < j → j < a.added → (p.token i).isValid = true → p.token i ≠ p.token j

namespace Stands

variable {p : Process} {c : Config} {r r' : Registry} {slot : UInt32} {row : Listing} {a : Alone}

theorem held (stands : p.Stands c r slot row a) (seated : a.seated = true) : p.handle = some ⟨some slot⟩ := by
  rw [stands.handle, if_pos seated]

theorem keep (stands : p.Stands c r slot row a) (attached : slot ∈ r'.attached ↔ slot ∈ r.attached)
    (later : r.nextSerial ≤ r'.nextSerial) : p.Stands c r' slot row a :=
  { stands with
    attached := attached.trans stands.attached
    fresh := fun t member valid => Nat.lt_of_lt_of_le (stands.fresh t member valid) later }

theorem issue (stands : p.Stands c r slot row a) (attached : slot ∈ r'.attached ↔ slot ∈ r.attached)
    (later : r.nextSerial ≤ r'.nextSerial) {t : Token}
    (new : t.isValid = true → r.nextSerial ≤ t.serial ∧ t.serial < r'.nextSerial) :
    Process.Stands { p with tokens := p.tokens ++ [t] } c r' slot row { a with added := a.added + 1 } := by
  have keep := stands.keep attached later
  refine { keep with
    tokens := by simp [stands.tokens]
    row := ?_
    numbered := fun x member => Nat.lt_succ_of_lt (stands.numbered x member)
    fresh := fun u member valid => ?_
    differ := fun i j lower upper valid => ?_ }
  · rw [stands.row]
    refine List.map_congr_left fun x member => ?_
    rw [tokenBefore (stands.tokens ▸ stands.numbered x member) t]
  · rcases List.mem_append.mp member with old | last
    · exact keep.fresh u old valid
    · obtain rfl : u = t := by simpa using last
      exact (new valid).2
  · have before : i < p.tokens.length := by
      have := stands.tokens
      dsimp only at upper
      omega
    rw [tokenBefore before t] at valid ⊢
    rcases Nat.lt_or_ge j p.tokens.length with older | newest
    · rw [tokenBefore older t]
      exact stands.differ i j lower (stands.tokens ▸ older) valid
    · obtain rfl : j = p.tokens.length := by
        have := stands.tokens
        dsimp only at upper
        omega
      rw [tokenLast]
      intro same
      have old := stands.fresh (p.token i) (by simp [Process.token, before]) valid
      rw [same] at valid old
      exact absurd old (Nat.not_lt.mpr (new valid).1)

theorem enlist (stands : p.Stands c r slot row a) {k : Nat} (known : k < a.added) (e : PendingFile) :
    p.Stands c r slot ((p.token k, e) :: row) { a with entries := (k, e) :: a.entries } :=
  { stands with
    row := by rw [stands.row]; rfl
    numbered := fun x member => by
      rcases List.mem_cons.mp member with rfl | old
      · exact known
      · exact stands.numbered x old }

theorem delist (stands : p.Stands c r slot row a) (distinct : row.ptrs.Nodup) {k : Nat} {e : PendingFile}
    (listed : (k, e) ∈ a.entries) : ∃ newer older, row = newer ++ (p.token k, e) :: older ∧
      p.Stands c r slot (newer ++ older) { a with entries := a.entries.filter (·.1 != k) } := by
  obtain ⟨xs, ys, split⟩ := List.append_of_mem listed
  have numbers : (a.entries.map Prod.fst).Nodup := by
    rw [Listing.ptrs, stands.row, List.map_map] at distinct
    exact List.Nodup.of_map (fun k => (p.token k).ptr) (by rwa [List.map_map])
  rw [split, List.map_append, List.map_cons, List.perm_middle.nodup_iff, ← List.map_append] at numbers
  have rest : a.entries.filter (·.1 != k) = xs ++ ys := by
    have absent (e' : PendingFile) : (k, e') ∉ xs ++ ys :=
      fun member => (List.nodup_cons.mp numbers).1 (List.mem_map.mpr ⟨(k, e'), member, rfl⟩)
    rw [← Alone.filterAbsent absent, split, List.filter_append, List.filter_append, List.filter_cons_of_neg (by simp)]
  refine ⟨xs.map fun x => (p.token x.1, x.2), ys.map fun x => (p.token x.1, x.2), ?_, { stands with
    row := by rw [rest, List.map_append]
    numbered := fun x member => stands.numbered x (List.mem_of_mem_filter member) }⟩
  rw [stands.row, split, List.map_append, List.map_cons]

theorem absent (stands : p.Stands c r slot row a) (valid : ∀ x ∈ row, x.1.isValid = true) {k : Nat}
    (known : k < a.added) (unlisted : ∀ e, (k, e) ∉ a.entries) : ∀ x ∈ row, x.1 ≠ p.token k := by
  intro x member same
  have named := valid x member
  rw [stands.row] at member
  obtain ⟨y, listed, rfl⟩ := List.mem_map.mp member
  have other : y.1 ≠ k := by
    rintro rfl
    exact unlisted y.2 listed
  rcases Nat.lt_or_gt_of_ne other with before | behind
  · exact stands.differ y.1 k before known named same
  · exact stands.differ k y.1 behind (stands.numbered y listed) (same ▸ named) same.symm

theorem leave (stands : p.Stands c r slot row a) (gone : slot ∉ r'.attached) (later : r.nextSerial ≤ r'.nextSerial) :
    Process.Stands { p with handle := none } c r' slot [] { a with seated := false, entries := [] } where
  handle := rfl
  attached := by simp [gone]
  inside seated := by contradiction
  tokens := stands.tokens
  row := rfl
  numbered x member := by contradiction
  fresh t member valid := Nat.lt_of_lt_of_le (stands.fresh t member valid) later
  differ := stands.differ

end Stands
end Process

structure Registry.Beside (slot : UInt32) (r r' : Registry) : Prop where
  enabled : r'.enabled = r.enabled
  initialEntries : r'.initialEntries = r.initialEntries
  slots : r'.slots = r.slots
  attached : ∀ other, other ≠ slot → (other ∈ r'.attached ↔ other ∈ r.attached)
  later : r.nextSerial ≤ r'.nextSerial

theorem Registry.Kept.beside {slot : UInt32} {r r' : Registry} (kept : Kept r r')
    (later : r.nextSerial ≤ r'.nextSerial) : Beside slot r r' where
  enabled := kept.enabled
  initialEntries := kept.initialEntries
  slots := kept.slots
  attached other _ := by rw [kept.attached]
  later := later

namespace Crowd

open Registry (rowOf)

structure Follows (f : Crowd) (c : Config) (alone : UInt32 → Alone) (lists : List Listing) : Prop where
  enabled : f.registry.enabled = c.enabled
  initial : f.registry.initialEntries = c.initialEntries
  slots : f.registry.slots = c.maxBackends
  mirrors : f.registry.Mirrors lists
  width : lists.length = if c.enabled then c.maxBackends else 0
  stands : ∀ slot, (f.process slot).Stands c f.registry slot (rowOf lists slot) (alone slot)

section Steps

variable {f : Crowd} {c : Config} {alone : UInt32 → Alone} {lists : List Listing} {slot : UInt32}

theorem insideHeads (follows : f.Follows c alone lists) (on : c.enabled = true)
    (seated : (alone slot).seated = true) : slot.toNat < f.registry.heads.size := by
  rw [← follows.mirrors.sized, follows.width, if_pos on]
  exact (follows.stands slot).inside seated

theorem rowEntries (follows : f.Follows c alone lists) (slot : UInt32) :
    (rowOf lists slot).map Prod.snd = (alone slot).entries.map Prod.snd := by
  rw [(follows.stands slot).row, List.map_map]
  rfl

theorem unlisted (follows : f.Follows c alone lists) (off : c.enabled = false) (slot : UInt32) :
    (alone slot).entries = [] := by
  have width := follows.width
  rw [off, if_neg Bool.false_ne_true, List.length_eq_zero_iff] at width
  have row := (follows.stands slot).row
  rw [width] at row
  exact List.map_eq_nil_iff.mp row.symm

theorem pendingFollows (follows : f.Follows c alone lists) (slot : UInt32) :
    (f.process slot).handle.map f.registry.pendingLen = (alone slot).pending := by
  rw [(follows.stands slot).handle, Alone.pending]
  cases seated : (alone slot).seated with
  | false => rfl
  | true =>
    simp only [if_true, Option.map_some, Registry.pendingLen, follows.enabled]
    cases on : c.enabled with
    | false => rw [unlisted follows on]; rfl
    | true =>
      have listed := congrArg List.length (Registry.nodesListed follows.mirrors (insideHeads follows on seated))
      rw [rowEntries follows, List.length_map, List.length_map] at listed
      rw [if_pos rfl, listed]

theorem putFollows (follows : f.Follows c alone lists) {r : Registry} {p : Process} {a : Alone} {lists' : List Listing}
    (beside : Registry.Beside slot f.registry r) (mirrors : r.Mirrors lists') (width : lists'.length = lists.length)
    (rows : ∀ other, other ≠ slot → rowOf lists' other = rowOf lists other)
    (stands : p.Stands c r slot (rowOf lists' slot) a) :
    (f.put slot r p).Follows c (Function.update alone slot a) lists' where
  enabled := beside.enabled.trans follows.enabled
  initial := beside.initialEntries.trans follows.initial
  slots := beside.slots.trans follows.slots
  mirrors := mirrors
  width := width.trans follows.width
  stands other := by
    by_cases same : other = slot
    · subst same
      simpa only [Crowd.put, Function.update_self] using stands
    · simp only [Crowd.put, Function.update_of_ne same, rows other same]
      exact (follows.stands other).keep (beside.attached other same) beside.later

theorem rowFollows (follows : f.Follows c alone lists) (inside : slot.toNat < f.registry.heads.size) {r : Registry}
    {p : Process} {a : Alone} {row : Listing} (beside : Registry.Beside slot f.registry r)
    (mirrors : r.Mirrors (lists.set slot.toNat row)) (stands : p.Stands c r slot row a) :
    (f.put slot r p).Follows c (Function.update alone slot a) (lists.set slot.toNat row) := by
  have rows (other : UInt32) := Registry.rowOfSet lists slot other row (follows.mirrors.sized ▸ inside)
  refine putFollows follows beside mirrors List.length_set (fun other differ => ?_) ?_
  · rw [rows, if_neg differ]
  · rw [rows, if_pos rfl]
    exact stands

def Agrees (f : Crowd) (c : Config) (alone : UInt32 → Alone) (slot : UInt32) (m : Move) : Prop :=
  ∃ r p lists, (f.process slot).move f.registry slot m = (((alone slot).move c slot m).1, r, p) ∧
    (f.put slot r p).Follows c (Function.update alone slot ((alone slot).move c slot m).2) lists

theorem agrees {m : Move} {o : Outcome} {r : Registry} {p : Process} {a : Alone} {lists' : List Listing}
    (moved : (f.process slot).move f.registry slot m = (o, r, p)) (alike : (alone slot).move c slot m = (o, a))
    (next : (f.put slot r p).Follows c (Function.update alone slot a) lists') : f.Agrees c alone slot m :=
  ⟨r, p, lists', by rw [moved, alike], by rwa [alike]⟩

theorem stay (follows : f.Follows c alone lists) {m : Move} {o : Outcome}
    (moved : (f.process slot).move f.registry slot m = (o, f.registry, f.process slot))
    (alike : (alone slot).move c slot m = (o, alone slot)) : f.Agrees c alone slot m := by
  refine agrees moved alike (?_ : Follows _ c _ lists)
  rw [Function.update_eq_self]
  simpa only [Crowd.put, Function.update_eq_self] using follows

theorem attachAgrees (follows : f.Follows c alone lists) (slot : UInt32) : f.Agrees c alone slot .attach := by
  have stands := follows.stands slot
  by_cases outside : c.maxBackends ≤ slot.toNat
  · have moved : (f.process slot).move f.registry slot .attach =
        (.refused (.invalid .backendOutOfRange), f.registry, f.process slot) := by
      simp only [Process.move, Registry.attach, follows.slots, if_pos outside]
    exact stay follows moved (by simp only [Alone.move, if_pos outside])
  cases seated : (alone slot).seated with
  | true =>
    have taken := stands.attached.mpr seated
    have moved : (f.process slot).move f.registry slot .attach =
        (.refused (.invalid (.backendAttached slot)), f.registry, f.process slot) := by
      simp only [Process.move, Registry.attach, follows.slots, if_neg outside, if_pos taken]
    exact stay follows moved (by simp only [Alone.move, if_neg outside, seated, if_true])
  | false =>
    have free : slot ∉ f.registry.attached := fun taken => by simp [stands.attached.mp taken] at seated
    have moved : (f.process slot).move f.registry slot .attach = (.attached,
        { f.registry with attached := slot :: f.registry.attached },
        { f.process slot with handle := some ⟨some slot⟩ }) := by
      simp only [Process.move, Registry.attach, follows.slots, if_neg outside, if_neg free]
    have alike : (alone slot).move c slot .attach = (.attached, { alone slot with seated := true }) := by
      simp only [Alone.move, if_neg outside, seated, Bool.false_eq_true, if_false]
    refine agrees moved alike (putFollows follows ⟨rfl, rfl, rfl, fun other differ => ?_, Nat.le_refl _⟩
      { follows.mirrors with } rfl (fun _ _ => rfl) { stands with
        handle := rfl
        attached := by simp
        inside := fun _ => Nat.lt_of_not_le outside })
    simp [differ]

theorem idle (follows : f.Follows c alone lists) (absent : (alone slot).seated = false) {m : Move}
    (needs : m ≠ .attach) : f.Agrees c alone slot m := by
  have handle := (follows.stands slot).handle
  rw [absent, if_neg Bool.false_ne_true] at handle
  have moved : (f.process slot).move f.registry slot m = (.nothing, f.registry, f.process slot) := by
    cases m with
    | attach => contradiction
    | add | remove | drop => simp only [Process.move, handle]
  refine stay follows moved ?_
  cases m with
  | attach => contradiction
  | add | remove | drop => simp only [Alone.move, absent, Bool.false_and, Bool.false_eq_true, if_false]

theorem addAgrees (follows : f.Follows c alone lists) (seated : (alone slot).seated = true) (file : RelFile) (xid : Xid)
    (enough : ((f.process slot).move f.registry slot (.add file xid)).1.isShort = false) :
    f.Agrees c alone slot (.add file xid) := by
  have stands := follows.stands slot
  have handle := stands.held seated
  cases tracked : c.enabled && xid.isValid with
  | false =>
    have moved : (f.process slot).move f.registry slot (.add file xid) = (.added false, f.registry,
        { f.process slot with tokens := (f.process slot).tokens ++ [.invalid] }) := by
      simp only [Process.move, handle, Registry.add, follows.enabled, tracked, Bool.false_eq_true, if_false]
      rfl
    have alike : (alone slot).move c slot (.add file xid) =
        (.added false, { alone slot with added := (alone slot).added + 1 }) := by
      simp only [Alone.move, seated, if_true, tracked, Bool.false_eq_true, if_false]
    exact agrees moved alike (putFollows follows ⟨rfl, rfl, rfl, fun _ _ => .rfl, Nat.le_refl _⟩ follows.mirrors rfl
      (fun _ _ => rfl) (stands.issue .rfl (Nat.le_refl _) fun valid => absurd valid (by decide)))
  | true =>
    obtain ⟨on, -⟩ := Bool.and_eq_true_iff.mp tracked
    have inside := insideHeads follows on seated
    by_cases full : f.registry.pool.inUse = f.registry.pool.capacity
    · simp [Process.move, handle, Registry.add, follows.enabled, tracked, Registry.linkFull follows.mirrors full,
        Outcome.isShort] at enough
    obtain ⟨q, r, linked, named, kept, serial, mirrors⟩ := Registry.linkRoom follows.mirrors inside full ⟨file, xid⟩
    have named : Token.isValid ⟨q, f.registry.nextSerial⟩ = true := named
    have moved : (f.process slot).move f.registry slot (.add file xid) = (.added true, r,
        { f.process slot with tokens := (f.process slot).tokens ++ [⟨q, f.registry.nextSerial⟩] }) := by
      simp only [Process.move, handle, Registry.add, follows.enabled, tracked, if_true, linked, named]
    have alike : (alone slot).move c slot (.add file xid) = (.added true, { alone slot with
        added := (alone slot).added + 1
        entries := ((alone slot).added, ⟨file, xid⟩) :: (alone slot).entries }) := by
      simp only [Alone.move, seated, if_true, tracked]
    have later : f.registry.nextSerial ≤ r.nextSerial := serial ▸ Nat.le_succ _
    have fresh : f.registry.nextSerial < r.nextSerial := serial ▸ Nat.lt_succ_self _
    have issued := stands.issue (by rw [kept.attached]) later (t := ⟨q, f.registry.nextSerial⟩)
      fun _ => ⟨Nat.le_refl _, fresh⟩
    have listed := issued.enlist (Nat.lt_succ_self _) ⟨file, xid⟩
    rw [← stands.tokens, Process.tokenLast, stands.tokens] at listed
    exact agrees moved alike (rowFollows follows inside (kept.beside later) mirrors listed)

theorem removeUnlisted (follows : f.Follows c alone lists) (seated : (alone slot).seated = true) {k : Nat}
    (known : k < (alone slot).added) (unlisted : ∀ e, (k, e) ∉ (alone slot).entries) :
    f.registry.remove ⟨some slot⟩ ((f.process slot).token k) = f.registry := by
  unfold Registry.remove
  dsimp only
  cases on : c.enabled with
  | false => rw [follows.enabled, on, Bool.false_and, if_neg Bool.false_ne_true]
  | true =>
    have inside := insideHeads follows on seated
    have absent := (follows.stands slot).absent (fun x => Registry.listedValid follows.mirrors inside) known unlisted
    rw [Registry.unlinkAbsent follows.mirrors inside absent, ite_self]

theorem removeAgrees (follows : f.Follows c alone lists) (seated : (alone slot).seated = true) (k : Nat) :
    f.Agrees c alone slot (.remove k) := by
  have stands := follows.stands slot
  have handle := stands.held seated
  rcases Nat.lt_or_ge k (alone slot).added with known | unknown
  · have found : (f.process slot).tokens[k]? = some ((f.process slot).token k) := by
      rw [Process.token, List.getElem?_eq_getElem (stands.tokens ▸ known), Option.getD_some]
    have moved : (f.process slot).move f.registry slot (.remove k) = (.removed,
        f.registry.remove ⟨some slot⟩ ((f.process slot).token k), f.process slot) := by
      simp only [Process.move, handle, found]
    have alike : (alone slot).move c slot (.remove k) =
        (.removed, { alone slot with entries := (alone slot).entries.filter (·.1 != k) }) := by
      simp only [Alone.move, seated, known, decide_true, Bool.and_self, if_true]
    by_cases listed : ∃ e, (k, e) ∈ (alone slot).entries
    · obtain ⟨e, listed⟩ := listed
      have on : c.enabled = true := by
        by_contra off
        rw [unlisted follows (Bool.not_eq_true _ ▸ off)] at listed
        contradiction
      have inside := insideHeads follows on seated
      obtain ⟨newer, older, split, delisted⟩ := stands.delist (follows.mirrors.distinct slot) listed
      obtain ⟨kept, serial, mirrors⟩ := Registry.unlinkListed follows.mirrors inside split
      have valid : ((f.process slot).token k).isValid = true :=
        Registry.listedValid follows.mirrors inside (split ▸ List.mem_append_right newer List.mem_cons_self)
      simp only [Registry.remove, follows.enabled, on, valid, Bool.and_self, if_true] at moved
      have later := Nat.le_of_eq serial.symm
      exact agrees moved alike (rowFollows follows inside (kept.beside later) mirrors
        (delisted.keep (by rw [kept.attached]) later))
    · have same := removeUnlisted follows seated known fun e member => listed ⟨e, member⟩
      rw [same] at moved
      rw [Alone.filterAbsent fun e member => listed ⟨e, member⟩] at alike
      exact stay follows moved alike
  · have none : (f.process slot).tokens[k]? = none := List.getElem?_eq_none (stands.tokens ▸ unknown)
    have moved : (f.process slot).move f.registry slot (.remove k) = (.nothing, f.registry, f.process slot) := by
      simp only [Process.move, handle, none]
    refine stay follows moved ?_
    simp only [Alone.move, seated, Bool.true_and, decide_eq_true_eq, if_neg (Nat.not_lt.mpr unknown)]

theorem dropAgrees (follows : f.Follows c alone lists) (seated : (alone slot).seated = true) :
    f.Agrees c alone slot .drop := by
  have stands := follows.stands slot
  have handle := stands.held seated
  have others (r : Registry) (other : UInt32) (differ : other ≠ slot) :
      other ∈ r.attached.filter (· != slot) ↔ other ∈ r.attached := by simp [differ]
  cases on : c.enabled with
  | false =>
    have none := unlisted follows on slot
    have row : rowOf lists slot = [] := by rw [stands.row, none]; rfl
    have moved : (f.process slot).move f.registry slot .drop = (.left 0,
        { f.registry with attached := f.registry.attached.filter (· != slot) },
        { f.process slot with handle := .none }) := by
      simp only [Process.move, handle, Registry.detach, follows.enabled, on, Bool.false_eq_true, if_false]
    have alike : (alone slot).move c slot .drop = (.left 0, { alone slot with seated := false, entries := [] }) := by
      simp only [Alone.move, seated, if_true, none, List.length_nil]
    refine agrees moved alike (putFollows follows ⟨rfl, rfl, rfl, others _, Nat.le_refl _⟩ { follows.mirrors with } rfl
      (fun _ _ => rfl) ?_)
    rw [row]
    exact stands.leave (by simp) (Nat.le_refl _)
  | true =>
    have inside := insideHeads follows on seated
    obtain ⟨r, cleared, kept, serial, mirrors⟩ := Registry.clearedRow follows.mirrors inside
    have length : (rowOf lists slot).length = (alone slot).entries.length := by rw [stands.row, List.length_map]
    have moved : (f.process slot).move f.registry slot .drop = (.left (alone slot).entries.length,
        { r with attached := r.attached.filter (· != slot) }, { f.process slot with handle := none }) := by
      simp only [Process.move, handle, Registry.detach, follows.enabled, on, if_true, cleared, length]
    have alike : (alone slot).move c slot .drop =
        (.left (alone slot).entries.length, { alone slot with seated := false, entries := [] }) := by
      simp only [Alone.move, seated, if_true]
    have later := Nat.le_of_eq serial.symm
    have beside : Registry.Beside slot f.registry r := kept.beside later
    exact agrees moved alike (rowFollows follows inside { beside with
      attached := fun other differ => (others r other differ).trans (beside.attached other differ) }
      { mirrors with } (stands.leave (by simp) later))

theorem actFollows (follows : f.Follows c alone lists) (slot : UInt32) (m : Move)
    (enough : (f.act slot m).1.outcome.isShort = false) : ∃ lists',
      (f.act slot m).1 = ((alone slot).act c slot m).1 ∧
      (f.act slot m).2.Follows c (Function.update alone slot ((alone slot).act c slot m).2) lists' := by
  have agrees : f.Agrees c alone slot m := by
    cases seated : (alone slot).seated with
    | false =>
      by_cases attach : m = .attach
      · subst attach
        exact attachAgrees follows slot
      · exact idle follows seated attach
    | true =>
      cases m with
      | attach => exact attachAgrees follows slot
      | add file xid => exact addAgrees follows seated file xid enough
      | remove k => exact removeAgrees follows seated k
      | drop => exact dropAgrees follows seated
  obtain ⟨r, p, lists', moved, next⟩ := agrees
  have pending := pendingFollows next slot
  simp only [Crowd.put, Function.update_self] at pending
  refine ⟨lists', ?_, ?_⟩
  · simp only [act, Alone.act, moved, pending]
  · simp only [act, Alone.act, moved]
    exact next

theorem runFollows (follows : f.Follows c alone lists) (xs : List (UInt32 × Move))
    (enough : ∀ x ∈ (f.run xs).1, x.2.outcome.isShort = false) :
    (∃ lists', (f.run xs).2.Follows c (fun slot => ((alone slot).run c slot (own slot xs)).2) lists') ∧
      ∀ slot, own slot (f.run xs).1 = ((alone slot).run c slot (own slot xs)).1 := by
  induction xs generalizing f alone lists with
  | nil => exact ⟨⟨lists, follows⟩, fun slot => rfl⟩
  | cons x xs ih =>
    obtain ⟨slot, m⟩ := x
    obtain ⟨lists₁, sight, next⟩ := actFollows follows slot m (enough _ List.mem_cons_self)
    obtain ⟨⟨lists', after⟩, sights⟩ := ih next fun x member => enough x (List.mem_cons_of_mem _ member)
    refine ⟨⟨lists', ?_⟩, fun other => ?_⟩
    · have alike : (fun other => ((alone other).run c other (own other ((slot, m) :: xs))).2) = fun other =>
          ((Function.update alone slot ((alone slot).act c slot m).2 other).run c other (own other xs)).2 := by
        funext other
        by_cases same : other = slot
        · subst same
          rw [ownSame, Alone.run, Function.update_self]
        · rw [ownOther same, Function.update_of_ne same]
      rw [alike]
      exact after
    · specialize sights other
      rw [run]
      by_cases same : other = slot
      · subst same
        rw [Function.update_self] at sights
        rw [ownSame, ownSame, Alone.run, sights, sight]
      · rw [Function.update_of_ne same] at sights
        rw [ownOther same, ownOther same, sights]

theorem entriesFollow (follows : f.Follows c alone lists) : f.registry.entries =
    (List.range lists.length).flatMap fun i => (alone (UInt32.ofNat i)).entries.map Prod.snd := by
  rw [Registry.entriesListed follows.mirrors, List.flatMap_def, List.map_flatten]
  congr 1
  refine List.ext_getElem (by simp) fun i inLists _ => ?_
  rw [List.length_map] at inLists
  have narrow := follows.mirrors.narrow
  rw [← follows.mirrors.sized] at narrow
  have place : (UInt32.ofNat i).toNat = i := by simp; omega
  have row := rowEntries follows (UInt32.ofNat i)
  rw [rowOf, place, List.getElem?_eq_getElem inLists, Option.getD_some] at row
  simpa using row

theorem newFollows {r : Registry} (made : Registry.new c = .ok r) :
    (start r).Follows c (fun _ => {}) (List.replicate r.heads.size []) := by
  have mirrors := Registry.newMirrors made
  obtain ⟨-, rfl⟩ := Registry.newOk made
  exact {
    enabled := rfl
    initial := rfl
    slots := rfl
    mirrors := mirrors
    width := by simp
    stands := fun slot => {
      handle := rfl
      attached := by simp [start]
      inside := fun seated => by contradiction
      tokens := rfl
      row := Registry.rowOfReplicate _ slot
      numbered := by simp
      fresh := by simp [start]
      differ := by simp } }

end Steps

theorem Follows.alike {f g : Crowd} {c : Config} {alone : UInt32 → Alone} {lists lists' : List Listing}
    (follows : f.Follows c alone lists) (other : g.Follows c alone lists') :
    f.registry.dump = g.registry.dump ∧ f.registry.pool.inUse = g.registry.pool.inUse := by
  have entries : f.registry.entries = g.registry.entries := by
    rw [entriesFollow follows, entriesFollow other, follows.width, other.width]
  constructor
  · unfold Registry.dump
    rw [entries, follows.enabled, other.enabled, follows.initial, other.initial]
  · have listed := congrArg List.length entries
    rwa [Registry.entriesListed follows.mirrors, Registry.entriesListed other.mirrors, List.length_map, List.length_map,
      ← follows.mirrors.counted, ← other.mirrors.counted] at listed

theorem interleavingsAlike {c : Config} {r : Registry} (made : Registry.new c = .ok r) {xs ys : List (UInt32 × Move)}
    (same : ∀ slot, own slot xs = own slot ys)
    (enough : ∀ x ∈ (run (start r) xs).1, x.2.outcome.isShort = false)
    (enough' : ∀ x ∈ (run (start r) ys).1, x.2.outcome.isShort = false) :
    (∀ slot, own slot (run (start r) xs).1 = own slot (run (start r) ys).1) ∧
      (∀ slot, own slot (run (start r) xs).1 = (Alone.run {} c slot (own slot xs)).1) ∧
      (run (start r) xs).2.registry.dump = (run (start r) ys).2.registry.dump ∧
      (run (start r) xs).2.registry.pool.inUse = (run (start r) ys).2.registry.pool.inUse := by
  obtain ⟨⟨lists, follows⟩, sights⟩ := runFollows (newFollows made) xs enough
  obtain ⟨⟨lists', other⟩, sights'⟩ := runFollows (newFollows made) ys enough'
  simp only [← same] at other sights'
  exact ⟨fun slot => (sights slot).trans (sights' slot).symm, sights, follows.alike other⟩

def byTurns : List (UInt32 × Move) := [(1, .attach), (0, .attach), (0, .add ⟨⟨1663, 5, 1⟩, false⟩ ⟨7⟩), (0, .remove 0),
  (1, .add ⟨⟨1663, 5, 2⟩, true⟩ ⟨8⟩), (0, .add ⟨⟨1663, 5, 3⟩, false⟩ ⟨7⟩), (1, .remove 0), (0, .remove 0), (0, .attach),
  (1, .add ⟨⟨1663, 5, 4⟩, false⟩ ⟨8⟩), (1, .drop)]

def inSequence : List (UInt32 × Move) := byTurns.filter (·.1 = 0) ++ byTurns.filter (·.1 = 1)

theorem byTurnsAlike : ∃ r, Registry.new (.compact 2 2) = .ok r ∧
    (∀ slot, own slot (run (start r) byTurns).1 = own slot (run (start r) inSequence).1) ∧
    (∀ slot, own slot (run (start r) byTurns).1 = (Alone.run {} (.compact 2 2) slot (own slot byTurns)).1) ∧
    (run (start r) byTurns).2.registry.dump = (run (start r) inSequence).2.registry.dump ∧
    (run (start r) byTurns).2.registry.pool.inUse = (run (start r) inSequence).2.registry.pool.inUse := by
  have moves (slot : UInt32) : own slot byTurns = own slot inSequence := by
    by_cases first : slot = 0
    · subst first
      rfl
    by_cases second : slot = 1
    · subst second
      rfl
    simp [own, byTurns, inSequence, Ne.symm first, Ne.symm second]
  exact ⟨_, rfl, interleavingsAlike (c := .compact 2 2) rfl moves (by decide +kernel) (by decide +kernel)⟩

end Crowd
end OrphanFiles
