import OrphanFiles.Proofs.Bodies
import OrphanFiles.Proofs.LogImage
import OrphanFiles.Proofs.Transcript

/-!
What the records of a log say, apart from their bytes and positions: a record that was made of a saying says it.
-/
namespace OrphanFiles

open Log

inductive Saying where
  | snapshot (entries : List PendingFile)
  | commit (c : Completion)
  | abort (c : Completion)
  | marker

namespace Saying

def item : Saying → Item
  | snapshot es => (.pendingDelete, Snapshot.encode es)
  | commit c => (.commit, c.encode)
  | abort c => (.abort, c.encode)
  | marker => (.checkpoint, .empty)

def lists : Saying → List PendingFile
  | snapshot es => es
  | _ => []

def Names (x : Xid) : Saying → Prop
  | commit c | abort c => x = c.xid ∨ x ∈ c.subs
  | _ => False

def listed (said : List Saying) : List PendingFile := said.flatMap lists

def Plain : Saying → Prop
  | snapshot es => es.length < Nat.pow 256 Snapshot.countSize ∧ ∀ e ∈ es, e.xid.isValid = true
  | commit c | abort c => c.subs.length < Nat.pow 256 4
  | marker => True

section Laws

variable {s : Saying} {said more : List Saying} {lsn : UInt64} {x : Xid}

theorem fewSubs {c : Completion} (small : c.encode.size ≤ maxPayload) : c.subs.length < Nat.pow 256 4 := by
  rw [Completion.sizeEncode] at small
  have : maxPayload < Nat.pow 256 4 := by decide
  omega

theorem fewEntries {es : List PendingFile} (small : (Snapshot.encode es).size ≤ maxPayload) :
    es.length < Nat.pow 256 Snapshot.countSize := by
  simp only [Snapshot.sizeEncode, Snapshot.encodedSize, Snapshot.entrySize] at small
  have : maxPayload < Nat.pow 256 Snapshot.countSize := by decide
  omega

theorem plainStored (small : s.item.2.size ≤ maxPayload) (valid : ∀ e ∈ s.lists, e.xid.isValid = true) : s.Plain := by
  cases s with
  | snapshot es => exact ⟨fewEntries small, valid⟩
  | commit c | abort c => exact fewSubs small
  | marker => trivial

theorem recordLists (plain : s.Plain) (lsn : UInt64) : Record.listed ⟨lsn, s.item.1, s.item.2⟩ = s.lists := by
  cases s with
  | snapshot es => simp [Record.listed, item, lists, Snapshot.decodeEncode plain.1]
  | commit | abort | marker => simp [Record.listed, item, lists]

theorem recordNames (plain : s.Plain) (lsn : UInt64) :
    Record.Names ⟨lsn, s.item.1, s.item.2⟩ x ↔ s.Names x := by
  cases s with
  | commit c | abort c => simp [Record.Names, Record.told?, item, Names, Completion.decodeEncode plain]
  | snapshot | marker => simp [Record.Names, Record.told?, item, Names]

theorem listedRecords (plain : ∀ s ∈ said, s.Plain) : Log.listed (records lsn (said.map item)) = listed said := by
  induction said generalizing lsn with
  | nil => rfl
  | cons s said ih =>
    have tail := @ih (lsn + 1) fun t member => plain t (List.mem_cons_of_mem _ member)
    unfold Log.listed listed at tail ⊢
    rw [List.map_cons, records, List.flatMap_cons, List.flatMap_cons, tail]
    exact congrArg (· ++ _) (recordLists (plain s List.mem_cons_self) lsn)

theorem namedRecords (plain : ∀ s ∈ said, s.Plain) (lsn : UInt64) :
    (∀ r ∈ records lsn (said.map item), ¬ r.Names x) ↔ ∀ s ∈ said, ¬ s.Names x := by
  induction said generalizing lsn with
  | nil => simp [records]
  | cons s said ih =>
    have tail := ih (fun t member => plain t (List.mem_cons_of_mem _ member)) (lsn + 1)
    rw [List.map_cons, records, List.forall_mem_cons, List.forall_mem_cons, tail]
    exact and_congr_left' (not_congr (recordNames (plain s List.mem_cons_self) lsn))

theorem memListed {e : PendingFile} : e ∈ listed said ↔ ∃ es, snapshot es ∈ said ∧ e ∈ es := by
  constructor
  · intro member
    obtain ⟨s, inside, listed⟩ := List.mem_flatMap.mp member
    cases s with
    | snapshot es => exact ⟨es, inside, listed⟩
    | commit | abort | marker => cases listed
  · rintro ⟨es, inside, member⟩
    exact List.mem_flatMap.mpr ⟨_, inside, member⟩

theorem listedAppend (said more : List Saying) : listed (said ++ more) = listed said ++ listed more :=
  List.flatMap_append

theorem listedPart (part : said <+: more) {e : PendingFile} (member : e ∈ listed said) : e ∈ listed more := by
  obtain ⟨rest, rfl⟩ := part
  rw [listedAppend]
  exact List.mem_append_left _ member

end Laws

end Saying
end OrphanFiles
