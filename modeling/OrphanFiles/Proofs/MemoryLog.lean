import OrphanFiles.MemoryLog
import OrphanFiles.Proofs.CheckpointCalls

/-!
What a log in memory notes.  It holds what was asked of it and done, in that order; whichever calls fail, the positions
count on without a gap.
-/
namespace OrphanFiles.MemoryLog

open Log

def inserted : List (Note MemoryLog) → List Record
  | [] => []
  | ⟨.insert kind payload, _, .ok (some lsn)⟩ :: notes => ⟨lsn, kind, payload⟩ :: inserted notes
  | _ :: notes => inserted notes

def flushed : List (Note MemoryLog) → List UInt64
  | [] => []
  | ⟨.flush upto, _, .ok _⟩ :: notes => upto :: flushed notes
  | _ :: notes => flushed notes

def Counted (m : MemoryLog) : Prop :=
  m.records.toList.map Record.lsn = (List.range' 1 m.records.size).map UInt64.ofNat

theorem insertCounted {m : MemoryLog} (counted : m.Counted) (kind : Kind) (payload : ByteArray) :
    Counted { m with records := m.records.push ⟨UInt64.ofNat (m.records.size + 1), kind, payload⟩ } := by
  unfold Counted at counted ⊢
  simp only [Array.toList_push, List.map_append, counted, Array.size_push, List.range'_concat]
  simp [Nat.add_comm]

variable {m m' : MemoryLog} {answer : Except Error (Option UInt64)}

theorem insertPerformed {kind : Kind} {payload : ByteArray}
    (performed : (LogCall.insert kind payload).perform m = concluded answer m') :
    (∃ e, answer = .error e) ∧ m' = { m with failInsert := false } ∨
      answer = .ok (some (UInt64.ofNat (m.records.size + 1))) ∧
        m' = { m with records := m.records.push ⟨UInt64.ofNat (m.records.size + 1), kind, payload⟩ } := by
  rcases m with ⟨records, flushes, _ | _, failFlush⟩
  · have done : (LogCall.insert kind payload).perform (mk records flushes false failFlush) =
        concluded (.ok (some (UInt64.ofNat (records.size + 1))))
          (mk (records.push ⟨UInt64.ofNat (records.size + 1), kind, payload⟩) flushes false failFlush) := rfl
    obtain ⟨rfl, rfl⟩ := concludedInj (performed.symm.trans done)
    exact .inr ⟨rfl, rfl⟩
  · have refused : (LogCall.insert kind payload).perform (mk records flushes true failFlush) =
        concluded (.error (.invalid (.reported "log insert failed"))) (mk records flushes false failFlush) := rfl
    obtain ⟨rfl, rfl⟩ := concludedInj (performed.symm.trans refused)
    exact .inl ⟨⟨_, rfl⟩, rfl⟩

theorem flushPerformed {upto : UInt64} (performed : (LogCall.flush upto).perform m = concluded answer m') :
    (∃ e, answer = .error e) ∧ m' = { m with failFlush := false } ∨
      answer = .ok none ∧ m' = { m with flushes := m.flushes.push upto } := by
  rcases m with ⟨records, flushes, failInsert, _ | _⟩
  · have done : (LogCall.flush upto).perform (mk records flushes failInsert false) =
        concluded (.ok none) (mk records (flushes.push upto) failInsert false) := rfl
    obtain ⟨rfl, rfl⟩ := concludedInj (performed.symm.trans done)
    exact .inr ⟨rfl, rfl⟩
  · have refused : (LogCall.flush upto).perform (mk records flushes failInsert true) =
        concluded (.error (.invalid (.reported "log flush failed"))) (mk records flushes failInsert false) := rfl
    obtain ⟨rfl, rfl⟩ := concludedInj (performed.symm.trans refused)
    exact .inl ⟨⟨_, rfl⟩, rfl⟩

theorem linkedNoted {notes : List (Note MemoryLog)} (linked : Linked m notes m') :
    m'.records.toList = m.records.toList ++ inserted notes ∧ m'.flushes.toList = m.flushes.toList ++ flushed notes ∧
      (m.Counted → m'.Counted) := by
  induction linked with
  | nil => simp [inserted, flushed]
  | @cons s call answer s₁ notes s' performed rest ih =>
    obtain ⟨records, flushes, counted⟩ := ih
    cases call with
    | insert kind payload =>
      rcases insertPerformed performed with ⟨⟨e, rfl⟩, rfl⟩ | ⟨rfl, rfl⟩
      · exact ⟨records, flushes, counted⟩
      · refine ⟨?_, flushes, fun before => counted (insertCounted before kind payload)⟩
        rw [records, Array.toList_push, List.append_assoc]
        rfl
    | flush upto =>
      rcases flushPerformed performed with ⟨⟨e, rfl⟩, rfl⟩ | ⟨rfl, rfl⟩
      · exact ⟨records, flushes, counted⟩
      · refine ⟨records, ?_, counted⟩
        rw [flushes, Array.toList_push, List.append_assoc]
        rfl

theorem checkpointNoted {r : Registry} (grows : ∀ e, r.dump ≠ .error e) (m : MemoryLog) :
    ∃ notes m' answer, r.checkpoint m = concluded answer m' ∧ Registry.Went r.payload? notes answer ∧
      m'.records.toList = m.records.toList ++ inserted notes ∧
      m'.flushes.toList = m.flushes.toList ++ flushed notes ∧ (m.Counted → m'.Counted) := by
  obtain ⟨notes, m', answer, works, went⟩ := Registry.checkpointWorks grows m
  exact ⟨notes, m', answer, works.plain, went, linkedNoted works.linked⟩

end OrphanFiles.MemoryLog
