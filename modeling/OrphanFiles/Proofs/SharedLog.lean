import OrphanFiles.Checkpoint
import OrphanFiles.Proofs.DropSet
import OrphanFiles.Proofs.Durability
import OrphanFiles.Proofs.Opening

/-!
A log that several parties use.  Whatever they do to it, and whichever of their calls fail, its file is a header with
the frames of a list of records, to which records are only added; so what is read from a cut of the file is a first
part of them.
-/
namespace OrphanFiles

open Log

inductive LogMove where
  | append (kind : Kind) (payload : ByteArray)
  | sync
  | flush (upto : UInt64)
  | arrive (kind : Kind) (payload : ByteArray)
  | arm (fault : ArmedFault)

def Log.Ongoing (rs : List Record) : Prop := ∀ r ∈ rs, r.lsn ≠ -1

def past {σ α : Type} (x : EStateM Error σ α) (s : σ) : σ :=
  match x s with
  | .ok _ s' => s'
  | .error _ s' => s'

namespace OpenLog

def move (s : OpenLog) : LogMove → OpenLog
  | .append kind payload => past (append kind payload) s
  | .sync => past sync s
  | .flush upto => past (flush upto) s
  | .arrive kind payload => { s with arriving := some (kind, payload) }
  | .arm fault => { s with device := { s.device with faults := s.device.faults ++ [fault] } }

def moves (s : OpenLog) (ms : List LogMove) : OpenLog := ms.foldl move s

/- The file is what the log knows of it. -/
structure Stands (s : OpenLog) (held : List Record) : Prop where
  knows : s.log.Knows held
  bytes : s.device.file.content.bytes = s.log.header.encode ++ chain firstLink held
  placed : Ongoing held → s.log.header.start ≤ s.log.nextLsn

structure Grows (s : OpenLog) (new : List Record) (s' : OpenLog) : Prop where
  header : s'.log.header = s.log.header
  next : Ongoing new → s.log.nextLsn ≤ s'.log.nextLsn
  stands : ∀ held, s.Stands held → s'.Stands (held ++ new)
  flushed : ∀ done, s.log.flushed = some done → ∃ later, s'.log.flushed = some later ∧ done ≤ later

def Grown (s s' : OpenLog) : Prop := ∃ new, s.Grows new s'

section Growth

variable {s s₁ s' : OpenLog} {new new' : List Record}

theorem Grows.trans (first : s.Grows new s₁) (second : s₁.Grows new' s') : s.Grows (new ++ new') s' where
  header := second.header.trans first.header
  next ongoing := by
    refine UInt64.le_trans (first.next fun r member => ?_) (second.next fun r member => ?_)
    · exact ongoing r (List.mem_append_left _ member)
    · exact ongoing r (List.mem_append_right _ member)
  stands held stands := by
    rw [← List.append_assoc]
    exact second.stands _ (first.stands held stands)
  flushed done known := by
    obtain ⟨later, known, before⟩ := first.flushed done known
    obtain ⟨last, known, after⟩ := second.flushed later known
    exact ⟨last, known, UInt64.le_trans before after⟩

theorem growsNothing (log : s'.log = s.log) (content : s'.device.file.content = s.device.file.content) :
    s.Grows [] s' where
  header := by rw [log]
  next _ := by rw [log]; exact UInt64.le_refl _
  stands held stands := by
    rw [List.append_nil]
    exact ⟨log ▸ stands.knows, by rw [content, log]; exact stands.bytes, log ▸ stands.placed⟩
  flushed done known := ⟨done, log ▸ known, UInt64.le_refl done⟩

theorem Grown.trans (first : s.Grown s₁) (second : s₁.Grown s') : s.Grown s' := by
  obtain ⟨new, grows⟩ := first
  obtain ⟨new', grows'⟩ := second
  exact ⟨new ++ new', grows.trans grows'⟩

end Growth

theorem maxBounds (m n : UInt64) : m ≤ max m n ∧ n ≤ max m n := by
  rw [show max m n = if m ≤ n then n else m from rfl]
  split
  · next lower => exact ⟨lower, UInt64.le_refl n⟩
  · next higher => exact ⟨UInt64.le_refl m, UInt64.le_of_lt (UInt64.not_le.mp higher)⟩

theorem markGrows (s : OpenLog) (target : UInt64) : s.Grows [] { s with log := s.log.markSynced target } where
  header := rfl
  next _ := UInt64.le_refl _
  stands held stands := by
    have knows := stands.knows
    rw [List.append_nil]
    exact ⟨⟨knows.offset, knows.link, knows.next, knows.small⟩, stands.bytes, stands.placed⟩
  flushed done known := by
    unfold markSynced
    dsimp only
    rw [known]
    split
    · exact ⟨_, rfl, (maxBounds ..).1⟩
    · exact ⟨done, rfl, UInt64.le_refl done⟩

theorem markCovers {log : Log} {target : UInt64} (some : log.header.start < target) :
    ∃ done, (log.markSynced target).flushed = .some done ∧ target - 1 ≤ done := by
  unfold markSynced
  dsimp only
  rw [if_pos (show target > log.header.start from some)]
  refine ⟨_, rfl, ?_⟩
  cases log.flushed with
  | none => exact UInt64.le_refl _
  | some done => exact (maxBounds ..).2

section Calls

variable {s : OpenLog} {kind : Kind} {payload : ByteArray}

theorem appendGrows (s : OpenLog) (kind : Kind) (payload : ByteArray) : Ends (append kind payload s)
    (fun lsn s' => s.Grows [⟨lsn, kind, payload⟩] s' ∧ lsn = s.log.nextLsn ∧ s'.log.nextLsn = lsn + 1)
    (fun s' => s.Grows [] s') := by
  by_cases large : maxPayload < payload.size
  · rw [appendTooLarge large]
    exact growsNothing rfl rfl
  have small := Nat.le_of_not_lt large
  rcases struck : ArmedFault.strike .write s.device.faults with ⟨_ | fault, faults⟩
  · have done := appendWrites kind small struck
    have written (held : List Record) (stands : s.Stands held) :=
      stands.knows.written stands.bytes ⟨s.log.nextLsn, kind, payload⟩
    have further (ongoing : Ongoing [⟨s.log.nextLsn, kind, payload⟩]) : s.log.nextLsn ≤ s.log.nextLsn + 1 :=
      UInt64.le_of_lt (UInt64.lt_add_one (ongoing _ List.mem_cons_self))
    -- under a name, the new content stays out of what is unfolded for the append
    generalize Content.overwrite _ _ s.device.file.content = content at done written
    rw [done]
    refine ⟨⟨rfl, further, fun held stands => ?_, fun done known => ⟨done, known, UInt64.le_refl done⟩⟩, rfl, rfl⟩
    refine ⟨appendKnows stands.knows done, written held stands, fun ongoing => UInt64.le_trans ?_ (further ?_)⟩
    · exact stands.placed fun r member => ongoing r (List.mem_append_left _ member)
    · exact fun r member => ongoing r (List.mem_append_right _ member)
  · rw [appendRefused small struck]
    exact growsNothing rfl rfl

theorem syncArrives (arrives : s.arriving = some (kind, payload)) {faults : List ArmedFault}
    (struck : ArmedFault.strike .sync s.device.faults = (none, faults)) :
    sync s = (append kind payload >>= fun _ => modifyLog (·.markSynced s.log.nextLsn) : LogM Unit)
      ⟨⟨{ s.device.file with stable := s.device.file.content }, faults⟩, s.log, none⟩ := by
  unfold sync syncDevice
  simp only [bind, EStateM.bind, getOk, modifyOk, onDevice, FileM.syncEq, struck, arrives, discard, Functor.mapConst,
    Function.comp, EStateM.map]
  cases append kind payload ⟨⟨{ s.device.file with stable := s.device.file.content }, faults⟩, s.log, none⟩ with
  | ok lsn s' => rfl
  | error e s' => rfl

theorem syncAdds (s : OpenLog) : Ends (sync s)
    (fun _ s' => s.Grows s.arrivals s' ∧ (s.log.header.start < s.log.nextLsn →
      ∃ done, s'.log.flushed = some done ∧ s.log.nextLsn - 1 ≤ done))
    (fun s' => s.Grows [] s') := by
  unfold arrivals
  rcases struck : ArmedFault.strike .sync s.device.faults with ⟨_ | fault, faults⟩
  · have synced : s.Grows [] ⟨⟨{ s.device.file with stable := s.device.file.content }, faults⟩, s.log, none⟩ :=
      growsNothing rfl rfl
    cases arrives : s.arriving with
    | none =>
      rw [syncDone arrives struck, arrives]
      exact ⟨synced.trans (markGrows _ _), markCovers⟩
    | some item =>
      obtain ⟨kind, payload⟩ := item
      rw [syncArrives arrives struck]
      refine Ends.bind ((appendGrows _ kind payload).mono (fun _ _ => id) fun s' failed => synced.trans failed) ?_
      rintro lsn s₁ ⟨grows, rfl, -⟩
      refine ⟨(synced.trans grows).trans (markGrows s₁ _), fun some => markCovers ?_⟩
      rw [grows.header]
      exact some
  · rw [syncRefused struck]
    exact growsNothing rfl rfl

theorem syncGrows (s : OpenLog) : Ends (sync s)
    (fun _ s' => s.Grown s' ∧ (s.log.header.start < s.log.nextLsn →
      ∃ done, s'.log.flushed = some done ∧ s.log.nextLsn - 1 ≤ done))
    (fun s' => s.Grown s') :=
  (syncAdds s).mono (fun _ _ synced => ⟨⟨_, synced.1⟩, synced.2⟩) fun _ failed => ⟨_, failed⟩

theorem flushGrows (s : OpenLog) (upto : UInt64) : Ends (flush upto s)
    (fun _ s' => s.Grown s' ∧ (s.log.header.start ≤ upto → upto < s.log.nextLsn →
      ∃ done, s'.log.flushed = some done ∧ upto ≤ done))
    (fun s' => s.Grown s') := by
  by_cases known : ∃ done, s.log.flushed = some done ∧ upto ≤ done
  · obtain ⟨done, known, enough⟩ := known
    rw [flushKnown known enough]
    exact ⟨⟨[], growsNothing rfl rfl⟩, fun _ _ => ⟨done, known, enough⟩⟩
  · rw [flushSyncs fun done flushed enough => known ⟨done, flushed, enough⟩]
    refine (syncGrows s).mono (fun _ s' synced => ⟨synced.1, fun behind before => ?_⟩) fun _ => id
    obtain ⟨done, known, covers⟩ := synced.2 (UInt64.lt_of_le_of_lt behind before)
    have last : upto ≤ s.log.nextLsn - 1 := by grind
    exact ⟨done, known, UInt64.le_trans last covers⟩

theorem Grown.past {α : Type} {x : LogM α} {P : α → OpenLog → Prop} (ends : Ends (x s) P (s.Grown ·))
    (grown : ∀ a s', P a s' → s.Grown s') : s.Grown (past x s) := by
  unfold OrphanFiles.past
  cases outcome : x s with
  | ok a s' =>
    rw [outcome] at ends
    exact grown a s' ends
  | error e s' =>
    rw [outcome] at ends
    exact ends

theorem moveGrows (s : OpenLog) (m : LogMove) : s.Grown (s.move m) := by
  cases m with
  | append kind payload =>
    exact .past ((appendGrows s kind payload).mono (fun _ _ => id) fun _ failed => ⟨_, failed⟩)
      fun _ _ done => ⟨_, done.1⟩
  | sync => exact .past (syncGrows s) fun _ _ done => done.1
  | flush upto => exact .past (flushGrows s upto) fun _ _ done => done.1
  | arrive kind payload => exact ⟨[], growsNothing rfl rfl⟩
  | arm fault => exact ⟨[], growsNothing rfl rfl⟩

theorem movesGrow (s : OpenLog) (ms : List LogMove) : s.Grown (s.moves ms) := by
  induction ms generalizing s with
  | nil => exact ⟨[], growsNothing rfl rfl⟩
  | cons m ms ih => exact (moveGrows s m).trans (ih (s.move m))

end Calls

section Files

variable {s : OpenLog} {held : List Record} {d d' : Device} {salt start : UInt64} {log : Log}

theorem loadHolds (done : Log.load salt start d = .ok log d') :
    ∃ held, Stands ⟨d', log, none⟩ held ∧ ∀ r ∈ held, log.header.start ≤ r.lsn := by
  by_cases short : d.file.content.bytes.size < Sealed.size
  · obtain ⟨rfl, bytes⟩ := loadMakes done short
    exact ⟨[], ⟨⟨rfl, rfl, rfl, by simp⟩, bytes.trans ByteArray.append_empty.symm, fun _ => UInt64.le_refl _⟩, by simp⟩
  obtain ⟨held, loaded⟩ := loadFound done
  obtain ⟨decoded, standing, -, kept⟩ := loaded.found (Nat.le_of_not_lt short)
  refine ⟨held, ⟨loaded.knows, ?_, fun ongoing => ?_⟩, fun r member => (standing.admitted r member).recent⟩
  · rw [kept, ← BigEndian.joinPieces _ (Nat.zero_le _) standing.behind, frontDecoded decoded, standing.frames]
  · dsimp only
    rw [loaded.knows.next]
    cases last : held.getLast? with
    | none => exact UInt64.le_refl _
    | some r =>
      have member := List.mem_of_getLast? last
      exact UInt64.le_trans (standing.admitted r member).recent (UInt64.le_of_lt (UInt64.lt_add_one (ongoing r member)))

theorem loadStands (done : Log.load salt start d = .ok log d') : ∃ held, Stands ⟨d', log, none⟩ held := by
  obtain ⟨held, stands, -⟩ := loadHolds done
  exact ⟨held, stands⟩

end Files

end OpenLog

namespace Log

section Cuts

variable {bytes : ByteArray} {link start : UInt64} {off n v : Nat} {r : Record} {rs held : List Record}

theorem Record.StandsAt.uncut (stands : r.StandsAt (bytes.extract 0 n) off link) : r.StandsAt bytes off link := by
  have inside := stands.inside
  have framed := stands.framed
  rw [ByteArray.size_extract] at inside
  rw [ByteArray.extract_extract, Nat.zero_add, Nat.zero_add, Nat.min_eq_left (by omega)] at framed
  exact ⟨by omega, framed⟩

theorem Standing.front (standing : Standing (bytes.extract 0 n) start link off rs v)
    (frames : bytes.extract off bytes.size = chain link held) (small : ∀ r ∈ held, r.payload.size ≤ maxPayload) :
    rs <+: held := by
  induction rs generalizing link off held with
  | nil => exact List.nil_prefix
  | cons x rs ih =>
    obtain ⟨cut, admitted, rest⟩ := standing.first
    have stands := cut.uncut
    have inside := stands.inside
    cases held with
    | nil =>
      have none := ByteArray.extract_eq_empty_iff.mp frames
      rw [Record.extent, Sealed.size] at inside
      omega
    | cons y held =>
      obtain ⟨stands', -, frames⟩ := chainFirst (by omega) (Nat.le_refl _) frames
      obtain rfl := stands.unique stands' admitted.small (small y List.mem_cons_self)
      exact (List.prefix_cons_inj x).mpr (ih rest frames fun r member => small r (List.mem_cons_of_mem _ member))

end Cuts

end Log

namespace OpenLog

section Cuts

variable {s s' : OpenLog} {held : List Record} {d d' : Device} {salt start : UInt64} {log : Log} {scan : Reader.Scan}

theorem readThroughStands (read : readThrough s = .ok scan s') : ∃ v,
    Standing s.device.file.content.bytes s.log.header.start firstLink Sealed.size scan.records v := by
  obtain ⟨r, s₁, found, drained⟩ := bindOk read
  obtain ⟨s₂, s₃, got, made⟩ := bindOk found
  cases got
  unfold drain at drained
  unfold onDevice at made drained
  split at made <;> cases made
  next r d made =>
  split at drained <;> cases drained
  next scan d' drained =>
  obtain ⟨later, long, rfl⟩ := newOk made
  have sees : (Reader.atFirst s.log.header s.device.file.content.bytes).Sees d.file.content.bytes := by
    rw [later.file]
    exact Reader.firstSees long
  have standing := ((drainOk sees drained).standing sees).2.2.1
  rw [later.file] at standing
  exact ⟨_, standing⟩

theorem cutReads (stands : s.Stands held) {n : Nat}
    (cut : d.file.content.bytes = s.device.file.content.bytes.extract 0 n) (done : Log.load salt start d = .ok log d')
    (read : readThrough ⟨d', log, none⟩ = .ok scan s') : scan.records <+: held := by
  obtain ⟨v, standing⟩ := readThroughStands read
  dsimp only at standing
  by_cases short : d.file.content.bytes.size < Sealed.size
  · have bytes := (loadMakes done short).2
    have few := standing.few
    rw [bytes, Header.sizeEncode, Nat.sub_self, Nat.zero_div] at few
    rw [List.length_eq_zero_iff.mp (Nat.le_zero.mp few)]
    exact List.nil_prefix
  obtain ⟨found, loaded⟩ := loadFound done
  have kept := (loaded.found (Nat.le_of_not_lt short)).2.2.2
  rw [kept, cut, ByteArray.extract_extract, Nat.zero_add, Nat.zero_add] at standing
  refine standing.front ?_ stands.knows.small
  have front := Header.sizeEncode s.log.header
  rw [stands.bytes, ByteArray.extract_append_eq_right front.symm (by rw [ByteArray.size_append, front])]

end Cuts

end OpenLog
end OrphanFiles
