import Mathlib.Logic.Function.Basic
import Mathlib.Order.Bounds.Defs
import OrphanFiles.Proofs.SharedLog

/-!
What a log calls durable while any number of parties sync and flush it.  A sync reads the next position when it begins,
and records are appended while the device is at work, so what it covers is told by its beginning.  Main statement: at
every moment the last record that is called durable is the greatest one that was found or that a sync covers which has
succeeded.
-/
namespace OrphanFiles

open Log

inductive Stage where
  | idle
  | known
  | waiting
  | begun (target : UInt64)
  | stable (target : UInt64)
  | done (target : UInt64)
  | failed (target : UInt64) (e : Error)

def Stage.target? : Stage → Option UInt64
  | .begun target | .stable target | .done target | .failed target _ => some target
  | _ => none

/- The next thing that happens to a log.  Calls have numbers, and each number is used once. -/
inductive FlushTurn where
  | append (kind : Kind) (payload : ByteArray)
  | sync (n : Nat)
  | flush (n : Nat) (upto : UInt64)
  | start (n : Nat)
  | device (n : Nat)
  | finish (n : Nat)
  | abandon (n : Nat) (e : Error)
  | arm (fault : ArmedFault)

namespace Log

def Covers (log : Log) (upto : UInt64) : Prop := ∃ done, log.flushed = some done ∧ upto ≤ done

instance (log : Log) (upto : UInt64) : Decidable (log.Covers upto) :=
  match known : log.flushed with
  | none => .isFalse fun ⟨_, here, _⟩ => by rw [known] at here; contradiction
  | some done =>
    if enough : upto ≤ done then .isTrue ⟨done, known, enough⟩
    else .isFalse fun ⟨_, here, upto⟩ => enough (Option.some.inj (known.symm.trans here) ▸ upto)

def reach (log : Log) : Nat := log.flushed.elim log.header.start.toNat (·.toNat + 1)

def position (log : Log) (records : Nat) : UInt64 := UInt64.ofNat (log.reach + records)

structure Unused (log : Log) : Prop where
  next : log.nextLsn = log.position 0
  start : log.header.start.toNat ≤ log.reach
  records : log.stats.records = 0

section Positions

variable {log : Log} {k : Nat}

theorem positionNumber (room : log.reach + k < UInt64.size) : (log.position k).toNat = log.reach + k :=
  UInt64.toNat_ofNat_of_lt' room

theorem positionNext (log : Log) (k : Nat) : log.position k + 1 = log.position (k + 1) := by
  rw [position, position, ← Nat.add_assoc, UInt64.ofNat_add _ 1]
  rfl

theorem ofScanUnused {h : Header} {scan : Reader.Scan} {torn : Nat}
    (recent : ∀ r ∈ scan.records, h.start ≤ r.lsn) : (ofScan h scan torn).Unused := by
  unfold ofScan
  cases last : scan.records.getLast? with
  | none => exact ⟨UInt64.ofNat_toNat.symm, Nat.le_refl _, rfl⟩
  | some r =>
    have behind := UInt64.le_iff_toNat_le.mp (recent r (List.mem_of_getLast? last))
    refine ⟨?_, Nat.le_succ_of_le behind, rfl⟩
    show r.lsn + 1 = UInt64.ofNat (r.lsn.toNat + 1)
    rw [UInt64.ofNat_add, UInt64.ofNat_toNat]
    rfl

theorem loadUnused {salt start : UInt64} {d d' : Device} (opened : load salt start d = .ok log d') : log.Unused := by
  by_cases short : d.file.content.bytes.size < Sealed.size
  · obtain ⟨rfl, -⟩ := loadMakes opened short
    exact ⟨UInt64.ofNat_toNat.symm, Nat.le_refl _, rfl⟩
  · obtain ⟨h, scan, -, -, -, standing, -, rfl, -⟩ := loadScans opened (Nat.le_of_not_lt short)
    exact ofScanUnused fun r member => (standing.admitted r member).recent

end Positions

end Log

structure Flushing where
  log : OpenLog
  stage : Nat → Stage := fun _ => .idle

namespace Flushing

def put (f : Flushing) (n : Nat) (s : OpenLog) (stage : Stage) : Flushing := ⟨s, Function.update f.stage n stage⟩

def act (f : Flushing) : FlushTurn → Flushing
  | .append kind payload => { f with log := past (OpenLog.append kind payload) f.log }
  | .sync n => match f.stage n with
    | .idle => f.put n f.log .waiting
    | _ => f
  | .flush n upto => match f.stage n with
    | .idle => f.put n f.log (if f.log.log.Covers upto then .known else .waiting)
    | _ => f
  | .start n => match f.stage n with
    | .waiting => f.put n f.log (.begun f.log.log.nextLsn)
    | _ => f
  | .device n => match f.stage n with
    | .begun target => match OpenLog.onDevice FileM.sync f.log with
      | .ok _ s => f.put n s (.stable target)
      | .error e s => f.put n s (.failed target e)
    | _ => f
  | .finish n => match f.stage n with
    | .stable target => f.put n { f.log with log := f.log.log.markSynced target } (.done target)
    | _ => f
  | .abandon n e => match f.stage n with
    | .stable target => f.put n f.log (.failed target e)
    | _ => f
  | .arm fault => { f with log := f.log.move (.arm fault) }

def run (f : Flushing) (turns : List FlushTurn) : Flushing := turns.foldl act f

def records (f : Flushing) : Nat := f.log.log.stats.records

def Counted (log : Log) (f : Flushing) : Set UInt64 :=
  {v | log.flushed = some v ∨ ∃ n target, f.stage n = .done target ∧ log.header.start < target ∧ v = target - 1}

inductive Moves (next : UInt64) (n : Nat) : FlushTurn → Stage → Stage → Prop where
  | syncs : Moves next n (.sync n) .idle .waiting
  | flushes {upto} : Moves next n (.flush n upto) .idle .waiting
  | knows {upto} : Moves next n (.flush n upto) .idle .known
  | starts : Moves next n (.start n) .waiting (.begun next)
  | settles {target} : Moves next n (.device n) (.begun target) (.stable target)
  | breaks {target e} : Moves next n (.device n) (.begun target) (.failed target e)
  | abandons {target e} : Moves next n (.abandon n e) (.stable target) (.failed target e)

inductive Changes (f : Flushing) (turn : FlushTurn) (f' : Flushing) : Prop where
  | nothing (log : f'.log.log = f.log.log) (stage : f'.stage = f.stage)
  | appended {kind payload block} (turn : turn = .append kind payload)
      (log : f'.log.log = f.log.log.extend block payload) (stage : f'.stage = f.stage)
  | moved {n stage} (moves : Moves f.log.log.nextLsn n turn (f.stage n) stage) (log : f'.log.log = f.log.log)
      (stage : f'.stage = Function.update f.stage n stage)
  | finished {n target} (turn : turn = .finish n) (stable : f.stage n = .stable target)
      (log : f'.log.log = f.log.log.markSynced target) (stage : f'.stage = Function.update f.stage n (.done target))

theorem appendChanges (s : OpenLog) (kind : Kind) (payload : ByteArray) :
    (past (OpenLog.append kind payload) s).log = s.log ∨
      ∃ block, (past (OpenLog.append kind payload) s).log = s.log.extend block payload := by
  unfold past
  by_cases large : maxPayload < payload.size
  · rw [OpenLog.appendTooLarge large]
    exact .inl rfl
  have small := Nat.le_of_not_lt large
  rcases struck : ArmedFault.strike .write s.device.faults with ⟨_ | fault, faults⟩
  · rw [OpenLog.appendWrites kind small struck]
    exact .inr ⟨_, rfl⟩
  · rw [OpenLog.appendRefused small struck]
    exact .inl rfl

theorem actChanges (f : Flushing) (turn : FlushTurn) : f.Changes turn (f.act turn) := by
  cases turn with
  | append kind payload =>
    rcases appendChanges f.log kind payload with same | ⟨block, extended⟩
    · exact .nothing same rfl
    · exact .appended rfl extended rfl
  | arm fault => exact .nothing rfl rfl
  | sync n =>
    simp only [act]
    split
    · next idle => exact .moved (n := n) (idle ▸ .syncs) rfl rfl
    · exact .nothing rfl rfl
  | flush n upto =>
    simp only [act]
    split
    · next idle =>
      by_cases covered : f.log.log.Covers upto
      · rw [if_pos covered]
        exact .moved (n := n) (idle ▸ .knows) rfl rfl
      · rw [if_neg covered]
        exact .moved (n := n) (idle ▸ .flushes) rfl rfl
    · exact .nothing rfl rfl
  | start n =>
    simp only [act]
    split
    · next waiting => exact .moved (n := n) (waiting ▸ .starts) rfl rfl
    · exact .nothing rfl rfl
  | device n =>
    simp only [act]
    split
    · next target begun =>
      rcases struck : ArmedFault.strike .sync f.log.device.faults with ⟨_ | fault, faults⟩
      · simp only [OpenLog.onDevice, FileM.syncEq, struck]
        exact .moved (n := n) (begun ▸ .settles) rfl rfl
      · simp only [OpenLog.onDevice, FileM.syncEq, struck]
        exact .moved (n := n) (begun ▸ .breaks) rfl rfl
    · exact .nothing rfl rfl
  | finish n =>
    simp only [act]
    split
    · next target stable => exact .finished rfl stable rfl rfl
    · exact .nothing rfl rfl
  | abandon n e =>
    simp only [act]
    split
    · next target stable => exact .moved (n := n) (stable ▸ .abandons) rfl rfl
    · exact .nothing rfl rfl

structure Placed (log : Log) (f : Flushing) : Prop where
  header : f.log.log.header = log.header
  next : f.log.log.nextLsn = log.position f.records

def Peaks (log : Log) (f : Flushing) : Prop :=
  f.log.log.flushed.elim (f.Counted log = ∅) (IsGreatest (f.Counted log))

structure Goes (log : Log) (low high : Nat) (s s' : Stage) : Prop where
  kept : ∀ target, s.target? = some target → s'.target? = some target
  read : ∀ target, s'.target? = some target →
    s.target? = some target ∨ ∃ k, low ≤ k ∧ k ≤ high ∧ target = log.position k
  asked : s ≠ .idle → s' ≠ .idle ∧ (s' = .known → s = .known)

structure Since (log : Log) (f g : Flushing) : Prop where
  records : f.records ≤ g.records
  ascends : ∀ upto, f.log.log.Covers upto → g.log.log.Covers upto
  goes : ∀ n, Goes log f.records g.records (f.stage n) (g.stage n)

section Steps

variable {log : Log} {f g h : Flushing} {turn : FlushTurn} {low mid high : Nat} {s s' s'' stage : Stage} {n : Nat}

theorem Goes.refl (log : Log) (low high : Nat) (s : Stage) : Goes log low high s s :=
  ⟨fun _ => id, fun _ => .inl, fun asked => ⟨asked, id⟩⟩

theorem Goes.trans (first : Goes log low mid s s') (second : Goes log mid high s' s'') (lower : low ≤ mid)
    (higher : mid ≤ high) : Goes log low high s s'' where
  kept target read := second.kept target (first.kept target read)
  read target last := by
    rcases second.read target last with before | ⟨k, behind, within, place⟩
    · rcases first.read target before with before | ⟨k, behind, within, place⟩
      · exact .inl before
      · exact .inr ⟨k, behind, Nat.le_trans within higher, place⟩
    · exact .inr ⟨k, Nat.le_trans lower behind, within, place⟩
  asked before := by
    obtain ⟨between, same⟩ := first.asked before
    obtain ⟨after, same'⟩ := second.asked between
    exact ⟨after, fun known => same (same' known)⟩

theorem Goes.update (goes : Goes log low high (f.stage n) stage) :
    ∀ i, Goes log low high (f.stage i) (Function.update f.stage n stage i) :=
  (Function.forall_update_iff f.stage fun i s => Goes log low high (f.stage i) s).mpr ⟨goes, fun _ _ => .refl ..⟩

theorem Since.refl (log : Log) (f : Flushing) : Since log f f :=
  ⟨Nat.le_refl _, fun _ => id, fun _ => .refl ..⟩

theorem Since.trans (first : Since log f g) (second : Since log g h) : Since log f h where
  records := Nat.le_trans first.records second.records
  ascends upto covered := second.ascends upto (first.ascends upto covered)
  goes n := (first.goes n).trans (second.goes n) first.records second.records

theorem Moves.goes (moves : Moves (log.position low) n turn s s') : Goes log low low s s' := by
  cases moves with
  | syncs => exact ⟨by simp [Stage.target?], by simp [Stage.target?], by simp⟩
  | flushes => exact ⟨by simp [Stage.target?], by simp [Stage.target?], by simp⟩
  | knows => exact ⟨by simp [Stage.target?], by simp [Stage.target?], by simp⟩
  | starts =>
    refine ⟨by simp [Stage.target?], fun target read => .inr ⟨low, Nat.le_refl _, Nat.le_refl _, ?_⟩, by simp⟩
    exact (Option.some.inj read).symm
  | settles => exact ⟨fun _ => id, fun _ => .inl, by simp⟩
  | breaks => exact ⟨fun _ => id, fun _ => .inl, by simp⟩
  | abandons => exact ⟨fun _ => id, fun _ => .inl, by simp⟩

theorem Moves.unfinished {next : UInt64} (moves : Moves next n turn s s') (target : UInt64) :
    s ≠ .done target ∧ s' ≠ .done target := by
  cases moves <;> exact ⟨by simp, by simp⟩

theorem Changes.since (changes : f.Changes turn g) (placed : f.Placed log) : Since log f g ∧ g.Placed log := by
  cases changes with
  | nothing same stage =>
    have records : g.records = f.records := congrArg (·.stats.records) same
    refine ⟨⟨Nat.le_of_eq records.symm, fun upto => same ▸ id, fun n => ?_⟩, same ▸ placed.header, ?_⟩
    · rw [stage]
      exact .refl ..
    · rw [same, records]
      exact placed.next
  | appended _ extended stage =>
    have records : g.records = f.records + 1 := congrArg (·.stats.records) extended
    refine ⟨⟨?_, fun upto covered => ?_, fun n => ?_⟩, ?_, ?_⟩
    · rw [records]
      exact Nat.le_succ _
    · rw [extended]
      exact covered
    · rw [stage]
      exact .refl ..
    · rw [extended]
      exact placed.header
    · rw [records, ← positionNext, ← placed.next, extended]
      rfl
  | moved moves same stage =>
    have records : g.records = f.records := congrArg (·.stats.records) same
    rw [placed.next] at moves
    refine ⟨⟨Nat.le_of_eq records.symm, fun upto => same ▸ id, ?_⟩, same ▸ placed.header, ?_⟩
    · rw [stage, records]
      exact moves.goes.update
    · rw [same, records]
      exact placed.next
  | finished _ stable marked stage =>
    have records : g.records = f.records := congrArg (·.stats.records) marked
    refine ⟨⟨Nat.le_of_eq records.symm, fun upto covered => ?_, ?_⟩, ?_, ?_⟩
    · obtain ⟨done, known, enough⟩ := covered
      obtain ⟨later, known, more⟩ := (OpenLog.markGrows f.log _).flushed done known
      rw [marked]
      exact ⟨later, known, UInt64.le_trans enough more⟩
    · rw [stage, records]
      apply Goes.update
      rw [stable]
      exact ⟨fun _ => id, fun _ => .inl, by simp⟩
    · rw [marked]
      exact placed.header
    · rw [records, marked]
      exact placed.next

theorem runSince (placed : f.Placed log) (turns : List FlushTurn) :
    Since log f (f.run turns) ∧ (f.run turns).Placed log := by
  induction turns generalizing f with
  | nil => exact ⟨.refl log f, placed⟩
  | cons turn turns ih =>
    obtain ⟨since, next⟩ := (actChanges f turn).since placed
    obtain ⟨since', last⟩ := ih next
    exact ⟨since.trans since', last⟩

theorem Moves.reads {next target : UInt64} (moves : Moves next n turn s s') (read : s'.target? = some target) :
    s.target? = some target ∨ turn = .start n ∧ target = next := by
  cases moves with
  | syncs | flushes | knows => contradiction
  | starts => exact .inr ⟨rfl, (Option.some.inj read).symm⟩
  | settles | breaks | abandons => exact .inl read

theorem Changes.reads (changes : f.Changes turn g) {target : UInt64} (read : (g.stage n).target? = some target) :
    (f.stage n).target? = some target ∨ turn = .start n ∧ target = f.log.log.nextLsn := by
  cases changes with
  | nothing log stage => exact .inl (stage ▸ read)
  | appended _ log stage => exact .inl (stage ▸ read)
  | moved moves log stage =>
    rw [stage] at read
    exact (Function.forall_update_iff f.stage fun i s => s.target? = some target →
      (f.stage i).target? = some target ∨ turn = .start i ∧ target = f.log.log.nextLsn).mpr
      ⟨moves.reads, fun _ _ => .inl⟩ n read
  | finished _ stable log stage =>
    rw [stage] at read
    exact (Function.forall_update_iff f.stage fun i s => s.target? = some target →
      (f.stage i).target? = some target ∨ turn = .start i ∧ target = f.log.log.nextLsn).mpr
      ⟨fun read => .inl (stable ▸ read), fun _ _ => .inl⟩ n read

theorem runReads {turns : List FlushTurn} {target : UInt64} (read : ((f.run turns).stage n).target? = some target) :
    (f.stage n).target? = some target ∨
      ∃ before after, turns = before ++ .start n :: after ∧ target = (f.run before).log.log.nextLsn := by
  induction turns generalizing f with
  | nil => exact .inl read
  | cons turn turns ih =>
    rcases ih read with first | ⟨before, after, rfl, place⟩
    · rcases (actChanges f turn).reads first with earlier | ⟨rfl, here⟩
      · exact .inl earlier
      · exact .inr ⟨[], turns, rfl, here⟩
    · exact .inr ⟨turn :: before, after, rfl, place⟩

theorem peakMore {S : Set UInt64} {flushed : Option UInt64} (peak : flushed.elim (S = ∅) (IsGreatest S)) (v : UInt64) :
    IsGreatest {x | x ∈ S ∨ x = v} (flushed.elim v (max · v)) := by
  cases flushed with
  | none =>
    have empty : S = ∅ := peak
    subst empty
    exact ⟨.inr rfl, fun x member => UInt64.le_of_eq (member.resolve_left id)⟩
  | some done =>
    obtain ⟨member, bound⟩ : IsGreatest S done := peak
    obtain ⟨older, newer⟩ := OpenLog.maxBounds done v
    refine ⟨?_, fun x counted => ?_⟩
    · rw [Option.elim_some, show max done v = if done ≤ v then v else done from rfl]
      split
      · exact .inr rfl
      · exact .inl member
    · rcases counted with counted | rfl
      · exact UInt64.le_trans (bound counted) older
      · exact newer

theorem countedMore {target : UInt64}
    (done : ∀ i t, g.stage i = .done t ↔ f.stage i = .done t ∨ i = n ∧ t = target) :
    g.Counted log = {v | v ∈ f.Counted log ∨ log.header.start < target ∧ v = target - 1} := by
  ext v
  constructor
  · rintro (found | ⟨i, t, finished, past, rfl⟩)
    · exact .inl (.inl found)
    · rcases (done i t).mp finished with before | ⟨-, rfl⟩
      · exact .inl (.inr ⟨i, t, before, past, rfl⟩)
      · exact .inr ⟨past, rfl⟩
  · rintro ((found | ⟨i, t, finished, past, rfl⟩) | ⟨past, rfl⟩)
    · exact .inl found
    · exact .inr ⟨i, t, (done i t).mpr (.inl finished), past, rfl⟩
    · exact .inr ⟨n, target, (done n target).mpr (.inr ⟨rfl, rfl⟩), past, rfl⟩

theorem Changes.peaks (changes : f.Changes turn g) (placed : f.Placed log) (peaks : f.Peaks log) : g.Peaks log := by
  -- the same positions count, unless a sync is marked
  have same (finished : ∀ n target, g.stage n = .done target ↔ f.stage n = .done target)
      (flushed : g.log.log.flushed = f.log.log.flushed) : g.Peaks log := by
    unfold Peaks Counted
    simp only [finished, flushed]
    exact peaks
  cases changes with
  | nothing log stage => exact same (fun _ _ => by rw [stage]) (by rw [log])
  | appended _ log stage => exact same (fun _ _ => by rw [stage]) (by rw [log]; rfl)
  | moved moves log stage =>
    refine same (fun i target => ?_) (by rw [log])
    obtain ⟨before, after⟩ := moves.unfinished target
    rw [stage]
    exact (Function.forall_update_iff f.stage fun i s => s = .done target ↔ f.stage i = .done target).mpr
      ⟨⟨fun done => absurd done after, fun done => absurd done before⟩, fun _ _ => Iff.rfl⟩ i
  | @finished n target _ stable marked stage =>
    have done (i : Nat) (t : UInt64) : g.stage i = .done t ↔ f.stage i = .done t ∨ i = n ∧ t = target := by
      rw [stage]
      refine (Function.forall_update_iff f.stage fun i s =>
        s = .done t ↔ f.stage i = .done t ∨ i = n ∧ t = target).mpr ⟨?_, fun i other => ?_⟩ i
      · rw [stable]
        exact ⟨fun same => .inr ⟨rfl, (Stage.done.inj same).symm⟩, fun last => by rw [(last.resolve_left nofun).2]⟩
      · exact ⟨.inl, fun last => last.resolve_right fun same => other same.1⟩
    unfold Peaks
    rw [marked, countedMore done]
    unfold markSynced
    dsimp only
    rw [placed.header]
    split
    · next some =>
      have some : log.header.start < target := some
      simp only [some, true_and]
      exact peakMore peaks _
    · next none =>
      have none : ¬ log.header.start < target := none
      simp only [none, false_and, or_false]
      exact peaks

theorem runPeaks (placed : f.Placed log) (peaks : f.Peaks log) (turns : List FlushTurn) : (f.run turns).Peaks log := by
  induction turns generalizing f with
  | nil => exact peaks
  | cons turn turns ih =>
    have changes := actChanges f turn
    exact ih (changes.since placed).2 (changes.peaks placed peaks)

end Steps

section Rules

variable {log : Log} {f g : Flushing} {n : Nat} {upto target : UInt64}

def Roomy (log : Log) (f : Flushing) : Prop := log.reach + f.records < UInt64.size

theorem coversBefore (peaks : f.Peaks log) (done : f.stage n = .done target) (some : log.header.start < target)
    (before : upto < target) : f.log.log.Covers upto := by
  have counted : target - 1 ∈ f.Counted log := .inr ⟨n, target, done, some, rfl⟩
  have last : upto ≤ target - 1 := by grind
  unfold Peaks at peaks
  cases known : f.log.log.flushed with
  | none =>
    rw [known] at peaks
    have empty : f.Counted log = ∅ := peaks
    rw [empty] at counted
    contradiction
  | some v =>
    rw [known] at peaks
    exact ⟨v, known, UInt64.le_trans last (peaks.2 counted)⟩

theorem countedBehind (peaks : f.Peaks log) (covered : f.log.log.Covers upto) : ∃ v ∈ f.Counted log, upto ≤ v := by
  obtain ⟨done, known, enough⟩ := covered
  unfold Peaks at peaks
  rw [known] at peaks
  exact ⟨done, peaks.1, enough⟩

/- A log since it was opened: every target is the next position after some of the records. -/
structure Used (log : Log) (f : Flushing) : Prop where
  unused : log.Unused
  placed : f.Placed log
  peaks : f.Peaks log
  read : ∀ n target, (f.stage n).target? = some target → ∃ k, k ≤ f.records ∧ target = log.position k

theorem openedUsed {s : OpenLog} (unused : s.log.Unused) : Used s.log ⟨s, fun _ => .idle⟩ where
  unused := unused
  placed := ⟨rfl, by rw [records, unused.records]; exact unused.next⟩
  peaks := by
    have found : Counted s.log ⟨s, fun _ => .idle⟩ = {v | s.log.flushed = some v} := by simp [Counted]
    unfold Peaks
    rw [found]
    dsimp only
    cases s.log.flushed with
    | none => simp
    | some v => exact ⟨rfl, fun w same => UInt64.le_of_eq (Option.some.inj same).symm⟩
  read n target nothing := by simp [Stage.target?] at nothing

theorem Used.run (used : Used log f) (turns : List FlushTurn) : Used log (f.run turns) where
  unused := used.unused
  placed := (runSince used.placed turns).2
  peaks := runPeaks used.placed used.peaks turns
  read n target read := by
    have since := (runSince used.placed turns).1
    rcases (since.goes n).read target read with before | ⟨k, -, within, place⟩
    · obtain ⟨k, within, place⟩ := used.read n target before
      exact ⟨k, Nat.le_trans within since.records, place⟩
    · exact ⟨k, within, place⟩

theorem Placed.number (placed : f.Placed log) (room : f.Roomy log) :
    f.log.log.nextLsn.toNat = log.reach + f.records := by
  rw [placed.next, positionNumber room]

theorem Since.roomy (since : Since log f g) (room : g.Roomy log) : f.Roomy log :=
  Nat.lt_of_le_of_lt (Nat.add_le_add_left since.records _) room

theorem Used.startNumber (used : Used log f) (room : f.Roomy log) : log.header.start ≤ f.log.log.nextLsn := by
  rw [UInt64.le_iff_toNat_le, used.placed.number room]
  exact Nat.le_add_right_of_le used.unused.start

theorem Since.behind (since : Since log f g) (placed : f.Placed log) (room : g.Roomy log)
    (read : (g.stage n).target? = some target) (unread : (f.stage n).target? = none) :
    f.log.log.nextLsn ≤ target := by
  rcases (since.goes n).read target read with before | ⟨k, behind, within, rfl⟩
  · rw [unread] at before
    contradiction
  · unfold Roomy at room
    rw [UInt64.le_iff_toNat_le, placed.number (since.roomy room), positionNumber (by omega)]
    exact Nat.add_le_add_left behind _

theorem Used.targetBelow (used : Used log f) (room : f.Roomy log) (read : (f.stage n).target? = some target) :
    target ≤ f.log.log.nextLsn := by
  obtain ⟨k, within, rfl⟩ := used.read n target read
  have next := used.placed.number room
  unfold Roomy at room
  rw [UInt64.le_iff_toNat_le, next, positionNumber (by omega)]
  exact Nat.add_le_add_left within _

theorem Used.foundBelow (used : Used log f) (room : f.Roomy log) (found : log.flushed = some target) :
    target < f.log.log.nextLsn := by
  have reach : log.reach = target.toNat + 1 := by rw [reach, found, Option.elim_some]
  rw [UInt64.lt_iff_toNat_lt, used.placed.number room]
  omega

theorem frontBefore {start : UInt64} (some : start < target) : target - 1 < target := by grind

theorem Used.durableBelow (used : Used log f) (room : f.Roomy log) (covered : f.log.log.Covers upto) :
    upto < f.log.log.nextLsn := by
  obtain ⟨v, found | ⟨n, target, done, some, rfl⟩, enough⟩ := countedBehind used.peaks covered
  · exact UInt64.lt_of_le_of_lt enough (used.foundBelow room found)
  · have front := UInt64.lt_of_le_of_lt enough (frontBefore some)
    exact UInt64.lt_of_lt_of_le front (used.targetBelow room (by rw [done]; rfl))

theorem Used.flushCovers (used : Used log f) (idle : f.stage n = .idle) (behind : log.header.start ≤ upto)
    (before : upto < f.log.log.nextLsn) (turns : List FlushTurn) (room : (f.run (.flush n upto :: turns)).Roomy log)
    (returned : (f.run (.flush n upto :: turns)).stage n = .known ∨
      ∃ target, (f.run (.flush n upto :: turns)).stage n = .done target) :
    (f.run (.flush n upto :: turns)).log.log.Covers upto := by
  have asked : f.act (.flush n upto) = f.put n f.log (if f.log.log.Covers upto then .known else .waiting) := by
    simp only [act, idle]
  by_cases covered : f.log.log.Covers upto
  · exact (runSince used.placed (.flush n upto :: turns)).1.ascends upto covered
  rw [if_neg covered] at asked
  have waits : (f.act (.flush n upto)).stage n = .waiting := by rw [asked]; exact Function.update_self ..
  have used₁ := used.run [.flush n upto]
  have since : Since log (f.act (.flush n upto)) (f.run (.flush n upto :: turns)) := (runSince used₁.placed turns).1
  -- a call that waits never finds its records known later, so it has read a target, and behind them
  rcases returned with known | ⟨target, done⟩
  · have late := ((since.goes n).asked (by rw [waits]; nofun)).2 known
    rw [waits] at late
    contradiction
  · have last := since.behind used₁.placed room (by rw [done]; rfl) (by rw [waits]; rfl)
    rw [show (f.act (.flush n upto)).log = f.log by rw [asked]; rfl] at last
    have past : upto < target := UInt64.lt_of_lt_of_le before last
    exact coversBefore (used.run (.flush n upto :: turns)).peaks done (UInt64.lt_of_le_of_lt behind past) past

theorem Used.coveredLate (used : Used log f) {kind : Kind} {payload : ByteArray} {lsn : UInt64} {s : OpenLog}
    (appended : OpenLog.append kind payload f.log = .ok lsn s) (turns : List FlushTurn)
    (room : (f.run (.append kind payload :: turns)).Roomy log) :
    (f.run (.append kind payload :: turns)).log.log.Covers lsn ↔ ∃ n target,
      (f.run (.append kind payload :: turns)).stage n = .done target ∧ (f.stage n).target? = none := by
  obtain ⟨-, rfl, extended⟩ := OpenLog.appendOk appended
  have used₁ := used.run [.append kind payload]
  have done := used.run (.append kind payload :: turns)
  have since : Since log f (f.run (.append kind payload :: turns)) := (runSince used.placed _).1
  have since₁ : Since log (f.run [.append kind payload]) (f.run (.append kind payload :: turns)) :=
    (runSince used₁.placed turns).1
  have log₁ : (f.run [.append kind payload]).log.log = s.log := by
    show (past (OpenLog.append kind payload) f.log).log = s.log
    unfold past
    rw [appended]
  have next : (f.run [.append kind payload]).log.log.nextLsn = f.log.log.nextLsn + 1 := by
    rw [log₁, extended]
    rfl
  have records : (f.run [.append kind payload]).records = f.records + 1 := by
    rw [Flushing.records, log₁, extended]
    rfl
  have first := used.placed.number (since.roomy room)
  have second := used₁.placed.number (since₁.roomy room)
  constructor
  · intro covered
    obtain ⟨v, counted, enough⟩ := countedBehind done.peaks covered
    rcases counted with found | ⟨n, target, finished, some, rfl⟩
    · exact absurd enough (UInt64.not_le.mpr (used.foundBelow (since.roomy room) found))
    · refine ⟨n, target, finished, ?_⟩
      -- a target that was read before the append is at most the position of the record
      cases earlier : (f.stage n).target? with
      | none => rfl
      | some target' =>
        have same := (since.goes n).kept target' earlier
        rw [finished] at same
        cases same
        have front := UInt64.lt_of_lt_of_le (frontBefore some) (used.targetBelow (since.roomy room) earlier)
        exact absurd enough (UInt64.not_le.mpr front)
  · rintro ⟨n, target, finished, unread⟩
    have behind := since₁.behind used₁.placed room (by rw [finished]; rfl) unread
    have past : f.log.log.nextLsn < target := by
      rw [UInt64.lt_iff_toNat_lt]
      rw [UInt64.le_iff_toNat_le] at behind
      omega
    exact coversBefore done.peaks finished (UInt64.lt_of_le_of_lt (used.startNumber (since.roomy room)) past) past

theorem changedBy (f : Flushing) (turn : FlushTurn) (changed : (f.act turn).log.log ≠ f.log.log) :
    (∃ kind payload, turn = .append kind payload) ∨
      ∃ n target, turn = .finish n ∧ f.stage n = .stable target ∧ (f.act turn).stage n = .done target := by
  cases actChanges f turn with
  | nothing log stage => exact absurd log changed
  | appended turn log stage => exact .inl ⟨_, _, turn⟩
  | moved moves log stage => exact absurd log changed
  | finished turn stable log stage => exact .inr ⟨_, _, turn, stable, by rw [stage]; exact Function.update_self ..⟩

end Rules

section Calls

variable {f : Flushing} {n : Nat} {target : UInt64}

theorem appendBeside (s : OpenLog) (arriving : Option (Kind × ByteArray)) (kind : Kind) (payload : ByteArray) :
    OpenLog.append kind payload { s with arriving } = match OpenLog.append kind payload s with
      | .ok lsn s' => .ok lsn { s' with arriving }
      | .error e s' => .error e { s' with arriving } := by
  by_cases large : maxPayload < payload.size
  · rw [OpenLog.appendTooLarge large, OpenLog.appendTooLarge large]
  have small := Nat.le_of_not_lt large
  rcases struck : ArmedFault.strike .write s.device.faults with ⟨_ | fault, faults⟩
  · refine (OpenLog.appendWrites (s := { s with arriving }) kind small struck).trans ?_
    rw [OpenLog.appendWrites kind small struck]
  · refine (OpenLog.appendRefused (s := { s with arriving }) small struck).trans ?_
    rw [OpenLog.appendRefused small struck]

def settled (s : OpenLog) (faults : List ArmedFault) : OpenLog :=
  { s with device := ⟨{ s.device.file with stable := s.device.file.content }, faults⟩ }

theorem startReads (waiting : f.stage n = .waiting) : f.act (.start n) = f.put n f.log (.begun f.log.log.nextLsn) := by
  simp only [act, waiting]

theorem deviceSettles {faults : List ArmedFault} (begun : f.stage n = .begun target)
    (struck : ArmedFault.strike .sync f.log.device.faults = (none, faults)) :
    f.act (.device n) = f.put n (settled f.log faults) (.stable target) := by
  simp only [act, begun, OpenLog.onDevice, FileM.syncEq, struck, settled]

theorem deviceBreaks {faults : List ArmedFault} {fault : ArmedFault} (begun : f.stage n = .begun target)
    (struck : ArmedFault.strike .sync f.log.device.faults = (some fault, faults)) :
    f.act (.device n) = f.put n { f.log with device := { f.log.device with faults } }
      (.failed target (.io (.injected .sync fault.atEnd))) := by
  simp only [act, begun, OpenLog.onDevice, FileM.syncEq, struck]

theorem finishMarks (stable : f.stage n = .stable target) :
    f.act (.finish n) = f.put n { f.log with log := f.log.log.markSynced target } (.done target) := by
  simp only [act, stable]

theorem abandonFails {e : Error} (stable : f.stage n = .stable target) :
    f.act (.abandon n e) = f.put n f.log (.failed target e) := by
  simp only [act, stable]

theorem putStage (f : Flushing) (n : Nat) (s : OpenLog) (stage : Stage) : (f.put n s stage).stage n = stage :=
  Function.update_self ..

theorem putAgain (f : Flushing) (n : Nat) (s s' : OpenLog) (stage stage' : Stage) :
    (f.put n s stage).put n s' stage' = f.put n s' stage' := by
  simp only [put, Function.update_idem]

def outcome (f : Flushing) (n : Nat) : EStateM.Result Error OpenLog Unit → Flushing
  | .ok _ s => f.put n { s with arriving := f.log.arriving } (.done f.log.log.nextLsn)
  | .error e s => f.put n { s with arriving := f.log.arriving } (.failed f.log.log.nextLsn e)

theorem syncSettles {faults : List ArmedFault} (waiting : f.stage n = .waiting)
    (struck : ArmedFault.strike .sync f.log.device.faults = (none, faults)) :
    f.run [.start n, .device n] = f.put n (settled f.log faults) (.stable f.log.log.nextLsn) := by
  have begun : (f.act (.start n)).stage n = .begun f.log.log.nextLsn := by rw [startReads waiting, putStage]
  have struck' : ArmedFault.strike .sync (f.act (.start n)).log.device.faults = (none, faults) := by
    rw [startReads waiting]
    exact struck
  show (f.act (.start n)).act (.device n) = _
  rw [deviceSettles begun struck', startReads waiting, putAgain]
  rfl

theorem syncBreaks {faults : List ArmedFault} {fault : ArmedFault} (waiting : f.stage n = .waiting)
    (struck : ArmedFault.strike .sync f.log.device.faults = (some fault, faults)) :
    f.run [.start n, .device n] = f.put n { f.log with device := { f.log.device with faults } }
      (.failed f.log.log.nextLsn (.io (.injected .sync fault.atEnd))) := by
  have begun : (f.act (.start n)).stage n = .begun f.log.log.nextLsn := by rw [startReads waiting, putStage]
  have struck' : ArmedFault.strike .sync (f.act (.start n)).log.device.faults = (some fault, faults) := by
    rw [startReads waiting]
    exact struck
  show (f.act (.start n)).act (.device n) = _
  rw [deviceBreaks begun struck', startReads waiting, putAgain]
  rfl

theorem arrivalTurns {faults : List ArmedFault} (waiting : f.stage n = .waiting)
    (struck : ArmedFault.strike .sync f.log.device.faults = (none, faults)) (kind : Kind) (payload : ByteArray) :
    ∃ turns, .device n ∈ turns ∧
      f.run turns = f.outcome n (OpenLog.sync { f.log with arriving := some (kind, payload) }) := by
  have arrives : OpenLog.sync { f.log with arriving := some (kind, payload) } =
      (OpenLog.append kind payload >>= fun _ => OpenLog.modifyLog (·.markSynced f.log.log.nextLsn) : LogM Unit)
        ⟨(settled f.log faults).device, f.log.log, none⟩ :=
    OpenLog.syncArrives (s := { f.log with arriving := some (kind, payload) }) rfl struck
  have beside : OpenLog.append kind payload (settled f.log faults) = _ :=
    appendBeside ⟨(settled f.log faults).device, f.log.log, none⟩ f.log.arriving kind payload
  have appends : f.run [.start n, .device n, .append kind payload] =
      f.put n (past (OpenLog.append kind payload) (settled f.log faults)) (.stable f.log.log.nextLsn) := by
    show (f.run [.start n, .device n]).act (.append kind payload) = _
    rw [syncSettles waiting struck]
    rfl
  have stable : (f.run [.start n, .device n, .append kind payload]).stage n = .stable f.log.log.nextLsn := by
    rw [appends, putStage]
  rw [arrives]
  simp only [bind, EStateM.bind]
  unfold past at appends
  cases appended : OpenLog.append kind payload ⟨(settled f.log faults).device, f.log.log, none⟩ with
  | ok lsn s =>
    refine ⟨[.start n, .device n, .append kind payload, .finish n], by simp, ?_⟩
    rw [beside, appended] at appends
    show (f.run [.start n, .device n, .append kind payload]).act (.finish n) = _
    rw [finishMarks stable, appends, putAgain]
    rfl
  | error e s =>
    refine ⟨[.start n, .device n, .append kind payload, .abandon n e], by simp, ?_⟩
    rw [beside, appended] at appends
    show (f.run [.start n, .device n, .append kind payload]).act (.abandon n e) = _
    rw [abandonFails stable, appends, putAgain]
    rfl

theorem syncTurns (waiting : f.stage n = .waiting) (arriving : Option (Kind × ByteArray)) : ∃ turns,
    .device n ∈ turns ∧ f.run turns = f.outcome n (OpenLog.sync { f.log with arriving }) := by
  rcases struck : ArmedFault.strike .sync f.log.device.faults with ⟨_ | fault, faults⟩
  · cases arriving with
    | none =>
      have settles := syncSettles waiting struck
      have stable : (f.run [.start n, .device n]).stage n = .stable f.log.log.nextLsn := by rw [settles, putStage]
      refine ⟨[.start n, .device n, .finish n], by simp, ?_⟩
      rw [OpenLog.syncDone (s := { f.log with arriving := none }) rfl struck]
      show (f.run [.start n, .device n]).act (.finish n) = _
      rw [finishMarks stable, settles, putAgain]
      rfl
    | some item => exact arrivalTurns waiting struck item.1 item.2
  · refine ⟨[.start n, .device n], by simp, ?_⟩
    rw [OpenLog.syncRefused (s := { f.log with arriving }) struck, syncBreaks waiting struck]
    rfl

theorem outcomePut (f : Flushing) (n : Nat) (stage : Stage) (result : EStateM.Result Error OpenLog Unit) :
    (f.put n f.log stage).outcome n result = f.outcome n result := by
  cases result with
  | ok u s => exact putAgain ..
  | error e s => exact putAgain ..

theorem syncPlays (idle : f.stage n = .idle) (arriving : Option (Kind × ByteArray)) : ∃ turns, .device n ∈ turns ∧
    f.run (.sync n :: turns) = f.outcome n (OpenLog.sync { f.log with arriving }) := by
  have asks : f.act (.sync n) = f.put n f.log .waiting := by simp only [act, idle]
  obtain ⟨turns, device, last⟩ := syncTurns (putStage f n f.log .waiting) arriving
  refine ⟨turns, device, ?_⟩
  show (f.act (.sync n)).run turns = _
  rw [asks, last, outcomePut]
  rfl

theorem flushPlays (idle : f.stage n = .idle) (arriving : Option (Kind × ByteArray)) {upto : UInt64}
    (unknown : ¬ f.log.log.Covers upto) : ∃ turns, .device n ∈ turns ∧
      f.run (.flush n upto :: turns) = f.outcome n (OpenLog.flush upto { f.log with arriving }) := by
  have asks : f.act (.flush n upto) = f.put n f.log .waiting := by simp only [act, idle, if_neg unknown]
  obtain ⟨turns, device, last⟩ := syncTurns (putStage f n f.log .waiting) arriving
  refine ⟨turns, device, ?_⟩
  show (f.act (.flush n upto)).run turns = _
  rw [asks, last, outcomePut]
  have syncs := OpenLog.flushSyncs (s := { f.log with arriving }) fun done known enough => unknown ⟨done, known, enough⟩
  exact congrArg (f.outcome n) syncs.symm

theorem flushKnows (idle : f.stage n = .idle) (arriving : Option (Kind × ByteArray)) {upto : UInt64}
    (covered : f.log.log.Covers upto) : f.act (.flush n upto) = f.put n f.log .known ∧
      OpenLog.flush upto { f.log with arriving } = .ok () { f.log with arriving } := by
  obtain ⟨done, known, enough⟩ := covered
  refine ⟨?_, OpenLog.flushKnown (s := { f.log with arriving }) known enough⟩
  simp only [act, idle, if_pos (show f.log.log.Covers upto from ⟨done, known, enough⟩)]

end Calls

structure Ruled (log : Log) (opened : Flushing) (turns : List FlushTurn) (f : Flushing) : Prop where
  peaks : f.Peaks log
  started : ∀ n target, (f.stage n).target? = some target →
    ∃ before after, turns = before ++ .start n :: after ∧ target = (opened.run before).log.log.nextLsn
  ascends : ∀ upto, f.log.log.Covers upto → ∀ more, (f.run more).log.log.Covers upto
  below : f.Roomy log → ∀ upto, f.log.log.Covers upto → upto < f.log.log.nextLsn
  changed : ∀ turn, (f.act turn).log.log ≠ f.log.log → (∃ kind payload, turn = .append kind payload) ∨
    ∃ n target, turn = .finish n ∧ f.stage n = .stable target ∧ (f.act turn).stage n = .done target
  syncs : ∀ n arriving, f.stage n = .idle → ∃ more, .device n ∈ more ∧
    f.run (.sync n :: more) = f.outcome n (OpenLog.sync { f.log with arriving })
  flushes : ∀ n arriving upto, f.stage n = .idle → ¬ f.log.log.Covers upto → ∃ more, .device n ∈ more ∧
    f.run (.flush n upto :: more) = f.outcome n (OpenLog.flush upto { f.log with arriving })
  knows : ∀ n arriving upto, f.stage n = .idle → f.log.log.Covers upto → f.act (.flush n upto) = f.put n f.log .known ∧
    OpenLog.flush upto { f.log with arriving } = .ok () { f.log with arriving }
  covers : ∀ n upto more, f.stage n = .idle → log.header.start ≤ upto → upto < f.log.log.nextLsn →
    (f.run (.flush n upto :: more)).Roomy log → ((f.run (.flush n upto :: more)).stage n = .known ∨
      ∃ target, (f.run (.flush n upto :: more)).stage n = .done target) →
    (f.run (.flush n upto :: more)).log.log.Covers upto
  late : ∀ kind payload lsn s more, OpenLog.append kind payload f.log = .ok lsn s →
    (f.run (.append kind payload :: more)).Roomy log →
    ((f.run (.append kind payload :: more)).log.log.Covers lsn ↔ ∃ n target,
      (f.run (.append kind payload :: more)).stage n = .done target ∧ (f.stage n).target? = none)

theorem flushedExactly {salt start : UInt64} {d d' : Device} {log : Log} (opened : load salt start d = .ok log d')
    (turns : List FlushTurn) : Ruled log ⟨⟨d', log, none⟩, fun _ => .idle⟩ turns
      (run ⟨⟨d', log, none⟩, fun _ => .idle⟩ turns) := by
  have used := (openedUsed (s := ⟨d', log, none⟩) (loadUnused opened)).run turns
  exact {
    peaks := used.peaks
    started := fun n target read => (runReads read).resolve_left nofun
    ascends := fun upto covered more => (runSince used.placed more).1.ascends upto covered
    below := fun room upto => used.durableBelow room
    changed := changedBy _
    syncs := fun n arriving idle => syncPlays idle arriving
    flushes := fun n arriving upto idle => flushPlays idle arriving
    knows := fun n arriving upto idle => flushKnows idle arriving
    covers := fun n upto more idle behind before => used.flushCovers idle behind before more
    late := fun kind payload lsn s more appended => used.coveredLate appended more }

theorem recordWaits : ∃ d', load 9 1 ⟨.empty, []⟩ = .ok (fresh ⟨9, 1⟩) d' ∧
    ∀ f, f = run ⟨⟨d', fresh ⟨9, 1⟩, none⟩, fun _ => .idle⟩ [.sync 0, .start 0, .device 0] →
      ¬ (f.run [.append .checkpoint .empty, .finish 0]).log.log.Covers 1 ∧
        (f.run [.append .checkpoint .empty, .finish 0, .sync 1, .start 1, .device 1, .finish 1]).log.log.Covers 1 := by
  obtain ⟨content, loaded, -⟩ := loadFresh (d := ⟨.empty, []⟩) 9 1 (by simp [Device.Readable]) (by decide)
    (show ArmedFault.strike .write [] = (none, []) from rfl)
  have ruled := flushedExactly loaded [.sync 0, .start 0, .device 0]
  refine ⟨_, loaded, fun f here => ?_⟩
  subst here
  constructor
  · intro covered
    obtain ⟨n, target, done, unread⟩ := (ruled.late .checkpoint .empty 1 _ [.finish 0] rfl
      (show 1 + 1 < UInt64.size by decide)).mp covered
    cases n with
    | zero =>
      have read : some (1 : UInt64) = none := unread
      contradiction
    | succ n =>
      have idle : Stage.idle = .done target := done
      contradiction
  · exact (ruled.late .checkpoint .empty 1 _ [.finish 0, .sync 1, .start 1, .device 1, .finish 1] rfl
      (show 1 + 1 < UInt64.size by decide)).mpr ⟨1, 2, rfl, rfl⟩

/-- Behind the last position no target is past the start, so nothing is ever called durable. -/
theorem startedOverNeverCovers : ∃ d' s s', load 9 (-1) ⟨.empty, []⟩ = .ok (fresh ⟨9, -1⟩) d' ∧
    OpenLog.append .checkpoint .empty ⟨d', fresh ⟨9, -1⟩, none⟩ = .ok (-1) s ∧ s.log.nextLsn = 0 ∧
    OpenLog.flush (-1) s = .ok () s' ∧ s'.log.stats.syncs = 1 ∧ s'.log.flushed = none :=
  ⟨_, _, _, rfl, rfl, rfl, rfl, rfl, rfl⟩

end Flushing
end OrphanFiles
