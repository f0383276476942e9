import OrphanFiles.Proofs.Calls
import OrphanFiles.Proofs.OpenLog

/-!
What a handle of a log knows.  Opening a file, whatever is in it and whatever fails, leaves a handle that stands behind
the records that it found, and each record that it appends goes behind these.
-/
namespace OrphanFiles

theorem bindOk {ε σ α β : Type} {x : EStateM ε σ α} {f : α → EStateM ε σ β} {s s' : σ} {b : β}
    (done : (x >>= f) s = .ok b s') : ∃ a s₁, x s = .ok a s₁ ∧ f a s₁ = .ok b s' := by
  simp only [bind, EStateM.bind] at done
  cases outcome : x s with
  | ok a s₁ =>
    rw [outcome] at done
    exact ⟨a, s₁, rfl, done⟩
  | error e s₁ =>
    rw [outcome] at done
    cases done

theorem bindFails {ε σ α β : Type} {x : EStateM ε σ α} {f : α → EStateM ε σ β} {s s' : σ} {e : ε}
    (failed : (x >>= f) s = .error e s') : x s = .error e s' ∨ ∃ a s₁, x s = .ok a s₁ ∧ f a s₁ = .error e s' := by
  simp only [bind, EStateM.bind] at failed
  cases outcome : x s with
  | ok a s₁ =>
    rw [outcome] at failed
    exact .inr ⟨a, s₁, rfl, failed⟩
  | error e' s₁ =>
    rw [outcome] at failed
    cases failed
    exact .inl rfl

namespace FileM

variable {d d' : Device} {op : FileOp} {off n : Nat} {src : ByteArray}

theorem callOk {u : Unit} (done : call op d = .ok u d') : d.Later d' := by
  rw [callEq] at done
  rcases struck : ArmedFault.strike op d.faults with ⟨_ | f, faults⟩
  · simp only [struck] at done
    cases done
    exact Device.struckLater struck
  · simp only [struck] at done
    cases done

theorem lenOk (done : len d = .ok n d') : d.Later d' ∧ n = d.file.content.bytes.size := by
  obtain ⟨u, d₁, called, rest⟩ := bindOk done
  have later := callOk called
  cases rest
  rw [Content.sizeBytes, later.file]
  exact ⟨later, rfl⟩

theorem readOk {bytes : ByteArray} (done : readAt off n d = .ok bytes d') :
    d.Later d' ∧ bytesAt d.file.content.bytes off n = some bytes := by
  rcases struck : ArmedFault.strike .read d.faults with ⟨_ | f, faults⟩
  · rw [readAtPassed struck] at done
    split at done
    · next bytes' here =>
      cases done
      exact ⟨Device.struckLater struck, here⟩
    · cases done
  · unfold readAt at done
    simp only [bind, EStateM.bind, callEq, struck] at done
    cases done

theorem truncateOk {u : Unit} (done : truncate n d = .ok u d') :
    d'.file.content = Content.resize n d.file.content := by
  obtain ⟨u', d₁, called, rest⟩ := bindOk done
  have later := callOk called
  cases rest
  rw [later.file]

end FileM

namespace Log

open FileM

structure Knows (log : Log) (held : List Record) : Prop where
  offset : log.offset = Sealed.size + (chain firstLink held).size
  link : log.link = chainLink firstLink held
  next : log.nextLsn = held.getLast?.elim log.header.start (·.lsn + 1)
  small : ∀ r ∈ held, r.payload.size ≤ maxPayload

theorem Knows.written {log : Log} {held : List Record} (knows : log.Knows held) {c : Content}
    (bytes : c.bytes = log.header.encode ++ chain firstLink held) (r : Record) :
    (Content.overwrite log.offset (r.framed log.link) c).bytes =
      log.header.encode ++ chain firstLink (held ++ [r]) := by
  have size : c.bytes.size = log.offset := by
    rw [bytes, ByteArray.size_append, Header.sizeEncode, knows.offset]
  rw [Content.bytesBehind size, bytes, chainAppend, ← knows.link, ByteArray.append_assoc, chain, chain,
    ByteArray.append_empty]

theorem Knows.last {log : Log} {held : List Record} (knows : log.Knows held) :
    held = [] ∨ held.getLast?.map (·.lsn) = some (log.nextLsn - 1) := by
  cases last : held.getLast? with
  | none => exact .inl (List.getLast?_eq_none_iff.mp last)
  | some r =>
    right
    rw [knows.next, last, Option.map_some, Option.elim_some, UInt64.add_sub_cancel]

theorem readHeaderOk {d d' : Device} {h : Header} (done : Reader.readHeader d = .ok h d') : d.Later d' ∧
    Sealed.size ≤ d.file.content.bytes.size ∧ Header.decode (d.file.content.bytes.extract 0 Sealed.size) = .ok h := by
  obtain ⟨bytes, d₁, read, rest⟩ := bindOk done
  obtain ⟨later, here⟩ := readOk read
  unfold bytesAt at here
  split at here
  · next none => cases none
  split at here
  · next inside =>
    rw [Nat.zero_add] at inside here
    cases here
    cases decoded : Header.decode (d.file.content.bytes.extract 0 Sealed.size) with
    | error damage =>
      simp only [decoded] at rest
      cases rest
    | ok h' =>
      simp only [decoded] at rest
      cases rest
      exact ⟨later, inside, rfl⟩
  · cases here

theorem newOk {d d' : Device} {h : Header} {r : Reader} (done : Reader.new h d = .ok r d') : d.Later d' ∧
    Sealed.size ≤ d.file.content.bytes.size ∧ r = .atFirst h d.file.content.bytes := by
  obtain ⟨n, d₁, measured, rest⟩ := bindOk done
  obtain ⟨later, rfl⟩ := lenOk measured
  split at rest
  · cases rest
  · next long =>
    cases rest
    exact ⟨later, Nat.le_of_not_lt long, rfl⟩

structure Loaded (d : Device) (log : Log) (d' : Device) (held : List Record) : Prop where
  knows : log.Knows held
  size : d'.file.content.bytes.size = log.offset
  frames : d'.file.content.bytes.extract Sealed.size log.offset = chain firstLink held
  found : Sealed.size ≤ d.file.content.bytes.size →
    Header.decode (d.file.content.bytes.extract 0 Sealed.size) = .ok log.header ∧
    Standing d.file.content.bytes log.header.start firstLink Sealed.size held log.offset ∧
    Reader.Stopped d d.file.content.bytes log.header.start (chainLink firstLink held) log.offset none ∧
    d'.file.content.bytes = d.file.content.bytes.extract 0 log.offset

theorem ofScanKnows {h : Header} {scan : Reader.Scan} (torn : Nat) {bytes : ByteArray}
    (link : scan.reader.link = chainLink firstLink scan.records)
    (standing : Standing bytes h.start firstLink Sealed.size scan.records scan.reader.validUpTo) :
    (ofScan h scan torn).header = h ∧ (ofScan h scan torn).offset = scan.reader.validUpTo ∧
      (ofScan h scan torn).Knows scan.records := by
  have behind := standing.behind
  have inside := standing.inside
  have size := congrArg ByteArray.size standing.frames
  rw [ByteArray.size_extract] at size
  have small (r : Record) (member : r ∈ scan.records) := (standing.admitted r member).small
  have offset : scan.reader.validUpTo = Sealed.size + (chain firstLink scan.records).size := by omega
  unfold ofScan
  cases last : scan.records.getLast? with
  | none => exact ⟨rfl, rfl, offset, link, by rw [last]; rfl, small⟩
  | some r => exact ⟨rfl, rfl, offset, link, by rw [last]; rfl, small⟩

theorem madeFresh {d d₁ d₂ : Device} {h : Header} {u : Unit} (short : d.file.content.bytes.size < Sealed.size)
    (cut : truncate Sealed.size d₁ = .ok u d₂) :
    Loaded d (fresh h) d₂ [] := by
  have content := truncateOk cut
  have size : d₂.file.content.bytes.size = Sealed.size := by
    rw [content, Content.sizeBytes, Content.sizeResize]
  refine ⟨⟨rfl, rfl, rfl, by simp⟩, size, ?_, fun long => absurd short (Nat.not_lt.mpr long)⟩
  exact ByteArray.extract_eq_empty_iff.mpr (Nat.min_le_left ..)

theorem drainOk {r : Reader} {d d' : Device} {scan : Reader.Scan} (sees : r.Sees d.file.content.bytes)
    (drained : r.drain d = .ok scan d') : Reader.Calls r d scan.records scan.failure scan.reader d' := by
  obtain ⟨scan', d'', drained', calls⟩ := Reader.drainCalls sees (Nat.lt_succ_self _)
  have same := drained.symm.trans drained'
  cases same
  exact calls

theorem cutOk {d d' : Device} {h : Header} {scan : Reader.Scan} {log : Log}
    (inside : scan.reader.validUpTo ≤ d.file.content.bytes.size)
    (done : (do
      let size ← len
      if size > scan.reader.validUpTo then truncate scan.reader.validUpTo
      pure (ofScan h scan (size - scan.reader.validUpTo)) : FileM Log) d = .ok log d') :
    log = ofScan h scan (d.file.content.bytes.size - scan.reader.validUpTo) ∧
      d'.file.content.bytes = d.file.content.bytes.extract 0 scan.reader.validUpTo ∧
      (scan.reader.validUpTo = d.file.content.bytes.size → d'.file = d.file) := by
  obtain ⟨n, d₁, measured, rest₁⟩ := bindOk done
  obtain ⟨later, rfl⟩ := lenOk measured
  split at rest₁
  · next torn =>
    obtain ⟨u, d₂, cut, rest₂⟩ := bindOk rest₁
    cases rest₂
    rw [truncateOk cut, later.file]
    exact ⟨rfl, Content.bytesCut inside, fun whole => absurd torn (Nat.not_lt.mpr (Nat.le_of_eq whole.symm))⟩
  · next whole =>
    cases rest₁
    rw [later.file]
    exact ⟨rfl, (Content.extractWhole (by omega)).symm, fun _ => rfl⟩

theorem loadScans {d d' : Device} {salt start : UInt64} {log : Log} (done : load salt start d = .ok log d')
    (long : Sealed.size ≤ d.file.content.bytes.size) : ∃ h scan,
      Header.decode (d.file.content.bytes.extract 0 Sealed.size) = .ok h ∧ h.salt = salt ∧
      scan.reader.link = chainLink firstLink scan.records ∧
      Standing d.file.content.bytes h.start firstLink Sealed.size scan.records scan.reader.validUpTo ∧
      Reader.Stopped d d.file.content.bytes h.start (chainLink firstLink scan.records) scan.reader.validUpTo none ∧
      log = ofScan h scan (d.file.content.bytes.size - scan.reader.validUpTo) ∧
      d'.file.content.bytes = d.file.content.bytes.extract 0 scan.reader.validUpTo ∧
      (scan.reader.validUpTo = d.file.content.bytes.size → d'.file = d.file) := by
  unfold load at done
  obtain ⟨n, d₁, measured, rest₁⟩ := bindOk done
  obtain ⟨later₁, rfl⟩ := lenOk measured
  rw [if_neg (Nat.not_lt.mpr long)] at rest₁
  obtain ⟨h, d₂, header, rest₂⟩ := bindOk rest₁
  obtain ⟨later₂, -, decoded⟩ := readHeaderOk header
  split at rest₂
  · cases rest₂
  next salted =>
  obtain ⟨r, d₃, made, rest₃⟩ := bindOk rest₂
  obtain ⟨later₃, -, rfl⟩ := newOk made
  obtain ⟨scan, d₄, drained, rest₄⟩ := bindOk rest₃
  have later := later₁.trans (later₂.trans later₃)
  have sees : (Reader.atFirst h d₂.file.content.bytes).Sees d₃.file.content.bytes := by
    rw [later₃.file, (later₁.trans later₂).file]
    exact Reader.firstSees long
  obtain ⟨later₄, link, standing, stopped⟩ : d₃.Later d₄ ∧ scan.reader.link = chainLink firstLink scan.records ∧
      Standing d.file.content.bytes h.start firstLink Sealed.size scan.records scan.reader.validUpTo ∧
      Reader.Stopped d₃ d.file.content.bytes h.start (chainLink firstLink scan.records) scan.reader.validUpTo
        scan.failure := by
    have all := (drainOk sees drained).standing sees
    rw [later.file] at all
    exact all
  cases failed : scan.failure with
  | some e =>
    simp only [failed] at rest₄
    cases rest₄
  | none =>
  simp only [failed] at rest₄ stopped
  have unchanged := (later.trans later₄).file
  have left := cutOk (by rw [unchanged]; exact standing.inside) rest₄
  rw [later₁.file] at decoded
  rw [unchanged] at left
  exact ⟨h, scan, decoded, Classical.not_not.mp salted, link, standing, stopped.earlier later, left⟩

theorem loadFound {d d' : Device} {salt start : UInt64} {log : Log} (done : load salt start d = .ok log d') :
    ∃ held, Loaded d log d' held := by
  by_cases short : d.file.content.bytes.size < Sealed.size
  · unfold load at done
    obtain ⟨n, d₁, measured, rest₁⟩ := bindOk done
    obtain ⟨-, rfl⟩ := lenOk measured
    rw [if_pos short] at rest₁
    obtain ⟨u, d₂, written, rest₂⟩ := bindOk rest₁
    obtain ⟨v, d₃, cut, rest₃⟩ := bindOk rest₂
    cases rest₃
    exact ⟨[], madeFresh short cut⟩
  obtain ⟨h, scan, decoded, -, link, standing, stopped, rfl, kept, -⟩ := loadScans done (Nat.le_of_not_lt short)
  obtain ⟨header, offset, knows⟩ := ofScanKnows (d.file.content.bytes.size - scan.reader.validUpTo) link standing
  have inside := standing.inside
  rw [← offset] at kept inside
  refine ⟨scan.records, knows, ?_, ?_, fun _ => ?_⟩
  · rw [kept, ByteArray.size_extract]
    omega
  · rw [kept, ByteArray.extract_extract, Nat.zero_add, Nat.zero_add, Nat.min_self, offset]
    exact standing.frames
  · rw [offset] at kept
    rw [header, offset]
    exact ⟨decoded, standing, stopped, kept⟩

end Log

namespace OpenLog

open Log

variable {s s' : OpenLog} {held : List Record} {kind : Kind} {payload : ByteArray} {lsn : UInt64}

theorem onDeviceOk {α : Type} {x : FileM α} {a : α} (done : onDevice x s = .ok a s') :
    s'.log = s.log ∧ s'.arriving = s.arriving := by
  unfold onDevice at done
  split at done <;> cases done
  exact ⟨rfl, rfl⟩

theorem appendOk (done : append kind payload s = .ok lsn s') : payload.size ≤ maxPayload ∧ lsn = s.log.nextLsn ∧
    s'.log = s.log.extend (Record.block s.log.link ⟨lsn, kind, payload⟩) payload := by
  unfold append at done
  split at done
  · cases done
  next small =>
  obtain ⟨s₁, s₂, got, rest₁⟩ := bindOk done
  cases got
  obtain ⟨u, s₃, written, rest₂⟩ := bindOk rest₁
  obtain ⟨v, s₄, changed, rest₃⟩ := bindOk rest₂
  have same := (onDeviceOk written).1
  cases changed
  cases rest₃
  refine ⟨Nat.le_of_not_lt small, rfl, ?_⟩
  dsimp only
  rw [same]
  rfl

theorem appendWrites (kind : Kind) (small : payload.size ≤ maxPayload) {faults : List ArmedFault}
    (struck : ArmedFault.strike .write s.device.faults = (none, faults)) :
    append kind payload s = .ok s.log.nextLsn ⟨⟨{ s.device.file with
      content := Content.overwrite s.log.offset (Record.framed s.log.link ⟨s.log.nextLsn, kind, payload⟩)
        s.device.file.content }, faults⟩,
      s.log.extend (Record.block s.log.link ⟨s.log.nextLsn, kind, payload⟩) payload, s.arriving⟩ := by
  unfold append
  simp only [bind, EStateM.bind, if_neg (Nat.not_lt.mpr small), getOk, onDevice, FileM.writeEq, struck]
  rfl

theorem appendKnows (knows : s.log.Knows held) (done : append kind payload s = .ok lsn s') :
    s'.log.Knows (held ++ [⟨lsn, kind, payload⟩]) := by
  obtain ⟨small, rfl, after⟩ := appendOk done
  have last : chain (chainLink firstLink held) [⟨s.log.nextLsn, kind, payload⟩] =
      Record.framed s.log.link ⟨s.log.nextLsn, kind, payload⟩ := by
    rw [chain, chain, ByteArray.append_empty, knows.link]
  rw [after]
  refine ⟨?_, ?_, ?_, fun r member => ?_⟩
  · rw [chainAppend, last, ByteArray.size_append, Record.framed, ByteArray.size_append, ← Nat.add_assoc, ← knows.offset]
    rfl
  · rw [chainLinkAppend, ← knows.link]
    rfl
  · rw [List.getLast?_concat]
    rfl
  · rcases List.mem_append.mp member with old | new
    · exact knows.small r old
    · obtain rfl : r = ⟨s.log.nextLsn, kind, payload⟩ := by simpa using new
      exact small

def arrivals (s : OpenLog) : List Record :=
  s.arriving.elim [] fun (kind, payload) => [⟨s.log.nextLsn, kind, payload⟩]

theorem syncKnows (knows : s.log.Knows held) (done : sync s = .ok () s') : s'.log.Knows (held ++ s.arrivals) := by
  obtain ⟨s₁, s₂, got, rest₁⟩ := bindOk done
  cases got
  obtain ⟨u, s₃, synced, rest₂⟩ := bindOk rest₁
  cases rest₂
  suffices behind : s₃.log.Knows (held ++ s.arrivals) from ⟨behind.offset, behind.link, behind.next, behind.small⟩
  obtain ⟨u, s₄, stable, rest₃⟩ := bindOk synced
  obtain ⟨log, arriving⟩ := onDeviceOk stable
  obtain ⟨s₅, s₆, got, rest₄⟩ := bindOk rest₃
  cases got
  unfold arrivals
  rw [← arriving, ← log]
  rw [← log] at knows
  cases arrives : s₄.arriving with
  | none =>
    simp only [arrives] at rest₄
    cases rest₄
    rwa [Option.elim_none, List.append_nil]
  | some item =>
    obtain ⟨kind, payload⟩ := item
    simp only [arrives] at rest₄
    obtain ⟨v, s₇, changed, rest₅⟩ := bindOk rest₄
    cases changed
    obtain ⟨lsn, s₈, appended, rest₆⟩ := bindOk rest₅
    cases rest₆
    obtain ⟨-, rfl, -⟩ := appendOk appended
    exact appendKnows (s := { s₄ with arriving := none }) knows appended

end OpenLog

/- How a handle came about, with the records that it found or appended.  The file may change in between. -/
inductive Log.Held : Log → List Log.Record → Prop where
  | opened {salt start d log d' held} (done : load salt start d = .ok log d') (loaded : Loaded d log d' held) :
      Held log held
  | appended {s kind payload lsn s' held} (before : Held s.log held)
      (done : OpenLog.append kind payload s = .ok lsn s') : Held s'.log (held ++ [⟨lsn, kind, payload⟩])
  | synced {s s' held} (before : Held s.log held) (done : OpenLog.sync s = .ok () s') :
      Held s'.log (held ++ s.arrivals)

theorem Log.Held.knows {log : Log} {held : List Log.Record} (history : log.Held held) : log.Knows held := by
  induction history with
  | opened done loaded => exact loaded.knows
  | appended before done ih => exact OpenLog.appendKnows ih done
  | synced before done ih => exact OpenLog.syncKnows ih done

end OrphanFiles
