import OrphanFiles.Proofs.DropSet
import OrphanFiles.Proofs.Durability
import OrphanFiles.Proofs.Roster

/-!
A cluster: processes at a registry, and a log in which transactions end and checkpoints are made.  A crash cuts the
log off anywhere behind what was synced, and a recovery decides by the records that the cut leaves whole.
-/
namespace OrphanFiles

open Log

structure Cluster where
  hall : Hall
  log : OpenLog

namespace Cluster

inductive Deed where
  | request (q : Request)
  | commit (c : Completion)
  | abort (c : Completion)
  | checkpoint
  | flush (upto : UInt64)
  | sync
  | failWrite (after : Nat) (atEnd : Bool)
  | failSync (after : Nat) (atEnd : Bool)

def onLog {α : Type} (c : Cluster) (x : LogM α) : Bool × Cluster :=
  match x c.log with
  | .ok _ log => (true, { c with log })
  | .error _ log => (false, { c with log })

def arm (c : Cluster) (fault : ArmedFault) : Cluster :=
  { c with log := { c.log with device := { c.log.device with faults := c.log.device.faults ++ [fault] } } }

def act (c : Cluster) : Deed → Bool × Cluster
  | .request q => (true, { c with hall := (c.hall.act q).2 })
  | .commit x => c.onLog (OpenLog.append .commit x.encode)
  | .abort x => c.onLog (OpenLog.append .abort x.encode)
  | .checkpoint => c.onLog c.hall.registry.checkpoint
  | .flush upto => c.onLog (OpenLog.flush upto)
  | .sync => c.onLog OpenLog.sync
  | .failWrite after atEnd => (true, c.arm ⟨.write, after, atEnd⟩)
  | .failSync after atEnd => (true, c.arm ⟨.sync, after, atEnd⟩)

def run (c : Cluster) : List Deed → Cluster
  | [] => c
  | deed :: deeds => (c.act deed).2.run deeds

def secured (c : Cluster) : Deed → List PendingFile
  | .checkpoint => if (c.act .checkpoint).1 then c.hall.registry.entries else []
  | _ => []

def checkpointed (c : Cluster) : List Deed → List PendingFile
  | [] => []
  | deed :: deeds => c.secured deed ++ (c.act deed).2.checkpointed deeds

def due (c : Cluster) : Deed → List Saying
  | .commit x => [.commit x]
  | .abort x => [.abort x]
  | .checkpoint => c.hall.registry.due
  | _ => []

/- A deed tells the log what is due, or nothing; a checkpoint that fails may have told a part. -/
inductive Tells (c : Cluster) : Deed → List Saying → Prop where
  | done {deed} (ok : (c.act deed).1 = true) : Tells c deed (c.due deed)
  | failed {deed} (ok : (c.act deed).1 = false) : Tells c deed []
  | brokenOff {part} (ok : (c.act .checkpoint).1 = false) (first : part <+: c.due .checkpoint) :
      Tells c .checkpoint part

inductive Story : Cluster → List Deed → List Saying → Prop where
  | nil {c} : Story c [] []
  | cons {c deed deeds said more} (tells : Tells c deed said) (rest : Story (c.act deed).2 deeds more) :
      Story c (deed :: deeds) (said ++ more)

def crashed (c : Cluster) (size : Nat) : Device :=
  ⟨{ c.log.device.file with content := Content.resize size c.log.device.file.content }, []⟩

/- Of what a log was told, what has its frames wholly within the first bytes of the file. -/
structure Survives (size : Nat) (said kept : List Saying) : Prop where
  part : kept <+: said
  fits : kept = [] ∨ Sealed.size + extent (kept.map Saying.item) ≤ size
  longest : ∀ more, more <+: said → Sealed.size + extent (more.map Saying.item) ≤ size → more <+: kept

structure Sound (cl : Cluster) (c : Config) (h : Header) (said : List Saying) (covered : List PendingFile) : Prop where
  hall : ∃ R, cl.hall.Follows c R
  told : cl.log.Told h said covered

section Runs

variable {cl : Cluster} {c : Config} {h : Header} {said : List Saying} {covered : List PendingFile}

theorem armSound (sound : cl.Sound c h said covered) {fault : ArmedFault}
    (op : fault.op = .write ∨ fault.op = .sync) : (cl.arm fault).Sound c h said covered := by
  refine ⟨sound.hall, { sound.told with secures := fun room => ?_ }⟩
  obtain ⟨k, durable, listed⟩ := sound.told.secures room
  refine ⟨k, { durable with held := { durable.held with }, readable := fun other member => ?_ }, listed⟩
  rcases List.mem_append.mp member with old | new
  · exact durable.readable other old
  · obtain rfl : other = fault := by simpa using new
    exact op

theorem appendSound (sound : cl.Sound c h said covered) {deed : Deed} {t : Saying}
    (appends : cl.act deed = cl.onLog (OpenLog.append t.item.1 t.item.2)) (due : cl.due deed = [t])
    (secured : cl.secured deed = []) (lists : t.lists = []) :
    ∃ more, cl.Tells deed more ∧ (cl.act deed).2.Sound c h (said ++ more) (cl.secured deed ++ covered) := by
  have ends := OpenLog.appendTold (t := t) sound.told (by simp [lists])
  rw [secured, List.nil_append]
  cases outcome : OpenLog.append t.item.1 t.item.2 cl.log with
  | ok lsn log =>
    rw [outcome] at ends
    have acted : cl.act deed = (true, { cl with log }) := by simp only [appends, onLog, outcome]
    refine ⟨_, .done (by rw [acted]), ?_⟩
    rw [acted, due]
    exact ⟨sound.hall, ends.1⟩
  | error e log =>
    rw [outcome] at ends
    have acted : cl.act deed = (false, { cl with log }) := by simp only [appends, onLog, outcome]
    refine ⟨_, .failed (by rw [acted]), ?_⟩
    rw [acted, List.append_nil]
    exact ⟨sound.hall, ends⟩

theorem silentSound {deed : Deed} (due : cl.due deed = []) (secured : cl.secured deed = [])
    (sound : (cl.act deed).2.Sound c h said covered) :
    ∃ more, cl.Tells deed more ∧ (cl.act deed).2.Sound c h (said ++ more) (cl.secured deed ++ covered) := by
  refine ⟨[], ?_, by rwa [secured, List.append_nil]⟩
  cases ok : (cl.act deed).1 with
  | true => exact due ▸ .done ok
  | false => exact .failed ok

theorem onLogSound (sound : cl.Sound c h said covered) {α : Type} {x : LogM α} {P : α → OpenLog → Prop}
    (ends : Ends (x cl.log) P (fun s => s.Told h said covered)) (done : ∀ a s, P a s → s.Told h said covered) :
    (cl.onLog x).2.Sound c h said covered := by
  unfold onLog
  cases outcome : x cl.log with
  | ok a log =>
    rw [outcome] at ends
    exact ⟨sound.hall, done a log ends⟩
  | error e log =>
    rw [outcome] at ends
    exact ⟨sound.hall, ends⟩

theorem entriesValid (sound : cl.Sound c h said covered) : cl.hall.registry.enabled = true ∧
    ∀ e ∈ cl.hall.registry.entries, e.xid.isValid = true := by
  obtain ⟨R, follows⟩ := sound.hall
  refine ⟨follows.enabled, ?_⟩
  rw [Registry.entriesListed follows.mirrors]
  intro e member
  obtain ⟨x, listed, rfl⟩ := List.mem_map.mp member
  exact follows.valid x listed

theorem checkpointSound (sound : cl.Sound c h said covered) : ∃ more, cl.Tells .checkpoint more ∧
    (cl.act .checkpoint).2.Sound c h (said ++ more) (cl.secured .checkpoint ++ covered) := by
  obtain ⟨on, valid⟩ := entriesValid sound
  have ends := Registry.checkpointTold on valid sound.told
  unfold secured
  cases outcome : cl.hall.registry.checkpoint cl.log with
  | ok report log =>
    rw [outcome] at ends
    have acted : cl.act .checkpoint = (true, { cl with log }) := by simp only [act, onLog, outcome]
    refine ⟨_, .done (by rw [acted]), ?_⟩
    rw [acted]
    exact ⟨sound.hall, ends⟩
  | error e log =>
    rw [outcome] at ends
    have acted : cl.act .checkpoint = (false, { cl with log }) := by simp only [act, onLog, outcome]
    obtain ⟨part, first, told⟩ := ends
    refine ⟨part, .brokenOff (by rw [acted]) first, ?_⟩
    rw [acted]
    exact ⟨sound.hall, told⟩

theorem actSound (sound : cl.Sound c h said covered) (deed : Deed) : ∃ more, cl.Tells deed more ∧
    (cl.act deed).2.Sound c h (said ++ more) (cl.secured deed ++ covered) := by
  cases deed with
  | request q =>
    obtain ⟨R, follows⟩ := sound.hall
    obtain ⟨R', -, follows⟩ := Hall.actFollows follows q
    exact silentSound rfl rfl ⟨⟨R', follows⟩, sound.told⟩
  | commit x => exact appendSound (t := .commit x) sound rfl rfl rfl rfl
  | abort x => exact appendSound (t := .abort x) sound rfl rfl rfl rfl
  | checkpoint => exact checkpointSound sound
  | flush upto =>
    exact silentSound rfl rfl (onLogSound sound (OpenLog.flushTold sound.told upto) fun _ _ done => done.1)
  | sync =>
    refine silentSound rfl rfl (onLogSound sound (OpenLog.syncTold sound.told) fun _ _ done => ?_)
    exact done.fewer fun e => List.mem_append_right _
  | failWrite after atEnd => exact silentSound rfl rfl (armSound sound (.inl rfl))
  | failSync after atEnd => exact silentSound rfl rfl (armSound sound (.inr rfl))

theorem runSound (sound : cl.Sound c h said covered) (deeds : List Deed) : ∃ more, cl.Story deeds more ∧
    (cl.run deeds).Sound c h (said ++ more) (cl.checkpointed deeds ++ covered) := by
  induction deeds generalizing cl said covered with
  | nil => exact ⟨[], .nil, by rwa [List.append_nil]⟩
  | cons deed deeds ih =>
    obtain ⟨more, tells, next⟩ := actSound sound deed
    obtain ⟨rest, story, last⟩ := ih next
    rw [List.append_assoc] at last
    refine ⟨more ++ rest, .cons tells story, last.hall, last.told.fewer fun e member => ?_⟩
    simp only [checkpointed, List.mem_append] at member ⊢
    tauto

theorem openedSound {r : Registry} (made : Registry.new c = .ok r) (on : c.enabled = true) {salt start : UInt64}
    {log : Log} {device : Device} (opened : Log.load salt start ⟨.empty, []⟩ = .ok log device) :
    Sound ⟨⟨r, []⟩, ⟨device, log, none⟩⟩ c ⟨salt, start⟩ [] [] := by
  obtain ⟨content, loaded, held⟩ := Log.loadFresh salt start (d := ⟨.empty, []⟩) (by simp [Device.Readable])
    (by decide) rfl
  rw [loaded] at opened
  cases opened
  refine ⟨⟨_, Hall.newFollows made on⟩, rfl, rfl, by simp, fun _ => ⟨0, ?_, by simp⟩⟩
  exact {
    held := held
    readable := by simp [Device.Readable]
    room := start.toNat_lt
    within := Nat.le_refl 0
    synced := .inl rfl
    older := Nat.zero_le _
    flushed := fun done known => by contradiction }

end Runs

section Crash

theorem readThroughHeld {s : OpenLog} {h : Header} {items : List Item} (held : s.Holds h items)
    (readable : s.device.Readable) (room : h.start.toNat + items.length < UInt64.size) :
    ∃ scan, OpenLog.readThrough s = .ok scan s ∧ scan.records = records h.start items ∧ scan.failure = none := by
  obtain ⟨r, scan, made, drained, listed, clean⟩ := OpenLog.drainHeld held readable room
  refine ⟨scan, ?_, listed, clean⟩
  simp only [OpenLog.readThrough, bind, EStateM.bind, made, drained]

theorem fittingNone (items : List Item) {n : Nat} (none : n < Sealed.size) : fitting n items = [] := by
  cases items with
  | nil => rfl
  | cons item items => rw [fitting, if_neg (by omega)]

theorem opensCut {s : OpenLog} {h : Header} {items : List Item} {k n : Nat} (durable : s.Durable h items k)
    (written : n ≤ s.device.file.content.size) (start : UInt64) (hall : Hall) :
    ∃ log device scan, Log.load h.salt start (crashed ⟨hall, s⟩ n) = .ok log device ∧
      OpenLog.readThrough ⟨device, log, none⟩ = .ok scan ⟨device, log, none⟩ ∧
      scan.records = records h.start (fitting (n - Sealed.size) items) ∧ scan.failure = none := by
  have size : s.device.file.content.size = Sealed.size + extent items := by
    rw [← Content.sizeBytes, durable.held.bytes, sizeImage]
  have readable : (crashed ⟨hall, s⟩ n).Readable := by simp [crashed, Device.Readable]
  have bytes : (crashed ⟨hall, s⟩ n).file.content.bytes = s.device.file.content.bytes.extract 0 n :=
    Content.bytesCut (by rw [Content.sizeBytes]; exact written)
  rcases Nat.lt_or_ge n Sealed.size with short | long
  · have cut : (crashed ⟨hall, s⟩ n).file.content.bytes.size < Sealed.size := by
      rw [bytes, ByteArray.size_extract]
      omega
    obtain ⟨content, loaded, held⟩ := Log.loadFresh h.salt start readable cut
      (show ArmedFault.strike .write [] = (none, []) from rfl)
    obtain ⟨scan, read, listed, clean⟩ := readThroughHeld held (by simp [Device.Readable]) start.toNat_lt
    rw [Nat.sub_eq_zero_of_le (Nat.le_of_lt short), fittingNone items (by decide)]
    exact ⟨_, _, scan, loaded, read, listed, clean⟩
  · rw [durable.held.bytes] at bytes
    obtain ⟨log, content, loaded, held⟩ :=
      Log.loadCut start readable bytes rfl long (size ▸ written) durable.held.small durable.room
    have fewer := (fittingPrefix (n - Sealed.size) items).length_le
    have room := durable.room
    obtain ⟨scan, read, listed, clean⟩ := readThroughHeld held (by simp [Device.Readable, crashed]) (by omega)
    exact ⟨_, _, scan, loaded, read, listed, clean⟩

theorem survivesCut (n : Nat) (said : List Saying) : ∃ kept, Survives n said kept ∧
    kept.map Saying.item = fitting (n - Sealed.size) (said.map Saying.item) := by
  -- which frames fit is a matter of their sizes, and the sayings are taken by number from the records that fit
  have part := fittingPrefix (n - Sealed.size) (said.map Saying.item)
  have fits := extentFitting (n - Sealed.size) (said.map Saying.item)
  have items : (said.take (fitting (n - Sealed.size) (said.map Saying.item)).length).map Saying.item =
      fitting (n - Sealed.size) (said.map Saying.item) := by
    rw [List.map_take]
    exact (List.prefix_iff_eq_take.mp part).symm
  refine ⟨_, ⟨List.take_prefix _ said, ?_, fun more first room => ?_⟩, items⟩
  · rw [items]
    rcases Nat.lt_or_ge n Sealed.size with short | long
    · rw [Nat.sub_eq_zero_of_le (Nat.le_of_lt short), fittingNone _ (by decide)]
      exact .inl rfl
    · exact .inr (by omega)
  · refine List.prefix_take_iff.mpr ⟨first, ?_⟩
    have longest := fittingLongest (first.map Saying.item) (n := n - Sealed.size) (by omega)
    have fewer := longest.length_le
    rwa [List.length_map] at fewer

theorem securedSurvives {s : OpenLog} {h : Header} {said kept : List Saying} {covered : List PendingFile}
    (secures : s.Secures h said covered) {n : Nat} (synced : s.device.file.stable.size ≤ n)
    (survives : Survives n said kept) : ∀ e ∈ covered, e ∈ Saying.listed kept := by
  obtain ⟨k, durable, lists⟩ := secures
  have first : said.take k <+: kept := by
    rcases durable.synced with rfl | enough
    · rw [List.take_zero]
      exact List.nil_prefix
    · rw [← List.map_take] at enough
      exact survives.longest _ (List.take_prefix k said) (Nat.le_trans enough synced)
  exact fun e member => Saying.listedPart first (lists e member)

/- The calls that a log asks for: one for each transaction in doubt, with the first file that was listed for it of each
node. -/
structure Asks (said : List Saying) (horizon : Xid) (calls : List (Xid × List RelFile)) : Prop where
  once : (calls.map Prod.fst).Nodup
  transactions : ∀ x, x ∈ calls.map Prod.fst ↔ x.precedes horizon = false ∧
    (∃ es, .snapshot es ∈ said ∧ ∃ e ∈ es, e.xid = x) ∧ ∀ t ∈ said, ¬ t.Names x
  distinct : ∀ x handles, (x, handles) ∈ calls → (handles.map RelFile.node).Nodup
  nodes : ∀ x handles, (x, handles) ∈ calls → ∀ node, node ∈ handles.map RelFile.node ↔
    ∃ es, .snapshot es ∈ said ∧ ∃ e ∈ es, e.xid = x ∧ e.file.node = node
  first : ∀ x handles, (x, handles) ∈ calls → ∀ f ∈ handles,
    (filesOf x (Saying.listed said)).find? (·.node == f.node) = some f

theorem recoverAsks {σ : Type} [FileDropper σ] {c : Config} (on : c.enabled = true) (log : OpenLog) (horizon : Xid)
    (files : σ) {said : List Saying} (plain : ∀ t ∈ said, t.Plain) (lsn : UInt64) :
    ∃ report l' files' calls,
      Site.recoverFrom c ((records lsn (said.map Saying.item)).map .ok)
          ⟨log, ({ oldest := horizon } : Ledger), Observed.mk files []⟩ =
        .ok report ⟨log, l', ⟨files', calls.map fun (_, handles) => (handles, true)⟩⟩ ∧ Asks said horizon calls := by
  let l : Ledger := { oldest := horizon }
  let rs := records lsn (said.map Saying.item)
  have a : Replay.Accounts l rs (.ofRecords c l rs) := Replay.accounts on l rs
  have listed : Log.listed rs = Saying.listed said := Saying.listedRecords plain
  have valid : ∀ e ∈ Saying.listed said, e.xid.isValid = true := by
    intro e member
    obtain ⟨es, inside, listed⟩ := Saying.memListed.mp member
    exact (plain _ inside).2 e listed
  have keys := a.memKeys
  have ascending := (Replay.ofRecords c l rs).table.rowsAscending
  have made := Site.recoverFromObserved on log l files rs rfl
  generalize (Replay.ofRecords c l rs).table.rows.map Prod.fst = xs at keys ascending made
  let handlesOf (x : Xid) := RedoTable.distinctNodes (filesOf x (Log.listed rs))
  have asked : xs.map (fun x => (handlesOf x, true)) =
      (xs.map fun x => (x, handlesOf x)).map fun (_, handles) => (handles, true) := by rw [List.map_map]; rfl
  have named : (xs.map fun x => (x, handlesOf x)).map Prod.fst = xs := by
    rw [List.map_map]
    exact List.map_id xs
  rw [asked] at made
  refine ⟨_, _, _, _, made, ?_, fun x => ?_, fun x handles member => ?_, fun x handles member node => ?_,
    fun x handles member f => ?_⟩
  · rw [named]
    exact ascending.imp fun below same => absurd (same ▸ below) (Nat.lt_irrefl _)
  · rw [named, keys, ← Saying.namedRecords plain lsn]
    constructor
    · intro doubt
      obtain ⟨e, member, same⟩ := doubt.listed
      rw [listed] at member
      obtain ⟨es, inside, own⟩ := Saying.memListed.mp member
      exact ⟨doubt.recent, ⟨es, inside, e, own, same⟩, doubt.unnamed⟩
    · rintro ⟨recent, ⟨es, inside, e, own, rfl⟩, unnamed⟩
      have member := Saying.memListed.mpr ⟨es, inside, own⟩
      exact ⟨valid e member, recent, rfl, ⟨e, listed ▸ member, rfl⟩, unnamed⟩
  · obtain ⟨y, -, same⟩ := List.mem_map.mp member
    cases same
    exact RedoTable.distinctNodesNodup _
  · obtain ⟨y, -, same⟩ := List.mem_map.mp member
    cases same
    rw [RedoTable.memDistinctNodes, List.mem_map, listed]
    constructor
    · rintro ⟨f, own, rfl⟩
      obtain ⟨es, inside, own⟩ := Saying.memListed.mp (memFilesOf.mp own)
      exact ⟨es, inside, _, own, rfl, rfl⟩
    · rintro ⟨es, inside, e, own, rfl, rfl⟩
      exact ⟨e.file, memFilesOf.mpr (Saying.memListed.mpr ⟨es, inside, own⟩), rfl⟩
  · obtain ⟨y, -, same⟩ := List.mem_map.mp member
    cases same
    rw [← listed]
    exact RedoTable.memDistinctFirst.mp

/-- After a crash the log opens with what the cut left whole of all that it was told, in which all that was checkpointed
is listed; and a recovery asks the dropper for exactly what these records say.  The next position must not have started
over. -/
theorem crashContract {σ : Type} [FileDropper σ] {c : Config} (on : c.enabled = true) {r : Registry}
    (made : Registry.new c = .ok r) {salt start : UInt64} {log : Log} {device : Device}
    (opened : Log.load salt start ⟨.empty, []⟩ = .ok log device) (deeds : List Deed) {first last : Cluster}
    (fresh : first = ⟨⟨r, []⟩, ⟨device, log, none⟩⟩) (ran : first.run deeds = last)
    (room : start.toNat + last.log.log.stats.records < UInt64.size) {n : Nat}
    (synced : last.log.device.file.stable.size ≤ n) (written : n ≤ last.log.device.file.content.size)
    (start' : UInt64) {c' : Config} (on' : c'.enabled = true) (horizon : Xid) (files : σ) :
    ∃ said kept log' device' scan report l' files' calls,
      first.Story deeds said ∧ last.log.device.file.content.bytes = image ⟨salt, start⟩ (said.map Saying.item) ∧
      Survives n said kept ∧ Log.load salt start' (last.crashed n) = .ok log' device' ∧
      OpenLog.readThrough ⟨device', log', none⟩ = .ok scan ⟨device', log', none⟩ ∧
      scan.records = records start (kept.map Saying.item) ∧ scan.failure = none ∧
      (∀ e ∈ first.checkpointed deeds, ∃ es, .snapshot es ∈ kept ∧ e ∈ es) ∧
      Site.recover c' ⟨⟨device', log', none⟩, ({ oldest := horizon } : Ledger), Observed.mk files []⟩ =
        .ok report ⟨⟨device', log', none⟩, l', ⟨files', calls.map fun (_, handles) => (handles, true)⟩⟩ ∧
      Asks kept horizon calls := by
  subst fresh ran
  -- what was told fixes the bytes, so what the cut leaves of it is known before anything is read
  obtain ⟨said, story, sound⟩ := runSound (openedSound made on opened) deeds
  rw [List.nil_append, List.append_nil] at sound
  generalize run ⟨⟨r, []⟩, ⟨device, log, none⟩⟩ deeds = last at room synced written sound ⊢
  rw [sound.told.counted] at room
  have secures := sound.told.secures room
  obtain ⟨k, durable, -⟩ := id secures
  obtain ⟨kept, survives, items⟩ := survivesCut n said
  obtain ⟨log', device', scan, loaded, read, records, clean⟩ := opensCut durable written start' last.hall
  rw [← items] at records
  obtain ⟨report, l', files', calls, recovered, asks⟩ := recoverAsks on' ⟨device', log', none⟩ horizon files
    (fun t member => sound.told.plain t (survives.part.subset member)) start
  refine ⟨said, kept, log', device', scan, report, l', files', calls, story, durable.held.bytes, survives, loaded, read,
    records, clean, fun e member => ?_, ?_, asks⟩
  · exact Saying.memListed.mp (securedSurvives secures synced survives e member)
  · rw [Site.recoverAsRead read clean, records]
    exact recovered

def twoEnd : List Deed := [.request (.attach 0), .request (.attach 1),
  .request (.add 0 ⟨⟨1663, 5, 1⟩, false⟩ ⟨7⟩), .request (.add 1 ⟨⟨1663, 5, 2⟩, false⟩ ⟨8⟩), .checkpoint,
  .request (.remove 1 ⟨⟨1⟩, 1⟩), .commit ⟨⟨8⟩, []⟩, .sync, .abort ⟨⟨7⟩, []⟩]

theorem twoEndRuns : ∃ r log device, Registry.new (.compact 2 4) = .ok r ∧
    Log.load 5 1 ⟨.empty, []⟩ = .ok log device ∧
    checkpointed ⟨⟨r, []⟩, ⟨device, log, none⟩⟩ twoEnd =
      [⟨⟨⟨1663, 5, 1⟩, false⟩, ⟨7⟩⟩, ⟨⟨⟨1663, 5, 2⟩, false⟩, ⟨8⟩⟩] ∧
    1 + (run ⟨⟨r, []⟩, ⟨device, log, none⟩⟩ twoEnd).log.log.stats.records < UInt64.size ∧
    (run ⟨⟨r, []⟩, ⟨device, log, none⟩⟩ twoEnd).log.device.file.stable.size ≤ 200 ∧
    200 ≤ (run ⟨⟨r, []⟩, ⟨device, log, none⟩⟩ twoEnd).log.device.file.content.size :=
  ⟨_, _, _, rfl, rfl, by decide +kernel⟩

theorem crashContractTorn : ∃ r log device last, Registry.new (.compact 2 4) = .ok r ∧
    Log.load 5 1 ⟨.empty, []⟩ = .ok log device ∧ run ⟨⟨r, []⟩, ⟨device, log, none⟩⟩ twoEnd = last ∧
    last.log.device.file.stable.size ≤ 200 ∧ 200 ≤ last.log.device.file.content.size ∧
    ∃ said kept log' device' scan report l' files' calls, Story ⟨⟨r, []⟩, ⟨device, log, none⟩⟩ twoEnd said ∧
      Survives 200 said kept ∧ Log.load 5 9 (last.crashed 200) = .ok log' device' ∧
      OpenLog.readThrough ⟨device', log', none⟩ = .ok scan ⟨device', log', none⟩ ∧
      scan.records = records 1 (kept.map Saying.item) ∧
      (∃ es, .snapshot es ∈ kept ∧ ⟨⟨⟨1663, 5, 1⟩, false⟩, ⟨7⟩⟩ ∈ es) ∧
      (∃ es, .snapshot es ∈ kept ∧ ⟨⟨⟨1663, 5, 2⟩, false⟩, ⟨8⟩⟩ ∈ es) ∧
      Site.recover {} ⟨⟨device', log', none⟩, ({ oldest := ⟨3⟩ } : Ledger), Observed.mk ({} : DropJournal) []⟩ =
        .ok report ⟨⟨device', log', none⟩, l', ⟨files', calls.map fun (_, handles) => (handles, true)⟩⟩ ∧
      Asks kept ⟨3⟩ calls := by
  obtain ⟨r, log, device, made, opened, checkpointed, room, synced, written⟩ := twoEndRuns
  obtain ⟨said, kept, log', device', scan, report, l', files', calls, story, -, survives, loaded, read, records, -,
    safe, recovered, asks⟩ := crashContract rfl made opened twoEnd rfl rfl room synced written 9
      (show ({} : Config).enabled = true from rfl) ⟨3⟩ ({} : DropJournal)
  rw [checkpointed] at safe
  exact ⟨r, log, device, _, made, opened, rfl, synced, written, said, kept, log', device', scan, report, l', files',
    calls, story, survives, loaded, read, records, safe _ (by simp), safe _ (by simp), recovered, asks⟩

def oneListed : List Deed := [.request (.attach 0), .request (.add 0 ⟨⟨1663, 5, 1⟩, false⟩ ⟨7⟩), .checkpoint]

def refusal? : EStateM.Result Error Device Log → Option Error
  | .ok _ _ => none
  | .error e _ => some e

/-- Behind the last position comes the first of all.  Here the marker has it, behind the snapshot, and the log does not
open again though nothing was cut off. -/
theorem checkpointLost : ∃ r log device, Registry.new (.compact 2 4) = .ok r ∧
    Log.load 5 (-1) ⟨.empty, []⟩ = .ok log device ∧
    checkpointed ⟨⟨r, []⟩, ⟨device, log, none⟩⟩ oneListed = [⟨⟨⟨1663, 5, 1⟩, false⟩, ⟨7⟩⟩] ∧
    (run ⟨⟨r, []⟩, ⟨device, log, none⟩⟩ oneListed).log.device.file.content.size = 124 ∧
    refusal? (Log.load 5 9 ((run ⟨⟨r, []⟩, ⟨device, log, none⟩⟩ oneListed).crashed 124)) =
      some (.corruption .belowStart) :=
  ⟨_, _, _, rfl, rfl, by decide +kernel⟩

end Crash

end Cluster
end OrphanFiles
