import OrphanFiles.Inspection
import OrphanFiles.JsonValue
import OrphanFiles.Recovery

/-!
Reports as JSON values.
-/
namespace OrphanFiles

def Xid.toJson (x : Xid) : JsonValue := .number x.number.toNat

def lsnToJson (lsn : UInt64) : JsonValue := .number lsn.toNat

def RelFile.toJson (f : RelFile) : JsonValue :=
  .object [
    ("node", .object [
      ("spc", .number f.node.tablespace.toNat),
      ("db", .number f.node.database.toNat),
      ("rel", .number f.node.relation.toNat)]),
    ("is_temp", .bool f.temporary)]

def PendingFile.toJson (e : PendingFile) : JsonValue :=
  .object [("relnode", e.file.toJson), ("xid", e.xid.toJson)]

def Completion.toJson (c : Completion) : List (String × JsonValue) :=
  [("xid", c.xid.toJson), ("sub_xids", .array (c.subs.map Xid.toJson))]

def ReplayStats.toJson (s : ReplayStats) : JsonValue :=
  .object [
    ("records", .number s.records),
    ("snapshots", .number s.snapshots),
    ("entries_admitted", .number s.entriesAdmitted),
    ("skipped_horizon", .number s.beforeHorizon),
    ("skipped_status", .number s.ended),
    ("commits", .number s.commits),
    ("aborts", .number s.aborts),
    ("pruned", .number s.pruned),
    ("checkpoints", .number s.checkpoints),
    ("undecodable", .number s.undecodable),
    ("last_lsn", s.lastLsn.elim .null lsnToJson)]

def DropFailure.toJson (f : DropFailure) : JsonValue :=
  .object [("xid", f.xid.toJson), ("handles", .number f.files), ("error", .text f.message)]

def FinalizeReport.toJson (r : FinalizeReport) : JsonValue :=
  .object [
    ("dropped_xids", .array (r.dropped.map Xid.toJson)),
    ("files_dropped", .number r.filesDropped),
    ("skipped_horizon", .array (r.beforeHorizon.map Xid.toJson)),
    ("skipped_status", .array (r.ended.map fun (x, s) => .object [("xid", x.toJson), ("status", .text s.name)])),
    ("failures", .array (r.failures.map DropFailure.toJson)),
    ("duplicates_collapsed", .number r.duplicates)]

def RecoveryReport.toJson (r : RecoveryReport) : JsonValue :=
  .object [("replay", r.replay.toJson), ("finalize", r.finalize.toJson)]

def RecordBody.toJson : RecordBody → JsonValue
  | .snapshot entries =>
    .object [("type", .text "pending_delete"), ("entries", .array (entries.map PendingFile.toJson))]
  | .completion c => .object (("type", .text "xact") :: c.toJson)
  | .checkpoint => .object [("type", .text "checkpoint")]
  | .damaged damage =>
    .object [("type", .text "undecodable"), ("error", .text (Error.corruption damage).message)]

def RecordSummary.toJson (r : RecordSummary) : JsonValue :=
  .object [
    ("lsn", lsnToJson r.lsn),
    ("kind", .text r.kind.name),
    ("payload_bytes", .number r.payloadBytes),
    ("detail", r.body.toJson)]

def Inspection.toJson (i : Inspection) : JsonValue :=
  .object [
    ("path", .text i.path),
    ("size_bytes", .number i.size),
    ("wal_salt", .number i.header.salt.toNat),
    ("start_lsn", lsnToJson i.header.start),
    ("records", .array (i.records.map RecordSummary.toJson)),
    ("valid_up_to", .number i.validUpTo),
    ("trailing_bytes", .number i.trailing)]

end OrphanFiles
