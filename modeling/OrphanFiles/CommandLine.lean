import OrphanFiles.Config.Document
import OrphanFiles.Offline
import OrphanFiles.Report.Json
import OrphanFiles.Report.Text

/-!
The command line: `inspect` describes a log, and `recover` runs a recovery by hand.  Arguments are read from the
left to the right, and the first that does not fit refuses the whole line.
-/
namespace OrphanFiles.CommandLine

inductive Format where
  | text | json
  deriving DecidableEq, Repr

def Format.ofName? : String → Option Format
  | "text" => some .text
  | "json" => some .json
  | _ => none

inductive Command where
  | inspect (log : String)
  | recover (log : String) (options : Offline) (config : Option String)

inductive Request where
  | version
  | perform (format : Format) (command : Command)

/-! ### Arguments -/

inductive Arity where
  | one | many
  deriving DecidableEq

structure Arguments where
  options : List (String × String) := []
  positionals : List String := []

namespace Arguments

def addOption (a : Arguments) (name value : String) : Arguments :=
  { a with options := (name, value) :: a.options }

def values (a : Arguments) (name : String) : List String :=
  (a.options.filter (·.1 = name)).map Prod.snd

def single (a : Arguments) (name : String) : Option (Option String) :=
  match a.values name with
  | [] => some none
  | [v] => some (some v)
  | _ => none

end Arguments

def isFlag (arg : String) : Bool := arg.startsWith "-" && arg != "-"

def splitOption (arg : String) : String × Option String :=
  match arg.toList.dropWhile (· != '=') with
  | [] => (arg, none)
  | _ :: value => (String.ofList (arg.toList.takeWhile (· != '=')), some (String.ofList value))

def arguments (arity : String → Option Arity) : Option String → List String → Option Arguments
  | _, [] => some {}
  | collecting, arg :: rest =>
    if arg = "--" then some { positionals := rest }
    else if isFlag arg then
      let (name, attached) := splitOption arg
      match arity name, attached, rest with
      | some _, some v, rest => (arguments arity none rest).map (·.addOption name v)
      | some values, none, v :: rest =>
        if isFlag v then none
        else (arguments arity (if values = .many then some name else none) rest).map (·.addOption name v)
      | _, _, _ => none
    else match collecting with
      | some name => (arguments arity collecting rest).map (·.addOption name arg)
      | none => (arguments arity none rest).map fun a => { a with positionals := arg :: a.positionals }

def globalArity : String → Option Arity
  | "--format" | "--log" => some .one
  | _ => none

def recoverArity : String → Option Arity
  | "--data-dir" | "--oldest-xid" | "--config" => some .one
  | "--committed" | "--aborted" => some .many
  | name => globalArity name

def xid? (text : String) : Option Xid := do
  let (negative, digits) := match text.toList with
    | '-' :: ds => (true, ds)
    | '+' :: ds => (false, ds)
    | ds => (false, ds)
  if digits.isEmpty || !digits.all Char.isDigit then none
  else
    let n := digits.foldl (fun n d => 10 * n + (d.toNat - '0'.toNat)) 0
    if n ≤ 0xFFFFFFFF && (n = 0 || !negative) then some ⟨UInt32.ofNat n⟩ else none

def path? (text : String) : Option String := if text.isEmpty then none else some text

/-- The format that is asked for at one level; the filter of the diagnostics plays no part in the output. -/
def format? (a : Arguments) : Option (Option Format) := do
  let _ ← a.single "--log"
  match ← a.single "--format" with
  | none => some none
  | some name => (Format.ofName? name).map some

def log? (a : Arguments) : Option String :=
  match a.positionals with
  | [log] => path? log
  | _ => none

def inspect? (outer : Option Format) (args : List String) : Option Request := do
  let a ← arguments globalArity none args
  let format ← format? a
  let log ← log? a
  pure (.perform ((format.or outer).getD .text) (.inspect log))

def recover? (outer : Option Format) (args : List String) : Option Request := do
  let a ← arguments recoverArity none args
  let format ← format? a
  let log ← log? a
  let dataDir ← path? (← ← a.single "--data-dir")
  let oldest ← (← a.single "--oldest-xid").mapM xid?
  let committed ← (a.values "--committed").mapM xid?
  let aborted ← (a.values "--aborted").mapM xid?
  let config ← (← a.single "--config").mapM path?
  let options : Offline := { dataDir, oldest := oldest.getD .firstNormal, committed, aborted }
  pure (.perform ((format.or outer).getD .text) (.recover log options config))

def request? (format : Option Format) (hasLog : Bool) : List String → Option Request
  | [] => none
  | "--version" :: _ => some .version
  | "inspect" :: args => inspect? format args
  | "recover" :: args => recover? format args
  | arg :: rest =>
    if arg.startsWith "-V" then some .version
    else if !isFlag arg then none
    else match splitOption arg, rest with
      | ("--format", some name), rest => setFormat name rest
      | ("--format", none), name :: rest => setFormat name rest
      | ("--log", some _), rest => if hasLog then none else request? format true rest
      | ("--log", none), v :: rest => if hasLog || isFlag v then none else request? format true rest
      | _, _ => none
where
  setFormat (name : String) (rest : List String) : Option Request :=
    match format, Format.ofName? name with
    | none, some f => request? (some f) hasLog rest
    | _, _ => none

/-! ### Commands -/

structure Outcome where
  code : Nat
  stdout : String := ""
  failure : Option Error := none

def render (format : Format) (json : JsonValue) (lines : List String) : String :=
  match format with
  | .text => unlines lines
  | .json => json.pretty "" ++ "\n"

def readConfig (v : Volume) (path : String) : Except ConfigFault Config :=
  match v.openExisting path with
  | .error fault => .error (.unreadable path (.path fault))
  | .ok id => match String.fromUTF8? (v.file id).content.bytes with
    | none => .error (.unreadable path .notUtf8)
    | some src => Config.ofDocument src

def perform (format : Format) : Command → StateM Volume Outcome
  | .inspect log => fun v => match Inspection.ofPath v log with
    | .ok i => ({ code := 0, stdout := render format i.toJson i.lines }, v)
    | .error e => ({ code := 1, failure := some e }, v)
  | .recover log options config => fun v =>
    match (config.elim (.ok options.config) (readConfig v) : Except ConfigFault Config) with
    | .error fault => ({ code := 1, failure := some (.config fault) }, v)
    | .ok config => match Offline.recover { options with config } log v with
      | .ok r v =>
        ({ code := if r.finalize.failures.isEmpty then 0 else 2, stdout := render format r.toJson r.lines }, v)
      | .error e v => ({ code := 1, failure := some e }, v)

def usage : String := unlines [
  "usage: pendel [--format text|json] [--log FILTER] inspect WAL",
  "       pendel [--format text|json] [--log FILTER] recover WAL --data-dir DIR [--oldest-xid XID]",
  "              [--committed XID...] [--aborted XID...] [--config FILE]",
  "       pendel --version"]

def run (args : List String) : StateM Volume Outcome :=
  match request? none false args with
  | none => pure { code := 2 }
  | some .version => pure { code := 0, stdout := "pendel 0.1.0\n" }
  | some (.perform format command) => perform format command

end OrphanFiles.CommandLine
