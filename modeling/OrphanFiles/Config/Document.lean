import OrphanFiles.Config

/-!
Reading the settings from a TOML document.  Every setting is a switch or a count at the top level, so of the
format only lines are read that hold nothing, a comment, or `key = value` with a bare or quoted key and a
Boolean or integer value; any other construct would give a setting a value that it cannot take.
-/
namespace OrphanFiles.Config

namespace Document

inductive Value where
  | switch (on : Bool)
  | count (n : Int)
  deriving DecidableEq, Repr

def lines : List Char → List (List Char)
  | [] => [[]]
  | '\r' :: '\n' :: rest => [] :: lines rest
  | '\n' :: rest => [] :: lines rest
  | c :: rest => match lines rest with
    | [] => [[c]]
    | l :: ls => (c :: l) :: ls

def isBlank (c : Char) : Bool := c == ' ' || c == '\t'

def isCommentChar (c : Char) : Bool := c == '\t' || (0x20 ≤ c.toNat && c.toNat != 0x7F)

def isBareKeyChar (c : Char) : Bool := c.isAlphanum || c == '_' || c == '-'

def digit? (c : Char) : Option Nat :=
  if c.isDigit then some (c.toNat - '0'.toNat)
  else if 'a' ≤ c ∧ c ≤ 'f' then some (c.toNat - 'a'.toNat + 10)
  else if 'A' ≤ c ∧ c ≤ 'F' then some (c.toNat - 'A'.toNat + 10)
  else none

def digitIn? (radix : Nat) (c : Char) : Option Nat := (digit? c).filter (· < radix)

def maxMagnitude : Nat := 0x8000000000000000

def pushDigit (radix acc : Nat) (c : Char) : Option Nat :=
  ((digitIn? radix c).map (acc * radix + ·)).filter (· ≤ maxMagnitude)

def digitsFrom (radix acc : Nat) : List Char → Option Nat
  | [] => some acc
  | '_' :: c :: rest => do digitsFrom radix (← pushDigit radix acc c) rest
  | c :: rest => do digitsFrom radix (← pushDigit radix acc c) rest

def digits (radix : Nat) : List Char → Option Nat
  | [] => none
  | c :: rest => do digitsFrom radix (← digitIn? radix c) rest

def decimal : List Char → Option Nat
  | ['0'] => some 0
  | '0' :: _ => none
  | cs => digits 10 cs

def integer (cs : List Char) : Option Int :=
  let n : Option Int := match cs with
    | '0' :: 'x' :: ds => digits 16 ds
    | '0' :: 'o' :: ds => digits 8 ds
    | '0' :: 'b' :: ds => digits 2 ds
    | '+' :: ds => decimal ds
    | '-' :: ds => (decimal ds).map fun n => -(n : Int)
    | ds => decimal ds
  n.filter fun n => -maxMagnitude ≤ n && n < maxMagnitude

def value (cs : List Char) : Option Value :=
  if cs = "true".toList then some (.switch true)
  else if cs = "false".toList then some (.switch false)
  else (integer cs).map .count

def codePoint : Nat → Nat → List Char → Option (Char × List Char)
  | 0, acc, rest => if acc.isValidChar then some (Char.ofNat acc, rest) else none
  | n + 1, acc, c :: rest => do codePoint n (acc * 16 + (← digit? c)) rest
  | _ + 1, _, [] => none

theorem codePointRest {n acc : Nat} {cs rest : List Char} {c : Char}
    (h : codePoint n acc cs = some (c, rest)) : rest.length ≤ cs.length := by
  induction n generalizing acc cs with
  | zero => simp [codePoint] at h; simp [h.2.2]
  | succ n ih =>
    cases cs with
    | nil => simp [codePoint] at h
    | cons d ds =>
      simp only [codePoint, bind, Option.bind_eq_some_iff] at h
      obtain ⟨_, _, h⟩ := h
      exact Nat.le_succ_of_le (ih h)

def escapedKey (read : List Char) (cs : List Char) : Option (List Char × List Char) :=
  match cs with
  | [] => none
  | '"' :: rest => some (read.reverse, rest)
  | '\\' :: 'u' :: rest =>
    match h : codePoint 4 0 rest with
    | some (c, rest') =>
      have := codePointRest h
      escapedKey (c :: read) rest'
    | none => none
  | '\\' :: 'U' :: rest =>
    match h : codePoint 8 0 rest with
    | some (c, rest') =>
      have := codePointRest h
      escapedKey (c :: read) rest'
    | none => none
  | '\\' :: _ => none
  | c :: rest => escapedKey (c :: read) rest
termination_by cs.length

/-- A key and what follows it.  No setting's name needs the short escapes, so they are refused. -/
def key : List Char → Option (List Char × List Char)
  | '"' :: rest => escapedKey [] rest
  | '\'' :: rest => match rest.dropWhile (· != '\'') with
    | _ :: after => some (rest.takeWhile (· != '\''), after)
    | [] => none
  | cs => some (cs.takeWhile isBareKeyChar, cs.dropWhile isBareKeyChar)

def isRemark (cs : List Char) : Bool :=
  match cs.dropWhile isBlank with
  | [] => true
  | '#' :: comment => comment.all isCommentChar
  | _ => false

def setting (line : List Char) : Option (String × Value) := do
  let (name, rest) ← key (line.dropWhile isBlank)
  match rest.dropWhile isBlank with
  | '=' :: rest =>
    let rest := rest.dropWhile isBlank
    let isInside := fun c => !isBlank c && c != '#'
    let v ← value (rest.takeWhile isInside)
    if isRemark (rest.dropWhile isInside) then some (String.ofList name, v) else none
  | _ => none

def settings (src : String) : Option (List (String × Value)) :=
  let text := match src.toList with
    | '\uFEFF' :: rest => rest
    | cs => cs
  ((lines text).filter (!isRemark ·)).mapM setting

end Document

open Document

def assign (c : Config) : String × Value → Option Config
  | ("track_pending_deletes", .switch on) => some { c with track := on }
  | ("bootstrap", .switch on) => some { c with bootstrap := on }
  | ("max_backends", .count (.ofNat n)) => some { c with maxBackends := n }
  | ("arena_nodes", .count (.ofNat n)) => some { c with poolNodes := n }
  | ("dump_initial_entries", .count (.ofNat n)) => some { c with initialEntries := n }
  | _ => none

def ofDocument? (src : String) : Option Config := do
  let named ← Document.settings src
  if (named.map Prod.fst).Nodup then named.foldlM assign {} else none

def ofDocument (src : String) : Except ConfigFault Config :=
  match ofDocument? src with
  | none => .error .malformed
  | some c => c.validate.map fun _ => c

end OrphanFiles.Config
