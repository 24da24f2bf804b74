import SchemePlayer.Number.Reading
import SchemePlayer.Text.Quoted

/-!
# Command-line flags

A flag is written with one dash or two, and its value after an equals sign or as the next
argument. A truth flag needs no value, and takes one only after an equals sign. Flags end
at the first argument that is none, or behind two dashes.

- `FlagSpec`: a flag that is known.
- `Flags.parse`: the flags at the head of some arguments, and the arguments behind them.
-/

namespace SchemePlayer

/-- What a flag is set to. -/
inductive FlagValue where
  | bool (b : Bool)
  | int (n : Int)
  | text (t : Text)
  deriving DecidableEq

/-- A flag that is known. -/
structure FlagSpec where
  name : Text
  /-- what it is set to when it is not given -/
  usual : FlagValue
  help : Text
  deriving DecidableEq

/-- Why arguments are not understood. -/
inductive FlagError where
  | badSyntax (argument : Text)
  | unknown (name : Text)
  /-- not an error: an explanation was asked for -/
  | helpWanted
  | noValue (name : Text)
  | badBool (name value : Text)
  | badValue (name value : Text)
  deriving DecidableEq

namespace FlagError

/-- The report. -/
def message : FlagError → Text
  | badSyntax argument => "bad flag syntax: " ++ argument
  | unknown name => "flag provided but not defined: -" ++ name
  | helpWanted => []
  | noValue name => "flag needs an argument: -" ++ name
  | badBool name value => "invalid boolean value " ++ Text.quote value ++ " for -" ++ name ++ ": parse error"
  | badValue name value => "invalid value " ++ Text.quote value ++ " for flag -" ++ name ++ ": parse error"

/-- The exit code of a program whose arguments are not understood. -/
def exitCode : FlagError → Nat
  | helpWanted => 0
  | _ => 2

end FlagError

/-- Flags that were given, the latest first. -/
abbrev Flags := List (Text × FlagValue)

namespace Flags

/-- Reads a truth value. -/
def bool? (t : Text) : Option Bool :=
  let isOne (ws : List String) : Bool := ws.any fun w => Text.ofString w == t
  if isOne ["1", "t", "T", "true", "TRUE", "True"] then some true
  else if isOne ["0", "f", "F", "false", "FALSE", "False"] then some false
  else none

/-- Reads the value of a flag. -/
def value (spec : FlagSpec) (t : Text) : Except FlagError FlagValue :=
  match spec.usual with
  | .bool _ =>
    match bool? t with
    | some b => .ok (.bool b)
    | none => .error (.badBool spec.name t)
  | .int _ =>
    match Reading.integer? 64 t with
    | some n => .ok (.int n)
    | none => .error (.badValue spec.name t)
  | .text _ => .ok (.text t)

/-- The name in an argument that is a flag, and the value after an equals sign. -/
def split (body : Text) : Text × Option Text :=
  match body with
  | [] => ([], none)
  | b :: rest =>
    match Text.cut? 61 rest with
    | some (name, value) => (b :: name, some value)
    | none => (body, none)

/-- The body of an argument that is a flag, without its dashes; `none` when it is no flag. -/
def body? : Text → Option Text
  | 45 :: 45 :: body => some body
  | 45 :: b :: body => some (b :: body)
  | _ => none

/-- Whether the body of a flag begins like a name. -/
def startsName : Text → Bool
  | [] => false
  | b :: _ => b != 45 && b != 61

/-- Reads the flags at the head of some arguments. -/
def parseFrom (specs : List FlagSpec) : Flags → List Text → Except FlagError (Flags × List Text)
  | found, [] => .ok (found, [])
  | found, argument :: rest =>
    if argument = "--" then .ok (found, rest)
    else match body? argument with
      | none => .ok (found, argument :: rest)
      | some body =>
        if !startsName body then .error (.badSyntax argument)
        else
          let (name, given) := split body
          match specs.find? (·.name = name) with
          | none =>
            .error (if name = "help" ∨ name = "h" then .helpWanted else .unknown name)
          | some spec =>
            match given, spec.usual, rest with
            | some t, _, rest =>
              match value spec t with
              | .ok v => parseFrom specs ((name, v) :: found) rest
              | .error e => .error e
            | none, .bool _, rest => parseFrom specs ((name, .bool true) :: found) rest
            | none, _, [] => .error (.noValue name)
            | none, _, t :: rest =>
              match value spec t with
              | .ok v => parseFrom specs ((name, v) :: found) rest
              | .error e => .error e

/-- The flags at the head of some arguments, and the arguments behind them. -/
def parse (specs : List FlagSpec) (args : List Text) : Except FlagError (Flags × List Text) :=
  parseFrom specs [] args

/-- A truth flag. -/
def isSet (f : Flags) (name : Text) : Bool :=
  match f.lookup name with
  | some (.bool b) => b
  | _ => false

/-- An integer flag. -/
def int (f : Flags) (name : Text) (usual : Int) : Int :=
  match f.lookup name with
  | some (.int n) => n
  | _ => usual

/-- A text flag. -/
def text (f : Flags) (name usual : Text) : Text :=
  match f.lookup name with
  | some (.text t) => t
  | _ => usual

/-- The explanation of a flag, in two lines. -/
def explain (spec : FlagSpec) : List Text :=
  let (kind, usual) : Text × Text := match spec.usual with
    | .bool _ => ([], [])
    | .int n => (" int", if n = 0 then [] else " (default " ++ Text.ofInt n ++ ")")
    | .text t => (" string", if t = [] then [] else " (default " ++ Text.quote t ++ ")")
  ["  -" ++ spec.name ++ kind, "    \t" ++ spec.help ++ usual]

end Flags

end SchemePlayer
