import SchemePlayer.Number.Format
import SchemePlayer.Number.Reading
import SchemePlayer.Text.Case
import SchemePlayer.Text.Quoted

/-!
# Values

Every variable, stack slot and answer of a host is a number, a handle (a 32-bit
integer) or a text. `Value.format` and `Value.parse` are the two directions between a
value and the text that variable sets and declarations hold.
-/

namespace SchemePlayer

/-- The storage class of a value. -/
inductive Kind where
  | float
  | handle
  | string
  deriving DecidableEq, Repr

namespace Kind

/-- The number by which a kind is known outside. -/
def code : Kind → UInt8
  | float => 0
  | handle => 1
  | string => 2

/-- The kind known by a number. -/
def ofCode? : UInt8 → Option Kind
  | 0 => some float
  | 1 => some handle
  | 2 => some string
  | _ => none

/-- The name of a kind. -/
def name : Kind → Text
  | float => "float"
  | handle => "handle"
  | string => "string"

/-- The name of the kind known by a number, also of those that do not exist. -/
def nameOfCode (n : UInt8) : Text :=
  match ofCode? n with
  | some k => k.name
  | none => "kind(" ++ Text.ofNat n.toNat ++ ")"

@[simp] theorem ofCode?_code (k : Kind) : ofCode? k.code = some k := by cases k <;> rfl

end Kind

/-- A number, a handle or a text. -/
inductive Value where
  | float (x : Float)
  | handle (n : Int32)
  | string (s : Text)
  deriving DecidableEq

namespace Value

instance : Inhabited Value := ⟨float 0⟩

/-- The storage class of a value. -/
def kind : Value → Kind
  | float _ => .float
  | handle _ => .handle
  | string _ => .string

/-- The neutral value of a kind, also what a failed host call yields. -/
def zero : Kind → Value
  | .float => float 0
  | .handle => handle 0
  | .string => string []

@[simp] theorem kind_zero (k : Kind) : (zero k).kind = k := by cases k <;> rfl

/-- Truth as code represents it. -/
def ofBool (b : Bool) : Value := float (if b then 1 else 0)

@[simp] theorem kind_ofBool (b : Bool) : (ofBool b).kind = .float := rfl

/-- Whether a value is the neutral one of its kind. -/
def isZero : Value → Bool
  | float x => x == 0
  | handle n => n == 0
  | string s => s.isEmpty

/-- The text of a value in variable sets. -/
def format : Value → Text
  | float x => NumberFormat.plain.render x
  | handle n => Text.ofInt n.toInt
  | string s => s

/-- The text of a value as shown: strings are quoted. -/
def display : Value → Text
  | string s => Text.quote s
  | v => v.format

/-! ### Reading -/

/-- Why a text is no value of the wanted kind. -/
inductive ParseError where
  | badFloat (text read : Text) (cause : NumberError)
  | badHandle (text read : Text) (cause : NumberError)
  | unknownKind (text : Text) (code : UInt8)
  deriving DecidableEq

namespace ParseError

/-- The report of a number that could not be read. -/
def numberMessage (what text read : Text) (cause : NumberError) : Text :=
  "parse " ++ what ++ " " ++ Text.quote text ++ ": strconv.ParseFloat: parsing "
    ++ Text.quote read ++ ": "
    ++ match cause with
      | .syntaxError => Text.ofString "invalid syntax"
      | .outOfRange => Text.ofString "value out of range"

/-- The text of a parse error. -/
def message : ParseError → Text
  | badFloat text read cause => numberMessage "float" text read cause
  | badHandle text read cause => numberMessage "handle" text read cause
  | unknownKind text code =>
    "parse " ++ Text.quote text ++ ": unknown kind " ++ Text.ofNat code.toNat

end ParseError

/-- Reads a number: white space around it does not count, and a comma may stand for
the point. -/
def parseFloat (t : Text) : Except ParseError Value :=
  let body := Text.trim t
  if body = [] then .ok (float 0)
  else
    let read := Text.replaceFirst 44 46 body
    match Reading.float read with
    | .ok x => .ok (float x)
    | .error e => .error (.badFloat t read e)

/-- Reads a handle: an integer literal, its lowest 32 bits kept, or else a number, its
whole part. -/
def parseHandle (t : Text) : Except ParseError Value :=
  let body := Text.trim t
  if body = [] then .ok (handle 0)
  else match Reading.integer? 64 body with
    | some n => .ok (handle (Int32.ofInt n))
    | none =>
      match Reading.float body with
      | .ok x => .ok (handle (Binary64.toHandle x))
      | .error e => .error (.badHandle t body e)

/-- Reads a value of a kind. -/
def parse (k : Kind) (t : Text) : Except ParseError Value :=
  match k with
  | .float => parseFloat t
  | .handle => parseHandle t
  | .string => .ok (string t)

/-- Reads a value of the kind known by a number. -/
def parseCoded (code : UInt8) (t : Text) : Except ParseError Value :=
  match Kind.ofCode? code with
  | some k => parse k t
  | none => .error (.unknownKind t code)

theorem kind_of_parse {k : Kind} {t : Text} {v : Value} (h : parse k t = .ok v) : v.kind = k := by
  cases k with
  | float =>
    simp only [parse, parseFloat] at h
    split at h
    · cases h; rfl
    · split at h <;> cases h; rfl
  | handle =>
    simp only [parse, parseHandle] at h
    split at h
    · cases h; rfl
    · split at h
      · cases h; rfl
      · split at h <;> cases h; rfl
  | string => cases h; rfl

end Value

end SchemePlayer
