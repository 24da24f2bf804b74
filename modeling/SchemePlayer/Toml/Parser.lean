import SchemePlayer.Text.Quoted
import SchemePlayer.Toml.Literal

/-!
# Reading TOML

A reader of whole documents: statements one after another, each a header or a value under
a name.
-/

namespace SchemePlayer.Toml

/-! ### Blanks -/

/-- Drops blanks within a line. -/
def skipSpace (t : Text) : Text := t.dropWhile fun b => b = 32 || b = 9

/-- Drops the rest of a line. -/
def skipLine (t : Text) : Text := t.dropWhile (· ≠ 10)

/-- Drops blanks, ends of lines and comments; every round drops something. -/
def skipLines : Nat → Text → Text
  | 0, t => t
  | fuel + 1, t =>
    match t with
    | [] => []
    | b :: rest =>
      if b = 32 ∨ b = 9 ∨ b = 10 ∨ b = 13 then skipLines fuel rest
      else if b = 35 then skipLines fuel (skipLine rest)
      else t

/-- Drops everything between values. -/
def skipAll (t : Text) : Text := skipLines t.length t

/-- The rest of a statement's line must be empty but for a comment. -/
def endOfLine? (t : Text) : Option Text :=
  match skipSpace t with
  | [] => some []
  | 35 :: rest => some (skipLine rest)
  | 10 :: rest => some rest
  | 13 :: 10 :: rest => some rest
  | _ => none

/-- Whether a text can be a document: UTF-8 without control characters, a return
standing only before the end of a line. -/
def isPlain : Text → Bool
  | [] => true
  | 13 :: rest =>
    match rest with
    | 10 :: _ => isPlain rest
    | _ => false
  | b :: rest => ((32 ≤ b && b ≠ 127) || b == 9 || b == 10) && isPlain rest

/-! ### Strings -/

/-- The text of an escape, given what follows its backslash, and the rest. -/
def escape? : Text → Option (Text × Text)
  | [] => none
  | c :: rest =>
    let code (width : Nat) : Option (Text × Text) :=
      match Text.hexNumber? width 0 rest with
      | some (n, rest) => (Text.charIn? 0 n).map fun ch => (String.utf8EncodeChar ch, rest)
      | none => none
    match c with
    | 98 => some ([8], rest)
    | 116 => some ([9], rest)
    | 110 => some ([10], rest)
    | 102 => some ([12], rest)
    | 114 => some ([13], rest)
    | 101 => some ([27], rest)
    | 34 => some ([34], rest)
    | 92 => some ([92], rest)
    | 120 => code 2
    | 117 => code 4
    | 85 => code 8
    | _ => none

/-- The rest of a string on one line, collected in reverse. -/
def basic? : Nat → Text → Text → Option (Text × Text)
  | 0, _, _ => none
  | _ + 1, _, [] => none
  | fuel + 1, acc, c :: rest =>
    if c = 34 then some (acc.reverse, rest)
    else if c = 10 then none
    else if c = 92 then
      match escape? rest with
      | some (bytes, rest) => basic? fuel (bytes.reverseAux acc) rest
      | none => none
    else basic? fuel (c :: acc) rest

/-- The rest of a string on one line without escapes. -/
def literal? (t : Text) : Option (Text × Text) :=
  match t.span fun b => b ≠ 39 && b ≠ 10 with
  | (body, 39 :: rest) => some (body, rest)
  | _ => none

/-- A string over several lines does not begin with the end of a line. -/
def skipFirstEnd : Text → Text
  | 10 :: rest => rest
  | 13 :: 10 :: rest => rest
  | t => t

/-- Splits off the marks at the head of a text. -/
def spanMarks (mark : UInt8) (t : Text) : Nat × Text :=
  ((t.takeWhile (· = mark)).length, t.dropWhile (· = mark))

/-- Drops blanks and ends of lines. -/
def skipWhite (t : Text) : Text := t.dropWhile fun b => b = 32 || b = 9 || b = 10 || b = 13

/-- Whether nothing but blanks is left of a line. -/
def isLineEnd (t : Text) : Bool :=
  match skipSpace t with
  | 10 :: _ => true
  | 13 :: 10 :: _ => true
  | _ => false

/-- The rest of a string over several lines, collected in reverse. Up to two marks stand
for themselves, also before the three that end it. -/
def lines? (mark : UInt8) (escapes : Bool) : Nat → Text → Text → Option (Text × Text)
  | 0, _, _ => none
  | _ + 1, _, [] => none
  | fuel + 1, acc, c :: rest =>
    if c = mark then
      let (count, after) := spanMarks mark (c :: rest)
      if count < 3 then lines? mark escapes fuel (List.replicate count mark ++ acc) after
      else if count ≤ 5 then some ((List.replicate (count - 3) mark ++ acc).reverse, after)
      else none
    else if escapes && c = 92 then
      if isLineEnd rest then lines? mark escapes fuel acc (skipWhite rest)
      else match escape? rest with
        | some (bytes, rest) => lines? mark escapes fuel (bytes.reverseAux acc) rest
        | none => none
    else lines? mark escapes fuel (c :: acc) rest

/-- A string at the head of a text. -/
def string? (t : Text) : Option (Text × Text) :=
  match t with
  | 34 :: 34 :: 34 :: rest => lines? 34 true (rest.length + 1) [] (skipFirstEnd rest)
  | 34 :: rest => basic? (rest.length + 1) [] rest
  | 39 :: 39 :: 39 :: rest => lines? 39 false (rest.length + 1) [] (skipFirstEnd rest)
  | 39 :: rest => literal? rest
  | _ => none

/-! ### Names -/

/-- Whether a byte can be part of a name without quotes. -/
def isBareByte (b : UInt8) : Bool :=
  Text.isDigit b || (65 ≤ b && b ≤ 90) || (97 ≤ b && b ≤ 122) || b == 95 || b == 45

/-- One part of a name. -/
def namePart? (t : Text) : Option (Text × Text) :=
  match t with
  | 34 :: rest => basic? (rest.length + 1) [] rest
  | 39 :: rest => literal? rest
  | t =>
    let (name, rest) := t.span isBareByte
    if name.isEmpty then none else some (name, rest)

/-- The parts of a name, with dots between them. -/
def name? : Nat → Text → Option (List Text × Text)
  | 0, _ => none
  | fuel + 1, t =>
    match namePart? (skipSpace t) with
    | none => none
    | some (part, rest) =>
      match skipSpace rest with
      | 46 :: rest =>
        match name? fuel rest with
        | some (parts, rest) => some (part :: parts, rest)
        | none => none
      | rest => some ([part], rest)

/-! ### Values -/

mutual

/-- A value at the head of a text. -/
def value? : Nat → Text → Option (Toml × Text)
  | 0, _ => none
  | fuel + 1, t =>
    match t with
    | [] => none
    | 91 :: rest => (items? fuel [] rest).map fun (items, rest) => (.array items, rest)
    | 123 :: rest => (entries? fuel {} (skipAll rest)).map fun (d, rest) => (.table d.root, rest)
    | c :: _ =>
      if c = 34 ∨ c = 39 then (string? t).map fun (s, rest) => (.string s, rest)
      else
        let (word, rest) := splitWord t
        (word? word).map (·, rest)

/-- The rest of a list, collected in reverse. -/
def items? : Nat → List Toml → Text → Option (List Toml × Text)
  | 0, _, _ => none
  | fuel + 1, acc, t =>
    match skipAll t with
    | 93 :: rest => some (acc.reverse, rest)
    | t =>
      match value? fuel t with
      | none => none
      | some (v, rest) =>
        match skipAll rest with
        | 44 :: rest => items? fuel (v :: acc) rest
        | 93 :: rest => some ((v :: acc).reverse, rest)
        | _ => none

/-- The rest of an inline table. -/
def entries? : Nat → TomlDocument → Text → Option (TomlDocument × Text)
  | 0, _, _ => none
  | fuel + 1, d, t =>
    match t with
    | 125 :: rest => some (d, rest)
    | t =>
      match name? (t.length + 1) t with
      | none => none
      | some (name, rest) =>
        match rest with
        | 61 :: rest =>
          match value? fuel (skipSpace rest) with
          | none => none
          | some (v, rest) =>
            match d.define? [] name v with
            | none => none
            | some d =>
              match skipAll rest with
              | 44 :: rest => entries? fuel d (skipAll rest)
              | 125 :: rest => some (d, rest)
              | _ => none
        | _ => none

end

/-! ### Statements -/

/-- A header: its name, and whether it adds one of several tables. -/
def header? (t : Text) : Option (List Text × Bool × Text) :=
  match t with
  | 91 :: 91 :: rest =>
    match name? (rest.length + 1) rest with
    | some (name, 93 :: 93 :: rest) => some (name, true, rest)
    | _ => none
  | 91 :: rest =>
    match name? (rest.length + 1) rest with
    | some (name, 93 :: rest) => some (name, false, rest)
    | _ => none
  | _ => none

/-- The statements of a document, in the table at `context`. -/
def statements? : Nat → TomlDocument → List Text → Text → Option TomlDocument
  | 0, _, _, _ => none
  | fuel + 1, d, context, t =>
    match skipAll t with
    | [] => some d
    | 91 :: rest =>
      match header? (91 :: rest) with
      | none => none
      | some (name, isItem, rest) =>
        match if isItem then d.enterItem? name else d.enter? name with
        | none => none
        | some d =>
          match endOfLine? rest with
          | none => none
          | some rest => statements? fuel (d.record name false) name rest
    | t =>
      match name? (t.length + 1) t with
      | some (name, 61 :: rest) =>
        match value? (2 * rest.length + 2) (skipSpace rest) with
        | none => none
        | some (v, rest) =>
          match d.define? context name v with
          | none => none
          | some d =>
            match endOfLine? rest with
            | none => none
            | some rest => statements? fuel d context rest
      | _ => none

/-- A document without a byte-order mark. -/
def dropMark (t : Text) : Text := (Text.dropBeginning? [0xEF, 0xBB, 0xBF] t).getD t

/-- Reads a document. -/
def parse? (t : Text) : Option TomlTable :=
  let t := dropMark t
  if Text.isUtf8 t && isPlain t then
    (statements? (t.length + 2) {} [] t).map (·.root)
  else none

end SchemePlayer.Toml
