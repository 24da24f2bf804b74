import SchemePlayer.Json.Basic

/-!
# Reading JSON

A reader of the whole grammar: blanks between tokens, escapes in strings, surrogate
pairs, number literals. A lone surrogate and a stray byte read as the replacement
character, so that what is read is always well-formed text. Nesting is limited.
-/

namespace SchemePlayer.Json

open Text (isDigit)

/-- How deep arrays and objects may be nested. -/
def maxDepth : Nat := 10000

/-- Drops the blanks at the head of a text. -/
def skipBlanks : Text → Text
  | [] => []
  | c :: rest => if c = 32 ∨ c = 9 ∨ c = 10 ∨ c = 13 then skipBlanks rest else c :: rest

/-- Four hexadecimal digits. -/
def unit16? (t : Text) : Option (Nat × Text) :=
  match t with
  | a :: b :: c :: d :: rest =>
    match Text.hexValue? a, Text.hexValue? b, Text.hexValue? c, Text.hexValue? d with
    | some a, some b, some c, some d => some (((a * 16 + b) * 16 + c) * 16 + d, rest)
    | _, _, _, _ => none
  | _ => none

/-- The bytes of the character written by an escape whose first unit is `u`, and the rest
of the text; a high surrogate takes the low one that follows it. -/
def escapedUnit (u : Nat) (rest : Text) : Text × Text :=
  let replacement := String.utf8EncodeChar (Char.ofNat 0xFFFD)
  if 0xD800 ≤ u ∧ u < 0xE000 then
    match rest with
    | 92 :: 117 :: more =>
      match unit16? more with
      | some (v, more) =>
        if u < 0xDC00 ∧ 0xDC00 ≤ v ∧ v < 0xE000 then
          (String.utf8EncodeChar (Char.ofNat ((u - 0xD800) * 1024 + (v - 0xDC00) + 0x10000)), more)
        else (replacement, rest)
      | none => (replacement, rest)
    | _ => (replacement, rest)
  else (String.utf8EncodeChar (Char.ofNat u), rest)

/-- The byte a one-letter escape stands for. -/
def escapedByte? : UInt8 → Option UInt8
  | 34 => some 34
  | 92 => some 92
  | 47 => some 47
  | 98 => some 8
  | 102 => some 12
  | 110 => some 10
  | 114 => some 13
  | 116 => some 9
  | _ => none

/-- The rest of a string after its opening quote: its text, collected in reverse, and what
follows the closing quote. -/
def stringBody? : Nat → Text → Text → Option (Text × Text)
  | 0, _, _ => none
  | _ + 1, _, [] => none
  | fuel + 1, acc, c :: rest =>
    if c = 34 then some (acc.reverse, rest)
    else if c < 32 then none
    else if c = 92 then
      match rest with
      | [] => none
      | 117 :: rest =>
        match unit16? rest with
        | some (u, rest) =>
          let (bytes, rest) := escapedUnit u rest
          stringBody? fuel (bytes.reverseAux acc) rest
        | none => none
      | e :: rest =>
        match escapedByte? e with
        | some b => stringBody? fuel (b :: acc) rest
        | none => none
    else if c < 0x80 then stringBody? fuel (c :: acc) rest
    else match Text.headChar? (c :: rest) with
      | some (ch, more) =>
        stringBody? fuel ((String.utf8EncodeChar ch).reverseAux acc) (rest.drop more)
      | none =>
        stringBody? fuel ((String.utf8EncodeChar (Char.ofNat 0xFFFD)).reverseAux acc) rest

/-- Splits off the digits at the head of a text. -/
def spanDigits (t : Text) : Text × Text := (t.takeWhile isDigit, t.dropWhile isDigit)

/-- A number literal and what follows it. -/
def number? (t : Text) : Option (Text × Text) :=
  let (minus, t) : Text × Text := match t with
    | 45 :: rest => ([45], rest)
    | _ => ([], t)
  let (whole, t) := spanDigits t
  if whole = [] ∨ (whole.length > 1 ∧ whole.head? = some 48) then none
  else
    let fraction? := match t with
      | 46 :: rest =>
        let (ds, rest) := spanDigits rest
        if ds = [] then none else some (46 :: ds, rest)
      | _ => some ([], t)
    match fraction? with
    | none => none
    | some (fraction, t) =>
      let exponent? := match t with
        | c :: rest =>
          if c = 101 ∨ c = 69 then
            let (sign, rest) := match rest with
              | 43 :: rest => ([43], rest)
              | 45 :: rest => ([45], rest)
              | _ => (([] : Text), rest)
            let (ds, rest) := spanDigits rest
            if ds = [] then none else some (c :: (sign ++ ds), rest)
          else some ([], t)
        | [] => some ([], t)
      exponent?.map fun (exponent, t) => (minus ++ whole ++ fraction ++ exponent, t)

mutual

/-- A value at the head of a text, and what follows it; `depth` arrays and objects are
around. -/
def value? : Nat → Nat → Text → Option (Json × Text)
  | 0, _, _ => none
  | fuel + 1, depth, t =>
    match skipBlanks t with
    | 123 :: rest =>
      if maxDepth ≤ depth then none
      else match skipBlanks rest with
        | 125 :: rest => some (obj [], rest)
        | rest => (members? fuel (depth + 1) [] rest).map fun (ms, rest) => (obj ms, rest)
    | 91 :: rest =>
      if maxDepth ≤ depth then none
      else match skipBlanks rest with
        | 93 :: rest => some (arr [], rest)
        | rest => (items? fuel (depth + 1) [] rest).map fun (js, rest) => (arr js, rest)
    | 34 :: rest => (stringBody? (rest.length + 1) [] rest).map fun (s, rest) => (str s, rest)
    | 116 :: 114 :: 117 :: 101 :: rest => some (bool true, rest)
    | 102 :: 97 :: 108 :: 115 :: 101 :: rest => some (bool false, rest)
    | 110 :: 117 :: 108 :: 108 :: rest => some (null, rest)
    | t => (number? t).map fun (n, rest) => (num n, rest)

/-- The items of an array up to its closing bracket, collected in reverse. -/
def items? : Nat → Nat → List Json → Text → Option (List Json × Text)
  | 0, _, _, _ => none
  | fuel + 1, depth, acc, t =>
    match value? fuel depth t with
    | none => none
    | some (j, rest) =>
      match skipBlanks rest with
      | 44 :: rest => items? fuel depth (j :: acc) rest
      | 93 :: rest => some ((j :: acc).reverse, rest)
      | _ => none

/-- The members of an object up to its closing brace, collected in reverse. -/
def members? : Nat → Nat → List (Text × Json) → Text → Option (List (Text × Json) × Text)
  | 0, _, _, _ => none
  | fuel + 1, depth, acc, t =>
    match skipBlanks t with
    | 34 :: rest =>
      match stringBody? (rest.length + 1) [] rest with
      | none => none
      | some (name, rest) =>
        match skipBlanks rest with
        | 58 :: rest =>
          match value? fuel depth rest with
          | none => none
          | some (j, rest) =>
            match skipBlanks rest with
            | 44 :: rest => members? fuel depth ((name, j) :: acc) rest
            | 125 :: rest => some (((name, j) :: acc).reverse, rest)
            | _ => none
        | _ => none
    | _ => none

end

/-- Reads a text that holds one value and nothing else but blanks. -/
def parse? (t : Text) : Option Json :=
  match value? (t.length + 1) 0 t with
  | some (j, rest) => if skipBlanks rest = [] then some j else none
  | none => none

end SchemePlayer.Json
