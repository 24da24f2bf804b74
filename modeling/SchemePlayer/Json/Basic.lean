import SchemePlayer.Text.Basic

/-!
# JSON values

Requests, answers and stored snapshots are JSON. A number keeps the literal it was
written with, and an object keeps its members in the order they were written.
-/

namespace SchemePlayer

/-- A JSON value. -/
inductive Json where
  | null
  | bool (b : Bool)
  | num (literal : Text)
  | str (s : Text)
  | arr (items : List Json)
  | obj (members : List (Text × Json))

namespace Json

instance : Inhabited Json := ⟨null⟩

instance : Coe Text Json := ⟨str⟩
instance : Coe Bool Json := ⟨bool⟩

/-- An integer. -/
def int (n : Int) : Json := num (Text.ofInt n)

/-- A natural number. -/
def nat (n : Nat) : Json := num (Text.ofNat n)

/-- An object with the given members. -/
def record (fields : List (String × Json)) : Json :=
  obj (fields.map fun (name, value) => (Text.ofString name, value))

/-- A member that is left out on a condition. -/
def optional (isAbsent : Bool) (name : String) (value : Json) : List (String × Json) :=
  if isAbsent then [] else [(name, value)]

/-- The last member of an object with a name. -/
def get? (name : Text) : Json → Option Json
  | obj members => members.reverse.lookup name
  | _ => none

/-! ### Writing -/

/-- Whether a character is written by its number: one that controls a terminal, one with a
meaning in hypertext, or one of the two that end a line of a script. -/
def isMasked (n : Nat) : Bool :=
  n < 32 || n == 38 || n == 60 || n == 62 || n == 0x2028 || n == 0x2029

/-- A character inside a string. -/
def escapeChar (c : Char) : Text :=
  let n := c.toNat
  if n = 34 then [92, 34]
  else if n = 92 then [92, 92]
  else if n = 9 then [92, 116]
  else if n = 10 then [92, 110]
  else if n = 13 then [92, 114]
  else if isMasked n then 92 :: 117 :: Text.hex false 4 n
  else String.utf8EncodeChar c

/-- A string in quotes; stray bytes are written as the replacement character. -/
def quoted (s : Text) : Text := 34 :: ((Text.chars s).flatMap escapeChar ++ [34])

mutual

/-- The text of a value, without blanks. -/
def render : Json → Text
  | null => "null"
  | bool true => "true"
  | bool false => "false"
  | num literal => literal
  | str s => quoted s
  | arr items => 91 :: (Text.join [44] (renderItems items) ++ [93])
  | obj members => 123 :: (Text.join [44] (renderMembers members) ++ [125])

/-- The texts of the items of an array. -/
def renderItems : List Json → List Text
  | [] => []
  | j :: js => render j :: renderItems js

/-- The texts of the members of an object. -/
def renderMembers : List (Text × Json) → List Text
  | [] => []
  | (name, j) :: rest => (quoted name ++ 58 :: render j) :: renderMembers rest

end

end Json

end SchemePlayer
