import SchemePlayer.Text.Basic

/-!
# YAML documents

A document is a tree of scalars, sequences and mappings. Its text is read in two stages:
characters become tokens, in which indentation shows as the beginnings and ends of
collections, and tokens become nodes.

- `Yaml`: nodes, in which aliases have been replaced by what they stand for.
- `YamlToken`: tokens.
- `YamlCursor`: a position in a text.
-/

namespace SchemePlayer

/-- A node. -/
inductive Yaml where
  /-- a text; whether it was quoted, and the tag it was given -/
  | scalar (text : Text) (quoted : Bool) (tag : Text)
  | sequence (items : List Yaml)
  | mapping (pairs : List (Yaml × Yaml))

namespace Yaml

/-- The node where nothing stands. -/
def absent : Yaml := scalar [] false []

end Yaml

/-- A token. -/
inductive YamlToken where
  | streamEnd
  | versionDirective
  | tagDirective
  | documentStart
  | documentEnd
  | blockSequence
  | blockMapping
  | blockEnd
  | flowSequence
  | flowSequenceEnd
  | flowMapping
  | flowMappingEnd
  | blockEntry
  | flowEntry
  | key
  | value
  | alias (name : List Char)
  | anchor (name : List Char)
  | tag (name : Text)
  | scalar (text : List Char) (quoted : Bool)
  deriving DecidableEq

/-- A position: what follows it, and where it is. -/
structure YamlCursor where
  rest : List Char
  column : Nat := 0
  line : Nat := 0

namespace YamlCursor

/-- The position behind the next character. -/
def next (c : YamlCursor) : YamlCursor :=
  match c.rest with
  | [] => c
  | '\n' :: rest => ⟨rest, 0, c.line + 1⟩
  | _ :: rest => ⟨rest, c.column + 1, c.line⟩

/-- The position so many characters further on. -/
def skip : Nat → YamlCursor → YamlCursor
  | 0, c => c
  | n + 1, c => skip n c.next

/-- The next character. -/
def head? (c : YamlCursor) : Option Char := c.rest.head?

end YamlCursor

namespace Yaml

/-- Whether a character is a blank. -/
def isBlank (c : Char) : Bool := c == ' ' || c == '\t'

/-- Whether a text begins with a blank, the end of a line, or not at all. -/
def startsBlank : List Char → Bool
  | [] => true
  | c :: _ => isBlank c || c == '\n'

/-- Whether a text begins with the end of a line, or not at all. -/
def startsBreak : List Char → Bool
  | [] => true
  | c :: _ => c == '\n'

/-- Whether a mark of the beginning or the end of a document stands here. -/
def isDocumentMark (c : YamlCursor) : Bool :=
  c.column == 0 &&
    match c.rest with
    | '-' :: '-' :: '-' :: rest => startsBlank rest
    | '.' :: '.' :: '.' :: rest => startsBlank rest
    | _ => false

/-! ### Preparing a text -/

/-- Whether a character may stand in a text. -/
def isAllowed (c : Char) : Bool :=
  let n := c.toNat
  n == 9 || n == 10 || n == 13 || (32 ≤ n && n ≤ 126) || n == 0x85
    || (0xA0 ≤ n && n ≤ 0xFFFD && n != 0xFEFF) || 0x10000 ≤ n

/-- Ends all lines alike. -/
def unifyBreaks : List Char → List Char
  | [] => []
  | '\r' :: '\n' :: rest => '\n' :: unifyBreaks rest
  | c :: rest =>
    (if c == '\r' || c.toNat == 0x85 then '\n' else c) :: unifyBreaks rest

/-- The characters of a text without a byte-order mark, lines ended alike; `none` when it
holds something that no text may hold. -/
def prepare? (t : Text) : Option (List Char) :=
  let t := (Text.dropBeginning? [0xEF, 0xBB, 0xBF] t).getD t
  if Text.isUtf8 t && (Text.chars t).all isAllowed then some (unifyBreaks (Text.chars t)) else none

end Yaml

end SchemePlayer
