import SchemePlayer.Yaml.Scalar

/-!
# YAML tokens

The scanner turns characters into tokens. What makes it delicate is that a key is only
known to be one when its colon has been read: positions at which a key may begin are
remembered, and the tokens that begin it are put in there later.
-/

namespace SchemePlayer.Yaml

/-- A place where a key may have begun. -/
structure SimpleKey where
  possible : Bool := false
  /-- whether nothing but a key can stand there -/
  required : Bool := false
  /-- how many tokens come before -/
  token : Nat := 0
  column : Nat := 0
  line : Nat := 0
  /-- how many characters follow its beginning -/
  remaining : Nat := 0

/-- The state of the scanner. -/
structure Scanner where
  cursor : YamlCursor
  tokens : Array YamlToken := #[]
  /-- the indentation of the block collection at hand, and of those around it -/
  indent : Int := -1
  indents : List Int := []
  /-- the possible key of each flow collection at hand, and last of the block around them -/
  keys : List SimpleKey := [{}]
  /-- whether a key may begin here -/
  keyAllowed : Bool := true

namespace Scanner

/-- Whether the scanner is within a flow collection. -/
def inFlow (s : Scanner) : Bool := 1 < s.keys.length

/-- Adds a token. -/
def emit (s : Scanner) (t : YamlToken) : Scanner := { s with tokens := s.tokens.push t }

/-- Puts a token in before others. -/
def insert (s : Scanner) (i : Nat) (t : YamlToken) : Scanner :=
  { s with tokens := (s.tokens.toList.take i ++ t :: s.tokens.toList.drop i).toArray }

/-- Passes over characters. -/
def skip (s : Scanner) (n : Nat) : Scanner := { s with cursor := s.cursor.skip n }

/-! ### Indentation -/

/-- Ends the block collections that are indented deeper than a column. -/
def unroll (column : Int) : Nat → Scanner → Scanner
  | 0, s => s
  | fuel + 1, s =>
    if s.inFlow || decide (s.indent ≤ column) then s
    else unroll column fuel
      { s.emit .blockEnd with indent := s.indents.headD (-1), indents := s.indents.tail }

/-- Ends the block collections that are indented deeper than a column. -/
def unrollTo (s : Scanner) (column : Int) : Scanner := unroll column (s.indents.length + 1) s

/-- Begins a block collection at a column, unless one is at hand there; its token is put in
before others or at the end. -/
def roll (s : Scanner) (column : Nat) (at_ : Option Nat) (t : YamlToken) : Scanner :=
  if s.inFlow || decide ((column : Int) ≤ s.indent) then s
  else
    let s := { s with indents := s.indent :: s.indents, indent := column }
    match at_ with
    | some i => s.insert i t
    | none => s.emit t

/-! ### Keys -/

/-- The possible key at hand. -/
def key (s : Scanner) : SimpleKey := s.keys.headD {}

/-- Sets the possible key at hand. -/
def setKey (s : Scanner) (k : SimpleKey) : Scanner := { s with keys := k :: s.keys.tail }

/-- Gives up the possible key at hand; refused when there must be one. -/
def dropKey? (s : Scanner) : Option Scanner :=
  if s.key.possible && s.key.required then none
  else some (s.setKey { s.key with possible := false })

/-- Remembers that a key may begin here. -/
def saveKey? (s : Scanner) : Option Scanner :=
  if s.keyAllowed then
    s.dropKey?.map fun s => s.setKey {
      possible := true
      required := !s.inFlow && s.indent == (s.cursor.column : Int)
      token := s.tokens.size
      column := s.cursor.column
      line := s.cursor.line
      remaining := s.cursor.rest.length }
  else some s

/-- Whether the possible key at hand can end here: it must be on this line, and not too
long. `none` when there must be a key and this is none. -/
def isKeyValid? (s : Scanner) : Option Bool :=
  let k := s.key
  if !k.possible then some false
  else if k.line < s.cursor.line || s.cursor.rest.length + 1024 < k.remaining then
    if k.required then none else some false
  else some true

/-! ### Single tokens -/

/-- A token of one character that begins a flow collection. -/
def flowStart? (s : Scanner) (t : YamlToken) : Option Scanner :=
  s.saveKey?.map fun s => { (s.skip 1).emit t with keys := {} :: s.keys, keyAllowed := true }

/-- A token of one character that ends a flow collection. -/
def flowEnd? (s : Scanner) (t : YamlToken) : Option Scanner :=
  s.dropKey?.map fun s =>
    { (s.skip 1).emit t with keys := if s.inFlow then s.keys.tail else s.keys, keyAllowed := false }

/-- The comma. -/
def flowEntry? (s : Scanner) : Option Scanner :=
  s.dropKey?.map fun s => { (s.skip 1).emit .flowEntry with keyAllowed := true }

/-- The dash of a block sequence. -/
def blockEntry? (s : Scanner) : Option Scanner :=
  if !s.inFlow && !s.keyAllowed then none
  else (s.roll s.cursor.column none .blockSequence).dropKey?.map fun s =>
    { (s.skip 1).emit .blockEntry with keyAllowed := true }

/-- The question mark before a key. -/
def keyMark? (s : Scanner) : Option Scanner :=
  if !s.inFlow && !s.keyAllowed then none
  else (s.roll s.cursor.column none .blockMapping).dropKey?.map fun s =>
    { (s.skip 1).emit .key with keyAllowed := !s.inFlow }

/-- The colon before a value. -/
def valueMark? (s : Scanner) : Option Scanner :=
  match s.isKeyValid? with
  | none => none
  | some true =>
    let k := s.key
    let s := (s.insert k.token .key).roll k.column (some k.token) .blockMapping
    let s := s.setKey { k with possible := false }
    some { (s.skip 1).emit .value with keyAllowed := false }
  | some false =>
    if !s.inFlow && !s.keyAllowed then none
    else
      let s := s.setKey { s.key with possible := false }
      let s := s.roll s.cursor.column none .blockMapping
      some { (s.skip 1).emit .value with keyAllowed := !s.inFlow }

/-- Whether a character can be part of the name of an anchor. -/
def isNameChar (c : Char) : Bool := c.isAlphanum || c == '_' || c == '-'

/-- An anchor or an alias. -/
def anchor? (s : Scanner) (make : List Char → YamlToken) : Option Scanner :=
  s.saveKey?.bind fun s =>
    let name := s.cursor.rest.tail.takeWhile isNameChar
    let after := s.cursor.rest.tail.drop name.length
    if name.isEmpty || !(startsBlank after || (after.head?).any fun c =>
        c == '?' || c == ':' || c == ',' || c == ']' || c == '\x7d' || c == '%' || c == '@'
          || c == '\x60') then none
    else some { (s.skip (name.length + 1)).emit (make name) with keyAllowed := false }

/-- The short form of a tag. -/
def shortTag (t : Text) : Text :=
  match Text.dropBeginning? "tag:yaml.org,2002:" t with
  | some rest => "!!" ++ rest
  | none => t

/-- A tag. -/
def tag? (s : Scanner) : Option Scanner :=
  s.saveKey?.bind fun s =>
    match s.cursor.rest with
    | '!' :: '<' :: rest =>
      let uri := rest.takeWhile fun c => c ≠ '>' && !startsBlank [c]
      if uri.isEmpty || (rest.drop uri.length).head? ≠ some '>'
          || !startsBlank (rest.drop (uri.length + 1)) then none
      else some { (s.skip (uri.length + 3)).emit (.tag (shortTag (Text.ofChars uri))) with
        keyAllowed := false }
    | rest =>
      let name := rest.takeWhile fun c => !startsBlank [c] && !(s.inFlow && endsFlow c)
      some { (s.skip name.length).emit (.tag (shortTag (Text.ofChars name))) with keyAllowed := false }

/-- A block scalar. -/
def block? (s : Scanner) (literal : Bool) : Option Scanner :=
  s.dropKey?.bind fun s =>
    (Yaml.block? literal s.indent s.cursor.next).map fun (text, cursor) =>
      { s.emit (.scalar text true) with cursor, keyAllowed := true }

/-- A scalar in apostrophes or quotes. -/
def quoted? (s : Scanner) (mark : Char) : Option Scanner :=
  s.saveKey?.bind fun s =>
    (Yaml.quoted? mark (s.cursor.rest.length + 1) s.cursor.next []).map fun (text, cursor) =>
      { s.emit (.scalar text true) with cursor, keyAllowed := false }

/-- A plain scalar. After the end of a line a key may begin. -/
def plain? (s : Scanner) : Option Scanner :=
  s.saveKey?.bind fun s =>
    (Yaml.plain? s.inFlow s.indent (s.cursor.rest.length + 1) s.cursor [] {}).map
      fun (text, broken, cursor) => { s.emit (.scalar text false) with cursor, keyAllowed := broken }

/-- Whether a version is one that can be read. -/
def isVersion (words : List (List Char)) : Bool :=
  match words with
  | version :: _ => version == "1.1".toList || version == "1.2".toList
  | [] => false

/-- The words of a line, up to a comment. -/
def wordsOf (line : List Char) : List (List Char) :=
  ((line.splitBy fun a b => isBlank a == isBlank b).filter fun w => !(w.head?).any isBlank).takeWhile
    fun w => w.head? ≠ some '#'

/-- A directive, which takes up a line. -/
def directive? (s : Scanner) : Option Scanner :=
  (s.unrollTo (-1)).dropKey?.bind fun s =>
    let line := s.cursor.rest.takeWhile (· ≠ '\n')
    let s := { s.skip line.length with keyAllowed := false }
    match wordsOf line.tail with
    | name :: words =>
      if name == "YAML".toList then if isVersion words then some (s.emit .versionDirective) else none
      else if name == "TAG".toList then
        if words.length = 2 then some (s.emit .tagDirective) else none
      else none
    | [] => none

/-- The mark of a document's beginning or end. -/
def documentMark? (s : Scanner) (t : YamlToken) : Option Scanner :=
  (s.unrollTo (-1)).dropKey?.map fun s => { (s.skip 3).emit t with keyAllowed := false }

/-- The end of the text. -/
def streamEnd? (s : Scanner) : Option Scanner :=
  (s.unrollTo (-1)).dropKey?.map fun s => { s.emit .streamEnd with keyAllowed := false }

/-! ### The next token -/

/-- Passes over blanks, comments and ends of lines. Where a key may begin in a block, tabs
are no blanks. -/
def toNextToken : Nat → Scanner → Scanner
  | 0, s => s
  | fuel + 1, s =>
    match s.cursor.rest with
    | [] => s
    | c :: _ =>
      if c == ' ' || (c == '\t' && (s.inFlow || !s.keyAllowed)) then toNextToken fuel (s.skip 1)
      else if c == '#' then
        toNextToken fuel (s.skip (s.cursor.rest.takeWhile (· ≠ '\n')).length)
      else if c == '\n' then
        toNextToken fuel { s.skip 1 with keyAllowed := s.keyAllowed || !s.inFlow }
      else s

/-- Whether a plain scalar can begin with a text. -/
def startsPlain (flow : Bool) : List Char → Bool
  | [] => false
  | c :: rest =>
    let isIndicator := c == '-' || c == '?' || c == ':' || endsFlow c || c == '#' || c == '&'
      || c == '*' || c == '!' || c == '|' || c == '>' || c == '\x27' || c == '\x22' || c == '%'
      || c == '@' || c == '\x60'
    (!startsBlank [c] && !isIndicator) || (c == '-' && !(rest.head?).any isBlank)
      || (!flow && (c == '?' || c == ':') && !startsBlank rest)

/-- Reads the next token; `none` when no token can begin here. -/
def next? (s : Scanner) : Option Scanner :=
  let s := toNextToken (s.cursor.rest.length + 1) s
  let s := s.unrollTo s.cursor.column
  match s.cursor.rest with
  | [] => s.streamEnd?
  | c :: rest =>
    if s.cursor.column == 0 && c == '%' then s.directive?
    else if isDocumentMark s.cursor then
      s.documentMark? (if c == '-' then .documentStart else .documentEnd)
    else if c == '[' then s.flowStart? .flowSequence
    else if c == '\x7b' then s.flowStart? .flowMapping
    else if c == ']' then s.flowEnd? .flowSequenceEnd
    else if c == '\x7d' then s.flowEnd? .flowMappingEnd
    else if c == ',' then s.flowEntry?
    else if c == '-' && startsBlank rest then s.blockEntry?
    else if c == '?' && (s.inFlow || startsBlank rest) then s.keyMark?
    else if c == ':' && (s.inFlow || startsBlank rest) then s.valueMark?
    else if c == '*' then s.anchor? .alias
    else if c == '&' then s.anchor? .anchor
    else if c == '!' then s.tag?
    else if c == '|' && !s.inFlow then s.block? true
    else if c == '>' && !s.inFlow then s.block? false
    else if c == '\x27' || c == '\x22' then s.quoted? c
    else if startsPlain s.inFlow (c :: rest) then s.plain?
    else none

/-- Reads tokens up to the end, or up to where no token can begin. Every token but the last
takes up a character. -/
def scan : Nat → Scanner → Array YamlToken
  | 0, s => s.tokens
  | fuel + 1, s =>
    if s.tokens.back? == some .streamEnd then s.tokens
    else match s.next? with
      | some s => scan fuel s
      | none => s.tokens

end Scanner

/-- The tokens of a text. When it cannot be read to its end, the last is not that of the
end. -/
def tokens (text : List Char) : List YamlToken :=
  (Scanner.scan (text.length + 2) { cursor := ⟨text, 0, 0⟩ }).toList

end SchemePlayer.Yaml
