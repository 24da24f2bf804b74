import SchemePlayer.Text.Quoted
import SchemePlayer.Yaml.Basic

/-!
# YAML scalars

The four ways to write a text: plain, in apostrophes or quotes, and as a block. In all but
blocks that are kept literally, lines are folded: one end of a line becomes a blank, and
of several all but one stay.
-/

namespace SchemePlayer.Yaml

/-- What stands between two words: blanks on one line, or ends of lines. -/
structure Gap where
  /-- the blanks, the last first -/
  blanks : List Char := []
  broken : Bool := false
  /-- how many ends of lines follow the first -/
  extra : Nat := 0

namespace Gap

/-- The text that a gap stands for, in front of a reversed text. -/
def join (g : Gap) (acc : List Char) : List Char :=
  if g.broken then
    if g.extra = 0 then ' ' :: acc else List.replicate g.extra '\n' ++ acc
  else g.blanks ++ acc

end Gap

/-- Reads a gap. A tab before the column `limit` of a later line is refused. -/
def gap? (limit : Int) : Nat → YamlCursor → Gap → Option (Gap × YamlCursor)
  | 0, c, g => some (g, c)
  | fuel + 1, c, g =>
    match c.rest with
    | [] => some (g, c)
    | ch :: _ =>
      if isBlank ch then
        if g.broken && ch == '\t' && decide ((c.column : Int) < limit) then none
        else gap? limit fuel c.next (if g.broken then g else { g with blanks := ch :: g.blanks })
      else if ch == '\n' then
        gap? limit fuel c.next
          (if g.broken then { g with extra := g.extra + 1 } else { g with broken := true })
      else some (g, c)

/-! ### Plain scalars -/

/-- Whether a character ends a plain scalar within a flow collection. -/
def endsFlow (ch : Char) : Bool :=
  ch == ',' || ch == '[' || ch == ']' || ch == '\x7b' || ch == '\x7d'

/-- The longest beginning of a text that belongs to a plain scalar, without blanks. -/
def spanPlain (flow : Bool) : List Char → List Char × List Char
  | [] => ([], [])
  | ch :: rest =>
    if startsBlank (ch :: rest) || (ch == ':' && startsBlank rest) || (flow && endsFlow ch)
        || (flow && ch == '?' && startsBlank rest) then ([], ch :: rest)
    else
      let (run, rest) := spanPlain flow rest
      (ch :: run, rest)

/-- Reads a plain scalar that is indented by more than `indent`. The flag tells whether
it is followed by the end of a line. -/
def plain? (flow : Bool) (indent : Int) :
    Nat → YamlCursor → List Char → Gap → Option (List Char × Bool × YamlCursor)
  | 0, c, acc, g => some (acc.reverse, g.broken, c)
  | fuel + 1, c, acc, g =>
    if isDocumentMark c || c.head? == some '#' then some (acc.reverse, g.broken, c)
    else
      let (run, rest) := spanPlain flow c.rest
      let c : YamlCursor := ⟨rest, c.column + run.length, c.line⟩
      let (acc, g) := if run.isEmpty then (acc, g) else (run.reverse ++ g.join acc, ({} : Gap))
      if rest.isEmpty || !startsBlank rest then some (acc.reverse, g.broken, c)
      else match gap? (indent + 1) (rest.length + 1) c g with
        | none => none
        | some (g, c) =>
          if !flow && decide ((c.column : Int) < indent + 1) then some (acc.reverse, g.broken, c)
          else plain? flow indent fuel c acc g

/-! ### Quoted scalars -/

/-- The character that a letter after a backslash stands for. -/
def escaped? : Char → Option Nat
  | '0' => some 0
  | 'a' => some 7
  | 'b' => some 8
  | 't' => some 9
  | '\t' => some 9
  | 'n' => some 10
  | 'v' => some 11
  | 'f' => some 12
  | 'r' => some 13
  | 'e' => some 27
  | ' ' => some 32
  | '\x22' => some 34
  | '\x27' => some 39
  | '/' => some 47
  | '\x5c' => some 92
  | 'N' => some 0x85
  | '_' => some 0xA0
  | 'L' => some 0x2028
  | 'P' => some 0x2029
  | _ => none

/-- The number of hexadecimal digits that follow a letter after a backslash. -/
def escapeWidth? : Char → Option Nat
  | 'x' => some 2
  | 'u' => some 4
  | 'U' => some 8
  | _ => none

/-- The number that hexadecimal digits stand for. -/
def hexOf? (digits : List Char) : Option Nat :=
  digits.foldlM
    (fun n d => if d.toNat < 128 then (Text.hexValue? d.toNat.toUInt8).map (n * 16 + ·) else none) 0

/-- The character of an escape at a backslash, and the number of characters it takes. -/
def escape? (rest : List Char) : Option (Char × Nat) :=
  match rest with
  | _ :: letter :: more =>
    match escapeWidth? letter with
    | some width =>
      if more.length < width then none
      else match (hexOf? (more.take width)).bind (Text.charIn? 0) with
        | some ch => some (ch, width + 2)
        | none => none
    | none => (escaped? letter).map fun n => (Char.ofNat n, 2)
  | _ => none

/-- Reads the rest of a scalar in apostrophes or quotes, up to the mark that ends it. -/
def quoted? (mark : Char) : Nat → YamlCursor → List Char → Option (List Char × YamlCursor)
  | 0, _, _ => none
  | fuel + 1, c, acc =>
    if isDocumentMark c then none
    else match c.rest with
      | [] => none
      | ch :: more =>
        if ch == mark then
          if mark == '\x27' && more.head? == some '\x27' then
            quoted? mark fuel (c.skip 2) ('\x27' :: acc)
          else some (acc.reverse, c.next)
        else if mark == '\x22' && ch == '\x5c' then
          if more.head? == some '\n' then
            -- an end of a line after a backslash joins the lines without a blank
            match gap? (-1) (more.length + 1) (c.skip 2) { broken := true } with
            | some (g, c) => quoted? mark fuel c (List.replicate g.extra '\n' ++ acc)
            | none => none
          else match escape? c.rest with
            | some (e, width) => quoted? mark fuel (c.skip width) (e :: acc)
            | none => none
        else if startsBlank c.rest then
          match gap? (-1) (c.rest.length + 1) c {} with
          | some (g, c) => quoted? mark fuel c (g.join acc)
          | none => none
        else quoted? mark fuel c.next (ch :: acc)

/-! ### Block scalars -/

/-- What follows the mark of a block: what happens to the ends of lines at its end, and
the depth of its indentation. -/
structure BlockHeader where
  /-- all are dropped -/
  strip : Bool := false
  /-- all are kept -/
  keep : Bool := false
  increment : Nat := 0

/-- The digit of an indentation, which is not zero. -/
def increment? (ch : Char) : Option Nat :=
  if '1'.toNat ≤ ch.toNat ∧ ch.toNat ≤ '9'.toNat then some (ch.toNat - 48) else none

/-- Reads what follows the mark of a block up to the end of the line. -/
def blockHeader? (c : YamlCursor) : Option (BlockHeader × YamlCursor) :=
  let chomp (h : BlockHeader) (c : YamlCursor) : Option (BlockHeader × YamlCursor) :=
    match c.head? with
    | some '+' => some ({ h with keep := true }, c.next)
    | some '-' => some ({ h with strip := true }, c.next)
    | _ => none
  let digit (h : BlockHeader) (c : YamlCursor) : Option (BlockHeader × YamlCursor) :=
    ((c.head?).bind increment?).map fun n => ({ h with increment := n }, c.next)
  let (h, c) : BlockHeader × YamlCursor := match chomp {} c with
    | some (h, c) => (digit h c).getD (h, c)
    | none => match digit {} c with
      | some (h, c) => (chomp h c).getD (h, c)
      | none => ({}, c)
  let c := c.skip (c.rest.takeWhile isBlank).length
  let c := if c.head? == some '#' then c.skip (c.rest.takeWhile (· ≠ '\n')).length else c
  if startsBreak c.rest then some (h, c.next) else none

/-- Reads indentation and empty lines: how many there are, and the deepest column seen.
With `indent = 0` the depth is not known yet. -/
def blockBreaks? (indent : Nat) : Nat → YamlCursor → Nat → Nat → Option (Nat × Nat × YamlCursor)
  | 0, c, breaks, deepest => some (breaks, deepest, c)
  | fuel + 1, c, breaks, deepest =>
    let open_ := indent = 0 ∨ c.column < indent
    match c.rest with
    | ' ' :: _ =>
      if open_ then blockBreaks? indent fuel c.next breaks (max deepest (c.column + 1))
      else some (breaks, deepest, c)
    | '\t' :: _ => if open_ then none else some (breaks, deepest, c)
    | '\n' :: _ => blockBreaks? indent fuel c.next (breaks + 1) deepest
    | _ => some (breaks, deepest, c)

/-- The lines of a block, collected in reverse, with the end of the last line and the empty
lines behind it. -/
def blockLines? (literal : Bool) (indent : Nat) :
    Nat → YamlCursor → List Char → Bool → Bool → Nat → Option (List Char × Bool × Nat × YamlCursor)
  | 0, c, acc, ended, _, breaks => some (acc, ended, breaks, c)
  | fuel + 1, c, acc, ended, wasIndented, breaks =>
    if c.column ≠ indent || c.rest.isEmpty then some (acc, ended, breaks, c)
    else
      let isIndented := (c.head?).any isBlank
      let folds := !literal && !wasIndented && !isIndented && ended
      let acc :=
        if folds then if breaks = 0 then ' ' :: acc else acc
        else if ended then '\n' :: acc else acc
      let acc := List.replicate breaks '\n' ++ acc
      let line := c.rest.takeWhile (· ≠ '\n')
      let c := c.skip line.length
      let ended := !c.rest.isEmpty
      let c := c.next
      match blockBreaks? indent (c.rest.length + 1) c 0 0 with
      | none => none
      | some (breaks, _, c) =>
        blockLines? literal indent fuel c (line.reverse ++ acc) ended isIndented breaks

/-- Reads a block scalar behind its mark, in a collection indented by `indent`. -/
def block? (literal : Bool) (indent : Int) (c : YamlCursor) : Option (List Char × YamlCursor) :=
  match blockHeader? c with
  | none => none
  | some (h, c) =>
    let known : Nat :=
      if h.increment = 0 then 0
      else if 0 ≤ indent then indent.toNat + h.increment else h.increment
    match blockBreaks? known (c.rest.length + 1) c 0 c.column with
    | none => none
    | some (breaks, deepest, c) =>
      let depth := if known = 0 then max (max deepest (indent + 1).toNat) 1 else known
      match blockLines? literal depth (c.rest.length + 1) c [] false false breaks with
      | none => none
      | some (acc, ended, breaks, c) =>
        let acc := if !h.strip && ended then '\n' :: acc else acc
        let acc := if h.keep then List.replicate breaks '\n' ++ acc else acc
        some (acc.reverse, c)

end SchemePlayer.Yaml
