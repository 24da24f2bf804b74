import SchemePlayer.Yaml.Scanner

/-!
# Reading YAML

Nodes from tokens. Only the first document of a text is read, and nothing behind it.
-/

namespace SchemePlayer.Yaml

/-- The nodes that have names, the latest first. -/
abbrev Anchors := List (List Char × Yaml)

/-- What is left of the tokens, and the named nodes. -/
abbrev ReadState := List YamlToken × Anchors

/-- The name and the tag in front of a node. -/
structure Properties where
  anchor : Option (List Char) := none
  tag : Text := []

namespace Properties

/-- Whether there are any. -/
def isSome (p : Properties) : Bool := p.anchor.isSome || !p.tag.isEmpty

/-- Gives a node its name. -/
def named (p : Properties) (node : Yaml) (anchors : Anchors) : Anchors :=
  match p.anchor with
  | some name => (name, node) :: anchors
  | none => anchors

end Properties

/-- Reads the name and the tag in front of a node, in either order. -/
def properties : List YamlToken → Properties × List YamlToken
  | .anchor name :: .tag tag :: rest => (⟨some name, tag⟩, rest)
  | .tag tag :: .anchor name :: rest => (⟨some name, tag⟩, rest)
  | .anchor name :: rest => (⟨some name, []⟩, rest)
  | .tag tag :: rest => (⟨none, tag⟩, rest)
  | rest => ({}, rest)

/-- Whether the next token is one of those given. -/
def nextIs (ts : List YamlToken) (among : List YamlToken) : Bool :=
  (ts.head?).any fun t => among.contains t

mutual

/-- Reads a node. Block collections are read where `block` says so; a sequence without an
indentation of its own where `indentless` does. -/
def node? : Nat → Bool → Bool → ReadState → Option (Yaml × ReadState)
  | 0, _, _, _ => none
  | fuel + 1, block, indentless, (ts, anchors) =>
    match ts with
    | .alias name :: rest => (anchors.lookup name).map fun node => (node, rest, anchors)
    | ts =>
      let (p, ts) := properties ts
      let finish (r : Yaml × ReadState) : Yaml × ReadState :=
        (r.1, r.2.1, p.named r.1 r.2.2)
      match ts with
      | .scalar text quoted :: rest =>
        some (finish (.scalar (Text.ofChars text) quoted p.tag, rest, anchors))
      | .flowSequence :: rest => (flowItems? fuel true [] (rest, anchors)).map finish
      | .flowMapping :: rest => (flowPairs? fuel true [] (rest, anchors)).map finish
      | .blockEntry :: _ =>
        if indentless then (bareItems? fuel [] (ts, anchors)).map finish
        else if p.isSome then some (finish (.scalar [] false p.tag, ts, anchors)) else none
      | .blockSequence :: rest =>
        if block then (blockItems? fuel [] (rest, anchors)).map finish
        else if p.isSome then some (finish (.scalar [] false p.tag, ts, anchors)) else none
      | .blockMapping :: rest =>
        if block then (blockPairs? fuel [] (rest, anchors)).map finish
        else if p.isSome then some (finish (.scalar [] false p.tag, ts, anchors)) else none
      | ts => if p.isSome then some (finish (.scalar [] false p.tag, ts, anchors)) else none

/-- Reads a node, or nothing where one of the given tokens follows. -/
def orAbsent? : Nat → Bool → Bool → List YamlToken → ReadState → Option (Yaml × ReadState)
  | 0, _, _, _, _ => none
  | fuel + 1, block, indentless, among, s =>
    if nextIs s.1 among then some (absent, s) else node? fuel block indentless s

/-- The rest of a block sequence, collected in reverse. -/
def blockItems? : Nat → List Yaml → ReadState → Option (Yaml × ReadState)
  | 0, _, _ => none
  | fuel + 1, acc, (ts, anchors) =>
    match ts with
    | .blockEntry :: rest =>
      match orAbsent? fuel true false [.blockEntry, .blockEnd] (rest, anchors) with
      | some (item, s) => blockItems? fuel (item :: acc) s
      | none => none
    | .blockEnd :: rest => some (.sequence acc.reverse, rest, anchors)
    | _ => none

/-- The rest of a sequence without an indentation of its own, collected in reverse. -/
def bareItems? : Nat → List Yaml → ReadState → Option (Yaml × ReadState)
  | 0, _, _ => none
  | fuel + 1, acc, (ts, anchors) =>
    match ts with
    | .blockEntry :: rest =>
      match orAbsent? fuel true false [.blockEntry, .key, .value, .blockEnd] (rest, anchors) with
      | some (item, s) => bareItems? fuel (item :: acc) s
      | none => none
    | _ => some (.sequence acc.reverse, ts, anchors)

/-- The rest of a block mapping, collected in reverse. -/
def blockPairs? : Nat → List (Yaml × Yaml) → ReadState → Option (Yaml × ReadState)
  | 0, _, _ => none
  | fuel + 1, acc, (ts, anchors) =>
    match ts with
    | .key :: rest =>
      match orAbsent? fuel true true [.key, .value, .blockEnd] (rest, anchors) with
      | none => none
      | some (key, .value :: rest, anchors) =>
        match orAbsent? fuel true true [.key, .value, .blockEnd] (rest, anchors) with
        | some (value, s) => blockPairs? fuel ((key, value) :: acc) s
        | none => none
      | some (key, s) => blockPairs? fuel ((key, absent) :: acc) s
    | .blockEnd :: rest => some (.mapping acc.reverse, rest, anchors)
    | _ => none

/-- The rest of a flow sequence, collected in reverse; a key in it makes a mapping of one
pair. -/
def flowItems? : Nat → Bool → List Yaml → ReadState → Option (Yaml × ReadState)
  | 0, _, _, _ => none
  | fuel + 1, first, acc, (ts, anchors) =>
    match ts with
    | .flowSequenceEnd :: rest => some (.sequence acc.reverse, rest, anchors)
    | ts =>
      let after? : Option (List YamlToken) :=
        if first then some ts
        else match ts with
          | .flowEntry :: rest => some rest
          | _ => none
      match after? with
      | none => none
      | some (.flowSequenceEnd :: rest) => some (.sequence acc.reverse, rest, anchors)
      | some (.key :: rest) =>
        match orAbsent? fuel false false [.value, .flowEntry, .flowSequenceEnd] (rest, anchors) with
        | none => none
        | some (key, .value :: rest, anchors) =>
          match orAbsent? fuel false false [.flowEntry, .flowSequenceEnd] (rest, anchors) with
          | some (value, s) => flowItems? fuel false (.mapping [(key, value)] :: acc) s
          | none => none
        | some (key, s) => flowItems? fuel false (.mapping [(key, absent)] :: acc) s
      | some ts =>
        match node? fuel false false (ts, anchors) with
        | some (item, s) => flowItems? fuel false (item :: acc) s
        | none => none

/-- The rest of a flow mapping, collected in reverse. -/
def flowPairs? : Nat → Bool → List (Yaml × Yaml) → ReadState → Option (Yaml × ReadState)
  | 0, _, _, _ => none
  | fuel + 1, first, acc, (ts, anchors) =>
    match ts with
    | .flowMappingEnd :: rest => some (.mapping acc.reverse, rest, anchors)
    | ts =>
      let after? : Option (List YamlToken) :=
        if first then some ts
        else match ts with
          | .flowEntry :: rest => some rest
          | _ => none
      match after? with
      | none => none
      | some (.flowMappingEnd :: rest) => some (.mapping acc.reverse, rest, anchors)
      | some (.key :: rest) =>
        match orAbsent? fuel false false [.value, .flowEntry, .flowMappingEnd] (rest, anchors) with
        | none => none
        | some (key, .value :: rest, anchors) =>
          match orAbsent? fuel false false [.flowEntry, .flowMappingEnd] (rest, anchors) with
          | some (value, s) => flowPairs? fuel false ((key, value) :: acc) s
          | none => none
        | some (key, s) => flowPairs? fuel false ((key, absent) :: acc) s
      | some ts =>
        match node? fuel false false (ts, anchors) with
        | some (key, s) => flowPairs? fuel false ((key, absent) :: acc) s
        | none => none

end

/-- What a text holds. -/
inductive Document where
  /-- no document at all -/
  | nothing
  | node (root : Yaml)
  /-- no YAML -/
  | malformed

/-- Drops directives. -/
def dropDirectives : List YamlToken → List YamlToken
  | .versionDirective :: rest => dropDirectives rest
  | .tagDirective :: rest => dropDirectives rest
  | ts => ts

/-- The document of some tokens. -/
def ofTokens (ts : List YamlToken) : Document :=
  let ofNode (r : Option (Yaml × ReadState)) : Document :=
    match r with
    | some (root, rest, _) => if rest.isEmpty then .malformed else .node root
    | none => .malformed
  let fuel := 2 * ts.length + 2
  match ts with
  | [.streamEnd] => .nothing
  | ts =>
    match dropDirectives ts with
    | .documentStart :: rest =>
      ofNode (orAbsent? fuel true false
        [.versionDirective, .tagDirective, .documentStart, .documentEnd, .streamEnd] (rest, []))
    | rest =>
      -- directives must be followed by the mark of a document's beginning
      if rest.length = ts.length then ofNode (node? fuel true false (ts, [])) else .malformed

/-- Reads the first document of a text. -/
def parse (t : Text) : Document :=
  match prepare? t with
  | some text => ofTokens (tokens text)
  | none => .malformed

end SchemePlayer.Yaml
