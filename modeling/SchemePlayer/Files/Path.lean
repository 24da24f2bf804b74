import SchemePlayer.Text.Basic

/-!
# Paths

Paths are texts with slashes between their elements. These functions look at the text
alone, never at what files there are.
-/

namespace SchemePlayer.Path

/-- The slash. -/
def slash : UInt8 := 47

/-- Whether a path starts at the root. -/
def isAbsolute (p : Text) : Bool := p.head? == some slash

/-- Takes one more element into a list of elements, the last first: an empty one and a
single dot say nothing, two dots go up. From the root nothing goes further up. -/
def climb (rooted : Bool) (taken : List Text) (element : Text) : List Text :=
  if element = [] ∨ element = "." then taken
  else if element = ".." then
    match taken with
    | [] => if rooted then [] else [element]
    | last :: before => if last = ".." then element :: taken else before
  else element :: taken

/-- The elements of a path that says the same with as few elements as possible. -/
def elements (p : Text) : List Text :=
  ((Text.splitOn slash p).foldl (climb (isAbsolute p)) []).reverse

/-- The shortest path that says the same; one that says nothing is a single dot. -/
def clean (p : Text) : Text :=
  let body := Text.join [slash] (elements p)
  if isAbsolute p then slash :: body
  else if body = [] then "." else body

/-- One path after another; empty ones do not count. -/
def join (parts : List Text) : Text :=
  match parts.filter (!·.isEmpty) with
  | [] => []
  | parts => clean (Text.join [slash] parts)

/-- What stands before the last element, and the element. -/
def splitLast (p : Text) : Text × Text :=
  let last := (p.reverse.takeWhile (· ≠ slash)).reverse
  (p.take (p.length - last.length), last)

/-- The directory of a path. -/
def directory (p : Text) : Text := clean (splitLast p).1

/-- The last element of a path. -/
def base (p : Text) : Text :=
  if p = [] then "."
  else
    let last := (splitLast (Text.dropEndWhile (· = slash) p)).2
    if last = [] then [slash] else last

/-- The ending of the last element, from its last dot on. -/
def extension (p : Text) : Text :=
  let last := (splitLast p).2
  match (last.reverse.span (· ≠ 46)) with
  | (_, []) => []
  | (ending, _) => 46 :: ending.reverse

/-- A path, taken from a directory when it is not absolute. -/
def under (dir p : Text) : Text := if isAbsolute p then p else join [dir, p]

/-- The path that a name in code means: backslashes separate too, and names that are not
absolute are taken from the project directory, if there is one. -/
def resolve (dir name : Text) : Text :=
  let p := name.map fun b => if b = 92 then slash else b
  if isAbsolute p || dir.isEmpty then clean p else join [dir, p]

end SchemePlayer.Path
