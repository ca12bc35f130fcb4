/-!
# Paths

A path starts at the working directory, at the root, or at a root of its own that is
written with two slashes; behind that come the names it goes through.  Empty names and
single dots go nowhere, so they are no part of a path.  Double dots stay: where they lead
is only known when the path is followed.
-/

namespace ComHeaders

/-- What a path starts from. -/
inductive Anchor where
  /-- The working directory. -/
  | here
  | root
  /-- The root that is written with exactly two slashes. -/
  | doubleRoot
  deriving DecidableEq, Repr

/-- A path. -/
structure Path where
  anchor : Anchor
  parts : List String
  deriving DecidableEq, Repr

namespace Path

/-- The stretches of a text between separators. -/
def stretches (separator : Char) : List Char → List (List Char)
  | [] => [[]]
  | c :: rest =>
    if c = separator then [] :: stretches separator rest
    else match stretches separator rest with
      | s :: more => (c :: s) :: more
      | [] => [[c]]

/-- What a text starts from. -/
def anchorOf : List Char → Anchor
  | '/' :: '/' :: '/' :: _ => .root
  | '/' :: '/' :: _ => .doubleRoot
  | '/' :: _ => .root
  | _ => .here

/-- The path a text writes. -/
def ofString (s : String) : Path where
  anchor := anchorOf s.toList
  parts := ((stretches '/' s.toList).map String.ofList).filter fun p => p ≠ "" && p ≠ "."

/-- The text of a path.  The working directory itself is a single dot. -/
def text (p : Path) : String :=
  match p.anchor, p.parts with
  | .here, [] => "."
  | .here, parts => "/".intercalate parts
  | .root, parts => "/" ++ "/".intercalate parts
  | .doubleRoot, parts => "//" ++ "/".intercalate parts

/-- The path that goes on from the end of the first one.  A path from a root does not go on
from anywhere. -/
def join (p q : Path) : Path :=
  match q.anchor with
  | .here => ⟨p.anchor, p.parts ++ q.parts⟩
  | _ => q

/-- The same path from a root, if those without one start at a location.  Double dots take back the
name in front of them. -/
def absolute (here : List String) (p : Path) : Path where
  anchor := match p.anchor with
    | .doubleRoot => .doubleRoot
    | _ => .root
  parts :=
    let names := match p.anchor with
      | .here => here ++ p.parts
      | _ => p.parts
    names.foldl (fun behind name => if name = ".." then behind.dropLast else behind ++ [name]) []

/-- The path without its last name. -/
def parent (p : Path) : Path := ⟨p.anchor, p.parts.dropLast⟩

theorem length_parent_lt {p : Path} (h : p.parts ≠ []) :
    p.parent.parts.length < p.parts.length := by
  have : 0 < p.parts.length := List.length_pos_iff.2 h
  simp [parent]
  omega

end Path

end ComHeaders
