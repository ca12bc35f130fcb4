import ComHeaders.Fault
import ComHeaders.Files.Path

/-!
# File trees

A file tree knows what is found at each location.  A location is the list of names from
the root down.  Paths are followed name by name: every name but the last has to lead to a
directory that may be gone through, and double dots lead back to the directory above.  Names
and whole paths have a greatest length in bytes, and no path holds a null character.

The system can refuse to do things at a location.  What it refuses stays refused, whatever is
done to the tree.

A tree is a value, and writing makes another tree.  So whether an operation left the
files alone is a question about two values.
-/

namespace ComHeaders

/-- What a file holds. -/
abbrev Contents := ByteArray

/-- What is found at a location. -/
inductive Node where
  | directory
  | file (contents : Contents)

/-- The names from the root down. -/
abbrev Location := List String

/-- What can be refused at a location. -/
inductive Access where
  /-- To go on from a directory. -/
  | search
  /-- To read a file. -/
  | read
  /-- To write a file, or to put something into a directory. -/
  | write
  deriving DecidableEq, Repr

/-- What is found where.  The root is always a directory. -/
structure FileTree where
  nodes : List (Location × Node)
  /-- Where paths without a root start. -/
  here : Location
  refuses : Location → Access → Bool := fun _ _ => false

namespace FileTree

/-- The tree with one directory, in which paths without a root start. -/
def fresh (here : Location) : FileTree where
  nodes := [(here, .directory)]
  here

/-! ## Looking -/

def node? (t : FileTree) (place : Location) : Option Node :=
  if place = [] then some .directory else t.nodes.lookup place

/-- The location a name leads to from a directory. -/
def down (place : Location) (name : String) : Location :=
  if name = ".." then place.dropLast else place ++ [name]

/-- The greatest number of bytes in a name. -/
def maxNameBytes : Nat := 255

/-- The greatest number of bytes in the text of a path. -/
def maxPathBytes : Nat := 4095

/-- Follows names from a location.  The text is that of the whole path. -/
def follow (t : FileTree) (text : String) : Location → List String → Except Fault Location
  | place, [] => .ok place
  | place, name :: rest =>
    match t.node? place with
    | some .directory =>
      if t.refuses place .search then .error (.permissionDenied text)
      else if maxNameBytes < name.utf8ByteSize then .error (.nameTooLong text)
      else t.follow text (down place name) rest
    | some (.file _) => .error (.notDirectory text)
    | none => .error (.fileNotFound text)

/-- The location of a path, whether or not anything is found there. -/
def locate (t : FileTree) (p : Path) : Except Fault Location :=
  if p.text.contains '\x00' then .error .nullCharacter
  else if maxPathBytes < p.text.utf8ByteSize then .error (.nameTooLong p.text)
  else t.follow p.text (match p.anchor with | .here => t.here | _ => []) p.parts

/-- What is found at a path; nothing if the path leads nowhere.  A path that is too long is a fault
even so, and so is one that must not be followed. -/
def probe (t : FileTree) (p : Path) : Except Fault (Option Node) :=
  match t.locate p with
  | .ok place => .ok (t.node? place)
  | .error (.nameTooLong text) => .error (.nameTooLong text)
  | .error (.permissionDenied text) => .error (.permissionDenied text)
  | .error _ => .ok none

/-- What is found at a path; nothing if the path cannot be followed. -/
def find? (t : FileTree) (p : Path) : Option Node :=
  match t.locate p with
  | .ok place => t.node? place
  | .error _ => none

def isDirectory (t : FileTree) (p : Path) : Bool :=
  match t.find? p with
  | some .directory => true
  | _ => false

/-- What the file at a path holds. -/
def read (t : FileTree) (p : Path) : Except Fault Contents := do
  let place ← t.locate p
  match t.node? place with
  | none => throw (.fileNotFound p.text)
  | some n =>
    if t.refuses place .read then throw (.permissionDenied p.text)
    else match n with
      | .file c => return c
      | .directory => throw (.isDirectory p.text)

/-! ## Changing -/

/-- Sets what is found at a location: in its old place if there is something, else at the
end. -/
def setNode (place : Location) (n : Node) : List (Location × Node) → List (Location × Node)
  | [] => [(place, n)]
  | e :: rest => if e.1 = place then (place, n) :: rest else e :: setNode place n rest

theorem lookup_setNode {a b : Location} {n : Node} {nodes : List (Location × Node)} :
    (setNode a n nodes).lookup b = if b = a then some n else nodes.lookup b := by
  have cons (l : Location) (m : Node) (r : List (Location × Node)) :
      List.lookup b ((l, m) :: r) = if b = l then some m else r.lookup b := by
    by_cases h : b = l
    · simp [h]
    · simp [List.lookup_cons, beq_eq_false_iff_ne.2 h, h]
  induction nodes with
  | nil => rw [setNode, cons]
  | cons e rest ih => obtain ⟨l, m⟩ := e; grind [setNode]

def set (t : FileTree) (place : Location) (n : Node) : FileTree :=
  { t with nodes := setNode place n t.nodes }

theorem node?_set {t : FileTree} {a b : Location} {n : Node} (h : a ≠ []) :
    (t.set a n).node? b = if b = a then some n else t.node? b := by
  unfold node? set
  simp only [lookup_setNode]
  grind

/-- Whether a file must not be written at a location: not the one that is there, or no new one in
the directory. -/
def refusesFile (t : FileTree) (place : Location) : Bool :=
  t.refuses place .write || (t.node? place).isNone && t.refuses place.dropLast .write

/-- Where a file can be written at a path.  A new file needs a directory to be in, and following the
path has found that one. -/
def writePlace (t : FileTree) (p : Path) : Except Fault Location := do
  let place ← t.locate p
  match t.node? place with
  | some .directory => throw (.isDirectory p.text)
  | _ => if t.refusesFile place then throw (.permissionDenied p.text) else return place

/-- Writes the file at a path. -/
def write (t : FileTree) (p : Path) (c : Contents) : Except Fault FileTree := do
  return t.set (← t.writePlace p) (.file c)

/-- Opens the file at a path, so that something can be put behind what it holds.  There is an
empty file behind it if there was none. -/
def openEnd (t : FileTree) (p : Path) : Except Fault FileTree := do
  let place ← t.writePlace p
  match t.node? place with
  | some _ => return t
  | none => return t.set place (.file .empty)

/-- Puts something behind what the file at a location holds. -/
def append (t : FileTree) (place : Location) (more : Contents) : FileTree :=
  match t.node? place with
  | some (.file c) => t.set place (.file (c ++ more))
  | _ => t

/-- Makes one directory, in a directory that is there. -/
def makeDirectory (t : FileTree) (p : Path) : Except Fault FileTree := do
  let place ← t.locate p
  match t.node? place with
  | some _ => throw (.fileExists p.text)
  | none =>
    if t.refuses place.dropLast .write then throw (.permissionDenied p.text)
    else return t.set place .directory

/-- Makes a directory, together with those above it, unless it is there.  What was made
before something failed stays. -/
def makeDirectories (t : FileTree) (p : Path) : Except Fault Unit × FileTree :=
  match t.makeDirectory p with
  | .ok made => (.ok (), made)
  | .error (.fileNotFound text) =>
    if _ : p.parts = [] then (.error (.fileNotFound text), t)
    else match t.makeDirectories p.parent with
      | (.error e, above) => (.error e, above)
      | (.ok _, above) => match above.makeDirectory p with
        | .ok made => (.ok (), made)
        | .error (.fileNotFound text) => (.error (.fileNotFound text), above)
        | .error e => (if above.isDirectory p then .ok () else .error e, above)
  | .error e => (if t.isDirectory p then .ok () else .error e, t)
termination_by p.parts.length
decreasing_by exact Path.length_parent_lt (by assumption)

end FileTree

end ComHeaders
