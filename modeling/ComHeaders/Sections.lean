import ComHeaders.Classify.Namespace
import ComHeaders.Dispatch
import ComHeaders.Literals
import ComHeaders.StructOrder

/-!
# The sections of a header

A header is written in nine sections.  The section of structs follows their order of
declaration, wrappers follow the slots of each interface, and everything else goes by
name, so a header does not depend on the order in which the metadata lists things.

Names stand in columns as wide as the longest of them.
-/

namespace ComHeaders

namespace Section

/-! ## Preamble -/

/-- The declarations of interfaces that other headers own. -/
def forwardLines (interfaces : List (String × String)) : List String :=
  let width := longest (interfaces.map (·.1))
  interfaces.map fun (target, other) => s!"typedef interface {padTo width target} {other};"

/-- Includes, the library to link, aliases and forward declarations. -/
def preamble (settings : Settings) (p : Profile) : List String :=
  ["#pragma once", "", "// " ++ settings.banner, ""] ++
    p.includes.map (fun i => s!"#include <{i}>") ++
    ["", "#pragma comment (lib, \"" ++ p.library ++ "\")"] ++
    (if p.typeAliases.isEmpty then [] else "" :: p.typeAliases) ++
    (if p.forwardInterfaces.isEmpty then [] else "" :: forwardLines p.forwardInterfaces)

/-! ## Interfaces as opaque types -/

/-- The type of an interface: a pointer to its dispatch table, and nothing else. -/
def stubLine (width : Nat) (name : String) : String :=
  s!"typedef struct {padTo width name} " ++ "\x7b struct \x7b void* tbl[]; \x7d* v; \x7d " ++ name ++ ";"

def stubs (ds : Declarations) : List String :=
  let width := longest ds.interfaces.keys
  ["", "// interfaces", ""] ++ ds.interfaces.sorted.keys.map (stubLine width)

/-! ## Constants -/

/-- Whether a constant is a GUID. -/
def isGuid (c : ConstantDecl) : Bool :=
  match c.body with
  | .guid _ => true
  | _ => false

/-- The GUIDs by name, then all other constants by name. -/
def constants (room : Nat) (ds : Declarations) : Except Failure (List String) := do
  let all := ds.constants.values.mergeSort fun a b => a.name ≤ b.name
  let guids := all.filter isGuid
  let scalars := all.filter fun c => !isGuid c
  let width := longest (guids.map (·.name)) + 1
  let lines ← (guids ++ scalars).mapM fun c => c.lines room width
  return ["", "// constants", ""] ++ lines.flatten

/-! ## Function types -/

/-- The parameters of a signature, with names. -/
def parameterList (n : Naming) (m : MethodDecl) : Pass String := do
  let ps ← m.parameters.mapM fun p => do
    return (← n.parameterName p.type p.isConst).text ++ " " ++ p.name
  return ", ".intercalate ps

/-- The declaration of a function type. -/
def delegateLine (n : Naming) (name : String) (m : MethodDecl) : Pass String := do
  let returnName ← n.name m.returnType
  let parameters ← parameterList n m
  return s!"typedef {returnName.text} (CALLBACK* {name})({parameters});"

def delegates (n : Naming) (ds : Declarations) : Pass (List String) := do
  if ds.delegates.isEmpty then return []
  let lines ← ds.delegates.sorted.mapM fun (name, m) => delegateLine n name m
  return ["", "// typedefs", ""] ++ lines

/-! ## Enums -/

/-- The lines of an enum, behind an empty one. -/
def enumLines (name : String) (e : EnumDecl) : List String :=
  let width := longest (e.members.map (·.name))
  ["", s!"typedef enum {name} " ++ "\x7b"] ++
    e.members.map (fun m => s!"    {padTo width m.name} = {m.literal},") ++
    ["\x7d " ++ name ++ ";"]

def enums (ds : Declarations) : List String :=
  ["", "// enums"] ++ ds.enums.sorted.flatMap fun (name, e) => enumLines name e

/-! ## Structs and unions -/

/-- How the fields of an aggregate are indented. -/
structure Indentation where
  /-- The blanks per level. -/
  width : Int
  /-- The length of the longest text there is room for. -/
  room : Nat

/-- How the settings indent fields. -/
def indentation (settings : Settings) : Indentation where
  width := settings.indentWidth
  room := settings.room

/-- The lines of a field that is declared by a declarator: one for each bit group if there
are any. -/
def declaratorLines (typeColumn : String) : FieldDecl → List String
  | .array name _ length => [s!"{typeColumn} {name}[{length}];"]
  | .plain name _ groups =>
    if groups.isEmpty then [s!"{typeColumn} {name};"]
    else groups.map fun g => s!"{typeColumn} {g.name} : {g.length};"
  | .aggregate _ _ _ _ => []

/-- The type names of the fields that are not declared in place. -/
def typeNames (n : Naming) : List FieldDecl → Pass (List String)
  | [] => return []
  | .aggregate _ _ _ _ :: rest => typeNames n rest
  | f :: rest => do
    let name ← n.nameText f.type
    return name :: (← typeNames n rest)

mutual

/-- The lines of a field, its type in a column of the given width. -/
def fieldLines (n : Naming) (i : Indentation) (level : Nat) (indent : String) (width : Nat) :
    FieldDecl → Pass (List String)
  | .aggregate name _ head fields => do
    let inner ← blockLines n i (level + 1) fields
    return (indent ++ head.keyword ++ " \x7b") :: inner ++ [indent ++ "\x7d " ++ name ++ ";"]
  | .array name element length => do
    let column := padTo width (← n.nameText element)
    return (declaratorLines column (.array name element length)).map (indent ++ ·)
  | .plain name type groups => do
    let column := padTo width (← n.nameText type)
    return (declaratorLines column (.plain name type groups)).map (indent ++ ·)

/-- The lines of some fields in a row, the width of their column being given. -/
def rowLines (n : Naming) (i : Indentation) (level : Nat) (indent : String) (width : Nat) :
    List FieldDecl → Pass (List String)
  | [] => return []
  | f :: rest => do
    let lines ← fieldLines n i level indent width f
    return lines ++ (← rowLines n i level indent width rest)

/-- The lines of the fields of an aggregate at a level, their types in one column. -/
def blockLines (n : Naming) (i : Indentation) (level : Nat) (fields : List FieldDecl) :
    Pass (List String) := do
  let indent ← Pass.ofExcept (blanks i.room (i.width * level))
  let width := longest (← typeNames n fields)
  rowLines n i level indent width fields

end

/-- The lines of a struct, behind an empty one. -/
def structLines (n : Naming) (i : Indentation) (s : StructDecl) : Pass (List String) := do
  let inner ← blockLines n i 1 s.fields
  return ["", s!"typedef {s.head.keyword} {s.name} " ++ "\x7b"] ++ inner ++
    ["\x7d " ++ s.name ++ ";"]

def structs (n : Naming) (settings : Settings) (ds : Declarations) : Pass (List String) := do
  let ordered ← StructOrder.resolve ds.structs
  let lines ← ordered.mapM (structLines n (indentation settings))
  return ["", "// structs"] ++ lines.flatten

/-! ## Wrappers -/

/-- How the settings lay out wrappers. -/
def wrapperStyle (settings : Settings) : WrapperStyle where
  returnWidth := settings.returnTypeWidth
  nameWidth := settings.methodNameWidth
  generalize := settings.generalizeAggregateReturns
  room := settings.room

def methods (n : Naming) (settings : Settings) (ds : Declarations) : Pass (List String) := do
  let lines ← ds.interfaces.sorted.mapM fun (_, i) => do
    let wrappers ← Wrapper.ofInterface n (wrapperStyle settings) i
    return "" :: wrappers.flatMap (·.lines)
  return ["", "// methods"] ++ lines.flatten

/-! ## GUIDs of interfaces -/

/-- The mark in front of the name of an interface's GUID. -/
def guidMark : String := "IID_"

def guids (room : Nat) (ds : Declarations) : Except Failure (List String) := do
  let width := longest ds.interfaces.keys + guidMark.length + 1
  let lines ← ds.interfaces.sorted.mapM fun (name, i) =>
    match i.guid with
    | some g => g.defineLine room (guidMark ++ name) width
    | none => throw (.missing (.guidOfInterface name))
  return ["", "// guids", ""] ++ lines

/-! ## Functions -/

/-- The prototype of a function. -/
def functionLine (n : Naming) (returnWidth nameWidth : Nat) (name : String) (m : MethodDecl) :
    Pass String := do
  let returnName ← n.nameText m.returnType
  let parameters ← parameterList n m
  return s!"EXTERN_C {padTo returnWidth returnName} DECLSPEC_IMPORT WINAPI " ++
    s!"{padTo nameWidth name}({parameters}) WIN_NOEXCEPT;"

def functions (n : Naming) (ds : Declarations) : Pass (List String) := do
  let returnNames ← ds.functions.values.mapM fun m => n.nameText m.returnType
  let returnWidth := longest returnNames
  let nameWidth := longest ds.functions.keys + 1
  let lines ← ds.functions.sorted.mapM fun (name, m) =>
    functionLine n returnWidth nameWidth name m
  return ["", "// functions", ""] ++ lines

end Section

/-- The lines of a header. -/
def headerLines (n : Naming) (settings : Settings) (p : Profile) (ds : Declarations) :
    Pass (List String) := do
  let opening := Section.preamble settings p ++ Section.stubs ds
  let constants ← Pass.ofExcept (Section.constants settings.room ds)
  let delegates ← Section.delegates n ds
  let enums := Section.enums ds
  let structs ← Section.structs n settings ds
  let methods ← Section.methods n settings ds
  let guids ← Pass.ofExcept (Section.guids settings.room ds)
  let functions ← Section.functions n ds
  return opening ++ constants ++ delegates ++ enums ++ structs ++ methods ++ guids ++ functions

/-- The text of a header, ended by a line break. -/
def headerText (n : Naming) (settings : Settings) (p : Profile) (ds : Declarations) :
    Pass String :=
  timed .emitter "DeclarationEmitter.emit" do
    let lines ← headerLines n settings p ds
    return "\n".intercalate lines ++ "\n"

end ComHeaders
