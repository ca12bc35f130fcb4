import ComHeaders.Classify.Aggregate
import ComHeaders.Classify.Interface
import ComHeaders.Profile

/-!
# Classifying a namespace

The top-level definitions of a namespace are told apart by their structure.  The container
of globals, which is known by its name, yields constants and functions.  All others are
enums, interfaces, structs or delegates; one that is none of these ends the run, since
nothing is left out silently.

Enums that an included header declares are left out on purpose.  From a shared namespace
come those definitions that the profile allows.
-/

namespace ComHeaders

/-- The name of the container of a namespace's globals. -/
def globalsContainer : String := "Apis"

namespace Declarations

/-- Adds the constants and functions of the container of globals. -/
def addGlobals (ds : Declarations) (d : TypeDef) : Except Failure Declarations := do
  let constants ← d.fields.foldlM (fun t f => do
    return t.set f.name (← ConstantDecl.describe f)) ds.constants
  let functions := d.methods.foldl (fun t m => t.set m.name (MethodDecl.describe m)) ds.functions
  return { ds with constants, functions }

/-- Adds an enum. -/
def addEnum (ds : Declarations) (d : TypeDef) : Except Failure Declarations := do
  return { ds with enums := ds.enums.set d.name (← EnumDecl.describe d) }

/-- Adds an interface. -/
def addInterface (ds : Declarations) (d : TypeDef) : Pass Declarations := do
  return { ds with interfaces := ds.interfaces.set d.name (← InterfaceDecl.describe d) }

/-- Adds a struct or union. -/
def addStruct (r : Repository) (ds : Declarations) (d : TypeDef) : Except Failure Declarations := do
  return { ds with structs := ds.structs.set d.name (← StructDecl.describe r d) }

/-- Adds a function type. -/
def addDelegate (ds : Declarations) (d : TypeDef) : Except Failure Declarations := do
  return { ds with delegates := ds.delegates.set d.name (← MethodDecl.describeDelegate d) }

/-- Adds a definition of the namespace itself. -/
def addOwn (r : Repository) (p : Profile) (ds : Declarations) (d : TypeDef) : Pass Declarations :=
  if d.name = globalsContainer then Pass.ofExcept (ds.addGlobals d)
  else if d.isEnum then
    if p.excludedTypes.contains d.name then do
      note (.plain .classifier .debug s!"Skipping {d.name}: declared by an included header")
      return ds
    else Pass.ofExcept (ds.addEnum d)
  else if d.isInterface then ds.addInterface d
  else if d.isValueType then Pass.ofExcept (ds.addStruct r d)
  else if d.isDelegate then Pass.ofExcept (ds.addDelegate d)
  else throw (.unsupportedShape d.fullName (.unknownBase d.baseType))

/-- Adds a definition of the shared namespace, if the profile allows it. -/
def addShared (r : Repository) (p : Profile) (ds : Declarations) (d : TypeDef) :
    Pass Declarations :=
  if !p.sharedAllowList.contains d.name then return ds
  else do
    note (.plain .classifier .debug s!"Importing {d.fullName} from shared namespace")
    if d.isEnum then Pass.ofExcept (ds.addEnum d)
    else if d.isInterface then ds.addInterface d
    else if d.isValueType then Pass.ofExcept (ds.addStruct r d)
    else throw (.unsupportedShape d.fullName .notShareable)

/-- The shared namespace of a profile; an empty name is none. -/
def sharedNamespace? (p : Profile) : Option String := p.sharedNamespace.filter (· ≠ "")

/-- The declarations of a profile's namespace and of what it borrows. -/
def collect (r : Repository) (p : Profile) : Pass Declarations := do
  let own ← (r.typesIn (.str p.namespaceName)).foldlM (addOwn r p)
    { namespaceName := p.namespaceName }
  match sharedNamespace? p with
  | some ns => (r.typesIn (.str ns)).foldlM (addShared r p) own
  | none => return own

/-- The entry that counts what was found. -/
def summary (ds : Declarations) : Entry :=
  .plain .classifier .info (s!"Classified {ds.namespaceName}: {ds.constants.length} constants, " ++
    s!"{ds.delegates.length} typedefs, {ds.enums.length} enums, {ds.structs.length} structs, " ++
    s!"{ds.interfaces.length} interfaces, {ds.functions.length} functions")

/-- Classifies a profile's namespace. -/
def classify (r : Repository) (p : Profile) : Pass Declarations :=
  timed .classifier "TypeClassifier.classify" do
    let ds ← collect r p
    note ds.summary
    return ds

end Declarations

end ComHeaders
