import ComHeaders.Number.Reading
import ComHeaders.Text.Column

/-!
# Settings

Settings say how a header is laid out, and whether methods that return an aggregate and
take parameters are wrapped too.  Each has a default, and the environment can replace each
one.  A replacement that cannot be read leaves the default in place.  How much room there is
for texts cannot be set; it comes from the machine, and widths are held against it.
-/

namespace ComHeaders

/-- The variables of an environment. -/
abbrev Environment := List (String × String)

/-- How a header is laid out. -/
structure Settings where
  /-- The width of the column of return types of wrappers. -/
  returnTypeWidth : Int := 33
  /-- The width of the column of names of wrappers. -/
  methodNameWidth : Int := 61
  /-- The blanks per level inside aggregates. -/
  indentWidth : Int := 4
  /-- Whether aggregate returns are allowed beside parameters. -/
  generalizeAggregateReturns : Bool := false
  /-- The first comment of every header. -/
  banner : String := "generated by winmd-c-headers"
  /-- The length of the longest text there is room for. -/
  room : Nat := usualRoom
  deriving DecidableEq, Repr

/-- Whether a text switches something on. -/
def isSwitchedOn (words : List String) (text : String) : Bool := words.contains text.toLower

namespace Settings

/-- The variable that replaces a setting. -/
def setting? (env : Environment) (key : String) : Option String := env.lookup ("WINMD_" ++ key)

/-- An integer from the environment, or the default. -/
def integer (env : Environment) (key : String) (default : Int) : Int :=
  ((setting? env key).bind readInteger?).getD default

/-- The settings of an environment, on a machine with so much room. -/
def ofEnvironment (room : Nat) (env : Environment) : Settings :=
  let d : Settings := {}
  { returnTypeWidth := integer env "RETURN_TYPE_WIDTH" d.returnTypeWidth
    methodNameWidth := integer env "METHOD_NAME_WIDTH" d.methodNameWidth
    indentWidth := integer env "INDENT_WIDTH" d.indentWidth
    generalizeAggregateReturns := match setting? env "GENERALIZE_AGGREGATE_RETURNS" with
      | some t => isSwitchedOn ["true", "1", "yes", "on"] t
      | none => d.generalizeAggregateReturns
    banner := (setting? env "BANNER").getD d.banner
    room }

end Settings

end ComHeaders
