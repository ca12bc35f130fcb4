import ComHeaders.Settings

/-!
# References to variables

A value in an environment file can refer to other variables: a dollar sign and a name in
braces stand for the value of the variable.  Behind the name, a colon and a dash open a
default, which stands in for a variable that is not known.  A dollar sign that opens no such
reference stands for itself.
-/

namespace ComHeaders

namespace EnvironmentFile

/-- A place in a value that the value of a variable takes. -/
structure Reference where
  name : String
  /-- What takes the place if the variable is not known. -/
  default : List Char

/-- The reference that opens a text, and what follows it. -/
def reference? : List Char → Option (Reference × List Char)
  | '$' :: '\x7b' :: rest =>
    let name := rest.takeWhile fun c => c ≠ '\x7d' && c ≠ ':'
    match rest.drop name.length with
    | '\x7d' :: behind => some (⟨String.ofList name, []⟩, behind)
    | ':' :: '-' :: rest =>
      let default := rest.takeWhile (· ≠ '\x7d')
      match rest.drop default.length with
      | _ :: behind => some (⟨String.ofList name, default⟩, behind)
      | [] => none
    | _ => none
  | _ => none

/-- A reference takes some of the text. -/
theorem length_lt_of_reference? {s behind : List Char} {r : Reference}
    (h : reference? s = some (r, behind)) : behind.length < s.length := by
  unfold reference? at h
  split at h
  next rest =>
    dsimp only at h
    split at h
    next _ b hb =>
      have hl := congrArg List.length hb
      simp only [List.length_drop, List.length_cons] at hl
      simp only [Option.some.injEq, Prod.mk.injEq] at h
      rw [← h.2]
      simp only [List.length_cons]
      omega
    next _ inner hb =>
      have hl := congrArg List.length hb
      simp only [List.length_drop, List.length_cons] at hl
      split at h
      next _ _ b hd =>
        have hm := congrArg List.length hd
        simp only [List.length_drop, List.length_cons] at hm
        simp only [Option.some.injEq, Prod.mk.injEq] at h
        rw [← h.2]
        simp only [List.length_cons]
        omega
      next => cases h
    next => cases h
  next => cases h

/-- The text with the values of the variables it refers to. -/
def expand (value? : String → Option String) : List Char → List Char
  | [] => []
  | c :: rest => match h : reference? (c :: rest) with
    | some (r, behind) =>
      have := length_lt_of_reference? h
      ((value? r.name).map String.toList).getD r.default ++ expand value? behind
    | none => c :: expand value? rest
termination_by s => s.length
decreasing_by
  · assumption
  · exact Nat.lt_succ_self rest.length

end EnvironmentFile

end ComHeaders
