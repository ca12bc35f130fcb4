import ComHeaders.Failure

/-!
# Columns

A text in a column is followed by blanks up to the width of the column, counted in
characters.  A text that is longer is never cut.

Widths can be set from outside, and then nothing says that there are texts so wide.  A length
from `lengthLimit` on is none that a text can have.  How much room there is for the lengths
below is a matter of the surroundings, `room` being the length of the longest text.
-/

namespace ComHeaders

/-- A text padded to a width. -/
def padTo (width : Nat) (s : String) : String :=
  s ++ String.ofList (List.replicate (width - s.length) ' ')

/-- No text is as long as this. -/
def lengthLimit : Nat := 0x8000000000000000

/-- The length of the longest text there is room for, unless something else is known. -/
def usualRoom : Nat := 0x100000000

/-- A text that is made to fill a width, or the failure that there is none so wide.  The text is
only made if there is room for it. -/
@[macro_inline]
def filling (room : Nat) (impossible : Fault) (width : Int) (s : String) :
    Except Failure String :=
  if lengthLimit ≤ width then .error (.fault impossible)
  else if room < width then .error (.fault .noRoom)
  else .ok s

/-- There are texts so wide, and there is room for one. -/
def HasRoom (room : Nat) (width : Int) : Prop := width < lengthLimit ∧ width ≤ room

instance (room : Nat) (width : Int) : Decidable (HasRoom room width) :=
  inferInstanceAs (Decidable (_ ∧ _))

/-- Why there is no text so wide. -/
def Failure.IsTooWide (room : Nat) (impossible : Fault) (width : Int) (e : Failure) : Prop :=
  (e = .fault impossible ∧ lengthLimit ≤ width) ∨ (e = .fault .noRoom ∧ room < width)

section

variable {room : Nat} {impossible : Fault} {width : Int} {s t : String} {e : Failure}

theorem filling_eq_ok_iff :
    filling room impossible width s = .ok t ↔ HasRoom room width ∧ s = t := by
  unfold filling HasRoom
  by_cases hlimit : lengthLimit ≤ width
  · simp [hlimit, Int.not_lt.2 hlimit]
  · by_cases hroom : room < width
    · simp [hlimit, hroom, Int.not_le.2 hroom]
    · simp [hlimit, hroom, Int.not_le.1 hlimit, Int.not_lt.1 hroom]

theorem isTooWide_of_filling (h : filling room impossible width s = .error e) :
    e.IsTooWide room impossible width := by
  unfold filling at h
  split at h
  · exact .inl ⟨(Except.error.inj h).symm, ‹_›⟩
  · split at h
    · exact .inr ⟨(Except.error.inj h).symm, ‹_›⟩
    · cases h

theorem Failure.IsTooWide.not_hasRoom (h : e.IsTooWide room impossible width) :
    ¬ HasRoom room width := by
  rintro ⟨hlimit, hroom⟩
  rcases h with ⟨-, hwide⟩ | ⟨-, hwide⟩ <;> omega

/-- What is too wide stays so if it gets wider. -/
theorem Failure.IsTooWide.mono {wider : Int} (h : e.IsTooWide room impossible width)
    (hle : width ≤ wider) : e.IsTooWide room impossible wider := by
  rcases h with ⟨he, hwide⟩ | ⟨he, hwide⟩
  · exact .inl ⟨he, Int.le_trans hwide hle⟩
  · exact .inr ⟨he, Int.lt_of_lt_of_le hwide hle⟩

end

/-- A text in a column whose width was set from outside. -/
def column (room : Nat) (width : Int) (s : String) : Except Failure String :=
  if width < 0 then .error (.fault .badWidth)
  else filling room .badWidth width (padTo width.toNat s)

/-- A value in such a column: a number as it is shown, and a truth value as the number it
counts as.  In front of a number the sign of a width means nothing. -/
def valueColumn (room : Nat) (width : Int) : Value → Except Failure String
  | .str s => column room width s
  | .int i => column room width.natAbs (toString i)
  | .bool b => column room width.natAbs (toString b.toInt)
  | .float x => column room width.natAbs x.text
  | _ => .error (.fault .wrongKind)

/-- As many blanks as an indentation is wide that was set from outside.  One of negative
width is empty, but it has to be within the limit as well. -/
def blanks (room : Nat) (width : Int) : Except Failure String :=
  if width < -lengthLimit then .error (.fault .outOfRange)
  else filling room .outOfRange width (String.ofList (List.replicate width.toNat ' '))

/-- The length of the longest text; zero if there is none. -/
def longest (texts : List String) : Nat := texts.foldl (fun n s => max n s.length) 0

end ComHeaders
