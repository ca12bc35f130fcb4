import ComHeaders.Dispatch
import ComHeaders.Proofs.Naming.Agreement

/-!
# How computations can fail

Every part of the program has its own few ways to fail, and a computation that is made of some parts
fails in the ways of these.  So a failure tells which part it comes from.

## 1.  Failing with

`FailsWith P x` says that all failures of `x` have the property `P`.  A sequence fails with what its
parts fail with.

## 2.  Failing beyond a class

`FailsBeyond P Q x` says that `x` has failures of the class `P`, of which nothing more is said, and
besides them exactly those that satisfy `Q`.  A list fails as the first of its members that cannot
be read (`FirstUnread`).

## 3.  Names

No name is found for a primitive without an alias, and for a reference whose parts are of a wrong
kind.

## 4.  Interfaces

A base chain ends at a name that denotes no interface, at one that cannot be described, or where it
closes a cycle.
-/

namespace ComHeaders

/-! ## 1.  Failing with -/

namespace Result

variable {α β : Type} {P : Failure → Prop}

/-- A result that is no failure, or one with a property. -/
def FailsWith (P : Failure → Prop) (x : Except Failure α) : Prop :=
  ∀ e, x = .error e → P e

theorem FailsWith.ok (a : α) : FailsWith P (.ok a) := by
  intro e h
  cases h

theorem FailsWith.error {e : Failure} (he : P e) : FailsWith P (.error e : Except Failure α) := by
  intro e' h
  cases h
  exact he

theorem FailsWith.bind {x : Except Failure α} {f : α → Except Failure β} (hx : FailsWith P x)
    (hf : ∀ a, FailsWith P (f a)) : FailsWith P (x >>= f) := by
  rcases x with e | a
  · exact .error (hx e rfl)
  · exact hf a

theorem FailsWith.mapM {f : α → Except Failure β} (hf : ∀ a, FailsWith P (f a)) (l : List α) :
    FailsWith P (l.mapM f) := by
  induction l with
  | nil => exact .ok []
  | cons a l ih =>
    rw [List.mapM_cons]
    exact (hf a).bind fun b => ih.bind fun bs => .ok (b :: bs)

theorem FailsWith.faulty (x : Except Fault α) (hP : ∀ f, P (.fault f)) :
    FailsWith P (faulty x) := by
  rcases x with f | a
  · exact .error (hP f)
  · exact .ok a

end Result

namespace Pass

variable {α β : Type} {P Q : Failure → Prop}

/-- A computation whose failures have a property, in whatever session. -/
def FailsWith (P : Failure → Prop) (x : Pass α) : Prop :=
  ∀ s, Result.FailsWith P (x.perform s).1

namespace FailsWith

theorem imp {x : Pass α} (hx : FailsWith P x) (h : ∀ e, P e → Q e) : FailsWith Q x :=
  fun s e he => h e (hx s e he)

theorem pure (a : α) : FailsWith P (Pure.pure a : Pass α) :=
  fun _ => .ok a

theorem throw {e : Failure} (he : P e) : FailsWith P (MonadExcept.throw e : Pass α) :=
  fun _ => .error he

theorem ofExcept {x : Except Failure α} (hx : Result.FailsWith P x) :
    FailsWith P (Pass.ofExcept x) :=
  fun _ => hx

theorem bind {x : Pass α} {f : α → Pass β} (hx : FailsWith P x) (hf : ∀ a, FailsWith P (f a)) :
    FailsWith P (x >>= f) := by
  intro s
  rw [perform_bind]
  rcases hs : x.perform s with ⟨e | a, t⟩
  · exact .error (hx s e (by rw [hs]))
  · exact hf a t

theorem note_bind (n : Entry) {x : Pass α} (hx : FailsWith P x) :
    FailsWith P (Keeps.note n >>= fun _ => x) := by
  intro s
  rw [perform_bind, perform_note]
  exact hx _

theorem get_bind {f : Session → Pass α} (hf : ∀ s, FailsWith P (f s)) :
    FailsWith P (MonadState.get >>= f) := by
  intro s
  rw [perform_bind, perform_get]
  exact hf s s

theorem mapM {f : α → Pass β} {l : List α} (hf : ∀ a ∈ l, FailsWith P (f a)) :
    FailsWith P (l.mapM f) := by
  induction l with
  | nil => exact pure []
  | cons a l ih =>
    rw [List.mapM_cons]
    refine (hf a List.mem_cons_self).bind fun b => ?_
    exact (ih fun c hc => hf c (List.mem_cons_of_mem a hc)).bind fun bs => pure (b :: bs)

end FailsWith

end Pass

/-! ## 2.  Failing beyond a class -/

namespace Result

variable {α β : Type}

theorem bind_eq_error {ε : Type} {x : Except ε α} {f : α → Except ε β} {e : ε} :
    (x >>= f) = .error e ↔ x = .error e ∨ ∃ a, x = .ok a ∧ f a = .error e := by
  rcases x with e' | a
  · simp [bind, Except.bind]
  · simp [bind, Except.bind]

/-- The first member of a list that cannot be read has a property. -/
def FirstUnread (f : α → Except Failure β) (P : α → Prop) (l : List α) : Prop :=
  ∃ before a after, l = before ++ a :: after ∧ (∀ b ∈ before, ∃ r, f b = .ok r) ∧ P a

theorem not_firstUnread_nil {f : α → Except Failure β} {P : α → Prop} : ¬ FirstUnread f P [] := by
  rintro ⟨before, a, after, h, -⟩
  simp at h

theorem firstUnread_cons {f : α → Except Failure β} {P : α → Prop} {a : α} {l : List α} :
    FirstUnread f P (a :: l) ↔ P a ∨ (∃ r, f a = .ok r) ∧ FirstUnread f P l := by
  constructor
  · rintro ⟨_ | ⟨b, before⟩, c, after, hsplit, hbefore, hc⟩
    · cases hsplit
      exact .inl hc
    · cases hsplit
      obtain ⟨hb, hbefore⟩ := List.forall_mem_cons.1 hbefore
      exact .inr ⟨hb, before, c, after, rfl, hbefore, hc⟩
  · rintro (ha | ⟨ha, before, c, after, rfl, hbefore, hc⟩)
    · exact ⟨[], a, l, rfl, nofun, ha⟩
    · exact ⟨a :: before, c, after, rfl, List.forall_mem_cons.2 ⟨ha, hbefore⟩, hc⟩

theorem firstUnread_and {f : α → Except Failure β} {P : α → Prop} {p : Prop} {l : List α} :
    FirstUnread f (fun a => p ∧ P a) l ↔ p ∧ FirstUnread f P l := by
  constructor
  · rintro ⟨before, a, after, hsplit, hbefore, hp, ha⟩
    exact ⟨hp, before, a, after, hsplit, hbefore, ha⟩
  · rintro ⟨hp, before, a, after, hsplit, hbefore, ha⟩
    exact ⟨before, a, after, hsplit, hbefore, hp, ha⟩

/-- **The failures beyond a class.**  A failure that is not of the class is that of the result just
if it satisfies a condition. -/
def FailsBeyond (P Q : Failure → Prop) (x : Except Failure α) : Prop :=
  ∀ e, ¬ P e → (x = .error e ↔ Q e)

namespace FailsBeyond

variable {P Q Q' : Failure → Prop} {x : Except Failure α} {f : α → Except Failure β}

theorem of_failsWith (hx : FailsWith P x) : FailsBeyond P (fun _ => False) x :=
  fun e he => iff_false_intro fun h => he (hx e h)

theorem congr (hx : FailsBeyond P Q x) (h : ∀ e, Q e ↔ Q' e) : FailsBeyond P Q' x :=
  fun e he => (hx e he).trans (h e)

theorem bind {R : α → Failure → Prop} (hx : FailsBeyond P Q x)
    (hf : ∀ a, x = .ok a → FailsBeyond P (R a) (f a)) :
    FailsBeyond P (fun e => Q e ∨ ∃ a, x = .ok a ∧ R a e) (x >>= f) := by
  intro e he
  rw [bind_eq_error, hx e he]
  refine or_congr_right (exists_congr fun a => and_congr_right fun ha => ?_)
  exact hf a ha e he

theorem before (hx : FailsBeyond P Q x) (hf : ∀ a, FailsWith P (f a)) :
    FailsBeyond P Q (x >>= f) := by
  refine (hx.bind (R := fun _ _ => False) fun a _ => of_failsWith (hf a)).congr fun e => ?_
  exact or_iff_left fun ⟨_, _, h⟩ => h

/-- **A list fails as the first of its members that cannot be read.** -/
theorem mapM {R : α → Failure → Prop} (hf : ∀ a, FailsBeyond P (R a) (f a)) (l : List α) :
    FailsBeyond P (fun e => FirstUnread f (R · e) l) (l.mapM f) := by
  induction l with
  | nil => exact (of_failsWith (.ok [])).congr fun _ => iff_of_false id not_firstUnread_nil
  | cons a l ih =>
    rw [List.mapM_cons]
    refine ((hf a).bind fun _ _ => ih.before fun _ => .ok _).congr fun e => ?_
    rw [firstUnread_cons, exists_and_right]

end FailsBeyond

end Result

/-! ## 3.  Names -/

/-- The ways in which a name is not found. -/
inductive Failure.IsOfName : Failure → Prop
  | fault (f : Fault) : IsOfName (.fault f)
  | unsupportedPrimitive (name : Value) : IsOfName (.unsupportedPrimitive name)

namespace Naming

open Failure (IsOfName)

variable {n : Naming}

theorem failsWith_baseName (r : TypeRef) : Result.FailsWith IsOfName (n.baseName r) := by
  rw [baseName]
  split
  · exact .ok _
  split
  · exact .ok _
  split
  · exact .ok _
  split
  · split
    · exact .ok _
    · exact .error (.unsupportedPrimitive _)
  split
  · exact .ok _
  split
  · exact .ok _
  · exact .ok _
  · exact .error (.fault _)

theorem failsWith_name_of_found {r : TypeRef} (h : Pass.FailsWith IsOfName (n.found r)) :
    Pass.FailsWith IsOfName (n.name r) := by
  have hrenewed : Pass.FailsWith IsOfName (n.renewed r) := by
    refine h.bind fun v s e he => ?_
    rcases v <;> cases he
  intro s
  rw [name_perform]
  split
  · split
    · exact .ok _
    · exact hrenewed s
  · exact .error (.fault _)

/-- **What a name can fail with.**  This goes along the layers of the reference. -/
theorem failsWith_name (r : TypeRef) : Pass.FailsWith IsOfName (n.name r) := by
  have hruled (q : TypeRef) : Pass.FailsWith IsOfName (n.ruled q) := by
    unfold ruled
    split
    · exact .note_bind _ (.ofExcept (failsWith_baseName q))
    · exact .ofExcept (failsWith_baseName q)
  refine failsWith_name_of_found ?_
  induction r with
  | pointer element ih =>
    exact (failsWith_name_of_found ih).bind fun _ => .ofExcept (.faulty _ .fault)
  | array element length ih => exact failsWith_name_of_found ih
  | void => exact hruled _
  | primitive _ => exact hruled _
  | named _ _ _ _ => exact hruled _

theorem failsWith_parameterName (r : TypeRef) (isConst : Bool) :
    Pass.FailsWith IsOfName (n.parameterName r isConst) :=
  (failsWith_name r).bind fun _ => .pure _

theorem failsWith_isEnum (r : TypeRef) : Result.FailsWith IsOfName (n.isEnum r) := by
  rw [isEnum]
  split
  · exact (Result.FailsWith.faulty _ .fault).bind fun _ => .ok _
  · exact .ok _

theorem failsWith_returnsAggregate (r : TypeRef) :
    Pass.FailsWith IsOfName (n.returnsAggregate r) := by
  unfold returnsAggregate
  split
  · exact .pure false
  split
  · exact .pure false
  refine (failsWith_name r).bind fun v => ?_
  split
  · exact .pure false
  · exact (Pass.FailsWith.ofExcept (failsWith_isEnum r)).bind fun b => .pure (!b)

end Naming

/-- A column fails with a fault of its width or of what stands in it. -/
theorem failsWith_column (room : Nat) (width : Int) (s : String) :
    Result.FailsWith Failure.IsOfName (column room width s) := by
  rw [column]
  split
  · exact .error (.fault _)
  · intro e he
    rcases isTooWide_of_filling he with ⟨rfl, -⟩ | ⟨rfl, -⟩
    · exact .fault _
    · exact .fault _

theorem failsWith_valueColumn (room : Nat) (width : Int) (v : Value) :
    Result.FailsWith Failure.IsOfName (valueColumn room width v) := by
  unfold valueColumn
  split
  · exact failsWith_column _ _ _
  · exact failsWith_column _ _ _
  · exact failsWith_column _ _ _
  · exact failsWith_column _ _ _
  · exact .error (.fault _)

/-! ## 4.  Interfaces -/

/-- The ways in which an interface is not found. -/
inductive Failure.IsOfInterface : Failure → Prop
  | fault (f : Fault) : IsOfInterface (.fault f)
  | unknownInterface (fullName : String) : IsOfInterface (.unknownInterface fullName)
  | unsupportedShape (entity : String) (p : ShapeProblem) :
    IsOfInterface (.unsupportedShape entity p)
  | missing (part : MissingPart) : IsOfInterface (.missing part)

namespace InterfaceDecl

open Failure (IsOfInterface)

theorem failsWith_ofDefinition (d : TypeDef) : Result.FailsWith IsOfInterface (ofDefinition d) := by
  have hbase : Result.FailsWith IsOfInterface (baseOf d.interfaces) := by
    rw [baseOf.eq_def]
    split
    · exact .ok none
    · refine (Result.FailsWith.faulty _ .fault).bind fun v => ?_
      split
      · exact .ok none
      · exact .ok _
  have hguid : Result.FailsWith IsOfInterface (readGuid d.attributes d.name) := by
    rw [readGuid]
    split
    · exact .ok none
    · split
      · exact .ok _
      · exact .error (.fault _)
      · exact .error (.missing _)
  rw [ofDefinition]
  split
  · exact .error (.unsupportedShape _ _)
  · exact hbase.bind fun _ => hguid.bind fun _ => .ok _

/-- **What a look-up can fail with.** -/
theorem failsWith_lookup (r : Repository) (v : Value) :
    Pass.FailsWith IsOfInterface (lookup r v) := by
  have hdescribe (d : TypeDef) : Pass.FailsWith IsOfInterface (describe d) := by
    refine .get_bind fun s => ?_
    split
    · exact .pure _
    · refine (Pass.FailsWith.ofExcept (failsWith_ofDefinition d)).bind fun i t e he => ?_
      cases he
  unfold lookup
  split
  · refine .get_bind fun s => ?_
    split
    · exact .pure _
    split
    · split
      · exact hdescribe _
      · exact .throw (.unknownInterface _)
    · exact .throw (.unknownInterface _)
  · split
    · exact .throw (.unknownInterface _)
    · exact .throw (.fault _)

end InterfaceDecl

namespace Wrapper

open Failure (IsOfInterface)

/-- **What a base chain can fail with.** -/
theorem failsWith_chainFrom (r : Repository) (unvisited : List String) (i : InterfaceDecl) :
    Pass.FailsWith IsOfInterface (chainFrom r unvisited i) := by
  rw [chainFrom]
  split
  · exact .pure [i]
  · refine (InterfaceDecl.failsWith_lookup r _).bind fun base => ?_
    split
    · exact (failsWith_chainFrom r (unvisited.erase base.fullName) base).bind fun _ => .pure _
    · exact .throw (.unsupportedShape _ _)
termination_by unvisited.length
decreasing_by
  rename_i hmem
  rw [List.length_erase_of_mem hmem]
  exact Nat.sub_lt (List.length_pos_of_mem hmem) Nat.one_pos

end Wrapper

end ComHeaders
