import ComHeaders.Proofs.Naming.Memory
import ComHeaders.Proofs.StructOrder.Outcome

/-!
# Names by the rules

A name comes from a memory that is filled while other names are found, some of which end in a
failure halfway.  This file proves that none of it shows: at any time a reference is called what an
ordered list of rules says about its innermost element, with a star for each pointer around it.

## 1.  Textual references

A reference is textual if the parts of its name are texts, or absent where they may be.  No other
reference is the same key, so what is remembered for a textual reference was found for it.

## 2.  The rules

`Given n r base` says that the first rule that applies to a reference without layers gives it a
base.  Every textual reference has a base but for primitives that come to the rule of the aliases
and have none (`IsUnaliased`).

## 3.  Memory

A memory is sound if it has the names that the rules give.  Naming keeps it sound, also where it
fails (`name_sound`).

## 4.  Histories

`name_history` is the result, for whatever was asked before.
-/

namespace ComHeaders

/-! ## 1.  Textual references -/

/-- A text, or nothing. -/
def Value.IsOptionalText (v : Value) : Prop :=
  v = .null ∨ ∃ k, v = .str k

namespace Value

theorem IsOptionalText.isKey {v : Value} (h : v.IsOptionalText) : v.isKey = true := by
  rcases h with rfl | ⟨k, rfl⟩
  · rfl
  · rfl

theorem IsOptionalText.eq_of_sameKey {v w : Value} (hw : w.IsOptionalText)
    (h : v.sameKey w = true) : v = w := by
  rcases hw with rfl | ⟨k, rfl⟩
  · cases v <;> simp_all [sameKey]
  · exact sameKey_str.1 h

end Value

namespace TypeRef

variable {q r : TypeRef}

/-- A reference whose name is a text, with a namespace and a declaring type that are texts or
absent. -/
def IsTextual : TypeRef → Prop
  | void => True
  | primitive name => ∃ k, name = .str k
  | pointer element => element.IsTextual
  | array element _ => element.IsTextual
  | named ns name declaring _ =>
    ns.IsOptionalText ∧ (∃ k, name = .str k) ∧ declaring.IsOptionalText

theorem IsTextual.isKey (hr : r.IsTextual) : r.isKey = true := by
  induction r with
  | void => rfl
  | primitive name =>
    obtain ⟨k, rfl⟩ := hr
    rfl
  | pointer element ih => exact ih hr
  | array element _ ih => exact ih hr
  | named ns name declaring _ =>
    obtain ⟨hns, ⟨k, rfl⟩, hdeclaring⟩ := hr
    rw [TypeRef.isKey, hns.isKey, hdeclaring.isKey]
    rfl

/-- **A textual reference is only the same key as itself.** -/
theorem IsTextual.eq_of_sameKey (hr : r.IsTextual) (h : q.sameKey r = true) : q = r := by
  induction r generalizing q with
  | void =>
    cases q <;> first | rfl | cases h
  | primitive name =>
    obtain ⟨k, rfl⟩ := hr
    cases q <;> simp only [sameKey, Bool.false_eq_true] at h
    rw [Value.sameKey_str.1 h]
  | pointer element ih =>
    cases q <;> simp only [sameKey, Bool.false_eq_true] at h
    rw [ih hr h]
  | array element length ih =>
    cases q <;> simp only [sameKey, Bool.false_eq_true, Bool.and_eq_true, beq_iff_eq] at h
    rw [ih hr h.1, h.2]
  | named ns name declaring isValue =>
    obtain ⟨hns, hname, hdeclaring⟩ := hr
    cases q <;> simp only [sameKey, Bool.false_eq_true, Bool.and_eq_true, beq_iff_eq] at h
    obtain ⟨⟨⟨hns', hname'⟩, hdeclaring'⟩, rfl⟩ := h
    rw [hns.eq_of_sameKey hns', Value.IsOptionalText.eq_of_sameKey (.inr hname) hname',
      hdeclaring.eq_of_sameKey hdeclaring']

/-- The number of pointer layers of a reference. -/
def pointers : TypeRef → Nat
  | pointer element => element.pointers + 1
  | array element _ => element.pointers
  | _ => 0

end TypeRef

namespace Naming

variable {n : Naming} {s : Session} {r : TypeRef} {base : String}

/-! ## 2.  The rules -/

/-- References that are called neither by the name of GUIDs nor by that of wide texts, for which
there are rules of their own. -/
structure IsOrdinary (r : TypeRef) : Prop where
  guid : r.fullName ≠ .ok (.str "System.Guid")
  wide : r.name ≠ .str "PWSTR"

/-- The full name of a reference leads to a definition. -/
def LeadsTo (rep : Repository) (r : TypeRef) (d : TypeDef) : Prop :=
  ∃ fullName, r.fullName = .ok (.str fullName) ∧ rep.find? fullName = some d

/-- The base that the rules give to a reference without layers, rule by rule in their order. -/
inductive Given (n : Naming) : TypeRef → String → Prop
  | void : Given n .void "void"
  | guid {r : TypeRef} (hguid : r.fullName = .ok (.str "System.Guid")) : Given n r "GUID"
  | wide {r : TypeRef} (hguid : r.fullName ≠ .ok (.str "System.Guid"))
      (hwide : r.name = .str "PWSTR") : Given n r "WCHAR*"
  | primitive {name a : String} (hr : IsOrdinary (.primitive (.str name)))
      (halias : (name, a) ∈ primitiveAliases) : Given n (.primitive (.str name)) a
  | tagged {ns declaring : Value} {name : String} {isValue : Bool}
      (hr : IsOrdinary (.named ns (.str name) declaring isValue))
      (htag : name ∈ n.taggedEnums) :
      Given n (.named ns (.str name) declaring isValue) ("enum " ++ name)
  | interface {ns declaring : Value} {name : String} {isValue : Bool} {d : TypeDef}
      (hr : IsOrdinary (.named ns (.str name) declaring isValue))
      (htag : name ∉ n.taggedEnums)
      (hd : LeadsTo n.repository (.named ns (.str name) declaring isValue) d)
      (hinterface : d.isInterface = true) :
      Given n (.named ns (.str name) declaring isValue) (name ++ "*")
  | own {ns declaring : Value} {name : String} {isValue : Bool}
      (hr : IsOrdinary (.named ns (.str name) declaring isValue))
      (htag : name ∉ n.taggedEnums)
      (hd : ∀ d, LeadsTo n.repository (.named ns (.str name) declaring isValue) d →
        d.isInterface = false) :
      Given n (.named ns (.str name) declaring isValue) name

/-- A primitive that comes to the rule of the aliases and has none. -/
structure IsUnaliased (r : TypeRef) (name : String) : Prop where
  primitive : r = .primitive (.str name)
  ordinary : IsOrdinary r
  unknown : ∀ a, (name, a) ∉ primitiveAliases

theorem mem_primitiveAliases {name a : String} :
    (name, a) ∈ primitiveAliases ↔ primitiveAliases.lookup name = some a :=
  Table.mem_iff_lookup (by decide)

theorem isTagged_iff {name : String} : n.isTagged (.str name) = true ↔ name ∈ n.taggedEnums := by
  simp [isTagged, Value.sameKey]

theorem baseName_primitive {name : String} (hr : IsOrdinary (.primitive (.str name))) :
    n.baseName (.primitive (.str name)) =
      match primitiveAliases.lookup name with
      | some a => .ok (.str a)
      | none => .error (.unsupportedPrimitive (.str name)) := by
  rw [baseName, if_neg (by simp [TypeRef.isVoid]), if_neg (mt TypeRef.isCalled_iff.1 hr.guid),
    if_neg (mt Value.sameKey_str.1 hr.wide)]
  rfl

/-- A named reference is resolved to the definition that it leads to. -/
theorem resolve_named (rep : Repository) (ns declaring : Value) (name : String) (isValue : Bool) :
    ∃ found, rep.resolve (.named ns (.str name) declaring isValue) = .ok found ∧
      ∀ d, LeadsTo rep (.named ns (.str name) declaring isValue) d ↔ found = some d := by
  have hname : (TypeRef.named ns (.str name) declaring isValue).fullName =
      .ok (.str (TypeRef.qualify ns (.str name) declaring).text) :=
    congrArg Except.ok (TypeRef.qualify_str ns declaring name)
  refine ⟨_, rep.resolve_of_innermost rfl, fun d => ⟨fun ⟨k, hk, hd⟩ => ?_,
    fun hd => ⟨_, hname, hd⟩⟩⟩
  obtain rfl : (TypeRef.qualify ns (.str name) declaring).text = k :=
    Value.str.inj (Except.ok.inj (hname.symm.trans hk))
  exact hd

/-- For an ordinary named reference there are the tags and the definition that it leads to. -/
theorem baseName_named {ns declaring : Value} {name : String} {isValue : Bool}
    (hr : IsOrdinary (.named ns (.str name) declaring isValue)) :
    ∃ found, (∀ d, LeadsTo n.repository (.named ns (.str name) declaring isValue) d ↔
        found = some d) ∧
      n.baseName (.named ns (.str name) declaring isValue) =
        if name ∈ n.taggedEnums then .ok (.str ("enum " ++ name))
        else if found.any TypeDef.isInterface then .ok (.str (name ++ "*"))
        else .ok (.str name) := by
  obtain ⟨found, hresolve, hleads⟩ := resolve_named n.repository ns declaring name isValue
  refine ⟨found, hleads, ?_⟩
  rw [baseName, if_neg (by simp [TypeRef.isVoid]), if_neg (mt TypeRef.isCalled_iff.1 hr.guid),
    if_neg (mt Value.sameKey_str.1 hr.wide), if_neg (by simp [TypeRef.isPrimitive]), hresolve]
  show (if n.isTagged (.str name) then _ else _) = _
  simp only [isTagged_iff]
  split
  · rfl
  · rcases found with _ | d
    · rfl
    · rcases hd : d.isInterface with _ | _
      · simp [hd, TypeRef.name]
      · simp [hd, TypeRef.name]

/-- What the rules give to a reference is its base. -/
theorem Given.baseName_eq (h : Given n r base) : n.baseName r = .ok (.str base) := by
  cases h with
  | void => rfl
  | guid hguid =>
    have hvoid : r.isVoid = false := by
      cases r <;> first | rfl | simp [TypeRef.fullName] at hguid
    rw [baseName, hvoid, if_neg Bool.false_ne_true, if_pos (TypeRef.isCalled_iff.2 hguid)]
  | wide hguid hwide =>
    have hvoid : r.isVoid = false := by
      cases r <;> first | rfl | simp [TypeRef.name] at hwide
    rw [baseName, hvoid, if_neg Bool.false_ne_true, if_neg (mt TypeRef.isCalled_iff.1 hguid),
      if_pos (Value.sameKey_str.2 hwide)]
  | primitive hr halias =>
    rw [baseName_primitive hr, mem_primitiveAliases.1 halias]
  | tagged hr htag =>
    obtain ⟨found, -, hname⟩ := baseName_named hr
    rw [hname, if_pos htag]
  | interface hr htag hd hinterface =>
    obtain ⟨found, hleads, hname⟩ := baseName_named hr
    obtain rfl := (hleads _).1 hd
    rw [hname, if_neg htag, Option.any_some, if_pos hinterface]
  | own hr htag hd =>
    obtain ⟨found, hleads, hname⟩ := baseName_named hr
    have hplain : ¬ found.any TypeDef.isInterface = true := by
      rw [Option.any_eq_true]
      rintro ⟨d, hfound, hinterface⟩
      rw [hd d ((hleads d).2 hfound)] at hinterface
      cases hinterface
    rw [hname, if_neg htag, if_neg hplain]

theorem IsUnaliased.baseName_eq {name : String} (h : IsUnaliased r name) :
    n.baseName r = .error (.unsupportedPrimitive (.str name)) := by
  obtain ⟨rfl, hr, hunknown⟩ := h
  have halias : primitiveAliases.lookup name = none :=
    Option.eq_none_iff_forall_ne_some.2 fun a ha => hunknown a (mem_primitiveAliases.2 ha)
  rw [baseName_primitive hr, halias]

/-- **The rules are complete.**  A textual reference without layers has a base, unless it is a
primitive without an alias. -/
theorem given_or_isUnaliased (n : Naming) (hr : r.IsTextual) :
    (∃ base, Given n r.innermost base) ∨ ∃ name, IsUnaliased r.innermost name := by
  by_cases hguid : r.innermost.fullName = .ok (.str "System.Guid")
  · exact .inl ⟨_, .guid hguid⟩
  by_cases hwide : r.innermost.name = .str "PWSTR"
  · exact .inl ⟨_, .wide hguid hwide⟩
  have hordinary : IsOrdinary r.innermost := ⟨hguid, hwide⟩
  induction r with
  | void => exact .inl ⟨_, .void⟩
  | primitive _ =>
    obtain ⟨name, rfl⟩ := hr
    by_cases halias : ∃ a, (name, a) ∈ primitiveAliases
    · obtain ⟨a, ha⟩ := halias
      exact .inl ⟨a, .primitive hordinary ha⟩
    · exact .inr ⟨name, rfl, hordinary, fun a ha => halias ⟨a, ha⟩⟩
  | named ns _ declaring isValue =>
    obtain ⟨-, ⟨name, rfl⟩, -⟩ := hr
    refine .inl ?_
    by_cases htag : name ∈ n.taggedEnums
    · exact ⟨_, .tagged hordinary htag⟩
    by_cases hinterface : ∃ d, LeadsTo n.repository (.named ns (.str name) declaring isValue) d ∧
        d.isInterface = true
    · obtain ⟨d, hd, hinterface⟩ := hinterface
      exact ⟨_, .interface hordinary htag hd hinterface⟩
    · refine ⟨_, .own hordinary htag fun d hd => Bool.eq_false_iff.2 fun h => ?_⟩
      exact hinterface ⟨d, hd, h⟩
  | pointer element ih => exact ih hr hguid hwide hordinary
  | array element _ ih => exact ih hr hguid hwide hordinary

/-- A star for each pointer. -/
def stars (count : Nat) : String := String.ofList (List.replicate count '*')

/-- The name of a reference is its base with the stars behind it. -/
theorem plainName_of_given (h : Given n r.innermost base) :
    n.plainName r = .ok (.str (base ++ stars r.pointers)) := by
  induction r with
  | pointer element ih =>
    rw [plainName, ih h]
    show Except.ok (Value.str (base ++ stars element.pointers ++ "*")) = _
    rw [TypeRef.pointers, stars, stars, List.replicate_succ', String.ofList_append,
      String.append_assoc]
  | array element _ ih => exact ih h
  | _ =>
    have hstars : base ++ stars 0 = base := String.append_empty
    show n.baseName _ = .ok (.str (base ++ stars 0))
    rw [hstars]
    exact h.baseName_eq

theorem plainName_of_isUnaliased {name : String} (h : IsUnaliased r.innermost name) :
    n.plainName r = .error (.unsupportedPrimitive (.str name)) := by
  induction r with
  | pointer element ih =>
    rw [plainName, ih h]
    rfl
  | array element _ ih => exact ih h
  | _ => exact h.baseName_eq

/-! ## 3.  Memory -/

/-- What is remembered for textual references is what the rules give. -/
def Sound (n : Naming) (s : Session) : Prop :=
  ∀ e ∈ s.names, e.1.IsTextual → n.plainName e.1 = .ok e.2

/-- A computation of the name of a reference that keeps a memory sound, and gives a textual
reference the name that the rules give. -/
def NamesBy (n : Naming) (x : Pass Value) (r : TypeRef) : Prop :=
  ∀ s, n.Sound s → n.Sound (x.perform s).2 ∧ (r.IsTextual → (x.perform s).1 = n.plainName r)

/-- Where the rules name a reference, memory does. -/
theorem namesBy_name_of_found (h : NamesBy n (n.found r) r) : NamesBy n (n.name r) r := by
  intro s hs
  rw [name_perform]
  by_cases hkey : r.isKey = true
  · rw [if_pos hkey]
    rcases hmemory : remembered? s r with _ | v
    · obtain ⟨hsound, hname⟩ := h s hs
      show Sound n ((n.renewed r).perform s).2 ∧ _
      rw [renewed, Pass.perform_bind]
      rcases hfound : (n.found r).perform s with ⟨e | v, t⟩
      · rw [hfound] at hsound hname
        exact ⟨hsound, hname⟩
      · rw [hfound] at hsound hname
        simp only [Pass.perform_bind]
        by_cases hv : v = .null
        · subst hv
          exact ⟨hsound, hname⟩
        · simp only [remember_perform hv]
          refine ⟨List.forall_mem_cons.2 ⟨fun hr => (hname hr).symm, hsound⟩, hname⟩
    · refine ⟨hs, fun hr => ?_⟩
      -- The entry was made for a reference that is the same key, which is this one.
      obtain ⟨e, he, rfl⟩ := Option.map_eq_some_iff.1 hmemory
      have hsame : e.1.sameKey r = true := by simpa using List.find?_some he
      obtain rfl := hr.eq_of_sameKey hsame
      exact (hs e (List.mem_of_find?_eq_some he) hr).symm
  · rw [if_neg hkey]
    exact ⟨hs, fun hr => absurd hr.isKey hkey⟩

/-- **Naming keeps a memory sound**, also where it fails, and gives textual references the names
that the rules give. -/
theorem namesBy_name (n : Naming) (r : TypeRef) : NamesBy n (n.name r) r := by
  have hruled (r : TypeRef) (hr : n.plainName r = n.baseName r) : NamesBy n (n.ruled r) r := by
    intro s hs
    obtain ⟨j, hj⟩ := ruled_perform n r s
    rw [hj, hr]
    exact ⟨hs, fun _ => rfl⟩
  induction r with
  | pointer element ih =>
    refine namesBy_name_of_found fun s hs => ?_
    obtain ⟨hsound, hname⟩ := ih s hs
    rw [found, Pass.perform_bind, plainName]
    rcases helement : (n.name element).perform s with ⟨e | v, t⟩
    · rw [helement] at hsound hname
      exact ⟨hsound, fun hr => by rw [← hname hr]; rfl⟩
    · rw [helement] at hsound hname
      exact ⟨hsound, fun hr => by rw [← hname hr]; rfl⟩
  | array element _ ih => exact namesBy_name_of_found ih
  | _ => exact namesBy_name_of_found (hruled _ rfl)

/-! ## 4.  Histories -/

/-- What can be asked about references. -/
inductive Query where
  | name (r : TypeRef)
  | parameterName (r : TypeRef) (isConst : Bool)
  | isEnum (r : TypeRef)
  | returnsAggregate (r : TypeRef)

/-- The session behind a query, whatever the answer is. -/
def Query.after (n : Naming) (s : Session) : Query → Session
  | name r => ((n.name r).perform s).2
  | parameterName r isConst => ((n.parameterName r isConst).perform s).2
  | isEnum r => ((Pass.ofExcept (n.isEnum r)).perform s).2
  | returnsAggregate r => ((n.returnsAggregate r).perform s).2

/-- No query makes a memory unsound. -/
theorem Query.sound_after (q : Query) (hs : n.Sound s) : n.Sound (q.after n s) := by
  have hconcur : Concur (fun s t => s = t ∧ n.Sound s) (fun _ => True) (fun _ => True) n n := {
    name := fun _ => by
      rintro s _ ⟨rfl, hs⟩
      exact ⟨rfl, ⟨rfl, (namesBy_name n _ s hs).1⟩, fun _ _ => trivial⟩
    isEnum := fun _ => rfl }
  cases q with
  | name r => exact (namesBy_name n r s hs).1
  | parameterName r isConst => exact (hconcur.parameterName trivial isConst s s ⟨rfl, hs⟩).2.1.2
  | isEnum r => exact hs
  | returnsAggregate r => exact (hconcur.returnsAggregate trivial s s ⟨rfl, hs⟩).2.1.2

theorem sound_history (n : Naming) (queries : List Query) :
    n.Sound (queries.foldl (Query.after n) {}) := by
  refine List.foldlRecOn queries _ (fun e he => ?_) fun s hs q _ => q.sound_after hs
  cases he

/-- **Names by the rules.**  Whatever was asked before, a textual reference is called the base that
the rules give to its innermost element, with a star for each pointer; and there is no name just
if the innermost element is a primitive that comes to the rule of the aliases and has none. -/
theorem name_history (n : Naming) (queries : List Query) (r : TypeRef) (hr : r.IsTextual) :
    (∀ v, ((n.name r).perform (queries.foldl (Query.after n) {})).1 = .ok v ↔
      ∃ base, Given n r.innermost base ∧ v = .str (base ++ stars r.pointers)) ∧
    (∀ e, ((n.name r).perform (queries.foldl (Query.after n) {})).1 = .error e ↔
      ∃ name, IsUnaliased r.innermost name ∧ e = .unsupportedPrimitive (.str name)) := by
  rw [(namesBy_name n r _ (sound_history n queries)).2 hr]
  refine ⟨fun v => ⟨fun hv => ?_, fun ⟨base, hbase, hv⟩ => ?_⟩,
    fun e => ⟨fun he => ?_, fun ⟨name, hname, he⟩ => ?_⟩⟩
  · obtain ⟨base, hbase⟩ | ⟨name, hname⟩ := given_or_isUnaliased n hr
    · rw [plainName_of_given hbase] at hv
      exact ⟨base, hbase, (Except.ok.inj hv).symm⟩
    · rw [plainName_of_isUnaliased hname] at hv
      cases hv
  · rw [plainName_of_given hbase, hv]
  · obtain ⟨base, hbase⟩ | ⟨name, hname⟩ := given_or_isUnaliased n hr
    · rw [plainName_of_given hbase] at he
      cases he
    · rw [plainName_of_isUnaliased hname] at he
      exact ⟨name, hname, (Except.error.inj he).symm⟩
  · rw [plainName_of_isUnaliased hname, he]

/-- A naming that knows wide texts by a tag. -/
def taggedWide : Naming := ⟨.ofList [], ["PWSTR"]⟩

/-- A reference to wide texts. -/
def wideText : TypeRef := .named (.str "Windows") (.str "PWSTR") .null true

/-- A primitive without an alias, which was asked for in vain. -/
def character : TypeRef := .primitive (.str "Char")

/-- An array of pointers to wide texts is named without the tag, and the primitive has no name
again. -/
theorem wideText_name :
    (TypeRef.array (.pointer wideText) 4).IsTextual ∧ character.pointer.IsTextual ∧
      ((taggedWide.name (.array (.pointer wideText) 4)).perform
        ([.name character, .returnsAggregate wideText].foldl (Query.after taggedWide) {})).1 =
          .ok (.str "WCHAR**") ∧
      ((taggedWide.name character.pointer).perform
        ([.name character, .returnsAggregate wideText].foldl (Query.after taggedWide) {})).1 =
          .error (.unsupportedPrimitive (.str "Char")) := by
  have hwide : (TypeRef.array (.pointer wideText) 4).IsTextual :=
    ⟨.inr ⟨_, rfl⟩, ⟨_, rfl⟩, .inl rfl⟩
  have hcharacter : character.pointer.IsTextual := ⟨_, rfl⟩
  refine ⟨hwide, hcharacter, ?_, ?_⟩
  · refine ((name_history taggedWide _ _ hwide).1 _).2 ⟨"WCHAR*", .wide ?_ rfl, rfl⟩
    simp [TypeRef.innermost, wideText, TypeRef.fullName, TypeRef.qualify, Value.truthy]
  · refine ((name_history taggedWide _ _ hcharacter).2 _).2 ⟨"Char", ⟨rfl, ⟨?_, ?_⟩, ?_⟩, rfl⟩
    · simp [TypeRef.innermost, character, TypeRef.fullName]
    · simp [TypeRef.innermost, character, TypeRef.name]
    · simp [primitiveAliases]

end Naming

end ComHeaders
