import ComHeaders.Proofs.Dispatch.WrapperNames

/-!
# The numbers behind repeated names

A member whose name is taken gets a number behind its name, and a header is read by people who want
to guess that number.  This file says which number it is: the least one that gives a name which no
earlier member of the table has, be it the member's own name or one that was made in the same way.

## 1.  The search for a number

One tries the numbers one after the other.  A `Search` is such a run of trials, from the number that
is tried first to the number at which it ends, and it knows no bound on the trials.  It ends
whatever names are taken (`exists_search`), at the least free number (`Search.least`).  The library
only looks at one more number than there are names, which is enough to find the same number
(`freshName_of_search`).

## 2.  Members behind members

What a member is called depends on the set of the names before it and not on how they are listed.
`freshName_called` is about one member, `memberNames_called` about all members of a table, each of
which takes a name away from those behind it.

## 3.  The wrappers of an interface

`ofInterface_leastSuffixes` is the result.
-/

namespace ComHeaders

namespace Wrapper

/-! ## 1.  The search for a number -/

/-- A search for a number that makes a name new.  It starts at one number and ends at another. -/
inductive Search (taken : List String) (name : String) : Nat → Nat → Prop
  /-- The number gives a name that is free. -/
  | found {k : Nat} (hfree : name ++ toString k ∉ taken) : Search taken name k k
  /-- The number gives a name that is taken, and the search goes on with the next one. -/
  | next {k l : Nat} (htaken : name ++ toString k ∈ taken) (hrest : Search taken name (k + 1) l) :
    Search taken name k l

variable {taken : List String} {name : String} {k l : Nat}

/-- **A search ends at the least free number.** -/
theorem Search.least (h : Search taken name k l) :
    k ≤ l ∧ name ++ toString l ∉ taken ∧ ∀ j, k ≤ j → j < l → name ++ toString j ∈ taken := by
  induction h with
  | found hfree => exact ⟨Nat.le_refl _, hfree, fun j hj hlt => absurd hlt (Nat.not_lt.2 hj)⟩
  | @next k l htaken _ ih =>
    obtain ⟨hle, hfree, hbefore⟩ := ih
    refine ⟨Nat.le_of_succ_le hle, hfree, fun j hj hlt => ?_⟩
    rcases Nat.eq_or_lt_of_le hj with rfl | hj
    · exact htaken
    · exact hbefore j hj hlt

/-- A search ends if there is a free number ahead of it. -/
theorem exists_search_of_free {d : Nat} (hfree : name ++ toString (k + d) ∉ taken) :
    ∃ l, Search taken name k l := by
  induction d generalizing k with
  | zero => exact ⟨k, .found hfree⟩
  | succ d ih =>
    by_cases htaken : name ++ toString k ∈ taken
    · have hahead : k + (d + 1) = k + 1 + d := by omega
      obtain ⟨l, hl⟩ := ih (hahead ▸ hfree)
      exact ⟨l, .next htaken hl⟩
    · exact ⟨k, .found htaken⟩

/-- **Every search ends**, whatever names are taken. -/
theorem exists_search (taken : List String) (name : String) : ∃ l, Search taken name 1 l := by
  obtain ⟨k, -, hfree⟩ := exists_free taken name
  rw [Nat.add_comm] at hfree
  exact exists_search_of_free hfree

/-- The number at which the search ends is among those that are looked at. -/
theorem freshName_of_search (htaken : name ∈ taken) (h : Search taken name 1 l) :
    freshName taken name = name ++ toString l := by
  obtain ⟨hpos, hfree, hbefore⟩ := h.least
  obtain ⟨k, hk, hfree'⟩ := exists_free taken name
  have hbound : l - 1 < taken.length + 1 := by
    have hkl : l ≤ k + 1 := by
      by_contra hlt
      exact hfree' (hbefore (k + 1) (Nat.le_add_left 1 k) (Nat.lt_of_not_le hlt))
    have := List.mem_range.1 hk
    omega
  have hfind : (List.range (taken.length + 1)).find? (fun (k : Nat) =>
      !taken.contains (name ++ toString (k + 1))) = some (l - 1) := by
    rw [List.find?_range_eq_some]
    have hl : l - 1 + 1 = l := Nat.sub_add_cancel hpos
    refine ⟨?_, List.mem_range.2 hbound, fun j hj => ?_⟩
    · simpa [hl] using hfree
    · simpa using hbefore (j + 1) (Nat.le_add_left 1 j) (by omega)
  rw [freshName, if_pos (List.contains_iff_mem.2 htaken), hfind]
  show name ++ toString (l - 1 + 1) = _
  rw [Nat.sub_add_cancel hpos]

/-! ## 2.  Members behind members -/

/-- What a member is called behind others: by its own name if none of them has it, and else by its
name with the least positive number behind it that gives a name which none of them has. -/
inductive Called (earlier : List String) (name : String) : String → Prop
  | own (hnew : name ∉ earlier) : Called earlier name name
  | numbered {k : Nat} (htaken : name ∈ earlier) (hpos : 1 ≤ k)
      (hfree : name ++ toString k ∉ earlier)
      (hleast : ∀ j, 1 ≤ j → j < k → name ++ toString j ∈ earlier) :
    Called earlier name (name ++ toString k)

theorem Called.congr {earlier earlier' : List String} {member : String}
    (h : Called earlier name member) (hmem : ∀ a, a ∈ earlier ↔ a ∈ earlier') :
    Called earlier' name member := by
  cases h with
  | own hnew => exact .own (mt (hmem _).2 hnew)
  | numbered htaken hpos hfree hleast =>
    exact .numbered ((hmem _).1 htaken) hpos (mt (hmem _).2 hfree) fun j hj hlt =>
      (hmem _).1 (hleast j hj hlt)

/-- **What a fresh name is.** -/
theorem freshName_called (taken : List String) (name : String) :
    Called taken name (freshName taken name) := by
  by_cases htaken : name ∈ taken
  · obtain ⟨l, hl⟩ := exists_search taken name
    obtain ⟨hpos, hfree, hbefore⟩ := hl.least
    rw [freshName_of_search htaken hl]
    exact .numbered htaken hpos hfree hbefore
  · rw [freshName, if_neg (mt List.contains_iff_mem.1 htaken)]
    exact .own htaken

/-- **The members of a table**, each behind the names that were taken at first and those of the
members before it. -/
theorem memberNames_called {taken : List String} {es : List (String × MethodDecl)}
    {e : String × MethodDecl} {member : String} {k : Nat} (he : es[k]? = some e)
    (hmember : (memberNames taken es)[k]? = some member) :
    Called ((memberNames taken es).take k ++ taken) e.2.name member := by
  induction es generalizing taken k with
  | nil => cases he
  | cons d es ih =>
    rcases k with _ | k
    · obtain rfl : d = e := Option.some.inj he
      obtain rfl : freshName taken d.2.name = member := Option.some.inj hmember
      exact freshName_called taken d.2.name
    · refine (ih he hmember).congr fun a => ?_
      -- The first member is in front of the names that were taken, or in front of the others.
      rw [memberNames, List.take_succ_cons]
      simp only [List.cons_append, List.mem_append, List.mem_cons]
      tauto

/-! ## 3.  The wrappers of an interface -/

/-- **The numbers behind repeated names are the least ones.**  The search for a number ends for all
names that are taken, and gives the number that is used.

Suppose that the wrappers of an interface are made.  Then they have members, and in the order of
slots each of them bears the name of its member behind that of the interface.  A method whose name
is not that of an earlier member keeps its name.  Any other method gets the least positive number
behind its name that gives a name which no earlier member has. -/
theorem ofInterface_leastSuffixes (n : Naming) (style : WrapperStyle) :
    (∀ taken name, ∃ k, Search taken name 1 k ∧
      freshName taken name = if name ∈ taken then name ++ toString k else name) ∧
    ∀ i s ws s', (ofInterface n style i).perform s = (.ok ws, s') →
      ∃ members : List String, members.length = ws.length ∧
        ∀ k w member, ws[k]? = some w → members[k]? = some member →
          w.slot = k ∧ w.wrapperName = i.name ++ "_" ++ member ∧
            Called (members.take k) w.methodName member := by
  refine ⟨fun taken name => ?_, fun i s ws s' h => ?_⟩
  · obtain ⟨k, hk⟩ := exists_search taken name
    refine ⟨k, hk, ?_⟩
    split
    · rename_i htaken
      exact freshName_of_search htaken hk
    · rename_i hnew
      rw [freshName, if_neg (mt List.contains_iff_mem.1 hnew)]
  · obtain ⟨is, t, u, -, hrender, -⟩ := ofInterface_ok.1 h
    refine ⟨memberNames [] (table is), ?_, fun k w member hw hmember => ⟨?_, ?_, ?_⟩⟩
    · simpa using (congrArg List.length (renderFrom_wrapperNames hrender)).symm
    · have hslot := congrArg (·[k]?) (renderFrom_slots hrender)
      simp only [List.getElem?_map, hw, Option.map_some] at hslot
      obtain ⟨hk, hslot⟩ := List.getElem?_eq_some_iff.1 hslot.symm
      rw [List.getElem_range'] at hslot
      omega
    · have hname := congrArg (·[k]?) (renderFrom_wrapperNames hrender)
      simp only [List.getElem?_map, hw, hmember, Option.map_some] at hname
      exact Option.some.inj hname
    · have hmethod := congrArg (·[k]?) (renderFrom_methods hrender)
      simp only [List.getElem?_map, hw, Option.map_some] at hmethod
      obtain ⟨e, he, hmethod⟩ := Option.map_eq_some_iff.1 hmethod.symm
      rw [← (Prod.mk.inj hmethod).2]
      simpa only [List.append_nil] using memberNames_called he hmember

/-- The methods of an interface two of which have one name, while two others have names that look
like numbered ones. -/
def numberedInterface : InterfaceDecl where
  name := "IShape"
  fullName := "Shapes.IShape"
  methods := ["Draw", "Draw1", "Draw", "Draw2"].map fun m => ⟨m, .void, [], none⟩
  base := none
  guid := none

/-- The third method has to pass over the number of the second, and takes a name away from the
fourth. -/
theorem numberedInterface_members :
    ∃ ws s', (ofInterface ⟨.ofList [], []⟩ {} numberedInterface).perform {} = (.ok ws, s') ∧
      ws.map (·.wrapperName) =
        ["IShape_Draw", "IShape_Draw1", "IShape_Draw2", "IShape_Draw21"] ∧
      ∃ members : List String, members.length = ws.length ∧
        ∀ k w member, ws[k]? = some w → members[k]? = some member →
          w.slot = k ∧ w.wrapperName = "IShape" ++ "_" ++ member ∧
            Called (members.take k) w.methodName member := by
  have hnames : ((ofInterface ⟨.ofList [], []⟩ {} numberedInterface).perform {}).1.toOption.map
      (·.map (·.wrapperName)) =
        some ["IShape_Draw", "IShape_Draw1", "IShape_Draw2", "IShape_Draw21"] := by
    decide +kernel
  rcases h : (ofInterface ⟨.ofList [], []⟩ {} numberedInterface).perform {} with ⟨e | ws, s'⟩
  · rw [h] at hnames
    cases hnames
  · rw [h] at hnames
    exact ⟨ws, s', rfl, Option.some.inj hnames,
      (ofInterface_leastSuffixes ⟨.ofList [], []⟩ {}).2 _ _ _ _ h⟩

end Wrapper

end ComHeaders
