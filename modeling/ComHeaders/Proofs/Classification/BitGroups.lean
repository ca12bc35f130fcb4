import ComHeaders.Classify.Bitfield
import ComHeaders.Proofs.Failures
import ComHeaders.Proofs.StructOrder.Outcome
import Mathlib.Data.List.Chain

/-!
# Bit groups as tilings

The groups of a backing field come as attributes in any order, and the library sorts them by their
first bits before it goes through them.  What it accepts can be said without sorting: groups that
can be arranged so that they cover the integer from its first bit on without a gap or an overlap.

## 1.  Attributes

An attribute describes a group if its arguments are the parts of the group.

## 2.  Tilings

`Tiles first width gs` says that groups follow each other from the bit `first` on and end within
the width.  The check of a list of groups, which is one pass over the list, finds just this
(`checkFrom_eq_ok_iff`).  A bit belongs to one of the groups if it lies in the stretch that they
cover, and to none of them otherwise (`Tiles.countP_covers`).

## 3.  Sorting

The groups of a tiling start at different bits.  So the tiling is what comes of sorting them,
however they were listed (`Tiles.mergeSort_eq`).

## 4.  The groups of a field

`read_tiling` is the result.  A field whose groups do not tile it is reported as such, as long as
its type is named by a text; of any other type one cannot even ask for the width or the full name.
-/

namespace ComHeaders

namespace BitGroup

variable {first : Int} {width : Nat} {g : BitGroup} {gs arranged groups : List BitGroup}

/-! ## 1.  Attributes -/

/-- Whether an attribute is about a group. -/
def isGroup (a : Attribute) : Bool := a.typeName.sameKey (.str bitfieldAttribute)

/-- The arguments of an attribute are the parts of a group: its name, and what stands for its first
bit and for its length. -/
structure Describes (a : Attribute) (g : BitGroup) : Prop where
  name : ∃ v, a.arguments[0]? = some v ∧ v.text = g.name
  start : ∃ v, a.arguments[1]? = some v ∧ v.toInteger = .ok g.start
  length : ∃ v, a.arguments[2]? = some v ∧ v.toInteger = .ok g.length

theorem Describes.ofAttribute_eq {a : Attribute} (h : Describes a g) : ofAttribute a = .ok g := by
  obtain ⟨⟨n, hn, hname⟩, ⟨s, hs, hstart⟩, ⟨l, hl, hlength⟩⟩ := h
  have hargument (i : Nat) (v : Value) (hv : a.arguments[i]? = some v) : argument a i = .ok v := by
    rw [argument, hv]
  rw [ofAttribute, hargument 0 n hn, hargument 1 s hs, hargument 2 l hl]
  show (do
    let start ← s.toInteger
    let length ← l.toInteger
    return (⟨n.text, start, length⟩ : BitGroup)) = _
  rw [hstart, hlength, hname]
  rfl

/-- The groups that some attributes describe, in the order of their first bits. -/
theorem ofAttributes_eq {attributes : List Attribute}
    (h : List.Forall₂ Describes (attributes.filter isGroup) groups) :
    ofAttributes attributes = .ok (groups.mergeSort fun a b => a.start ≤ b.start) := by
  have hgroups : (attributes.filter isGroup).mapM ofAttribute = .ok groups := by
    generalize attributes.filter isGroup = as at h
    induction h with
    | nil => rfl
    | cons hag _ ih =>
      rw [List.mapM_cons, hag.ofAttribute_eq, ih]
      rfl
  show (do
    let groups ← (attributes.filter isGroup).mapM ofAttribute
    return groups.mergeSort fun a b => a.start ≤ b.start) = _
  rw [hgroups]
  rfl

/-! ## 2.  Tilings -/

/-- The number of bits in some groups. -/
def extent : List BitGroup → Int
  | [] => 0
  | g :: gs => g.length + extent gs

theorem extent_perm (h : gs.Perm groups) : extent gs = extent groups := by
  induction h with
  | nil => rfl
  | cons g _ ih => rw [extent, extent, ih]
  | swap a b l =>
    simp only [extent]
    exact Int.add_left_comm ..
  | trans _ _ ih ih' => exact ih.trans ih'

/-- Groups that cover a stretch of bits from a given one on, one behind the other, and do not reach
beyond a width. -/
structure Tiles (first : Int) (width : Nat) (gs : List BitGroup) : Prop where
  start : ∀ g ∈ gs.head?, g.start = first
  follow : gs.IsChain fun a b => b.start = a.start + a.length
  positive : ∀ g ∈ gs, 1 ≤ g.length
  fits : first + extent gs ≤ width

/-- The first group of a tiling is followed by a tiling. -/
theorem tiles_cons : Tiles first width (g :: gs) ↔
    g.start = first ∧ 1 ≤ g.length ∧ Tiles (g.start + g.length) width gs := by
  constructor
  · rintro ⟨hstart, hfollow, hpositive, hfits⟩
    obtain ⟨hnext, hfollow⟩ := List.isChain_cons.1 hfollow
    obtain ⟨hg, hpositive⟩ := List.forall_mem_cons.1 hpositive
    have hfirst : g.start = first := hstart g rfl
    rw [extent] at hfits
    exact ⟨hfirst, hg, hnext, hfollow, hpositive, by omega⟩
  · rintro ⟨rfl, hg, hstart, hfollow, hpositive, hfits⟩
    refine ⟨fun h hh => ?_, List.isChain_cons.2 ⟨hstart, hfollow⟩,
      List.forall_mem_cons.2 ⟨hg, hpositive⟩, ?_⟩
    · rw [← Option.some.inj hh]
    · rw [extent]
      omega

theorem Tiles.extent_nonneg (h : Tiles first width gs) : 0 ≤ extent gs := by
  induction gs generalizing first with
  | nil => exact Int.le_refl _
  | cons g gs ih =>
    obtain ⟨-, hpositive, hrest⟩ := tiles_cons.1 h
    have hextent := ih hrest
    rw [extent]
    omega

/-- **What the check finds**, when it has come to a bit within the width. -/
theorem checkFrom_eq_ok_iff {location : String} (hfirst : first ≤ width) :
    checkFrom location width first gs = .ok () ↔ Tiles first width gs := by
  induction gs generalizing first with
  | nil =>
    refine ⟨fun _ => ⟨by simp, .nil, by simp, by simpa [extent] using hfirst⟩, fun _ => rfl⟩
  | cons g gs ih =>
    rw [checkFrom, tiles_cons]
    by_cases hstart : g.start = first
    · by_cases hlength : 1 ≤ g.length ∧ g.start + g.length ≤ width
      · have hfits : ¬ (decide (g.length ≤ 0) || decide (↑width < g.start + g.length)) = true := by
          simp only [Bool.or_eq_true, decide_eq_true_eq]
          omega
        rw [if_neg (not_not.2 hstart), if_neg hfits, ih hlength.2]
        exact ⟨fun h => ⟨hstart, hlength.1, h⟩, fun h => h.2.2⟩
      · have hfits : (decide (g.length ≤ 0) || decide (↑width < g.start + g.length)) = true := by
          simp only [Bool.or_eq_true, decide_eq_true_eq]
          omega
        rw [if_neg (not_not.2 hstart), if_pos hfits]
        refine ⟨nofun, fun ⟨_, hpos, hrest⟩ => absurd ⟨hpos, ?_⟩ hlength⟩
        have hrestFits := hrest.fits
        have hrestExtent := hrest.extent_nonneg
        omega
    · rw [if_pos hstart]
      exact ⟨nofun, fun h => absurd h.1 hstart⟩

/-- What the check does not pass is reported as a layout that is not possible. -/
theorem checkFrom_error {location : String} {e : Failure}
    (h : checkFrom location width first gs = .error e) : ∃ problem, e = .bitfields problem := by
  induction gs generalizing first with
  | nil => cases h
  | cons g gs ih =>
    rw [checkFrom] at h
    split at h
    · exact ⟨_, (Except.error.inj h).symm⟩
    split at h
    · exact ⟨_, (Except.error.inj h).symm⟩
    · exact ih h

/-- Whether a bit belongs to a group. -/
def covers (bit : Int) (g : BitGroup) : Bool := g.start ≤ bit && bit < g.start + g.length

/-- **A bit belongs to exactly one group of a tiling**, if it lies in the stretch that is covered,
and to none otherwise. -/
theorem Tiles.countP_covers (h : Tiles first width gs) (bit : Int) :
    gs.countP (covers bit) =
      if first ≤ bit ∧ bit < first + extent gs then 1 else 0 := by
  induction gs generalizing first with
  | nil =>
    rw [if_neg]
    · rfl
    · rw [extent]
      omega
  | cons g gs ih =>
    obtain ⟨rfl, hpositive, hrest⟩ := tiles_cons.1 h
    have hextent := hrest.extent_nonneg
    rw [List.countP_cons, ih hrest, extent]
    simp only [covers, Bool.and_eq_true, decide_eq_true_eq]
    split_ifs <;> omega

/-! ## 3.  Sorting -/

/-- No group of a tiling starts in front of its first bit. -/
theorem Tiles.le_start (h : Tiles first width gs) (hg : g ∈ gs) : first ≤ g.start := by
  induction gs generalizing first with
  | nil => cases hg
  | cons a gs ih =>
    obtain ⟨rfl, hpositive, hrest⟩ := tiles_cons.1 h
    rcases List.mem_cons.1 hg with rfl | hg
    · exact Int.le_refl _
    · have := ih hrest hg
      omega

theorem Tiles.pairwise (h : Tiles first width gs) : gs.Pairwise fun a b => a.start < b.start := by
  induction gs generalizing first with
  | nil => exact .nil
  | cons g gs ih =>
    obtain ⟨rfl, hpositive, hrest⟩ := tiles_cons.1 h
    refine List.pairwise_cons.2 ⟨fun b hb => ?_, ih hrest⟩
    have := hrest.le_start hb
    omega

/-- **Sorting finds the tiling.** -/
theorem Tiles.mergeSort_eq (h : Tiles first width arranged) (hperm : arranged.Perm groups) :
    (groups.mergeSort fun a b => a.start ≤ b.start) = arranged := by
  have hsorted : (groups.mergeSort fun a b => a.start ≤ b.start).Pairwise fun a b =>
      (decide (a.start ≤ b.start)) = true :=
    List.pairwise_mergeSort
      (fun a b c hab hbc => by
        simp only [decide_eq_true_eq] at hab hbc ⊢
        omega)
      (fun a b => by simpa using Int.le_total a.start b.start) groups
  have hperm' := (List.mergeSort_perm groups fun a b => a.start ≤ b.start).trans hperm.symm
  refine List.Perm.eq_of_pairwise ?_ hsorted (h.pairwise.imp fun hab => ?_) hperm'
  · intro a b ha hb hab hba
    have hstart : a.start = b.start :=
      Int.le_antisymm (of_decide_eq_true hab) (of_decide_eq_true hba)
    have hstarts : (arranged.map BitGroup.start).Nodup := by
      rw [List.Nodup, List.pairwise_map]
      exact h.pairwise.imp Int.ne_of_lt
    exact List.inj_on_of_nodup_map hstarts (hperm'.mem_iff.1 ha) hb hstart
  · exact decide_eq_true (Int.le_of_lt hab)

/-! ## 4.  The groups of a field -/

/-- The ways in which a field may be carved up into groups.  There are no groups, or they are
arranged so that they tile the integer of a backing field. -/
inductive Carves (f : Field) (groups : List BitGroup) : List BitGroup → Prop
  | whole (hnone : groups = []) : Carves f groups []
  | tiled {arranged : List BitGroup} {integer : String} {width : Nat}
      (hname : f.name = backingField) (htype : f.type = .primitive (.str integer))
      (hwidth : (integer, width) ∈ TypeRef.integerWidths) (hperm : arranged.Perm groups)
      (htiles : Tiles 0 width arranged) : Carves f groups arranged

/-- The width of a type is that of the integer primitive that it is. -/
theorem integerWidth?_eq_some_iff {r : TypeRef} : r.integerWidth? = .ok (some width) ↔
    ∃ integer, r = .primitive (.str integer) ∧ (integer, width) ∈ TypeRef.integerWidths := by
  have hkeys : (Table.keys TypeRef.integerWidths).Nodup := by decide
  constructor
  · intro h
    unfold TypeRef.integerWidth? at h
    split at h
    · rename_i integer
      exact ⟨integer, rfl, (Table.mem_iff_lookup hkeys).2 (Except.ok.inj h)⟩
    · split at h
      · cases h
      · cases h
    · cases h
  · rintro ⟨integer, rfl, hmem⟩
    rw [TypeRef.integerWidth?, (Table.mem_iff_lookup hkeys).1 hmem]

variable {f : Field} {owner : String}

/-- Reading the groups that the attributes of a field describe. -/
theorem read_eq (h : List.Forall₂ Describes (f.attributes.filter isGroup) groups) :
    read owner f =
      if groups.isEmpty then .ok []
      else if f.name ≠ backingField then
        .error (.bitfields (.notBacking (owner ++ "." ++ f.name) backingField))
      else do
        match ← faulty f.type.integerWidth? with
        | none => throw (.bitfields (.notInteger (owner ++ "." ++ f.name)
            (← faulty f.type.fullName).text))
        | some width =>
          let sorted := groups.mergeSort fun a b => a.start ≤ b.start
          checkFrom (owner ++ "." ++ f.name) width 0 sorted
          return sorted := by
  have hempty : (groups.mergeSort fun a b => a.start ≤ b.start).isEmpty = groups.isEmpty :=
    (List.mergeSort_perm groups _).isEmpty_eq
  have hread : read owner f = (do
      let groups ← faulty (.ok (groups.mergeSort fun a b => a.start ≤ b.start))
      if groups.isEmpty then return []
      let location := owner ++ "." ++ f.name
      if f.name ≠ backingField then throw (.bitfields (.notBacking location backingField))
      match ← faulty f.type.integerWidth? with
      | none => throw (.bitfields (.notInteger location (← faulty f.type.fullName).text))
      | some width =>
        checkFrom location width 0 groups
        return groups) := by
    rw [← ofAttributes_eq h]
    rfl
  rw [hread]
  show (if (groups.mergeSort fun a b => a.start ≤ b.start).isEmpty then _ else _) = _
  rw [hempty]
  split
  · rfl
  · split
    · rfl
    · rfl

/-- What is read carves up the field. -/
theorem carves_of_read (h : List.Forall₂ Describes (f.attributes.filter isGroup) groups)
    (hread : read owner f = .ok arranged) : Carves f groups arranged := by
  rw [read_eq h] at hread
  split at hread
  · rename_i hnone
    obtain rfl := Except.ok.inj hread
    exact .whole (List.isEmpty_iff.1 hnone)
  split at hread
  · cases hread
  · rename_i hname
    obtain ⟨found, hfound, hread⟩ := Result.bind_eq_ok.1 hread
    rcases found with _ | width
    · obtain ⟨_, -, hread⟩ := Result.bind_eq_ok.1 hread
      cases hread
    · obtain ⟨⟨⟩, hcheck, hread⟩ := Result.bind_eq_ok.1 hread
      obtain rfl := Except.ok.inj hread
      obtain ⟨integer, htype, hwidth⟩ := integerWidth?_eq_some_iff.1 (Result.faulty_eq_ok.1 hfound)
      exact .tiled (not_not.1 hname) htype hwidth (List.mergeSort_perm _ _)
        ((checkFrom_eq_ok_iff (Int.natCast_nonneg width)).1 hcheck)

/-- What carves up a field is read. -/
theorem read_of_carves (h : List.Forall₂ Describes (f.attributes.filter isGroup) groups)
    (hcarves : Carves f groups arranged) : read owner f = .ok arranged := by
  rw [read_eq h]
  rcases hcarves with rfl | ⟨hname, htype, hwidth, hperm, htiles⟩
  · rfl
  · split
    · rename_i hnone
      obtain rfl := List.isEmpty_iff.1 hnone
      rw [hperm.eq_nil]
    · rw [if_neg (not_not.2 hname), integerWidth?_eq_some_iff.2 ⟨_, htype, hwidth⟩,
        htiles.mergeSort_eq hperm]
      refine Result.bind_eq_ok.2 ⟨_, rfl, Result.bind_eq_ok.2 ⟨(), ?_, rfl⟩⟩
      exact (checkFrom_eq_ok_iff (Int.natCast_nonneg _)).2 htiles

/-- Whatever else is not read is reported as a layout that is not possible. -/
theorem read_error (h : List.Forall₂ Describes (f.attributes.filter isGroup) groups)
    (htype : f.type.IsNamedByText) {e : Failure} (hread : read owner f = .error e) :
    ∃ problem, e = .bitfields problem := by
  have hwidth : ∃ width, f.type.integerWidth? = .ok width := by
    obtain ⟨n, hn⟩ := htype
    rcases ht : f.type with _ | name | _ | _ | _
    · exact ⟨_, rfl⟩
    · rw [ht] at hn
      obtain rfl : name = .str n := hn
      exact ⟨_, rfl⟩
    all_goals exact ⟨_, rfl⟩
  obtain ⟨fullName, hfullName⟩ := TypeRef.fullName_of_isNamedByText htype
  obtain ⟨found, hfound⟩ := hwidth
  rw [read_eq h, hfound, hfullName] at hread
  split at hread
  · cases hread
  split at hread
  · exact ⟨_, (Except.error.inj hread).symm⟩
  · rcases found with _ | width
    · exact ⟨_, (Except.error.inj hread).symm⟩
    · obtain hread | ⟨_, -, hread⟩ := Result.bind_eq_error.1
        (show (do checkFrom _ width 0 _; return _) = _ from hread)
      · exact checkFrom_error hread
      · cases hread

theorem exists_describes_of_perm {attributes attributes' : List Attribute}
    (h : List.Forall₂ Describes (attributes.filter isGroup) groups)
    (hperm : attributes'.Perm attributes) :
    ∃ groups', List.Forall₂ Describes (attributes'.filter isGroup) groups' ∧
      groups'.Perm groups :=
  List.perm_comp_forall₂ (hperm.filter isGroup) h

/-- A field is carved up into the same groups, whatever order they are listed in. -/
theorem carves_congr {f' : Field} {groups' : List BitGroup} (hname : f'.name = f.name)
    (htype : f'.type = f.type) (hperm : groups'.Perm groups) :
    Carves f' groups' arranged ↔ Carves f groups arranged := by
  constructor
  · rintro (rfl | ⟨hbacking, hinteger, hwidth, hp, htiles⟩)
    · exact .whole hperm.symm.eq_nil
    · exact .tiled (hname ▸ hbacking) (htype ▸ hinteger) hwidth (hp.trans hperm) htiles
  · rintro (rfl | ⟨hbacking, hinteger, hwidth, hp, htiles⟩)
    · exact .whole hperm.eq_nil
    · exact .tiled (hname.trans hbacking) (htype.trans hinteger) hwidth (hp.trans hperm.symm) htiles

/-- **Reading the groups of a field** whose attributes describe them.  It gives the ways in which
the groups carve up the field, and whatever does not carve it up is reported as a layout that is
not possible.  So each bit that is covered is in exactly one group, and what is read does not
depend on the order of the attributes. -/
theorem read_tiling (owner : String) (f : Field) (groups : List BitGroup)
    (h : List.Forall₂ Describes (f.attributes.filter isGroup) groups) :
    (∀ arranged, read owner f = .ok arranged ↔ Carves f groups arranged) ∧
    (f.type.IsNamedByText → (¬ ∃ arranged, Carves f groups arranged) →
      ∃ problem, read owner f = .error (.bitfields problem)) ∧
    (∀ arranged, Carves f groups arranged →
      ∀ bit, 0 ≤ bit → bit < extent groups → arranged.countP (covers bit) = 1) ∧
    (∀ f' : Field, f'.name = f.name → f'.type = f.type → f'.attributes.Perm f.attributes →
      ∀ arranged, read owner f' = .ok arranged ↔ read owner f = .ok arranged) := by
  have hread {arranged : List BitGroup} : read owner f = .ok arranged ↔ Carves f groups arranged :=
    ⟨carves_of_read h, read_of_carves h⟩
  refine ⟨fun _ => hread, fun htype hnone => ?_, fun arranged hcarves bit hbit hcovered => ?_,
    fun f' hname hftype hperm arranged => ?_⟩
  · rcases hresult : read owner f with e | arranged
    · obtain ⟨problem, rfl⟩ := read_error h htype hresult
      exact ⟨problem, rfl⟩
    · exact absurd ⟨arranged, hread.1 hresult⟩ hnone
  · rcases hcarves with rfl | ⟨-, -, -, hperm, htiles⟩
    · exact absurd hcovered (by simpa [extent] using hbit)
    · rw [← extent_perm hperm] at hcovered
      rw [htiles.countP_covers, if_pos ⟨hbit, by omega⟩]
  · obtain ⟨groups', h', hgroups⟩ := exists_describes_of_perm h hperm
    rw [hread, ← carves_congr hname hftype hgroups]
    exact ⟨carves_of_read h', read_of_carves h'⟩

/-- A group in front of the rest of a word. -/
def enabled : BitGroup := ⟨"Enabled", 0, 1⟩

/-- The rest of the word but for its last bit. -/
def reserved : BitGroup := ⟨"Reserved", 1, 14⟩

/-- The attribute that describes a group. -/
def described (g : BitGroup) : Attribute where
  typeName := .str bitfieldAttribute
  arguments := [.str g.name, .int g.start, .int g.length]

/-- A word of two groups, the last of which is listed first. -/
def word : Field where
  name := backingField
  type := .primitive (.str "UInt16")
  literal := none
  isSpecialName := false
  attributes := [described reserved, described enabled]

/-- The groups of the word are read from its first bit on, also when they are listed in this order.
Bit 14 belongs to one of them; and no field of another name has them. -/
theorem read_word :
    List.Forall₂ Describes (word.attributes.filter isGroup) [reserved, enabled] ∧
      read "STATE" word = .ok [enabled, reserved] ∧
      [enabled, reserved].countP (covers 14) = 1 ∧
      read "STATE" { word with attributes := [described enabled, described reserved] } =
        .ok [enabled, reserved] ∧
      ∃ problem, read "STATE" { word with name := "state" } = .error (.bitfields problem) := by
  have describes (g : BitGroup) : Describes (described g) g :=
    ⟨⟨_, rfl, rfl⟩, ⟨_, rfl, rfl⟩, ⟨_, rfl, rfl⟩⟩
  have hgroups : List.Forall₂ Describes (word.attributes.filter isGroup) [reserved, enabled] :=
    .cons (describes _) (.cons (describes _) .nil)
  have htiles : Tiles 0 16 [enabled, reserved] := by
    refine tiles_cons.2 ⟨rfl, by decide, tiles_cons.2 ⟨rfl, by decide, ?_⟩⟩
    exact ⟨by simp, .nil, by simp, by decide⟩
  have hcarves : Carves word [reserved, enabled] [enabled, reserved] :=
    .tiled rfl rfl (by decide) (.swap ..) htiles
  obtain ⟨hread, -, hbits, horder⟩ := read_tiling "STATE" word _ hgroups
  obtain ⟨-, hproblem, -, -⟩ := read_tiling "STATE" { word with name := "state" } _ hgroups
  refine ⟨hgroups, (hread _).2 hcarves, hbits _ hcarves 14 (by decide) (by decide),
    (horder { word with attributes := [described enabled, described reserved] } rfl rfl
      (List.Perm.swap ..) _).2 ((hread _).2 hcarves), hproblem ⟨_, rfl⟩ ?_⟩
  rintro ⟨_, hnone | ⟨hname, -, -, -, -⟩⟩
  · cases hnone
  · exact absurd hname (by decide)

end BitGroup

end ComHeaders
