import DuckJeu.Json.Value

/-!
# Objects without repeated names

In a value whose objects repeat no name, a member is what its name denotes,
and the order of the members does not matter.  Members may also be selected
and changed name by name before or after the object is read as a map.
-/

namespace Json

variable {ν : Type}

namespace Members

variable {β γ : Type}

/-- Change the values, name by name. -/
def mapValues (f : String → β → γ) (members : Members β) : Members γ :=
  members.map fun member => (member.1, f member.1 member.2)

/-- The members with these names. -/
def restrict (known : List String) (members : Members β) : Members β :=
  members.filter fun member => member.1 ∈ known

@[simp] theorem names_mapValues (f : String → β → γ) (members : Members β) :
    (mapValues f members).names = members.names := by
  simp [mapValues, names, Function.comp_def]

@[simp] theorem length_mapValues (f : String → β → γ) (members : Members β) :
    (mapValues f members).length = members.length :=
  List.length_map _

theorem get?_mapValues (f : String → β → γ) (name : String)
    (members : Members β) :
    get? name (mapValues f members) = (get? name members).map (f name) := by
  induction members with
  | nil => rfl
  | cons member rest ih =>
      obtain ⟨other, value⟩ := member
      rw [mapValues, List.map_cons, get?_cons, get?_cons]
      by_cases hname : other = name
      · rw [if_pos hname, if_pos hname, Option.map_some, hname]
      · rw [if_neg hname, if_neg hname]
        exact ih

theorem get?_restrict {known : List String} {name : String}
    (h : name ∈ known) (members : Members β) :
    get? name (restrict known members) = get? name members := by
  induction members with
  | nil => rfl
  | cons member rest ih =>
      obtain ⟨other, value⟩ := member
      by_cases hother : other ∈ known
      · rw [restrict, List.filter_cons_of_pos (by simpa using hother),
          get?_cons, get?_cons, ← ih]
        rfl
      · have hne : other ≠ name := fun heq => hother (heq ▸ h)
        rw [restrict, List.filter_cons_of_neg (by simpa using hother),
          get?_cons, if_neg hne, ← ih]
        rfl

theorem get?_restrict_of_not_mem {known : List String} {name : String}
    (h : name ∉ known) (members : Members β) :
    get? name (restrict known members) = none := by
  have hmissing : name ∉ (restrict known members).names := by
    intro hmem
    obtain ⟨member, hmember, rfl⟩ := List.mem_map.mp hmem
    exact h (by simpa using List.of_mem_filter hmember)
  rw [← get?_isSome] at hmissing
  exact Option.not_isSome_iff_eq_none.mp hmissing

theorem Sorted.restrict {members : Members β} (h : members.Sorted)
    (known : List String) : (members.restrict known).Sorted :=
  List.Pairwise.sublist (List.filter_sublist.map Prod.fst) h

theorem Sorted.mapValues {members : Members β} (h : members.Sorted)
    (f : String → β → γ) : (members.mapValues f).Sorted := by
  rw [Sorted, names_mapValues]
  exact h

/-- Selecting members and reading them as a map commute. -/
theorem ofEntries_restrict (known : List String) (entries : Members β) :
    ofEntries (restrict known entries) =
      restrict known (ofEntries entries) := by
  refine (sorted_ofEntries _).ext ((sorted_ofEntries _).restrict known) ?_
  intro name
  have hreverse : (restrict known entries).reverse =
      restrict known entries.reverse := List.filter_reverse.symm
  rw [get?_ofEntries, hreverse]
  by_cases hname : name ∈ known
  · rw [get?_restrict hname, get?_restrict hname, get?_ofEntries]
  · rw [get?_restrict_of_not_mem hname, get?_restrict_of_not_mem hname]

/-- Changing values and reading the members as a map commute. -/
theorem ofEntries_mapValues (f : String → β → γ) (entries : Members β) :
    ofEntries (mapValues f entries) = mapValues f (ofEntries entries) := by
  refine (sorted_ofEntries _).ext ((sorted_ofEntries _).mapValues f) ?_
  intro name
  have hreverse : (mapValues f entries).reverse =
      mapValues f entries.reverse := List.map_reverse.symm
  rw [get?_ofEntries, hreverse, get?_mapValues, get?_mapValues,
    get?_ofEntries]

end Members

namespace Value

/-! ## Distinct names -/

/-- No object of the value repeats a name. -/
inductive DistinctNames : Value ν → Prop where
  | null : DistinctNames .null
  | bool (b : Bool) : DistinctNames (.bool b)
  | number (n : ν) : DistinctNames (.number n)
  | string (s : String) : DistinctNames (.string s)
  | array {items : List (Value ν)}
      (hitems : ∀ item ∈ items, DistinctNames item) :
      DistinctNames (.array items)
  | object {members : Members (Value ν)} (hnames : members.names.Nodup)
      (hmembers : ∀ member ∈ members, DistinctNames member.2) :
      DistinctNames (.object members)

theorem distinctNames_array {items : List (Value ν)} :
    DistinctNames (.array items) ↔ ∀ item ∈ items, DistinctNames item := by
  constructor
  · intro h
    cases h with
    | array hitems => exact hitems
  · exact DistinctNames.array

theorem distinctNames_object {members : Members (Value ν)} :
    DistinctNames (.object members) ↔ members.names.Nodup ∧
      ∀ member ∈ members, DistinctNames member.2 := by
  constructor
  · intro h
    cases h with
    | object hnames hmembers => exact ⟨hnames, hmembers⟩
  · intro h
    exact .object h.1 h.2

/-- Without repeated names, what a name denotes is the member itself. -/
theorem last?_eq_some_iff {members : Members (Value ν)}
    (hnames : members.names.Nodup) {name : String} {value : Value ν} :
    last? name (.object members) = some value ↔ (name, value) ∈ members := by
  have hreverse : Members.names members.reverse =
      members.names.reverse := List.map_reverse
  constructor
  · intro h
    exact List.mem_reverse.mp (Members.get?_mem h)
  · intro h
    refine Members.get?_of_mem ?_ (List.mem_reverse.mpr h)
    rw [hreverse]
    exact List.nodup_reverse.mpr hnames

/-! ## Reordering -/

/-- The same value up to the order of the members of its objects. -/
inductive Reordered : Value ν → Value ν → Prop where
  | refl (v : Value ν) : Reordered v v
  | trans {u v w : Value ν} : Reordered u v → Reordered v w → Reordered u w
  | members {members members' : Members (Value ν)} :
      members.Perm members' → Reordered (.object members) (.object members')
  | member {before after : Members (Value ν)} {name : String}
      {v v' : Value ν} : Reordered v v' →
      Reordered (.object (before ++ (name, v) :: after))
        (.object (before ++ (name, v') :: after))
  | item {before after : List (Value ν)} {v v' : Value ν} :
      Reordered v v' →
      Reordered (.array (before ++ v :: after))
        (.array (before ++ v' :: after))

theorem collapseItems_eq_map (items : List (Value ν)) :
    collapseItems items = items.map collapse := by
  induction items with
  | nil => rfl
  | cons item rest ih =>
      rw [collapseItems, ih]
      rfl

/-- Reordering repeats no name and changes nothing. -/
theorem Reordered.collapse_eq {v v' : Value ν} (h : Reordered v v')
    (hv : DistinctNames v) : DistinctNames v' ∧ v'.collapse = v.collapse := by
  induction h with
  | refl v => exact ⟨hv, rfl⟩
  | trans hfirst hsecond ih ih' =>
      obtain ⟨hmiddle, hsame⟩ := ih hv
      obtain ⟨hlast, hsame'⟩ := ih' hmiddle
      exact ⟨hlast, hsame'.trans hsame⟩
  | @members members members' hperm =>
      obtain ⟨hnames, hvalues⟩ := distinctNames_object.mp hv
      have hnames' : (Members.names members').Nodup :=
        (hperm.map Prod.fst).nodup hnames
      constructor
      · exact distinctNames_object.mpr
          ⟨hnames', fun member hmem => hvalues member (hperm.mem_iff.mpr hmem)⟩
      · have hcollapsed : (Members.names (collapseMembers members)).Nodup := by
          rw [collapseMembers_eq_map]
          simpa [Members.names, Function.comp_def] using hnames
        rw [collapse, collapse]
        congr 1
        refine (Members.ofEntries_perm hcollapsed ?_).symm
        rw [collapseMembers_eq_map, collapseMembers_eq_map]
        exact hperm.map _
  | @member before after name u u' hvalue ih =>
      obtain ⟨hnames, hvalues⟩ := distinctNames_object.mp hv
      obtain ⟨hdistinct, hsame⟩ := ih (hvalues (name, u) (by simp))
      constructor
      · refine distinctNames_object.mpr ⟨?_, ?_⟩
        · simpa [Members.names] using hnames
        · intro member hmem
          rcases List.mem_append.mp hmem with hbefore | hmem
          · exact hvalues member (by simp [hbefore])
          rcases List.mem_cons.mp hmem with rfl | hafter
          · exact hdistinct
          · exact hvalues member (by simp [hafter])
      · simp [collapse, collapseMembers_eq_map, hsame]
  | @item before after u u' hvalue ih =>
      have hitems := distinctNames_array.mp hv
      obtain ⟨hdistinct, hsame⟩ := ih (hitems u (by simp))
      constructor
      · refine distinctNames_array.mpr fun item hmem => ?_
        rcases List.mem_append.mp hmem with hbefore | hmem
        · exact hitems item (by simp [hbefore])
        rcases List.mem_cons.mp hmem with rfl | hafter
        · exact hdistinct
        · exact hitems item (by simp [hafter])
      · simp [collapse, collapseItems_eq_map, hsame]

end Value

end Json
