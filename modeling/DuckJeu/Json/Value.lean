import Mathlib.Data.List.Induction
import Mathlib.Data.List.Nodup
import Mathlib.Data.String.Basic

/-!
# JSON values

A JSON value over an arbitrary type of numbers.  The members of an object are
a list of names and values.  Two readings of such a list are used: as it
stands in a text, where a name may be repeated, and as an ordered map, where
names increase and a later insertion replaces an earlier one.  `collapse`
leads from the first reading to the second.
-/

namespace Json

variable {β ν : Type}

/-! ## Members of an object -/

/-- Names with their values. -/
abbrev Members (β : Type) := List (String × β)

namespace Members

def names (members : Members β) : List String := members.map Prod.fst

/-- The value under the first occurrence of a name. -/
def get? (name : String) : Members β → Option β
  | [] => none
  | (other, value) :: rest =>
      if other = name then some value else get? name rest

/-- Insert into an ordered map; a value under the name is replaced. -/
def insert (name : String) (value : β) : Members β → Members β
  | [] => [(name, value)]
  | (other, old) :: rest =>
      if name < other then (name, value) :: (other, old) :: rest
      else if name = other then (name, value) :: rest
      else (other, old) :: insert name value rest

/-- The ordered map which results from inserting the entries in turn. -/
def ofEntries (entries : Members β) : Members β :=
  entries.foldl (fun members entry => members.insert entry.1 entry.2) []

/-- The names increase. -/
def Sorted (members : Members β) : Prop := members.names.Pairwise (· < ·)

@[simp] theorem names_nil : names ([] : Members β) = [] := rfl

@[simp] theorem names_cons (name : String) (value : β) (rest : Members β) :
    names ((name, value) :: rest) = name :: rest.names := rfl

@[simp] theorem get?_nil (name : String) :
    get? name ([] : Members β) = none := rfl

theorem get?_cons (name other : String) (value : β) (rest : Members β) :
    get? name ((other, value) :: rest) =
      if other = name then some value else get? name rest := rfl

theorem get?_insert (name other : String) (value : β) (members : Members β) :
    get? other (members.insert name value) =
      if name = other then some value else get? other members := by
  induction members with
  | nil => rfl
  | cons entry rest ih =>
      obtain ⟨present, old⟩ := entry
      by_cases hlt : name < present
      · rw [insert, if_pos hlt, get?_cons]
      · by_cases heq : name = present
        · subst heq
          rw [insert, if_neg hlt, if_pos rfl, get?_cons, get?_cons]
          by_cases hother : name = other
          · rw [if_pos hother, if_pos hother]
          · rw [if_neg hother, if_neg hother, if_neg hother]
        · rw [insert, if_neg hlt, if_neg heq, get?_cons, ih, get?_cons]
          by_cases hother : present = other
          · have hne : name ≠ other := fun h => heq (h.trans hother.symm)
            rw [if_pos hother, if_neg hne, if_pos hother]
          · rw [if_neg hother, if_neg hother]

theorem mem_names_insert {name other : String} {value : β}
    {members : Members β} :
    other ∈ (members.insert name value).names ↔
      other = name ∨ other ∈ members.names := by
  induction members with
  | nil => simp [insert, names]
  | cons entry rest ih =>
      obtain ⟨present, old⟩ := entry
      by_cases hlt : name < present
      · rw [insert, if_pos hlt, names_cons, List.mem_cons]
      · by_cases heq : name = present
        · subst heq
          rw [insert, if_neg hlt, if_pos rfl, names_cons, names_cons,
            List.mem_cons]
          tauto
        · rw [insert, if_neg hlt, if_neg heq, names_cons, names_cons,
            List.mem_cons, ih, List.mem_cons]
          tauto

theorem Sorted.insert {members : Members β} (h : members.Sorted)
    (name : String) (value : β) : (members.insert name value).Sorted := by
  induction members with
  | nil => exact List.pairwise_singleton _ _
  | cons entry rest ih =>
      obtain ⟨present, old⟩ := entry
      obtain ⟨hpresent, hrest⟩ := List.pairwise_cons.mp h
      by_cases hlt : name < present
      · rw [Members.insert, if_pos hlt]
        refine List.pairwise_cons.mpr ⟨?_, h⟩
        intro other hother
        rcases List.mem_cons.mp hother with rfl | hother
        · exact hlt
        · exact hlt.trans (hpresent other hother)
      · by_cases heq : name = present
        · subst heq
          rw [Members.insert, if_neg hlt, if_pos rfl]
          exact h
        · rw [Members.insert, if_neg hlt, if_neg heq]
          refine List.pairwise_cons.mpr ⟨?_, ih hrest⟩
          intro other hother
          rcases mem_names_insert.mp hother with rfl | hother
          · exact lt_of_le_of_ne (not_lt.mp hlt) (Ne.symm heq)
          · exact hpresent other hother

theorem get?_isSome {name : String} {members : Members β} :
    (get? name members).isSome ↔ name ∈ members.names := by
  induction members with
  | nil => simp [names]
  | cons entry rest ih =>
      obtain ⟨other, value⟩ := entry
      rw [get?_cons, names_cons, List.mem_cons]
      by_cases hother : other = name
      · simp [hother]
      · rw [if_neg hother, ih]
        simp [Ne.symm hother]

theorem get?_mem {name : String} {value : β} {members : Members β}
    (h : get? name members = some value) : (name, value) ∈ members := by
  induction members with
  | nil => cases h
  | cons entry rest ih =>
      obtain ⟨other, present⟩ := entry
      rw [get?_cons] at h
      by_cases hother : other = name
      · rw [if_pos hother, Option.some.injEq] at h
        rw [hother, h]
        exact List.mem_cons_self ..
      · rw [if_neg hother] at h
        exact List.mem_cons_of_mem _ (ih h)

/-- Ordered maps with the same values under all names are equal. -/
theorem Sorted.ext {members members' : Members β} (h : members.Sorted)
    (h' : members'.Sorted)
    (hget : ∀ name, get? name members = get? name members') :
    members = members' := by
  induction members generalizing members' with
  | nil =>
      cases members' with
      | nil => rfl
      | cons entry rest =>
          obtain ⟨name, value⟩ := entry
          have hfirst := hget name
          simp [get?_cons] at hfirst
  | cons entry rest ih =>
      obtain ⟨name, value⟩ := entry
      cases members' with
      | nil =>
          have hfirst := hget name
          simp [get?_cons] at hfirst
      | cons entry' rest' =>
          obtain ⟨name', value'⟩ := entry'
          obtain ⟨hname, hrest⟩ := List.pairwise_cons.mp h
          obtain ⟨hname', hrest'⟩ := List.pairwise_cons.mp h'
          -- each first name is the least of its own map
          have hle : ∀ other ∈ names ((name, value) :: rest), name ≤ other := by
            intro other hother
            rcases List.mem_cons.mp hother with rfl | hother
            · exact le_refl _
            · exact (hname other hother).le
          have hle' : ∀ other ∈ names ((name', value') :: rest'),
              name' ≤ other := by
            intro other hother
            rcases List.mem_cons.mp hother with rfl | hother
            · exact le_refl _
            · exact (hname' other hother).le
          have hmem : name ∈ names ((name', value') :: rest') := by
            rw [← get?_isSome, ← hget name]
            simp [get?_cons]
          have hmem' : name' ∈ names ((name, value) :: rest) := by
            rw [← get?_isSome, hget name']
            simp [get?_cons]
          obtain rfl : name = name' :=
            le_antisymm (hle name' hmem') (hle' name hmem)
          have hvalue : value = value' := by
            have hfirst := hget name
            simpa [get?_cons] using hfirst
          have htail : rest = rest' := by
            refine ih hrest hrest' fun other => ?_
            by_cases hother : name = other
            · subst hother
              have hnot : ¬ (get? name rest).isSome := fun hsome =>
                (hname name (get?_isSome.mp hsome)).false
              have hnot' : ¬ (get? name rest').isSome := fun hsome =>
                (hname' name (get?_isSome.mp hsome)).false
              simp only [Option.not_isSome_iff_eq_none] at hnot hnot'
              rw [hnot, hnot']
            · have hfirst := hget other
              rwa [get?_cons, get?_cons, if_neg hother, if_neg hother] at hfirst
          rw [hvalue, htail]

theorem get?_map {γ : Type} (f : β → γ) (name : String)
    (members : Members β) :
    get? name (members.map fun member => (member.1, f member.2)) =
      (get? name members).map f := by
  induction members with
  | nil => rfl
  | cons member rest ih =>
      rw [List.map_cons, get?_cons, ih, ← Prod.mk.eta (p := member), get?_cons]
      by_cases hname : member.1 = name
      · rw [if_pos hname, if_pos hname, Option.map_some]
      · rw [if_neg hname, if_neg hname]

/-! ### Maps built from entries -/

theorem ofEntries_concat (entries : Members β) (entry : String × β) :
    ofEntries (entries ++ [entry]) =
      (ofEntries entries).insert entry.1 entry.2 := by
  simp [ofEntries]

theorem sorted_ofEntries (entries : Members β) :
    (ofEntries entries).Sorted := by
  induction entries using List.reverseRecOn with
  | nil => exact List.Pairwise.nil
  | append_singleton entries entry ih =>
      rw [ofEntries_concat]
      exact ih.insert entry.1 entry.2

/-- The last entry under a name counts. -/
theorem get?_ofEntries (entries : Members β) (name : String) :
    get? name (ofEntries entries) = get? name entries.reverse := by
  induction entries using List.reverseRecOn with
  | nil => rfl
  | append_singleton entries entry ih =>
      rw [ofEntries_concat, get?_insert, ih, List.reverse_append,
        List.reverse_singleton, List.singleton_append, get?_cons]

theorem mem_names_ofEntries {entries : Members β} {name : String} :
    name ∈ (ofEntries entries).names ↔ name ∈ entries.names := by
  rw [← get?_isSome, get?_ofEntries, get?_isSome, names, names,
    List.map_reverse, List.mem_reverse]

theorem Sorted.nodup {members : Members β} (h : members.Sorted) :
    members.names.Nodup := by
  have hne : members.names.Pairwise (· ≠ ·) := h.imp fun hlt => hlt.ne
  exact hne

/-- With distinct names nothing is lost. -/
theorem ofEntries_names_perm {entries : Members β}
    (hnodup : entries.names.Nodup) :
    (ofEntries entries).names.Perm entries.names := by
  refine (List.perm_ext_iff_of_nodup (sorted_ofEntries entries).nodup
    hnodup).mpr fun name => ?_
  exact mem_names_ofEntries

/-- With distinct names every entry can be looked up. -/
theorem get?_of_mem {members : Members β} (hnodup : members.names.Nodup)
    {name : String} {value : β} (hmem : (name, value) ∈ members) :
    get? name members = some value := by
  induction members with
  | nil => cases hmem
  | cons entry rest ih =>
      obtain ⟨other, present⟩ := entry
      obtain ⟨hfresh, hrest⟩ := List.nodup_cons.mp hnodup
      rw [get?_cons]
      rcases List.mem_cons.mp hmem with heq | hmem
      · obtain ⟨rfl, rfl⟩ := Prod.mk.inj heq
        rw [if_pos rfl]
      · have hne : other ≠ name := by
          rintro rfl
          exact hfresh (List.mem_map.mpr ⟨_, hmem, rfl⟩)
        rw [if_neg hne]
        exact ih hrest hmem

theorem get?_ofEntries_of_mem {entries : Members β}
    (hnodup : entries.names.Nodup) {name : String} {value : β}
    (hmem : (name, value) ∈ entries) :
    get? name (ofEntries entries) = some value := by
  have hreverse : (names entries.reverse).Nodup := by
    rw [names, List.map_reverse]
    exact List.nodup_reverse.mpr hnodup
  rw [get?_ofEntries]
  exact get?_of_mem hreverse (List.mem_reverse.mpr hmem)

/-- Entries which are already an ordered map stay as they are. -/
theorem ofEntries_of_sorted {entries : Members β} (h : entries.Sorted) :
    ofEntries entries = entries := by
  refine (sorted_ofEntries entries).ext h fun name => ?_
  cases hget : get? name entries with
  | some value => exact get?_ofEntries_of_mem h.nodup (get?_mem hget)
  | none =>
      have hnot : ¬ (get? name (ofEntries entries)).isSome := by
        rw [get?_isSome, mem_names_ofEntries, ← get?_isSome, hget]
        simp
      exact Option.not_isSome_iff_eq_none.mp hnot

/-- The order of distinct entries does not matter. -/
theorem ofEntries_perm {entries entries' : Members β}
    (hnodup : entries.names.Nodup) (hperm : entries.Perm entries') :
    ofEntries entries = ofEntries entries' := by
  have hnodup' : entries'.names.Nodup := (hperm.map Prod.fst).nodup hnodup
  refine (sorted_ofEntries entries).ext (sorted_ofEntries entries') ?_
  intro name
  cases hget : get? name entries with
  | some value =>
      have hmem : (name, value) ∈ entries := get?_mem hget
      rw [get?_ofEntries_of_mem hnodup hmem,
        get?_ofEntries_of_mem hnodup' (hperm.mem_iff.mp hmem)]
  | none =>
      have hnot : name ∉ entries.names := by
        rw [← get?_isSome, hget]
        simp
      have hnot' : name ∉ entries'.names := fun hmem =>
        hnot ((hperm.map Prod.fst).mem_iff.mpr hmem)
      have hempty : ∀ members : Members β, name ∉ members.names →
          get? name (ofEntries members) = none := by
        intro members hmissing
        rw [← mem_names_ofEntries, ← get?_isSome] at hmissing
        exact Option.not_isSome_iff_eq_none.mp hmissing
      rw [hempty entries hnot, hempty entries' hnot']

theorem mem_insert {name : String} {value : β} {member : String × β}
    {members : Members β} (h : member ∈ members.insert name value) :
    member = (name, value) ∨ member ∈ members := by
  induction members with
  | nil => exact Or.inl (List.mem_singleton.mp h)
  | cons entry rest ih =>
      obtain ⟨present, old⟩ := entry
      by_cases hlt : name < present
      · rw [insert, if_pos hlt] at h
        exact List.mem_cons.mp h
      · by_cases heq : name = present
        · rw [insert, if_neg hlt, if_pos heq] at h
          exact (List.mem_cons.mp h).imp_right (List.mem_cons_of_mem _)
        · rw [insert, if_neg hlt, if_neg heq] at h
          rcases List.mem_cons.mp h with hfirst | hrest
          · exact Or.inr (hfirst ▸ List.mem_cons_self ..)
          · exact (ih hrest).imp_right (List.mem_cons_of_mem _)

/-- Nothing but the entries gets into the map. -/
theorem mem_of_mem_ofEntries {entries : Members β} {member : String × β}
    (h : member ∈ ofEntries entries) : member ∈ entries := by
  induction entries using List.reverseRecOn with
  | nil => exact absurd h List.not_mem_nil
  | append_singleton entries entry ih =>
      rw [ofEntries_concat] at h
      rcases mem_insert h with heq | hmem
      · exact List.mem_append_right _ (List.mem_singleton.mpr heq)
      · exact List.mem_append_left _ (ih hmem)

end Members

/-! ## Values -/

/-- A JSON value with numbers from `ν`. -/
inductive Value (ν : Type) where
  | null
  | bool (b : Bool)
  | number (n : ν)
  | string (s : String)
  | array (items : List (Value ν))
  | object (members : List (String × Value ν))

namespace Value

/-- A member of an object; other values have no members. -/
def get (name : String) : Value ν → Option (Value ν)
  | .object members => Members.get? name members
  | _ => none

def asObject : Value ν → Option (Members (Value ν))
  | .object members => some members
  | _ => none

def asString : Value ν → Option String
  | .string s => some s
  | _ => none

def asNumber : Value ν → Option ν
  | .number n => some n
  | _ => none

mutual

/-- What a text denotes: in every object the last of repeated members. -/
def collapse : Value ν → Value ν
  | .array items => .array (collapseItems items)
  | .object members => .object (Members.ofEntries (collapseMembers members))
  | v => v

def collapseItems : List (Value ν) → List (Value ν)
  | [] => []
  | item :: rest => collapse item :: collapseItems rest

def collapseMembers : List (String × Value ν) → List (String × Value ν)
  | [] => []
  | (name, value) :: rest => (name, collapse value) :: collapseMembers rest

end

theorem collapseMembers_eq_map (members : List (String × Value ν)) :
    collapseMembers members =
      members.map fun member => (member.1, member.2.collapse) := by
  induction members with
  | nil => rfl
  | cons member rest ih =>
      rw [collapseMembers, ih]
      rfl

/-- The value which a name denotes in the syntax tree of an object: that of
its last occurrence. -/
def last? (name : String) : Value ν → Option (Value ν)
  | .object members => Members.get? name members.reverse
  | _ => none

theorem get_collapse (name : String) (v : Value ν) :
    v.collapse.get name = (last? name v).map collapse := by
  cases v with
  | object members =>
      rw [collapse, get, last?, Members.get?_ofEntries,
        collapseMembers_eq_map, ← List.map_reverse, Members.get?_map]
  | _ => rfl

theorem collapse_eq_string {v : Value ν} {s : String} :
    v.collapse = .string s ↔ v = .string s := by
  cases v <;> simp [collapse]

theorem collapse_eq_number {v : Value ν} {n : ν} :
    v.collapse = .number n ↔ v = .number n := by
  cases v <;> simp [collapse]

end Value

end Json
