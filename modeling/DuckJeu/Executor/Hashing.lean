import DuckJeu.Executor.Grouping
import Mathlib.Tactic.Linarith

/-!
# Grouping with a hash map

The positions of the groups are kept in a hash map.  This module runs the loop
over a hash map with an arbitrary hash function, and describes its groups by
the rows alone.
-/

namespace DuckJeu

/-! ## The groups in terms of the rows -/

/-- The groups made out of some work, item by item: identities stand in the
order of their first occurrence, and each group has the request of the first
item with its identity and the targets of all of them. -/
structure Grouping.Exact (grouping : Grouping) (work : List JudgmentWork) :
    Prop where
  ordered : (grouping.groups.map JudgmentGroup.identity).Pairwise
    fun identity identity' =>
      (work.map JudgmentWork.identity).idxOf identity <
        (work.map JudgmentWork.identity).idxOf identity'
  first : ∀ group ∈ grouping.groups,
    (work.find? fun item => item.identity = group.identity).map
      JudgmentWork.request = some group.request
  targets : ∀ group ∈ grouping.groups, group.targets =
    (work.filter fun item => item.identity = group.identity).map
      JudgmentWork.target

theorem grouping_exact_nil : Grouping.Exact {} [] where
  ordered := by simp
  first := by simp
  targets := by simp

section Step

variable {grouping : Grouping} {work : List JudgmentWork}

theorem Grouping.Sound.mem_work (h : grouping.Sound work)
    {identity : JudgmentIdentity}
    (hmem : identity ∈ grouping.groups.map JudgmentGroup.identity) :
    identity ∈ work.map JudgmentWork.identity := by
  obtain ⟨group, hgroup, rfl⟩ := List.mem_map.mp hmem
  obtain ⟨item, hitem, hidentity, -⟩ := h.source group hgroup
  exact List.mem_map.mpr ⟨item, hitem, hidentity⟩

/-- One more item does not change where known identities occurred first. -/
theorem Grouping.Exact.ordered_append (h : grouping.Exact work)
    (hsound : grouping.Sound work) (item : JudgmentWork) :
    (grouping.groups.map JudgmentGroup.identity).Pairwise
      fun identity identity' =>
        ((work ++ [item]).map JudgmentWork.identity).idxOf identity <
          ((work ++ [item]).map JudgmentWork.identity).idxOf identity' := by
  refine List.Pairwise.imp_of_mem ?_ h.ordered
  intro identity identity' hmem hmem' hlt
  rw [List.map_append, List.idxOf_append_of_mem (hsound.mem_work hmem),
    List.idxOf_append_of_mem (hsound.mem_work hmem')]
  exact hlt

theorem Grouping.Exact.first_append (h : grouping.Exact work)
    (item : JudgmentWork) {group : JudgmentGroup}
    (hgroup : group ∈ grouping.groups) :
    ((work ++ [item]).find? fun item => item.identity = group.identity).map
      JudgmentWork.request = some group.request := by
  have hfirst := h.first group hgroup
  obtain ⟨found, hfound, -⟩ := Option.map_eq_some_iff.mp hfirst
  rw [List.find?_append, hfound, Option.some_or, ← hfound]
  exact hfirst

/-- The item joins the group of its identity and no other one. -/
theorem Grouping.Exact.join (h : grouping.Exact work)
    (hsound : grouping.Sound work) {item : JudgmentWork} {index : ℕ}
    (hlookup : grouping.positions.lookup item.identity = some index) :
    (grouping.add item).Exact (work ++ [item]) := by
  obtain ⟨before, group, after, hgroups, hadded, hidentity⟩ :=
    hsound.split hlookup
  have hidentities : (grouping.add item).groups.map JudgmentGroup.identity =
      grouping.groups.map JudgmentGroup.identity := by
    simp [hgroups, hadded]
  have hnodup := hsound.identities_nodup
  rw [hgroups, List.map_append, List.map_cons] at hnodup
  have hother : ∀ other ∈ before ++ after,
      other.identity ≠ item.identity := by
    intro other hmem hsame
    have hgroup := (List.nodup_middle.mp hnodup)
    rw [List.nodup_cons, ← List.map_append] at hgroup
    exact hgroup.1 (List.mem_map.mpr ⟨other, hmem, hsame.trans hidentity.symm⟩)
  have hmem : ∀ other ∈ before ++ after, other ∈ grouping.groups := by
    intro other hmem
    rw [hgroups]
    simp only [List.mem_append, List.mem_cons] at hmem ⊢
    tauto
  have hjoined : group ∈ grouping.groups := by simp [hgroups]
  have hcases : ∀ other ∈ (grouping.add item).groups,
      other = { group with targets := group.targets ++ [item.target] } ∨
        other ∈ before ++ after := by
    intro other hmem
    rw [hadded] at hmem
    simp only [List.mem_append, List.mem_cons] at hmem ⊢
    tauto
  refine ⟨?_, ?_, ?_⟩
  · rw [hidentities]
    exact h.ordered_append hsound item
  · intro other hgroup
    rcases hcases other hgroup with rfl | hold
    · have hfirst := h.first_append item hjoined
      exact hfirst
    · exact h.first_append item (hmem other hold)
  · intro other hgroup
    rcases hcases other hgroup with rfl | hold
    · have htargets := h.targets group hjoined
      rw [hidentity] at htargets
      simp [List.filter_append, hidentity, htargets]
    · have htargets := h.targets other (hmem other hold)
      have hnot : item.identity ≠ other.identity :=
        fun hsame => hother other hold hsame.symm
      simp [List.filter_append, hnot, htargets]

/-- An item with a new identity opens the last group. -/
theorem Grouping.Exact.open (h : grouping.Exact work)
    (hsound : grouping.Sound work) {item : JudgmentWork}
    (hlookup : grouping.positions.lookup item.identity = none) :
    (grouping.add item).Exact (work ++ [item]) := by
  have hgroups : (grouping.add item).groups = grouping.groups ++
      [{ identity := item.identity
         request := item.request
         targets := [item.target] }] := by
    simp only [Grouping.add, hlookup]
  have hnew : item.identity ∉ work.map JudgmentWork.identity := by
    intro hmem
    obtain ⟨old, hold, hsame⟩ := List.mem_map.mp hmem
    have hgroup := hsound.covered old hold
    rw [hsame] at hgroup
    exact hsound.positioned _ hgroup hlookup
  have hnone : ∀ old ∈ work, old.identity ≠ item.identity :=
    fun old hold hsame => hnew (List.mem_map.mpr ⟨old, hold, hsame⟩)
  refine ⟨?_, ?_, ?_⟩
  · have hidentities : (grouping.add item).groups.map JudgmentGroup.identity =
        grouping.groups.map JudgmentGroup.identity ++ [item.identity] := by
      simp [hgroups]
    rw [hidentities, List.pairwise_append]
    refine ⟨h.ordered_append hsound item, by simp, ?_⟩
    intro identity hmem identity' hmem'
    have hknown := hsound.mem_work hmem
    obtain rfl : identity' = item.identity := by simpa using hmem'
    rw [List.map_append, List.idxOf_append_of_mem hknown,
      List.idxOf_append_of_notMem hnew]
    exact (List.idxOf_lt_length_iff.mpr hknown).trans_le (Nat.le_add_right _ _)
  · intro group hgroup
    rw [hgroups] at hgroup
    rcases List.mem_append.mp hgroup with hold | hlast
    · exact h.first_append item hold
    · obtain rfl := List.mem_singleton.mp hlast
      have hfind : (work.find? fun old => old.identity = item.identity) =
          none := by
        simpa using hnone
      simp [List.find?_append, hfind]
  · intro group hgroup
    rw [hgroups] at hgroup
    rcases List.mem_append.mp hgroup with hold | hlast
    · have htargets := h.targets group hold
      obtain ⟨old, hmem, hsame, -⟩ := hsound.source group hold
      have hnot : item.identity ≠ group.identity :=
        fun heq => hnone old hmem (hsame.trans heq.symm)
      simp [List.filter_append, hnot, htargets]
    · obtain rfl := List.mem_singleton.mp hlast
      have hfilter : (work.filter fun old => old.identity = item.identity) =
          [] := by
        simpa using hnone
      simp [List.filter_append, hfilter]

end Step

theorem foldl_add_exact (work : List JudgmentWork) :
    (work.foldl Grouping.add {}).Exact work := by
  induction work using List.reverseRecOn with
  | nil => exact grouping_exact_nil
  | append_singleton work item ih =>
      have hsound := foldl_add_sound work
      rw [List.foldl_append]
      cases hlookup : (work.foldl Grouping.add {}).positions.lookup
          item.identity with
      | some index => exact ih.join hsound hlookup
      | none => exact ih.open hsound hlookup

/-! ## The loop over a hash map -/

section Hashed

variable [Hashable JudgmentIdentity]

/-- The loop of `group_by_identity` over a hash map. -/
structure HashedGrouping where
  groups : List JudgmentGroup := []
  positions : Std.HashMap JudgmentIdentity ℕ := {}

def HashedGrouping.add (grouping : HashedGrouping) (item : JudgmentWork) :
    HashedGrouping :=
  match grouping.positions[item.identity]? with
  | some index =>
      { grouping with
        groups := grouping.groups.modify index fun group =>
          { group with targets := group.targets ++ [item.target] } }
  | none =>
      { positions :=
          grouping.positions.insert item.identity grouping.groups.length
        groups := grouping.groups ++
          [{ identity := item.identity
             request := item.request
             targets := [item.target] }] }

def groupByIdentityHashed (work : List JudgmentWork) : List JudgmentGroup :=
  (work.foldl HashedGrouping.add {}).groups

/-- The hash map holds what the table holds. -/
structure HashedGrouping.Represents (hashed : HashedGrouping)
    (grouping : Grouping) : Prop where
  groups_eq : hashed.groups = grouping.groups
  positions_eq : ∀ identity,
    hashed.positions[identity]? = grouping.positions.lookup identity

theorem HashedGrouping.Represents.add {hashed : HashedGrouping}
    {grouping : Grouping} (h : hashed.Represents grouping)
    (item : JudgmentWork) :
    (hashed.add item).Represents (grouping.add item) := by
  have hposition := h.positions_eq item.identity
  cases hlookup : grouping.positions.lookup item.identity with
  | some index =>
      rw [hlookup] at hposition
      constructor
      · simp only [HashedGrouping.add, Grouping.add, hposition, hlookup,
          h.groups_eq]
      · simpa only [HashedGrouping.add, Grouping.add, hposition, hlookup]
          using h.positions_eq
  | none =>
      rw [hlookup] at hposition
      constructor
      · simp only [HashedGrouping.add, Grouping.add, hposition, hlookup,
          h.groups_eq]
      · intro identity
        simp only [HashedGrouping.add, Grouping.add, hposition, hlookup,
          h.groups_eq]
        by_cases hsame : identity = item.identity
        · subst hsame
          simp
        · have hother : item.identity ≠ identity := fun heq => hsame heq.symm
          simp [Std.HashMap.getElem?_insert, hother,
            AList.lookup_insert_ne hsame, h.positions_eq identity]

/-- No hash function changes the groups. -/
theorem groupByIdentityHashed_eq (work : List JudgmentWork) :
    groupByIdentityHashed work = groupByIdentity work := by
  have hrun : (work.foldl HashedGrouping.add {}).Represents
      (work.foldl Grouping.add {}) := by
    induction work using List.reverseRecOn with
    | nil => exact ⟨rfl, by simp⟩
    | append_singleton work item ih =>
        rw [List.foldl_append, List.foldl_append]
        exact ih.add item
  exact hrun.groups_eq

end Hashed

/-- Grouping over a hash map with any hash function: the groups have the
distinct identities of the rows, in the order of their first occurrence, each
with the request of the first row of its identity and the targets of all its
rows in order; and the targets of all groups together are those of the rows. -/
theorem groupByIdentityHashed_exact (hash : Hashable JudgmentIdentity)
    (work : List JudgmentWork) :
    let groups := groupByIdentityHashed work
    (groups.map JudgmentGroup.identity).Nodup ∧
      (∀ identity, identity ∈ groups.map JudgmentGroup.identity ↔
        identity ∈ work.map JudgmentWork.identity) ∧
      ((groups.map JudgmentGroup.identity).Pairwise
        fun identity identity' =>
          (work.map JudgmentWork.identity).idxOf identity <
            (work.map JudgmentWork.identity).idxOf identity') ∧
      (∀ group ∈ groups,
        (work.find? fun item => item.identity = group.identity).map
            JudgmentWork.request = some group.request ∧
          group.targets =
            (work.filter fun item => item.identity = group.identity).map
              JudgmentWork.target) ∧
      (groups.flatMap JudgmentGroup.targets).Perm
        (work.map JudgmentWork.target) := by
  intro groups
  have hsound := foldl_add_sound work
  have hexact := foldl_add_exact work
  have hgroups : groups = (work.foldl Grouping.add {}).groups :=
    groupByIdentityHashed_eq work
  rw [hgroups]
  refine ⟨hsound.identities_nodup, fun identity => ⟨hsound.mem_work, ?_⟩,
    hexact.ordered, ?_, targets_groupByIdentity work⟩
  · intro hmem
    obtain ⟨item, hitem, rfl⟩ := List.mem_map.mp hmem
    exact hsound.covered item hitem
  · intro group hgroup
    exact ⟨hexact.first group hgroup, hexact.targets group hgroup⟩

end DuckJeu
