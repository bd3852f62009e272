import DuckJeu.Core.Provider
import DuckJeu.Support.Table
import Mathlib.Data.List.Induction

/-!
# Grouping rows by identity

Rows whose judgments have one identity share one group.  The group keeps the
request of the first of them and the targets of all.
-/

namespace DuckJeu

/-- The output location of one scalar invocation. -/
structure RowTarget where
  functionInvocation : ℕ
  dataChunk : ℕ
  row : ℕ
  deriving DecidableEq

structure JudgmentWork where
  identity : JudgmentIdentity
  request : JudgmentRequest
  target : RowTarget

structure JudgmentGroup where
  identity : JudgmentIdentity
  request : JudgmentRequest
  targets : List RowTarget

/-- The rows of a group, each with the result of the group. -/
def JudgmentGroup.expand (group : JudgmentGroup) (result : JudgmentResult) :
    List (RowTarget × JudgmentResult) :=
  group.targets.map fun target => (target, result)

/-- The loop of `group_by_identity`: the groups so far and the position of
each identity among them. -/
structure Grouping where
  groups : List JudgmentGroup := []
  positions : Table.Map JudgmentIdentity ℕ := ∅

def Grouping.add (grouping : Grouping) (item : JudgmentWork) : Grouping :=
  match grouping.positions.lookup item.identity with
  | some index =>
      { grouping with
        groups := grouping.groups.modify index fun group =>
          { group with targets := group.targets ++ [item.target] } }
  | none =>
      { positions :=
          grouping.positions.insert item.identity grouping.groups.length
        groups := grouping.groups ++
          [{ identity := item.identity
             request := item.request
             targets := [item.target] }] }

/-- Group identical judgments, keeping every row target. -/
def groupByIdentity (work : List JudgmentWork) : List JudgmentGroup :=
  (work.foldl Grouping.add {}).groups

/-! ## What grouping keeps -/

/-- The groups made out of some work: the positions tell where each identity
is, every group comes from an item, and all rows are there. -/
structure Grouping.Sound (grouping : Grouping) (work : List JudgmentWork) :
    Prop where
  found : ∀ identity index, grouping.positions.lookup identity = some index →
    (grouping.groups.map JudgmentGroup.identity)[index]? = some identity
  positioned : ∀ identity ∈ grouping.groups.map JudgmentGroup.identity,
    grouping.positions.lookup identity ≠ none
  identities_nodup : (grouping.groups.map JudgmentGroup.identity).Nodup
  covered : ∀ item ∈ work,
    item.identity ∈ grouping.groups.map JudgmentGroup.identity
  source : ∀ group ∈ grouping.groups, ∃ item ∈ work,
    item.identity = group.identity ∧ item.request = group.request
  rows : ∀ value : JudgmentIdentity → JudgmentResult,
    (grouping.groups.flatMap fun group =>
      group.expand (value group.identity)).Perm
        (work.map fun item => (item.target, value item.identity))

theorem grouping_sound_nil : Grouping.Sound {} [] where
  found := by simp
  positioned := by simp
  identities_nodup := List.nodup_nil
  covered := by simp
  source := by simp
  rows := by simp

/-- An item whose identity is known changes one group, the one it joins. -/
theorem Grouping.Sound.split {grouping : Grouping} {work : List JudgmentWork}
    (h : grouping.Sound work) {item : JudgmentWork} {index : ℕ}
    (hlookup : grouping.positions.lookup item.identity = some index) :
    ∃ before group after, grouping.groups = before ++ group :: after ∧
      (grouping.add item).groups = before ++
        { group with targets := group.targets ++ [item.target] } :: after ∧
      group.identity = item.identity := by
  have hfound := h.found _ _ hlookup
  rw [List.getElem?_map] at hfound
  obtain ⟨group, hget, hidentity⟩ := Option.map_eq_some_iff.mp hfound
  obtain ⟨hlt, rfl⟩ := List.getElem?_eq_some_iff.mp hget
  refine ⟨grouping.groups.take index, _, grouping.groups.drop (index + 1),
    ?_, ?_, hidentity⟩
  · rw [← List.drop_eq_getElem_cons hlt, List.take_append_drop]
  · simp only [Grouping.add, hlookup]
    exact List.modify_eq_take_cons_drop hlt

/-- An item whose identity is known joins its group. -/
theorem Grouping.Sound.join {grouping : Grouping} {work : List JudgmentWork}
    (h : grouping.Sound work) {item : JudgmentWork} {index : ℕ}
    (hlookup : grouping.positions.lookup item.identity = some index) :
    (grouping.add item).Sound (work ++ [item]) := by
  obtain ⟨before, group, after, hgroups, hadded, hidentity⟩ :=
    h.split hlookup
  have hpositions : (grouping.add item).positions = grouping.positions := by
    simp only [Grouping.add, hlookup]
  have hidentities : (grouping.add item).groups.map JudgmentGroup.identity =
      grouping.groups.map JudgmentGroup.identity := by
    simp [hgroups, hadded]
  refine ⟨?_, ?_, ?_, ?_, ?_, ?_⟩
  · rw [hpositions, hidentities]
    exact h.found
  · rw [hpositions, hidentities]
    exact h.positioned
  · rw [hidentities]
    exact h.identities_nodup
  · rw [hidentities]
    intro other hother
    rcases List.mem_append.mp hother with hold | hnew
    · exact h.covered other hold
    · obtain rfl := List.mem_singleton.mp hnew
      rw [hgroups, ← hidentity]
      simp
  · intro other hother
    have hold : ∀ old ∈ grouping.groups, ∃ item' ∈ work ++ [item],
        item'.identity = old.identity ∧ item'.request = old.request := by
      intro old hmem
      obtain ⟨item', hitem', hsame⟩ := h.source old hmem
      exact ⟨item', List.mem_append_left _ hitem', hsame⟩
    rw [hadded] at hother
    rcases List.mem_append.mp hother with hmem | hmem
    · exact hold other (by simp [hgroups, hmem])
    · rcases List.mem_cons.mp hmem with rfl | hmem
      · exact hold group (by simp [hgroups])
      · exact hold other (by simp [hgroups, hmem])
  · intro value
    have hrows := h.rows value
    rw [hgroups] at hrows
    rw [hadded]
    simp only [List.flatMap_append, List.flatMap_cons, JudgmentGroup.expand,
      List.map_append, List.map_cons, List.map_nil] at hrows ⊢
    rw [hidentity] at hrows ⊢
    refine List.Perm.trans ?_ (hrows.append_right _)
    simp only [List.append_assoc]
    refine List.Perm.append_left _ (List.Perm.append_left _ ?_)
    exact List.perm_append_comm

/-- An item with a new identity opens a group. -/
theorem Grouping.Sound.open {grouping : Grouping} {work : List JudgmentWork}
    (h : grouping.Sound work) {item : JudgmentWork}
    (hlookup : grouping.positions.lookup item.identity = none) :
    (grouping.add item).Sound (work ++ [item]) := by
  have hgroups : (grouping.add item).groups = grouping.groups ++
      [{ identity := item.identity
         request := item.request
         targets := [item.target] }] := by
    simp only [Grouping.add, hlookup]
  have hpositions : (grouping.add item).positions =
      grouping.positions.insert item.identity grouping.groups.length := by
    simp only [Grouping.add, hlookup]
  have hidentities : (grouping.add item).groups.map JudgmentGroup.identity =
      grouping.groups.map JudgmentGroup.identity ++ [item.identity] := by
    simp [hgroups]
  have hnew : item.identity ∉ grouping.groups.map JudgmentGroup.identity :=
    fun hmem => h.positioned _ hmem hlookup
  refine ⟨?_, ?_, ?_, ?_, ?_, ?_⟩
  · intro identity index hfound
    rw [hpositions] at hfound
    rw [hidentities]
    by_cases hsame : identity = item.identity
    · subst hsame
      rw [AList.lookup_insert, Option.some.injEq] at hfound
      simp [← hfound]
    · rw [AList.lookup_insert_ne hsame] at hfound
      have hold := h.found identity index hfound
      rw [List.getElem?_append_left (List.getElem?_eq_some_iff.mp hold).1]
      exact hold
  · intro identity hmem
    rw [hpositions]
    rw [hidentities] at hmem
    by_cases hsame : identity = item.identity
    · subst hsame
      simp
    · rw [AList.lookup_insert_ne hsame]
      refine h.positioned identity ?_
      simpa [hsame] using hmem
  · rw [hidentities]
    exact List.nodup_append'.mpr
      ⟨h.identities_nodup, by simp, by simpa using hnew⟩
  · intro other hother
    rw [hidentities]
    rcases List.mem_append.mp hother with hold | hmem
    · exact List.mem_append_left _ (h.covered other hold)
    · obtain rfl := List.mem_singleton.mp hmem
      simp
  · intro other hother
    rw [hgroups] at hother
    rcases List.mem_append.mp hother with hold | hmem
    · obtain ⟨item', hitem', hsame⟩ := h.source other hold
      exact ⟨item', List.mem_append_left _ hitem', hsame⟩
    · obtain rfl := List.mem_singleton.mp hmem
      exact ⟨item, by simp, rfl, rfl⟩
  · intro value
    rw [hgroups, List.flatMap_append, List.map_append]
    exact (h.rows value).append_right _

theorem foldl_add_sound (work : List JudgmentWork) :
    (work.foldl Grouping.add {}).Sound work := by
  induction work using List.reverseRecOn with
  | nil => exact grouping_sound_nil
  | append_singleton work item ih =>
      rw [List.foldl_append]
      cases hlookup : (work.foldl Grouping.add {}).positions.lookup
          item.identity with
      | some index => exact ih.join hlookup
      | none => exact ih.open hlookup

theorem groupByIdentity_sound (work : List JudgmentWork) :
    ∃ grouping : Grouping, grouping.groups = groupByIdentity work ∧
      grouping.Sound work :=
  ⟨work.foldl Grouping.add {}, rfl, foldl_add_sound work⟩

/-- A target of a group is that of an item with the identity of the group. -/
theorem mem_targets_groupByIdentity {work : List JudgmentWork}
    {group : JudgmentGroup} (hgroup : group ∈ groupByIdentity work)
    {target : RowTarget} (htarget : target ∈ group.targets) :
    ∃ item ∈ work, item.target = target ∧ item.identity = group.identity := by
  obtain ⟨grouping, hgroups, hsound⟩ := groupByIdentity_sound work
  -- values which tell this identity from all others
  have hrows := hsound.rows fun identity =>
    if identity = group.identity then .noul .one else .noul .zero
  rw [hgroups] at hrows
  have hmem : (target, JudgmentResult.noul .one) ∈
      work.map fun item => (item.target,
        if item.identity = group.identity then JudgmentResult.noul .one
        else .noul .zero) := by
    refine hrows.mem_iff.mp (List.mem_flatMap.mpr ⟨group, hgroup, ?_⟩)
    simpa [JudgmentGroup.expand] using htarget
  obtain ⟨item, hitem, hpair⟩ := List.mem_map.mp hmem
  obtain ⟨htarget', hvalue⟩ := Prod.mk.inj hpair
  refine ⟨item, hitem, htarget', ?_⟩
  by_contra hother
  rw [if_neg hother] at hvalue
  exact absurd hvalue (by decide)

/-- The groups have the targets of all items. -/
theorem targets_groupByIdentity (work : List JudgmentWork) :
    ((groupByIdentity work).flatMap JudgmentGroup.targets).Perm
      (work.map JudgmentWork.target) := by
  obtain ⟨grouping, hgroups, hsound⟩ := groupByIdentity_sound work
  have hrows := (hsound.rows fun _ => .noul .zero).map Prod.fst
  rw [hgroups, List.map_flatMap, List.map_map] at hrows
  simpa [JudgmentGroup.expand, Function.comp_def] using hrows

end DuckJeu
