import DuckJeu.Executor.Steps

/-!
# The claim loop of a batch

A batched call first claims the entries of all its groups.  Those it owns and
finds in the cache are completed at once.  Those it owns and does not find
become leaders, and stay open until the requests are sent.
-/

namespace DuckJeu

open Effects

variable {call : Call}

/-! ## Open leaders -/

/-- A leader stands for an entry which the call owns. -/
structure Call.Leads (call : Call) (h : History) (leader : Leader) : Prop where
  mem : leader.group ∈ call.groups
  key : leader.cacheKey = call.cacheKey leader.group
  claim : ⟨leader.group.identity, leader.entry, true⟩ ∈ claims h

theorem Call.Leads.mono {h h' : History} {leader : Leader}
    (hleads : call.Leads h leader) (hsuffix : h <:+ h') :
    call.Leads h' leader :=
  ⟨hleads.mem, hleads.key, claims_subset hsuffix hleads.claim⟩

/-- The groups `done` have their results, the leaders `pending` are open, and
the followers wait for others. -/
structure Call.Pending (call : Call) (h : History)
    (done : List (JudgmentGroup × JudgmentResult)) (pending : List Leader)
    (followers : List Follower) : Prop where
  permits_zero : permits h = 0
  answered : ∀ a ∈ done, Answered h a.1.identity a.2
  leads : ∀ leader ∈ pending, call.Leads h leader
  uncompleted : ∀ leader ∈ pending, ¬ Completed h leader.entry
  distinct : (pending.map Leader.entry).Nodup
  shared : ∀ follower ∈ followers,
    ⟨follower.group.identity, follower.entry, false⟩ ∈ claims h
  covered : ∀ claim ∈ ownedClaims h,
    Completed h claim.entry ∨ claim.entry ∈ pending.map Leader.entry
  succeeded : ∀ c ∈ completions h, ∃ result, c.2 = .ok result
  claimed : ∀ c ∈ completions h, ∃ claim ∈ claims h, claim.entry = c.1

/-- No identity was sent twice, not even if those of `unsent` are sent. -/
def Unsent (h : History) (unsent : List Leader) : Prop :=
  (carriedIn h ++ unsent.map fun leader => leader.group.identity).Subperm
    (ownedIdentities h)

section Pending

variable {h h' : History} {done : List (JudgmentGroup × JudgmentResult)}
  {pending pending' : List Leader} {followers : List Follower}

theorem pending_nil : call.Pending [] [] [] [] where
  permits_zero := rfl
  answered := by simp
  leads := by simp
  uncompleted := by simp
  distinct := List.nodup_nil
  shared := by simp
  covered := by simp [ownedClaims, claims]
  succeeded := by simp [completions]
  claimed := by simp [completions]

theorem Call.Pending.perm (hpending : call.Pending h done pending followers)
    (hperm : pending.Perm pending') :
    call.Pending h done pending' followers where
  permits_zero := hpending.permits_zero
  answered := hpending.answered
  leads := fun leader hmem => hpending.leads leader (hperm.mem_iff.mpr hmem)
  uncompleted := fun leader hmem =>
    hpending.uncompleted leader (hperm.mem_iff.mpr hmem)
  distinct := (hperm.map Leader.entry).nodup_iff.mp hpending.distinct
  shared := hpending.shared
  covered := fun claim hclaim => (hpending.covered claim hclaim).imp_right
    (hperm.map Leader.entry).mem_iff.mp
  succeeded := hpending.succeeded
  claimed := hpending.claimed

theorem Unsent.perm (hunsent : Unsent h pending)
    (hperm : pending.Perm pending') : Unsent h pending' :=
  ((List.Perm.append_left _ (hperm.map _)).symm.subperm).trans hunsent

/-- With no leader open, nothing is left to do but to wait. -/
theorem Call.Pending.ready (hpending : call.Pending h done [] followers)
    (hunsent : Unsent h []) : Ready h where
  permits_zero := hpending.permits_zero
  completed := fun claim hclaim => by
    simpa using hpending.covered claim hclaim
  succeeded := hpending.succeeded
  claimed := hpending.claimed
  carry := by simpa [Unsent] using hunsent

theorem Call.Pending.allCompleted
    (hpending : call.Pending h done [] followers) : AllCompleted h :=
  fun claim hclaim => by simpa using hpending.covered claim hclaim

theorem Call.Pending.not_completed
    (hpending : call.Pending h done pending followers) {entry : ℕ}
    (hfresh : ∀ claim ∈ claims h, claim.entry ≠ entry) :
    ¬ Completed h entry := by
  rintro ⟨outcome, hmem⟩
  obtain ⟨claim, hclaim, hentry⟩ := hpending.claimed _ hmem
  exact hfresh claim hclaim hentry

/-- Claims and requests alone close no leader. -/
theorem Call.Pending.grown (hpending : call.Pending h done pending followers)
    {claimed : List Claim} {ds : List Dispatch}
    (hgrown : Grown h h' claimed [] ds)
    (hshared : ∀ claim ∈ claimed, claim.owned = false)
    (hpermits : permits h' = 0) : call.Pending h' done pending followers where
  permits_zero := hpermits
  answered := fun a ha => (hpending.answered a ha).mono hgrown.suffix
  leads := fun leader hmem => (hpending.leads leader hmem).mono hgrown.suffix
  uncompleted := by
    intro leader hmem hcompleted
    refine hpending.uncompleted leader hmem ?_
    simpa using (hgrown.completed_iff leader.entry).mp hcompleted
  distinct := hpending.distinct
  shared := fun follower hmem =>
    claims_subset hgrown.suffix (hpending.shared follower hmem)
  covered := by
    intro claim hclaim
    rw [hgrown.ownedClaims_eq, List.filter_eq_nil_iff.mpr (by
      simpa using hshared), List.nil_append] at hclaim
    exact (hpending.covered claim hclaim).imp_left fun hcompleted =>
      hcompleted.mono hgrown.suffix
  succeeded := by
    rw [hgrown.completions_eq]
    exact hpending.succeeded
  claimed := by
    rw [hgrown.completions_eq]
    intro c hc
    obtain ⟨claim, hclaim, hentry⟩ := hpending.claimed c hc
    exact ⟨claim, claims_subset hgrown.suffix hclaim, hentry⟩

/-- A follower claims nothing for itself. -/
theorem Call.Pending.follow (hpending : call.Pending h done pending followers)
    (follower : Follower)
    (hgrown : Grown h h' [⟨follower.group.identity, follower.entry, false⟩] []
      []) (hpermits : permits h' = 0) :
    call.Pending h' done pending (followers ++ [follower]) :=
  { hpending.grown hgrown (by simp) hpermits with
    shared := by
      intro f hf
      rcases List.mem_append.mp hf with hf | hf
      · exact claims_subset hgrown.suffix (hpending.shared f hf)
      · obtain rfl := List.mem_singleton.mp hf
        simp [hgrown.claims_eq] }

/-- A new entry is open. -/
theorem Call.Pending.lead (hpending : call.Pending h done pending followers)
    (leader : Leader) (hmem : leader.group ∈ call.groups)
    (hkey : leader.cacheKey = call.cacheKey leader.group)
    (hgrown : Grown h h' [⟨leader.group.identity, leader.entry, true⟩] [] [])
    (hfresh : ∀ claim ∈ claims h, claim.entry ≠ leader.entry)
    (hpermits : permits h' = 0) :
    call.Pending h' done (leader :: pending) followers where
  permits_zero := hpermits
  answered := fun a ha => (hpending.answered a ha).mono hgrown.suffix
  leads := by
    intro l hl
    rcases List.mem_cons.mp hl with rfl | hl
    · exact ⟨hmem, hkey, by simp [hgrown.claims_eq]⟩
    · exact (hpending.leads l hl).mono hgrown.suffix
  uncompleted := by
    intro l hl hcompleted
    have hold : Completed h l.entry := by
      simpa using (hgrown.completed_iff l.entry).mp hcompleted
    rcases List.mem_cons.mp hl with rfl | hl
    · exact hpending.not_completed hfresh hold
    · exact hpending.uncompleted l hl hold
  distinct := by
    refine List.nodup_cons.mpr ⟨?_, hpending.distinct⟩
    intro hentry
    obtain ⟨l, hl, heq⟩ := List.mem_map.mp hentry
    exact hfresh _ (hpending.leads l hl).claim heq
  shared := fun follower hf =>
    claims_subset hgrown.suffix (hpending.shared follower hf)
  covered := by
    intro claim hclaim
    rw [hgrown.ownedClaims_eq] at hclaim
    rcases List.mem_append.mp hclaim with hnew | hold
    · obtain rfl : claim = ⟨leader.group.identity, leader.entry, true⟩ := by
        simpa using hnew
      exact Or.inr (by simp)
    · rcases hpending.covered claim hold with hcompleted | hopen
      · exact Or.inl (hcompleted.mono hgrown.suffix)
      · exact Or.inr (List.mem_cons_of_mem _ hopen)
  succeeded := by
    rw [hgrown.completions_eq]
    exact hpending.succeeded
  claimed := by
    rw [hgrown.completions_eq]
    intro c hc
    obtain ⟨claim, hclaim, hentry⟩ := hpending.claimed c hc
    exact ⟨claim, claims_subset hgrown.suffix hclaim, hentry⟩

/-- An open leader gets its result. -/
theorem Call.Pending.complete {leader : Leader}
    (hpending : call.Pending h done (leader :: pending) followers)
    (result : JudgmentResult)
    (hgrown : Grown h h' [] [(leader.entry, .ok result)] [])
    (hpermits : permits h' = 0) :
    call.Pending h' (done ++ [(leader.group, result)]) pending followers where
  permits_zero := hpermits
  answered := by
    intro a ha
    rcases List.mem_append.mp ha with ha | ha
    · exact (hpending.answered a ha).mono hgrown.suffix
    · obtain rfl := List.mem_singleton.mp ha
      have hleads := hpending.leads leader (List.mem_cons_self ..)
      refine ⟨leader.entry, Or.inl
        ⟨claims_subset hgrown.suffix hleads.claim, ?_⟩⟩
      simp [hgrown.firstCompletion_eq
        (hpending.uncompleted leader (List.mem_cons_self ..))]
  leads := fun l hl =>
    (hpending.leads l (List.mem_cons_of_mem _ hl)).mono hgrown.suffix
  uncompleted := by
    intro l hl hcompleted
    rcases (hgrown.completed_iff l.entry).mp hcompleted with hnew | hold
    · have hentry : l.entry = leader.entry := by simpa using hnew
      refine (List.nodup_cons.mp hpending.distinct).1 ?_
      exact hentry ▸ List.mem_map_of_mem hl
    · exact hpending.uncompleted l (List.mem_cons_of_mem _ hl) hold
  distinct := (List.nodup_cons.mp hpending.distinct).2
  shared := fun follower hf =>
    claims_subset hgrown.suffix (hpending.shared follower hf)
  covered := by
    intro claim hclaim
    rw [hgrown.completed_iff]
    have hold : claim ∈ ownedClaims h := by
      simpa [hgrown.ownedClaims_eq] using hclaim
    rcases hpending.covered claim hold with hcompleted | hopen
    · exact Or.inl (Or.inr hcompleted)
    · rcases List.mem_cons.mp hopen with hentry | hopen
      · exact Or.inl (Or.inl ⟨.ok result, by simp [hentry]⟩)
      · exact Or.inr hopen
  succeeded := by
    rw [hgrown.completions_eq]
    intro c hc
    rcases List.mem_cons.mp hc with rfl | hc
    · exact ⟨result, rfl⟩
    · exact hpending.succeeded c hc
  claimed := by
    rw [hgrown.completions_eq]
    intro c hc
    rcases List.mem_cons.mp hc with rfl | hc
    · have hleads := hpending.leads leader (List.mem_cons_self ..)
      exact ⟨_, claims_subset hgrown.suffix hleads.claim, rfl⟩
    · obtain ⟨claim, hclaim, hentry⟩ := hpending.claimed c hc
      exact ⟨claim, claims_subset hgrown.suffix hclaim, hentry⟩

theorem Unsent.lead (hunsent : Unsent h pending) (leader : Leader)
    (hgrown : Grown h h' [⟨leader.group.identity, leader.entry, true⟩] [] []) :
    Unsent h' (leader :: pending) := by
  unfold Unsent at hunsent ⊢
  rw [hgrown.carriedIn_eq, ownedIdentities, hgrown.ownedClaims_eq]
  refine List.perm_middle.subperm.trans ?_
  exact (List.subperm_append_left [leader.group.identity]).mpr hunsent

theorem Unsent.grown (hunsent : Unsent h pending) {claimed : List Claim}
    {completed : List (ℕ × Outcome)}
    (hgrown : Grown h h' claimed completed []) :
    Unsent h' pending := by
  unfold Unsent at hunsent ⊢
  rw [hgrown.carriedIn_eq, ownedIdentities, hgrown.ownedClaims_eq,
    List.map_append]
  exact hunsent.trans (List.sublist_append_right _ _).subperm

theorem Unsent.tail {leader : Leader} (hunsent : Unsent h (leader :: pending)) :
    Unsent h pending :=
  (List.Sublist.append_left (List.sublist_cons_self _ _) _).subperm.trans
    hunsent

end Pending

/-! ## Partitions -/

/-- Placing a leader adds it to the partitions. -/
theorem place_flatten (leader : Leader) (partitions : List (List Leader)) :
    (place leader partitions).flatten.Perm
      (partitions.flatten ++ [leader]) := by
  induction partitions with
  | nil => exact List.Perm.refl _
  | cons partition rest ih =>
      unfold place
      split
      · simpa using
          (List.perm_append_singleton leader rest.flatten).symm.append_left
            partition
      · simpa using ih.append_left partition

/-! ## The loop -/

/-- What holds in the claim loop after the groups `seen`. -/
structure Call.Claiming (call : Call) (h : History) (seen : List JudgmentGroup)
    (claimed : Claimed) (done : List (JudgmentGroup × JudgmentResult)) :
    Prop where
  pending : call.Pending h done claimed.leaders claimed.followers
  output : claimed.output = done.flatMap fun a => a.1.expand a.2
  grouped : (done.map Prod.fst ++ (claimed.leaders.map Leader.group ++
    claimed.followers.map Follower.group)).Perm seen
  partitions : claimed.partitions.flatten.Perm claimed.leaders
  unsent : Unsent h claimed.leaders
  policy : claimed.leaders ≠ [] → call.PolicyValid
  gates : ∀ group ∈ seen, call.provider.gate group.request = true

theorem claiming_nil : call.Claiming [] [] {} [] where
  pending := pending_nil
  output := rfl
  grouped := List.Perm.refl _
  partitions := List.Perm.refl _
  unsent := List.Subperm.refl _
  policy := fun h => absurd rfl h
  gates := by simp

/-- A group outside the capabilities stops the loop: with a leader open, its
entry stays behind. -/
theorem Call.Claiming.post_gate {h : History} {seen : List JudgmentGroup}
    {claimed : Claimed} {done : List (JudgmentGroup × JudgmentResult)}
    (hclaiming : call.Claiming h seen claimed done)
    (hmode : ∃ maxJudgments order, call.mode = .batched maxJudgments order)
    (hrejected : ¬ call.Rejected)
    {group : JudgmentGroup} {rest : List JudgmentGroup}
    (hgroups : call.groups = seen ++ group :: rest)
    (hgate : call.provider.gate group.request = false)
    (error : JudgmentError) : call.Post (.error error) h := by
  refine ⟨hclaiming.pending.permits_zero, ?_, Or.inr (Or.inl ?_)⟩
  · cases hleaders : claimed.leaders with
    | nil =>
        have hpending := hclaiming.pending
        rw [hleaders] at hpending
        exact Or.inl hpending.allCompleted
    | cons leader leaders =>
        have hmem : leader ∈ claimed.leaders := by simp [hleaders]
        refine Or.inr (Or.inr ⟨hmode, hrejected,
          hclaiming.policy (by simp [hleaders]),
          seen, group, rest, hgroups, hclaiming.gates, hgate, leader.group,
          hclaiming.grouped.mem_iff.mp ?_, leader.entry,
          (hclaiming.pending.leads leader hmem).claim⟩)
        simp only [List.mem_append]
        exact Or.inr (Or.inl (List.mem_map_of_mem hmem))
  · intro hcleared
    obtain ⟨maxJudgments, order, hbatched⟩ := hmode
    have := hcleared maxJudgments order hbatched group (by simp [hgroups])
    simp [hgate] at this

/-- One round of the claim loop. -/
theorem claimGroup_secures {h : History} {seen : List JudgmentGroup}
    {claimed : Claimed} {done : List (JudgmentGroup × JudgmentResult)}
    (hclaiming : call.Claiming h seen claimed done)
    (hmode : ∃ maxJudgments order, call.mode = .batched maxJudgments order)
    (hrejected : ¬ call.Rejected)
    {group : JudgmentGroup} {rest : List JudgmentGroup}
    (hgroups : call.groups = seen ++ group :: rest) :
    Secures call.protocol
      (claimGroup call.provider call.limits call.cachePolicy claimed group)
      (fun claimed' h' => ∃ done',
        call.Claiming h' (seen ++ [group]) claimed' done')
      (fun error h' => call.Post (.error error) h') h := by
  have hgroup : group ∈ call.groups := by simp [hgroups]
  unfold claimGroup
  split
  · rename_i hkind
    rw [secures_throw]
    exact hclaiming.post_gate hmode hrejected hgroups
      (by simp [Provider.gate, hkind]) _
  split
  · rename_i hchoices
    rw [secures_throw]
    exact hclaiming.post_gate hmode hrejected hgroups
      (by simp_all [Provider.gate]) _
  rename_i hkind hchoices
  have hgate : call.provider.gate group.request = true := by
    simp_all [Provider.gate]
  have hgates : ∀ g ∈ seen ++ [group], call.provider.gate g.request = true := by
    intro g hg
    rcases List.mem_append.mp hg with hg | hg
    · exact hclaiming.gates g hg
    · rwa [List.mem_singleton.mp hg]
  refine claimed_secures hclaiming.pending.permits_zero hgroup
    (fun entry owned => rfl) ?_ ?_
  · intro entry owned flag h₁ hgrown₁ hzero hfresh
    cases owned with
    | false =>
        refine ⟨done,
          { hclaiming with
            pending := hclaiming.pending.follow
              ⟨group, entry, flag⟩ hgrown₁ hzero
            grouped := ?_
            unsent := hclaiming.unsent.grown hgrown₁
            gates := hgates }⟩
        simpa using hclaiming.grouped.append_right [group]
    | true =>
        have hlead := hclaiming.pending.lead
          ⟨group, entry, call.cacheKey group⟩ hgroup rfl hgrown₁
          (hfresh rfl) hzero
        have hunsent := hclaiming.unsent.lead
          ⟨group, entry, call.cacheKey group⟩ hgrown₁
        rw [if_pos rfl, secures_bind]
        refine (consultCache_secures hgroup
          (hlead.leads _ (List.mem_cons_self ..)).claim).mono ?_ ?_
        · rintro found h₂ ⟨hsame, hfound⟩
          cases found with
          | some result =>
              refine ⟨done ++ [(group, result)],
                { pending := hlead.complete result hfound (hsame.trans hzero)
                  output := by simp [hclaiming.output]
                  grouped := ?_
                  partitions := hclaiming.partitions
                  unsent := hunsent.tail.grown hfound
                  policy := hclaiming.policy
                  gates := hgates }⟩
              refine List.Perm.trans ?_ (hclaiming.grouped.append_right [group])
              simp only [List.map_append, List.map_cons, List.map_nil,
                List.append_assoc]
              exact List.Perm.append_left _
                (List.perm_append_comm.trans (by simp))
          | none =>
              obtain ⟨hgrown₂, hpolicy⟩ := hfound
              have hperm : ((⟨group, entry, call.cacheKey group⟩ : Leader) ::
                  claimed.leaders).Perm (claimed.leaders ++
                    [⟨group, entry, call.cacheKey group⟩]) :=
                (List.perm_append_singleton _ _).symm
              refine ⟨done,
                { pending := (hlead.grown hgrown₂ (by simp)
                    (hsame.trans hzero)).perm hperm
                  output := hclaiming.output
                  grouped := ?_
                  partitions := ?_
                  unsent := (hunsent.grown hgrown₂).perm hperm
                  policy := fun _ => hpolicy
                  gates := hgates }⟩
              · refine List.Perm.trans ?_
                  (hclaiming.grouped.append_right [group])
                simp only [List.map_append, List.map_cons, List.map_nil,
                  List.append_assoc]
                exact List.Perm.append_left _ (List.Perm.append_left _
                  List.perm_append_comm)
              · exact (place_flatten _ _).trans
                  (hclaiming.partitions.append_right _)
        · rintro error h₂ ⟨hsame, hgrown₂, hinvalid⟩
          refine ⟨hsame.trans hzero, Or.inl ?_,
            Or.inr (Or.inr (Or.inl hinvalid))⟩
          have hleaders : claimed.leaders = [] := by
            by_contra hne
            exact hinvalid (hclaiming.policy hne)
          have hpending := hclaiming.pending
          rw [hleaders] at hpending
          exact hpending.allCompleted.owned (hgrown₁.trans hgrown₂)
            ⟨.error error, by simp⟩
  · intro error h' hzero hrefused
    exact ⟨hzero, Or.inr (Or.inl hrefused),
      Or.inr (Or.inr (Or.inr (Or.inr hrefused.troubled)))⟩

/-- The whole claim loop. -/
theorem claimGroups_secures {h : History} {seen rest : List JudgmentGroup}
    {claimed : Claimed} {done : List (JudgmentGroup × JudgmentResult)}
    (hclaiming : call.Claiming h seen claimed done)
    (hmode : ∃ maxJudgments order, call.mode = .batched maxJudgments order)
    (hrejected : ¬ call.Rejected)
    (hgroups : call.groups = seen ++ rest) :
    Secures call.protocol
      (claimGroups call.provider call.limits call.cachePolicy claimed rest)
      (fun claimed' h' => ∃ done',
        call.Claiming h' call.groups claimed' done')
      (fun error h' => call.Post (.error error) h') h := by
  induction rest generalizing h seen claimed done with
  | nil =>
      rw [List.append_nil] at hgroups
      exact ⟨done, hgroups ▸ hclaiming⟩
  | cons group rest ih =>
      rw [claimGroups, secures_bind]
      refine (claimGroup_secures hclaiming hmode hrejected hgroups).mono ?_
        (fun _ _ hpost => hpost)
      rintro claimed' h' ⟨done', hclaiming'⟩
      exact ih hclaiming' (by simp [hgroups])

end DuckJeu
