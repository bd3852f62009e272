import DuckJeu.Executor.Progress

/-!
# Completion of owned entries

A call completes every entry it owns before it returns, with one exception.  A
batched call checks the capabilities group by group within the claim loop, and
a group which fails the check ends the call without a word to the leaders
claimed before it.
-/

namespace DuckJeu

open Effects ConnectionRuntime

/-- Whenever the call has returned, in any company and under any schedule,
every entry which it owns is completed. -/
def CompletesOwned (c : ConnectionRuntime) (call : Call) : Prop :=
  ∀ (ι : Type) [DecidableEq ι] (calls : ι → Call) (i : ι), calls i = call →
    ∀ p, Workers.Reach QuietStep (Workers.start c calls) p →
      ∀ answer, p.thread i = .ret answer →
        ∀ claim ∈ ownedClaims (p.log.of i),
          (p.shared.slot claim.entry).isSome

/-- If the claim loop of a batched call meets a group outside the
capabilities, the query knows the identities of all groups before it. -/
def Call.LeadsNothing (call : Call) (c : ConnectionRuntime) : Prop :=
  (∃ maxJudgments order, call.mode = .batched maxJudgments order) →
    ¬ call.Rejected → call.PolicyValid →
      ∀ before group after, call.groups = before ++ group :: after →
        (∀ earlier ∈ before, call.provider.gate earlier.request = true) →
        call.provider.gate group.request = false →
        ∀ earlier ∈ before,
          (c.queryEntries.lookup earlier.identity).isSome

/-! ## Entries which the query knows -/

/-- What the query knew at first, it knows, and nobody has come to own it. -/
def Remembered (c₀ c : ConnectionRuntime) {ι : Type} [DecidableEq ι]
    (log : WorkerLog ι) : Prop :=
  ∀ identity, (c₀.queryEntries.lookup identity).isSome →
    (c.queryEntries.lookup identity).isSome ∧
      ∀ i, identity ∉ ownedIdentities (log.of i)

section Remembered

variable {ι : Type} [DecidableEq ι] {c₀ c c' : ConnectionRuntime}
  {log : WorkerLog ι} {i : ι}

theorem mem_ownedIdentities_of_cons {event : ExecEvent} {j : ι}
    {identity : JudgmentIdentity} :
    identity ∈ ownedIdentities (Log.of ((i, event) :: log) j) ↔
      (i = j ∧ ∃ entry, ExecEvent.claim? event = some ⟨identity, entry, true⟩) ∨
        identity ∈ ownedIdentities (log.of j) := by
  simp only [ownedIdentities, List.mem_map, mem_ownedClaims_of_cons]
  constructor
  · rintro ⟨⟨identity, entry, owned⟩, ⟨rfl, hclaim, howned⟩ | hmem, rfl⟩
    · obtain rfl : owned = true := howned
      exact Or.inl ⟨rfl, entry, hclaim⟩
    · exact Or.inr ⟨_, hmem, rfl⟩
  · rintro (⟨rfl, entry, hclaim⟩ | ⟨claim, hmem, rfl⟩)
    · exact ⟨⟨identity, entry, true⟩, Or.inl ⟨rfl, hclaim, rfl⟩, rfl⟩
    · exact ⟨claim, Or.inr hmem, rfl⟩

theorem Remembered.step (hremembered : Remembered c₀ c log) {op : Op}
    {r : Res op} (hstep : step c op r c') :
    Remembered c₀ c' ((i, ⟨op, r⟩) :: log) := by
  intro identity hknown
  obtain ⟨hlookup, hfree⟩ := hremembered identity hknown
  by_cases hclaim : ∃ scope other, op = .claimQueryEntry scope other
  · obtain ⟨scope, other, rfl⟩ := hclaim
    have hquiet : ∀ {r}, (∀ entry, ExecEvent.claim?
        ⟨.claimQueryEntry scope other, r⟩ ≠ some ⟨identity, entry, true⟩) →
        ∀ j, identity ∉ ownedIdentities
          (Log.of ((i, ⟨.claimQueryEntry scope other, r⟩) :: log) j) := by
      intro r hother j hmem
      rcases mem_ownedIdentities_of_cons.mp hmem with ⟨-, entry, hmem⟩ | hmem
      · exact hother entry hmem
      · exact hfree j hmem
    rcases claimQueryEntry_cases hstep with ⟨error, rfl, rfl, -⟩ |
      ⟨found, rfl, -, -, hframe⟩ | ⟨rfl, -, hnone, hframe⟩
    · exact ⟨hlookup, hquiet (by simp [ExecEvent.claim?])⟩
    · exact ⟨hframe.entries ▸ hlookup, hquiet (by simp [ExecEvent.claim?])⟩
    · have hne : identity ≠ other := by
        rintro rfl
        simp [hnone] at hlookup
      refine ⟨?_, hquiet (by simp [ExecEvent.claim?, Ne.symm hne])⟩
      rw [hframe.entries, addEntry, AList.lookup_insert_ne hne]
      exact hlookup
  · refine ⟨?_, fun j hmem => ?_⟩
    · rwa [step_entries hstep fun scope other heq => hclaim ⟨scope, other, heq⟩]
    · rcases mem_ownedIdentities_of_cons.mp hmem with ⟨-, entry, hmem⟩ | hmem
      · cases op with
        | claimQueryEntry scope other => exact hclaim ⟨scope, other, rfl⟩
        | _ => cases hmem
      · exact hfree j hmem

/-- Without a group which ends the claim loop too early, every owned entry is
completed. -/
theorem Call.LeadsNothing.completes {c : ConnectionRuntime} {call : Call}
    (hleads : call.LeadsNothing c)
    (hrunning : c.Running call.limits.queryScope) : CompletesOwned c call := by
  intro ι _ calls i hi p hreach answer hreturned claim hmem
  have hinv : (p.shared.Running call.limits.queryScope ∧
      ¬ Refused (p.log.of i) ∧ Remembered c p.shared p.log) ∧
      Bookkept p.shared p.log ∧ ∀ i, Follows (calls i).protocol (p.thread i)
        (calls i).Post (p.log.of i) := by
    refine Workers.invariant (fun c' log =>
      c'.Running call.limits.queryScope ∧ ¬ Refused (log.of i) ∧
        Remembered c c' log) hreach (fun _ _ h => h.frame.slots)
      ⟨hrunning, by simp [Refused], ?_⟩ ?_ ?_
    · exact fun identity hknown => ⟨hknown, by
        simp [ownedIdentities, ownedClaims, claims]⟩
    · rintro c₁ c₂ log j op r - ⟨hrun, hwelcomed, hremembered⟩ hallowed hstep
      refine ⟨(step_running hstep _).mpr hrun, ?_, hremembered.step hstep⟩
      rintro ⟨event, hevent, hrefuses⟩
      rw [Log.mem_of, List.mem_cons, Prod.mk.injEq] at hevent
      rcases hevent with ⟨rfl, rfl⟩ | hevent
      · exact not_refuses_of_running hallowed (hi ▸ hrun) hstep hrefuses
      · exact hwelcomed ⟨event, Log.mem_of.mpr hevent, hrefuses⟩
    · rintro c₁ c₂ log ⟨hrun, hwelcomed, hremembered⟩ hhost
      refine ⟨hhost.frame.running.mpr hrun, hwelcomed,
        fun identity hknown => ?_⟩
      rw [hhost.frame.entries]
      exact hremembered identity hknown
  obtain ⟨⟨-, hwelcomed, hremembered⟩, hbooks, hfollows⟩ := hinv
  have hpost := hfollows i
  rw [hreturned, follows_ret, hi] at hpost
  have hcompleted : AllCompleted (p.log.of i) := by
    cases answer with
    | ok output => exact hpost.2.1
    | error error =>
        rcases hpost.2.1 with hcompleted | hrefused |
          ⟨hmode, hrejected, hpolicy, before, group, after, hgroups, hgates,
            hgate, earlier, hearlier, entry, hclaim⟩
        · exact hcompleted
        · exact absurd hrefused hwelcomed
        · have hknown := hleads hmode hrejected hpolicy before group after
            hgroups hgates hgate earlier hearlier
          refine absurd ?_ ((hremembered _ hknown).2 i)
          exact List.mem_map.mpr ⟨_, mem_ownedClaims.mpr ⟨hclaim, rfl⟩, rfl⟩
  rw [hbooks.contents i claim hmem, Option.isSome_iff_ne_none, ne_eq,
    firstCompletion_eq_none, not_not]
  exact hcompleted claim hmem

end Remembered

/-! ## A run which leaves an entry behind

Alone, and at a time at which everything in the cache has expired, a batched
call claims entry after entry until it meets the group which ends its loop. -/

section Late

variable {c : ConnectionRuntime} {call : Call} {late : ℕ}

/-- The claim loop of a call, at a late time. -/
def lateProtocol (c : ConnectionRuntime) (call : Call) (late : ℕ) :
    Protocol Op Res History :=
  Protocol.ofHistory
    (fun _ op =>
      match op with
      | .claimQueryEntry scope _ => scope = call.limits.queryScope
      | .queryCancellation scope => scope = call.limits.queryScope
      | .instantNow => True
      | .cacheLookup _ now _ => now = late
      | _ => False)
    (fun h op =>
      match op with
      | .claimQueryEntry _ identity => fun r =>
          ∃ entry owned, r = .ok (entry, owned) ∧
            (c.queryEntries.lookup identity = none →
              (∀ claim ∈ claims h, claim.identity ≠ identity) → owned = true)
      | .queryCancellation _ => fun r => ∃ flag, r = .ok flag
      | .instantNow => fun r => r = late
      | .cacheLookup _ _ _ => fun r => r = none
      | _ => fun _ => True)

theorem consultCache_late (hpolicy : call.PolicyValid) {h : History}
    {scope entry : ℕ} {key : Option JudgmentIdentity} :
    Secures (lateProtocol c call late)
      (consultCache scope entry key call.cachePolicy)
      (fun found h' => found = none ∧ Grown h h' [] [] [])
      (fun _ _ => False) h := by
  unfold consultCache
  split
  · exact ⟨rfl, Grown.refl h⟩
  rename_i policy hsome
  rw [hpolicy policy (by simp [hsome])]
  simp only [secures_bind, secures_lift, follows_perform]
  refine ⟨trivial, ?_⟩
  rintro now rfl
  refine ⟨rfl, ?_⟩
  rintro cached rfl
  exact ⟨rfl, ((Grown.refl h).event ⟨.instantNow, _⟩).event
    ⟨.cacheLookup key _ policy, none⟩⟩

/-- The groups `seen` are claimed, those new to the query by this call, and
nothing is completed. -/
structure LeftOpen (c : ConnectionRuntime) (h : History)
    (seen : List JudgmentGroup) : Prop where
  completions_nil : completions h = []
  claimed : ∀ claim ∈ claims h, ∃ group ∈ seen, group.identity = claim.identity
  owned : ∀ group ∈ seen, c.queryEntries.lookup group.identity = none →
    ∃ entry, ⟨group.identity, entry, true⟩ ∈ claims h

theorem claimGroup_late (hpolicy : call.PolicyValid) {h : History}
    {seen : List JudgmentGroup} (hopen : LeftOpen c h seen)
    {claimed : Claimed} {group : JudgmentGroup}
    (hgate : call.provider.gate group.request = true) :
    Secures (lateProtocol c call late)
      (claimGroup call.provider call.limits call.cachePolicy claimed group)
      (fun _ h' => LeftOpen c h' (seen ++ [group])) (fun _ _ => False) h := by
  unfold claimGroup
  have hkind : call.provider.capabilities.supports group.request.kind =
      .verified := by
    simp_all [Provider.gate]
  have hchoices : call.provider.withinChoiceLimit
      group.request.choices.length = true := by
    simp_all [Provider.gate]
  simp only [hkind, hchoices, ne_eq, not_true_eq_false, if_false,
    Bool.not_true, Bool.false_eq_true]
  unfold claimQueryEntry queryCancellation
  simp only [secures_bind, secures_mk, follows_perform]
  refine ⟨rfl, ?_⟩
  rintro _ ⟨entry, owned, rfl, howned⟩
  refine ⟨rfl, ?_⟩
  rintro _ ⟨flag, rfl⟩
  have hgrown : Grown h
      (⟨.queryCancellation call.limits.queryScope, .ok flag⟩ ::
      ⟨.claimQueryEntry call.limits.queryScope group.identity,
        .ok (entry, owned)⟩ :: h) [⟨group.identity, entry, owned⟩] [] [] :=
    ((Grown.refl h).event _).event _
  have hdone : ∀ h', Grown h h' [⟨group.identity, entry, owned⟩] [] [] →
      LeftOpen c h' (seen ++ [group]) := by
    intro h' hgrown'
    refine ⟨by simp [hgrown'.completions_eq, hopen.completions_nil], ?_, ?_⟩
    · intro claim hclaim
      rw [hgrown'.claims_eq] at hclaim
      rcases List.mem_cons.mp hclaim with rfl | hclaim
      · exact ⟨group, by simp, rfl⟩
      · obtain ⟨other, hother, hidentity⟩ := hopen.claimed claim hclaim
        exact ⟨other, List.mem_append_left _ hother, hidentity⟩
    · intro other hother hnew
      by_cases hold : ∃ before ∈ seen, before.identity = other.identity
      · obtain ⟨before, hbefore, hidentity⟩ := hold
        rw [← hidentity] at hnew ⊢
        obtain ⟨first, hfirst⟩ := hopen.owned before hbefore hnew
        exact ⟨first, claims_subset hgrown'.suffix hfirst⟩
      · rcases List.mem_append.mp hother with hother | hother
        · exact absurd ⟨other, hother, rfl⟩ hold
        obtain rfl := List.mem_singleton.mp hother
        obtain rfl := howned hnew fun claim hclaim hidentity => by
          obtain ⟨before, hbefore, heq⟩ := hopen.claimed claim hclaim
          exact hold ⟨before, hbefore, heq.trans hidentity⟩
        exact ⟨entry, by simp [hgrown'.claims_eq]⟩
  cases owned with
  | false => exact hdone _ hgrown
  | true =>
      simp only [if_true, secures_bind]
      refine (consultCache_late hpolicy).mono ?_ (fun _ _ hfalse => hfalse)
      rintro found h' ⟨rfl, hgrown'⟩
      exact hdone h' (hgrown.trans hgrown')

theorem claimGroups_late (late : ℕ) (hpolicy : call.PolicyValid) {h : History}
    {seen before : List JudgmentGroup} (hopen : LeftOpen c h seen)
    (claimed : Claimed) (after : List JudgmentGroup) {group : JudgmentGroup}
    (hgates : ∀ earlier ∈ before, call.provider.gate earlier.request = true)
    (hgate : call.provider.gate group.request = false) :
    Secures (lateProtocol c call late)
      (claimGroups call.provider call.limits call.cachePolicy claimed
        (before ++ group :: after))
      (fun _ _ => False) (fun _ h' => LeftOpen c h' (seen ++ before)) h := by
  induction before generalizing h seen claimed with
  | nil =>
      rw [List.nil_append, List.append_nil, claimGroups, secures_bind]
      unfold claimGroup
      split
      · exact hopen
      split
      · exact hopen
      · simp_all [Provider.gate]
  | cons first before ih =>
      rw [List.cons_append, claimGroups, secures_bind]
      refine (claimGroup_late hpolicy hopen
        (hgates first (List.mem_cons_self ..))).mono ?_
        (fun _ _ hfalse => hfalse.elim)
      intro claimed' h' hopen'
      have hrest := ih hopen' claimed'
        fun earlier hearlier => hgates earlier (List.mem_cons_of_mem _ hearlier)
      simpa using hrest

/-- The whole call ends with an error and leaves its claims open. -/
theorem program_late (c : ConnectionRuntime) (late : ℕ) {maxJudgments : ℕ}
    {order : LeaderOrder}
    (hmode : call.mode = .batched maxJudgments order)
    (hrejected : ¬ call.Rejected) (hpolicy : call.PolicyValid)
    {before after : List JudgmentGroup} {group : JudgmentGroup}
    (hgroups : call.groups = before ++ group :: after)
    (hgates : ∀ earlier ∈ before, call.provider.gate earlier.request = true)
    (hgate : call.provider.gate group.request = false) :
    Follows (lateProtocol c call late) call.program
      (fun _ h => LeftOpen c h before) [] := by
  have hopen : LeftOpen c [] [] := ⟨rfl, by simp [claims], by simp⟩
  have hloop := claimGroups_late late hpolicy hopen {} after hgates hgate
  simp only [Call.Rejected, hmode, not_or, not_not] at hrejected
  obtain ⟨hbatch, hmax, hbytes, hlimit⟩ := hrejected
  have hsecures : Secures (lateProtocol c call late) call.exec
      (fun _ _ => False) (fun _ h => LeftOpen c h before) [] := by
    unfold Call.exec
    rw [hmode]
    unfold executeBatchGroups
    simp only [hbatch, hmax, hbytes, hlimit, ne_eq, not_true_eq_false,
      or_self, if_false]
    rw [secures_bind, hgroups]
    exact hloop.mono (fun _ _ hfalse => hfalse.elim) (fun _ _ hopen => hopen)
  refine Follows.mono hsecures ?_
  rintro (error | output) h hpost
  · exact hpost
  · exact hpost.elim

/-! ### The run exists -/

/-- What a late connection keeps through the claim loop. -/
structure StaysLate (c₀ : ConnectionRuntime) (call : Call) (late : ℕ)
    (s : Alone) (h : History) : Prop where
  running : s.1.Running call.limits.queryScope
  expired : ∀ key entry, s.1.cache.entries.lookup key = some entry →
    entry.expiresAt ≤ late
  known : ∀ identity, (s.1.queryEntries.lookup identity).isSome →
    (c₀.queryEntries.lookup identity).isSome ∨
      ∃ claim ∈ claims h, claim.identity = identity

def lateEnvironment (late : ℕ) : Environment where
  now := fun _ => late
  judge := fun _ _ _ => .error inactiveError

theorem staysLate_step {c₀ : ConnectionRuntime} {s : Alone} {h : History}
    {op : Op} (hlate : StaysLate c₀ call late s h)
    (hallowed : (lateProtocol c₀ call late).Allowed h op) :
    ∃ r s', (lateEnvironment late).handle s op = some (r, s') ∧
      (lateProtocol c₀ call late).Admits h op r ∧
        StaysLate c₀ call late s' (⟨op, r⟩ :: h) := by
  obtain ⟨c, t⟩ := s
  obtain ⟨hrunning, hexpired, hknown⟩ := hlate
  have hkeep : ∀ {c' : ConnectionRuntime} {t' : ℕ} {event : ExecEvent},
      c'.Running call.limits.queryScope →
      (∀ key entry, c'.cache.entries.lookup key = some entry →
        entry.expiresAt ≤ late) →
      c'.queryEntries = c.queryEntries →
      StaysLate c₀ call late (c', t') (event :: h) := by
    intro c' t' event hrun hcache hentries
    refine ⟨hrun, hcache, fun identity hsome => ?_⟩
    rw [hentries] at hsome
    exact (hknown identity hsome).imp_right fun ⟨claim, hmem, hidentity⟩ =>
      ⟨claim, claims_subset (List.suffix_cons _ _) hmem, hidentity⟩
  cases op with
  | claimQueryEntry scope identity =>
      obtain rfl : scope = call.limits.queryScope := hallowed
      generalize hclaim :
        c.claimQueryEntry call.limits.queryScope identity = answer
      obtain ⟨r, c'⟩ := answer
      have hstep : step c (.claimQueryEntry call.limits.queryScope identity) r
          c' := hclaim
      have hrun := (step_running hstep _).mpr hrunning
      have hcache : ∀ key entry, c'.cache.entries.lookup key = some entry →
          entry.expiresAt ≤ late := by
        rw [step_cache hstep (by simp) (by simp)]
        exact hexpired
      refine ⟨r, (c', t), by simp [Environment.handle, hclaim], ?_⟩
      rcases claimQueryEntry_cases hclaim with ⟨error, -, -, hnot⟩ |
        ⟨entry, rfl, -, hlookup, hframe⟩ | ⟨rfl, -, -, hframe⟩
      · exact absurd hrunning hnot
      · refine ⟨⟨entry, false, rfl, fun hnew hunclaimed => ?_⟩,
          hkeep hrun hcache hframe.entries⟩
        rcases hknown identity (by rw [hlookup]; rfl) with hold |
          ⟨claim, hmem, hidentity⟩
        · simp [hnew] at hold
        · exact absurd hidentity (hunclaimed claim hmem)
      · refine ⟨⟨_, true, rfl, fun _ _ => rfl⟩, hrun, hcache, ?_⟩
        intro other hsome
        rw [hframe.entries] at hsome
        by_cases hsame : other = identity
        · exact Or.inr ⟨_, List.mem_cons_self .., hsame.symm⟩
        · rw [addEntry, AList.lookup_insert_ne hsame] at hsome
          exact (hknown other hsome).imp_right fun ⟨claim, hmem, hidentity⟩ =>
            ⟨claim, claims_subset (List.suffix_cons _ _) hmem, hidentity⟩
  | queryCancellation scope =>
      obtain rfl : scope = call.limits.queryScope := hallowed
      obtain ⟨flag, hflag, hdown⟩ := hrunning
      exact ⟨.ok flag, (c, t), by simp [Environment.handle, hflag],
        ⟨flag, rfl⟩, hkeep ⟨flag, hflag, hdown⟩ hexpired rfl⟩
  | instantNow =>
      exact ⟨late, (c, t + 1), rfl, rfl, hkeep hrunning hexpired rfl⟩
  | cacheLookup identity now policy =>
      obtain rfl : now = late := hallowed
      have hframe := cacheLookup_frame c identity now policy
      refine ⟨none, ((c.cacheLookup identity now policy).2, t), ?_, rfl,
        hkeep (hframe.running.mpr hrunning) ?_ hframe.entries⟩
      · have hmiss : (c.cacheLookup identity now policy).1 = none := by
          by_contra hhit
          obtain ⟨result, hresult⟩ := Option.ne_none_iff_exists'.mp hhit
          obtain ⟨key, entry, -, hentry, -, hfresh⟩ :=
            c.cacheLookup_served hresult
          exact absurd (hexpired key entry hentry) hfresh.not_ge
        simp [Environment.handle, ← hmiss]
      · intro key entry hentry
        obtain ⟨older, holder, hages⟩ := c.cacheLookup_ages hentry
        exact hages.expiresAt_le.trans (hexpired key older holder)
  | _ => exact hallowed.elim

/-- Otherwise some run leaves an entry behind. -/
theorem CompletesOwned.leadsNothing {c : ConnectionRuntime} {call : Call}
    (hcompletes : CompletesOwned c call)
    (hrunning : c.Running call.limits.queryScope) : call.LeadsNothing c := by
  rintro ⟨maxJudgments, order, hmode⟩ hrejected hpolicy before group after
    hgroups hgates hgate earlier hearlier
  by_contra hunknown
  have hnew : c.queryEntries.lookup earlier.identity = none := by
    simpa using hunknown
  let late := Table.greatest CacheEntry.expiresAt c.cache.entries
  have hstart : StaysLate c call late (c, 0) [] :=
    ⟨hrunning, fun _ _ hentry => Table.weight_le_greatest hentry,
      fun _ hsome => Or.inl hsome⟩
  obtain ⟨answer, s, events, hrun, hopen, -⟩ :=
    Prog.run_of_follows (lateEnvironment late).handle
      (fun s h op hlate hallowed => staysLate_step hlate hallowed)
      (program_late c late hmode hrejected hpolicy hgroups
        hgates hgate) hstart
  rw [lateProtocol, Protocol.ofHistory_replay] at hopen
  obtain ⟨p, hreach, -, hreturned, rfl⟩ :=
    Workers.run_alone QuietStep (lateEnvironment late) hrun
  obtain ⟨entry, hclaim⟩ := hopen.owned earlier hearlier hnew
  have howned : ⟨earlier.identity, entry, true⟩ ∈ ownedClaims (p.log.of ()) :=
    mem_ownedClaims.mpr ⟨hclaim, rfl⟩
  have hsome := hcompletes Unit (fun _ => call) () rfl p hreach answer hreturned
    _ howned
  obtain ⟨-, hbooks, -⟩ := Workers.invariant (fun _ _ => True) hreach
    (fun _ _ h => h.frame.slots) trivial (fun _ _ _ _ _ _ _ _ _ _ => trivial)
    (fun _ _ _ _ _ => trivial)
  rw [hbooks.contents () _ howned] at hsome
  simp [firstCompletion, hopen.completions_nil] at hsome

end Late

/-- In a running query, the call completes every entry which it owns if and
only if its claim loop does not end early with entries it leads. -/
theorem completesOwned_iff (c : ConnectionRuntime) (call : Call)
    (hrunning : c.Running call.limits.queryScope) :
    CompletesOwned c call ↔ call.LeadsNothing c :=
  ⟨fun hcompletes => hcompletes.leadsNothing hrunning,
    fun hleads => hleads.completes hrunning⟩

/-- The group of a choice about a text. -/
def labelGroup (text : String) (rows : List ℕ) : JudgmentGroup where
  identity := .new (labelRequest text) (queryContext 0)
  request := labelRequest text
  targets := rows.map fun row => ⟨0, 0, row⟩

/-- A provider without choices. -/
def noulProvider : Provider :=
  { plainProvider with
    capabilities :=
      { plainProvider.capabilities with choice := .unsupported } }

/-- A batched call about a text, and then about a choice. -/
def abandoningCall : Call where
  groups := [textGroup 0 "a" [0], labelGroup "a" [1]]
  provider := noulProvider
  limits := { queryScope := 0, maxInflight := 1, maxRequestBytes := 1000 }
  cachePolicy := none
  mode := .batched 2 insertionOrder

theorem firstQuery_running : firstQuery.Running 0 :=
  ⟨0, by decide, by decide⟩

theorem abandoningCall_leads : ¬ abandoningCall.LeadsNothing firstQuery := by
  intro hleads
  have hknown := hleads ⟨2, insertionOrder, rfl⟩
    (by simp [Call.Rejected, abandoningCall, noulProvider, plainProvider,
      batchLimit]) (by simp [Call.PolicyValid, abandoningCall])
    [textGroup 0 "a" [0]] (labelGroup "a" [1]) [] rfl (by decide) (by decide)
    (textGroup 0 "a" [0]) (List.mem_cons_self ..)
  revert hknown
  decide

theorem completesOwned_iff_abandoning :
    CompletesOwned firstQuery abandoningCall ↔
      abandoningCall.LeadsNothing firstQuery :=
  completesOwned_iff firstQuery abandoningCall firstQuery_running

/-- Not every call completes the entries it owns. -/
theorem entries_abandoned :
    ¬ ∀ (c : ConnectionRuntime) (call : Call),
      c.Running call.limits.queryScope → CompletesOwned c call :=
  fun h => abandoningCall_leads
    ((h firstQuery abandoningCall firstQuery_running).leadsNothing
      firstQuery_running)

end DuckJeu
