import DuckJeu.Executor.Provenance

/-!
# Where results come from

Every entry has an owner among the workers of the connection, and its owner
has put there what the cache has served it or what a response has answered.
So whoever reports a result for an identity, its own or one it has waited for,
reports what some worker has a source for.
-/

namespace DuckJeu

open Effects ConnectionRuntime

variable {ι : Type} [DecidableEq ι]

/-! ## Owners -/

/-- Every entry of the query map, and every entry which a worker has claimed,
is owned by some worker under the same identity. -/
structure EntriesOwned (c : ConnectionRuntime) (log : WorkerLog ι) : Prop where
  entries : ∀ identity entry, c.queryEntries.lookup identity = some entry →
    ∃ j, ⟨identity, entry, true⟩ ∈ claims (log.of j)
  claims : ∀ i, ∀ claim ∈ claims (log.of i),
    ∃ j, ⟨claim.identity, claim.entry, true⟩ ∈ claims (log.of j)

/-- An owner knows an entry under one identity only. -/
def OneIdentity (log : WorkerLog ι) : Prop :=
  ∀ i, ∀ claim ∈ ownedClaims (log.of i), ∀ claim' ∈ ownedClaims (log.of i),
    claim.entry = claim'.entry → claim = claim'

section Owners

variable {c c' : ConnectionRuntime} {log : WorkerLog ι} {i : ι}

theorem entriesOwned_nil (hentries : c.queryEntries = ∅) :
    EntriesOwned c ([] : WorkerLog ι) where
  entries := by simp [hentries]
  claims := by simp [DuckJeu.claims]

/-- Owners stay owners. -/
theorem owner_cons {event : ExecEvent} {claim : Claim}
    (h : ∃ j, claim ∈ claims (log.of j)) :
    ∃ j, claim ∈ claims (Log.of ((i, event) :: log) j) := by
  obtain ⟨j, hmem⟩ := h
  exact ⟨j, mem_claims_of_cons.mpr (Or.inr hmem)⟩

theorem EntriesOwned.quiet (howned : EntriesOwned c log) {event : ExecEvent}
    (hclaim : event.claim? = none)
    (hentries : c'.queryEntries = c.queryEntries) :
    EntriesOwned c' ((i, event) :: log) where
  entries := by
    intro identity entry hlookup
    rw [hentries] at hlookup
    exact owner_cons (howned.entries identity entry hlookup)
  claims := by
    intro j claim hmem
    rcases mem_claims_of_cons.mp hmem with ⟨-, hnew⟩ | hmem
    · rw [hclaim] at hnew
      cases hnew
    · exact owner_cons (howned.claims j claim hmem)

/-- A claim finds an owned entry, or makes its worker the owner. -/
theorem EntriesOwned.claim (howned : EntriesOwned c log) {scope : ℕ}
    {identity : JudgmentIdentity} {r : Except JudgmentError (ℕ × Bool)}
    (hstep : c.claimQueryEntry scope identity = (r, c')) :
    EntriesOwned c' ((i, ⟨.claimQueryEntry scope identity, r⟩) :: log) := by
  rcases claimQueryEntry_cases hstep with ⟨error, rfl, rfl, -⟩ |
    ⟨entry, rfl, -, hlookup, hframe⟩ | ⟨rfl, -, hlookup, hframe⟩
  · exact howned.quiet rfl rfl
  · refine ⟨?_, ?_⟩
    · intro other entry' hother
      rw [hframe.entries] at hother
      exact owner_cons (howned.entries other entry' hother)
    · intro j claim hmem
      rcases mem_claims_of_cons.mp hmem with ⟨-, hnew⟩ | hmem
      · obtain rfl := Option.some.inj hnew
        exact owner_cons (howned.entries identity entry hlookup)
      · exact owner_cons (howned.claims j claim hmem)
  · have hnew : ⟨identity, c.slots.length, true⟩ ∈ DuckJeu.claims (Log.of
        ((i, ⟨.claimQueryEntry scope identity,
          .ok (c.slots.length, true)⟩) :: log) i) :=
      mem_claims_of_cons.mpr (Or.inl ⟨rfl, rfl⟩)
    refine ⟨?_, ?_⟩
    · intro other entry' hother
      rw [hframe.entries] at hother
      by_cases hsame : other = identity
      · subst hsame
        have hentry : entry' = c.slots.length := by
          have hfound : (c.addEntry other).queryEntries.lookup other =
            some c.slots.length := AList.lookup_insert _
          rw [hfound] at hother
          exact (Option.some.inj hother).symm
        rw [hentry]
        exact ⟨i, hnew⟩
      · have hold : c.queryEntries.lookup other = some entry' :=
          (AList.lookup_insert_ne hsame).symm.trans hother
        exact owner_cons (howned.entries other entry' hold)
    · intro j claim hmem
      rcases mem_claims_of_cons.mp hmem with ⟨-, hclaim⟩ | hmem
      · obtain rfl := Option.some.inj hclaim
        exact ⟨i, hnew⟩
      · exact owner_cons (howned.claims j claim hmem)

theorem EntriesOwned.step (howned : EntriesOwned c log) {op : Op} {r : Res op}
    (hstep : step c op r c') : EntriesOwned c' ((i, ⟨op, r⟩) :: log) := by
  cases op with
  | claimQueryEntry scope identity => exact howned.claim hstep
  | _ => exact howned.quiet rfl (step_entries hstep (by simp))

/-- A new query starts without entries. -/
theorem EntriesOwned.host (howned : EntriesOwned c log)
    (hhost : HostStep c c') : EntriesOwned c' log where
  entries := by
    intro identity entry hlookup
    cases hhost with
    | beginQuery now => cases hlookup
    | query h =>
        cases h with
        | quiet h =>
            rw [h.frame.entries] at hlookup
            exact howned.entries identity entry hlookup
        | endQuery now interrupt errorType =>
            unfold ConnectionRuntime.endQuery at hlookup
            split at hlookup
            · exact howned.entries identity entry hlookup
            · cases hlookup
  claims := howned.claims

theorem OneIdentity.step (hone : OneIdentity log) (hbooks : Bookkept c log)
    {op : Op} {r : Res op} (hstep : step c op r c') :
    OneIdentity ((i, ⟨op, r⟩) :: log) := by
  have hfresh : ∀ claim, ExecEvent.claim? ⟨op, r⟩ = some claim →
      claim.owned = true → claim.entry = c.slots.length := by
    intro claim hclaim howned
    cases op with
    | claimQueryEntry scope identity =>
        rcases claimQueryEntry_cases hstep with ⟨error, rfl, -, -⟩ |
          ⟨entry, rfl, -, -, -⟩ | ⟨rfl, -, -, -⟩
        · cases hclaim
        · obtain rfl := Option.some.inj hclaim
          cases howned
        · obtain rfl := Option.some.inj hclaim
          rfl
    | _ => cases hclaim
  intro j claim hmem claim' hmem' hentry
  rw [mem_ownedClaims_of_cons] at hmem hmem'
  rcases hmem with ⟨rfl, hclaim, howned⟩ | hmem
  · rcases hmem' with ⟨-, hclaim', -⟩ | hmem'
    · rw [hclaim] at hclaim'
      exact Option.some.inj hclaim'
    · have hold := hbooks.owned_lt hmem'
      have hnew := hfresh claim hclaim howned
      omega
  · rcases hmem' with ⟨rfl, hclaim', howned'⟩ | hmem'
    · have hold := hbooks.owned_lt hmem
      have hnew := hfresh claim' hclaim' howned'
      omega
    · exact hone j claim hmem claim' hmem' hentry

end Owners

/-! ## Sources -/

/-- What a worker has completed its entries with has a source. -/
def CompletionsSourced (calls : ι → Call) (log : WorkerLog ι) : Prop :=
  ∀ i entry result, (entry, .ok result) ∈ completions (log.of i) →
    ∀ identity, ⟨identity, entry, true⟩ ∈ claims (log.of i) →
      (calls i).Sourced (log.of i) identity result

theorem Call.Sourced.mono {call : Call} {h h' : History}
    {identity : JudgmentIdentity} {result : JudgmentResult}
    (hsourced : call.Sourced h identity result) (hsuffix : h <:+ h') :
    call.Sourced h' identity result := by
  obtain ⟨group, hgroup, hidentity, ⟨now, policy, hmem⟩ |
    ⟨d, hd, hanswers⟩⟩ := hsourced
  · exact ⟨group, hgroup, hidentity,
      Or.inl ⟨now, policy, hsuffix.subset hmem⟩⟩
  · exact ⟨group, hgroup, hidentity,
      Or.inr ⟨d, dispatches_subset hsuffix hd, hanswers⟩⟩

section Sources

variable {calls : ι → Call} {c c' : ConnectionRuntime} {log : WorkerLog ι}
  {i : ι}

theorem CompletionsSourced.step (hsourced : CompletionsSourced calls log)
    (hbooks : Bookkept c log) (hone : OneIdentity log) {op : Op} {r : Res op}
    (hallowed : (calls i).Allowed (log.of i) op) (hstep : step c op r c') :
    CompletionsSourced calls ((i, ⟨op, r⟩) :: log) := by
  intro j entry result hcompletion identity hclaim
  have hsuffix : log.of j <:+ Log.of ((i, ⟨op, r⟩) :: log) j := by
    by_cases hij : i = j
    · subst hij
      rw [Log.of_cons_self]
      exact List.suffix_cons _ _
    · rw [Log.of_cons_ne hij]
  rcases mem_completions_of_cons.mp hcompletion with ⟨rfl, hnew⟩ | hold
  · cases op with
    | complete completed outcome =>
        obtain ⟨rfl, rfl⟩ := Prod.mk.inj (Option.some.inj hnew)
        obtain ⟨owned, howned, hsource⟩ := hallowed
        have hmine : ⟨identity, completed, true⟩ ∈ claims (log.of i) :=
          (mem_claims_of_cons.mp hclaim).resolve_left fun hnew => by
            cases hnew.2
        have hsame := hone i _ (mem_ownedClaims.mpr ⟨hmine, rfl⟩) _
          (mem_ownedClaims.mpr ⟨howned, rfl⟩) rfl
        obtain rfl : identity = owned := congrArg Claim.identity hsame
        exact (hsource result rfl).mono hsuffix
    | _ => cases hnew
  · refine (hsourced j entry result hold identity ?_).mono hsuffix
    rcases mem_claims_of_cons.mp hclaim with ⟨rfl, hnew⟩ | hmem
    · -- a new entry has no completion yet
      exfalso
      obtain ⟨claim, howned, hentry⟩ := hbooks.completed i _ hold
      have hlt := hbooks.owned_lt howned
      cases op with
      | claimQueryEntry scope claimed =>
          rcases claimQueryEntry_cases hstep with ⟨error, rfl, -, -⟩ |
            ⟨found, rfl, -, -, -⟩ | ⟨rfl, -, -, -⟩
          · cases hnew
          · cases hnew
          · obtain rfl : entry = c.slots.length :=
              (congrArg Claim.entry (Option.some.inj hnew)).symm
            exact absurd hentry hlt.ne
      | _ => cases hnew
    · exact hmem

/-- Whatever a worker knows has a source with some worker. -/
theorem answered_sourced (hbooks : Bookkept c log)
    (howned : EntriesOwned c log) (hsourced : CompletionsSourced calls log)
    {identity : JudgmentIdentity} {result : JudgmentResult}
    (h : Answered (log.of i) identity result) :
    ∃ j, (calls j).Sourced (log.of j) identity result := by
  obtain ⟨claim, hclaim, rfl, hslot⟩ := hbooks.answered h
  obtain ⟨j, howner⟩ := howned.claims i claim hclaim
  have hcontents := hbooks.contents j _
    (mem_ownedClaims.mpr ⟨howner, rfl⟩)
  rw [hslot] at hcontents
  exact ⟨j, hsourced j claim.entry result
    (firstCompletion_mem hcontents.symm) claim.identity howner⟩

/-- Over all queries of a connection, whatever a worker knows has a source. -/
theorem Workers.sourced (hentries : c.queryEntries = ∅) {p : Workers ι}
    (hreach : Workers.Reach HostStep (Workers.start c calls) p)
    {identity : JudgmentIdentity} {result : JudgmentResult}
    (h : Answered (p.log.of i) identity result) :
    ∃ j, (calls j).Sourced (p.log.of j) identity result := by
  have hinv : (EntriesOwned p.shared p.log ∧ OneIdentity p.log ∧
      CompletionsSourced calls p.log) ∧ Bookkept p.shared p.log ∧ ∀ i,
        Follows (calls i).protocol (p.thread i) (calls i).Post
          (p.log.of i) := by
    refine Workers.invariant (fun c log => EntriesOwned c log ∧
      OneIdentity log ∧ CompletionsSourced calls log) hreach
      (fun _ _ h => h.slots.1) ⟨entriesOwned_nil hentries, ?_, ?_⟩ ?_ ?_
    · simp [OneIdentity, ownedClaims, claims]
    · simp [CompletionsSourced, completions]
    · rintro c₁ c₂ log i op r hbooks ⟨howned, hone, hsourced⟩ hallowed hstep
      exact ⟨howned.step hstep, hone.step hbooks hstep,
        hsourced.step hbooks hone hallowed hstep⟩
    · rintro c₁ c₂ log ⟨howned, hone, hsourced⟩ hhost
      exact ⟨howned.host hhost, hone, hsourced⟩
  exact answered_sourced hinv.2.1 hinv.1.1 hinv.1.2.2 h

/-- What the cache serves a worker for a group is valid for the group. -/
theorem Workers.hit_valid (hempty : c.cache.entries = ∅)
    (hidentities : ∀ i, ∀ group ∈ (calls i).groups,
      ∃ context, group.identity = .new group.request context) {p : Workers ι}
    (hreach : Workers.Reach HostStep (Workers.start c calls) p)
    {group : JudgmentGroup} (hgroup : group ∈ (calls i).groups)
    {result : JudgmentResult} (h : (calls i).Hit (p.log.of i) group result) :
    ValidFor group.request result := by
  obtain ⟨now, policy, hmem⟩ := h
  obtain ⟨newer, earlier, hlog⟩ := List.mem_iff_append.mp (Log.mem_of.mp hmem)
  obtain ⟨key, hkey, j, older, -, source, hsource, hsourceKey, d, -,
    hanswers⟩ := (Workers.justified hempty hreach).2 i _ now policy result
      earlier (hlog ▸ List.suffix_append _ _)
  have hsame := sameJudgment_of_key (hidentities j source hsource)
    (hidentities i group hgroup) (Call.cacheKey_some hsourceKey)
    (Call.cacheKey_some hkey)
  exact hanswers.validFor hsame.kind hsame.choices

/-- Whatever a worker knows about a group is valid for the group. -/
theorem Workers.answered_valid (hempty : c.cache.entries = ∅)
    (hentries : c.queryEntries = ∅)
    (hidentities : ∀ i, ∀ group ∈ (calls i).groups,
      ∃ context, group.identity = .new group.request context) {p : Workers ι}
    (hreach : Workers.Reach HostStep (Workers.start c calls) p)
    {group : JudgmentGroup} (hgroup : group ∈ (calls i).groups)
    {result : JudgmentResult}
    (h : Answered (p.log.of i) group.identity result) :
    ValidFor group.request result := by
  obtain ⟨j, source, hsource, hidentity, hresult⟩ :=
    Workers.sourced hentries hreach h
  have hvalid : ValidFor source.request result := by
    rcases hresult with hhit | ⟨d, -, model, hanswers⟩
    · exact Workers.hit_valid hempty hidentities hreach hsource hhit
    · exact hanswers.validFor rfl rfl
  obtain ⟨context, hgroupIdentity⟩ := hidentities i group hgroup
  obtain ⟨context', hsourceIdentity⟩ := hidentities j source hsource
  rw [hgroupIdentity, hsourceIdentity] at hidentity
  exact hvalid.of_identity hidentity

end Sources

end DuckJeu
