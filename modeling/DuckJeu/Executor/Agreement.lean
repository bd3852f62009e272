import DuckJeu.Executor.Alone

/-!
# Single dispatch and agreement

Within one query every identity has one entry, and every entry one owner.
Hence no identity is sent twice, and whoever reports a result for an identity
reports what its entry holds.
-/

namespace DuckJeu

open Effects ConnectionRuntime

variable {ι : Type} [DecidableEq ι]

/-! ## One entry for each identity -/

/-- The identities for which the event sends a request. -/
def ExecEvent.carried (event : ExecEvent) : List JudgmentIdentity :=
  (ExecEvent.dispatch? event).elim [] Dispatch.carried

/-- The identities for which the workers have sent requests. -/
def carriedBy (log : WorkerLog ι) : List JudgmentIdentity :=
  log.flatMap fun entry => ExecEvent.carried entry.2

omit [DecidableEq ι] in
theorem carriedBy_cons (i : ι) (event : ExecEvent) (log : WorkerLog ι) :
    carriedBy ((i, event) :: log) =
      ExecEvent.carried event ++ carriedBy log := rfl

theorem mem_carriedBy {log : WorkerLog ι} {identity : JudgmentIdentity} :
    identity ∈ carriedBy log ↔ ∃ i, identity ∈ carriedIn (log.of i) := by
  simp only [carriedBy, carriedIn, dispatches, List.mem_flatMap,
    List.mem_filterMap, ExecEvent.carried]
  constructor
  · rintro ⟨⟨i, event⟩, hmem, hcarried⟩
    cases hdispatch : ExecEvent.dispatch? event with
    | none => simp [hdispatch] at hcarried
    | some d =>
        exact ⟨i, d, ⟨event, Log.mem_of.mpr hmem, hdispatch⟩,
          by simpa [hdispatch] using hcarried⟩
  · rintro ⟨i, d, ⟨event, hmem, hdispatch⟩, hcarried⟩
    exact ⟨(i, event), Log.mem_of.mp hmem, by simpa [hdispatch] using hcarried⟩

/-- While the query runs, its map knows all claims; an identity has one entry,
is owned at most once by a worker, and sent at most once by all. -/
structure Agreed (scope : ℕ) (c : ConnectionRuntime) (log : WorkerLog ι) :
    Prop where
  known : c.Running scope → ∀ i, ∀ claim ∈ claims (log.of i),
    c.queryEntries.lookup claim.identity = some claim.entry
  agree : ∀ i j, ∀ claim ∈ claims (log.of i), ∀ claim' ∈ claims (log.of j),
    claim.identity = claim'.identity → claim.entry = claim'.entry
  owned_nodup : ∀ i, (ownedIdentities (log.of i)).Nodup
  once : (carriedBy log).Nodup

section Agreed

variable {scope : ℕ} {c c' : ConnectionRuntime} {log : WorkerLog ι} {i : ι}

theorem agreed_nil (scope : ℕ) (c : ConnectionRuntime) :
    Agreed scope c ([] : WorkerLog ι) where
  known := by simp [claims]
  agree := by simp [claims]
  owned_nodup := by simp [ownedIdentities, ownedClaims, claims]
  once := List.nodup_nil

/-- An identity has one owner. -/
theorem Agreed.owner (hagreed : Agreed scope c log) (hbooks : Bookkept c log)
    {j : ι} {identity : JudgmentIdentity}
    (hi : identity ∈ ownedIdentities (log.of i))
    (hj : identity ∈ ownedIdentities (log.of j)) : i = j := by
  obtain ⟨claim, hclaim, rfl⟩ := List.mem_map.mp hi
  obtain ⟨claim', hclaim', hidentity⟩ := List.mem_map.mp hj
  refine hbooks.owner i j claim hclaim claim' hclaim' ?_
  exact hagreed.agree i j claim (mem_ownedClaims.mp hclaim).1 claim'
    (mem_ownedClaims.mp hclaim').1 hidentity.symm

/-- What an owner sends, nobody has sent before. -/
theorem Agreed.carried_nodup (hagreed : Agreed scope c log)
    (hbooks : Bookkept c log) {carried : List JudgmentIdentity}
    (hcarry : (carriedIn (log.of i) ++ carried).Subperm
      (ownedIdentities (log.of i))) :
    (carried ++ carriedBy log).Nodup := by
  have hnodup : (carriedIn (log.of i) ++ carried).Nodup := by
    obtain ⟨owned, hperm, hsublist⟩ := hcarry
    exact hperm.nodup_iff.mp (hsublist.nodup (hagreed.owned_nodup i))
  obtain ⟨-, hcarried, hdisjoint⟩ := List.nodup_append'.mp hnodup
  refine List.nodup_append'.mpr ⟨hcarried, hagreed.once, ?_⟩
  intro identity hmem hbefore
  obtain ⟨j, hj⟩ := mem_carriedBy.mp hbefore
  have hown : identity ∈ ownedIdentities (log.of i) :=
    hcarry.subset (List.mem_append_right _ hmem)
  obtain rfl := hagreed.owner hbooks hown ((hbooks.carry j).subset hj)
  exact hdisjoint hj hmem

/-- Events without a claim. -/
theorem Agreed.quiet (hagreed : Agreed scope c log) {event : ExecEvent}
    (hclaim : event.claim? = none)
    (hrunning : c'.Running scope → c.Running scope)
    (hentries : c'.Running scope → c'.queryEntries = c.queryEntries)
    (honce : (ExecEvent.carried event ++ carriedBy log).Nodup) :
    Agreed scope c' ((i, event) :: log) where
  known := by
    intro hrun j claim hmem
    rw [hentries hrun]
    refine hagreed.known (hrunning hrun) j claim ?_
    simpa [mem_claims_of_cons, hclaim] using hmem
  agree := by
    intro j k claim hmem claim' hmem'
    simp only [mem_claims_of_cons, hclaim, reduceCtorEq, and_false,
      false_or] at hmem hmem'
    exact hagreed.agree j k claim hmem claim' hmem'
  owned_nodup := by
    intro j
    by_cases hij : i = j
    · subst hij
      rw [Log.of_cons_self, ownedIdentities,
        ((Grown.refl (log.of i)).event event).ownedClaims_eq, hclaim]
      exact hagreed.owned_nodup i
    · rw [Log.of_cons_ne hij]
      exact hagreed.owned_nodup j
  once := (carriedBy_cons ..).symm ▸ honce

/-- A claim which finds an entry, or makes one. -/
theorem Agreed.claimed (hagreed : Agreed scope c log)
    (hrun : c.Running scope) {identity : JudgmentIdentity} {entry : ℕ}
    {owned : Bool}
    (hnew : c'.queryEntries.lookup identity = some entry)
    (hold : ∀ other entry, c.queryEntries.lookup other = some entry →
      c'.queryEntries.lookup other = some entry)
    (howned : owned = true → c.queryEntries.lookup identity = none) :
    Agreed scope c' ((i, ⟨.claimQueryEntry scope identity,
      .ok (entry, owned)⟩) :: log) := by
  have hknown : ∀ j, ∀ claim ∈ claims (Log.of ((i,
      ⟨.claimQueryEntry scope identity, .ok (entry, owned)⟩) :: log) j),
      c'.queryEntries.lookup claim.identity = some claim.entry := by
    intro j claim hmem
    rcases mem_claims_of_cons.mp hmem with ⟨-, hclaim⟩ | hmem
    · obtain rfl := Option.some.inj hclaim
      exact hnew
    · exact hold _ _ (hagreed.known hrun j claim hmem)
  refine ⟨fun _ => hknown, ?_, ?_, (carriedBy_cons ..).symm ▸ hagreed.once⟩
  · intro j k claim hmem claim' hmem' hidentity
    have hj := hknown j claim hmem
    rw [hidentity, hknown k claim' hmem'] at hj
    exact (Option.some.inj hj).symm
  · intro j
    by_cases hij : i = j
    · subst hij
      rw [Log.of_cons_self, ownedIdentities,
        ((Grown.refl (log.of i)).event _).ownedClaims_eq, List.map_append]
      cases owned with
      | false => exact hagreed.owned_nodup i
      | true =>
          refine List.nodup_cons.mpr ⟨?_, hagreed.owned_nodup i⟩
          intro hmem
          obtain ⟨claim, hclaim, hidentity⟩ := List.mem_map.mp hmem
          have hfound := hagreed.known hrun i claim
            (mem_ownedClaims.mp hclaim).1
          rw [hidentity] at hfound
          exact absurd hfound (by simp [howned rfl])
    · rw [Log.of_cons_ne hij]
      exact hagreed.owned_nodup j

theorem Agreed.step (hagreed : Agreed scope c log) (hbooks : Bookkept c log)
    {call : Call} (hscope : call.limits.queryScope = scope) {op : Op}
    {r : Res op} (hallowed : call.Allowed (log.of i) op)
    (hstep : step c op r c') : Agreed scope c' ((i, ⟨op, r⟩) :: log) := by
  have hrunning := (step_running hstep scope).mp
  cases op with
  | claimQueryEntry claimScope identity =>
      obtain rfl : claimScope = scope := hallowed.1.trans hscope
      rcases claimQueryEntry_cases hstep with ⟨error, rfl, rfl, -⟩ |
        ⟨entry, rfl, hrun, hlookup, hframe⟩ | ⟨rfl, hrun, hlookup, hframe⟩
      · exact hagreed.quiet rfl hrunning (fun _ => rfl) hagreed.once
      · refine hagreed.claimed hrun ?_ ?_ (by simp)
        · rwa [hframe.entries]
        · intro other entry' hother
          rwa [hframe.entries]
      · refine hagreed.claimed hrun ?_ ?_ fun _ => hlookup
        · rw [hframe.entries]
          exact AList.lookup_insert _
        · intro other entry' hother
          have hne : other ≠ identity := by
            rintro rfl
            rw [hlookup] at hother
            cases hother
          rw [hframe.entries]
          exact (AList.lookup_insert_ne hne).trans hother
  | judge method carried requests =>
      exact hagreed.quiet rfl hrunning
        (fun _ => step_entries hstep (by simp))
        (hagreed.carried_nodup hbooks hallowed.unsent)
  | _ =>
      exact hagreed.quiet rfl hrunning
        (fun _ => step_entries hstep (by simp)) hagreed.once

theorem Agreed.host (hagreed : Agreed scope c log) (hhost : QueryStep c c') :
    Agreed scope c' log where
  known := by
    intro hrun
    cases hhost with
    | quiet h =>
        rw [h.frame.entries]
        exact hagreed.known (h.frame.running.mp hrun)
    | endQuery => exact absurd hrun (endQuery_not_running c _ _ _ _)
  agree := hagreed.agree
  owned_nodup := hagreed.owned_nodup
  once := hagreed.once

end Agreed

/-! ## Answers -/

/-- A known result is in the slot of the identity. -/
theorem Bookkept.answered {c : ConnectionRuntime} {log : WorkerLog ι} {i : ι}
    (hbooks : Bookkept c log) {identity : JudgmentIdentity}
    {result : JudgmentResult} (h : Answered (log.of i) identity result) :
    ∃ claim ∈ claims (log.of i), claim.identity = identity ∧
      c.slot claim.entry = some (.ok result) := by
  obtain ⟨entry, ⟨hclaim, hfirst⟩ | ⟨hclaim, flag, hwait⟩⟩ := h
  · refine ⟨_, hclaim, rfl, ?_⟩
    rw [hbooks.contents i _ (mem_ownedClaims.mpr ⟨hclaim, rfl⟩)]
    exact hfirst
  · exact ⟨_, hclaim, rfl, hbooks.waited i entry flag result hwait⟩

/-- All workers know the same results. -/
theorem Agreed.value {scope : ℕ} {c : ConnectionRuntime} {log : WorkerLog ι}
    (hagreed : Agreed scope c log) (hbooks : Bookkept c log) :
    ∃ value : JudgmentIdentity → JudgmentResult, ∀ i identity result,
      Answered (log.of i) identity result → result = value identity := by
  classical
  refine ⟨fun identity =>
    if h : ∃ i result, Answered (log.of i) identity result then
      h.choose_spec.choose
    else .noul .zero, ?_⟩
  intro i identity result hanswered
  have h : ∃ i result, Answered (log.of i) identity result :=
    ⟨i, result, hanswered⟩
  dsimp only
  rw [dif_pos h]
  obtain ⟨claim, hclaim, hidentity, hslot⟩ := hbooks.answered hanswered
  obtain ⟨claim', hclaim', hidentity', hslot'⟩ :=
    hbooks.answered h.choose_spec.choose_spec
  rw [hagreed.agree i _ claim hclaim claim' hclaim'
    (hidentity.trans hidentity'.symm), hslot'] at hslot
  exact (Except.ok.inj (Option.some.inj hslot)).symm

/-- An output in terms of the results of the groups. -/
theorem Call.Served.perm_groups {call : Call} {h : History}
    {output : List (RowTarget × JudgmentResult)}
    (hserved : call.Served h output) (value : JudgmentGroup → JudgmentResult)
    (hvalue : ∀ group ∈ call.groups, ∀ result,
      Answered h group.identity result → result = value group) :
    output.Perm
      (call.groups.flatMap fun group => group.expand (value group)) := by
  obtain ⟨assigned, rfl, hperm, hanswered⟩ := hserved
  have hassigned : (assigned.flatMap fun a => a.1.expand a.2) =
      (assigned.map Prod.fst).flatMap fun group =>
        group.expand (value group) := by
    rw [List.flatMap_map]
    refine List.flatMap_congr fun a ha => ?_
    have hgroup : a.1 ∈ call.groups :=
      hperm.mem_iff.mp (List.mem_map_of_mem ha)
    rw [← hvalue a.1 hgroup a.2 (hanswered a ha)]
  rw [hassigned]
  exact hperm.flatMap_right _

/-- An output in terms of the results of the identities. -/
theorem Call.Served.perm {call : Call} {h : History}
    {output : List (RowTarget × JudgmentResult)}
    (hserved : call.Served h output)
    {value : JudgmentIdentity → JudgmentResult}
    (hvalue : ∀ identity result, Answered h identity result →
      result = value identity) :
    output.Perm
      (call.groups.flatMap fun group => group.expand (value group.identity)) :=
  hserved.perm_groups (fun group => value group.identity)
    fun _ _ _ hanswered => hvalue _ _ hanswered

theorem Workers.slot_stays {host : ConnectionRuntime → ConnectionRuntime → Prop}
    (hslots : ∀ c c', host c c' → c'.slots = c.slots) {p p' : Workers ι}
    (hreach : Workers.Reach host p p') {entry : ℕ} {outcome : Outcome}
    (hslot : p.shared.slot entry = some outcome) :
    p'.shared.slot entry = some outcome := by
  refine hreach.invariant (fun q => q.shared.slot entry = some outcome)
    hslot ?_
  rintro q q' hq (⟨-, hs⟩ | hs)
  · exact step_slot hs hq
  · rwa [slot, hslots _ _ hs]

/-- Requests are sent for groups of the worker which sends them. -/
def Carried (calls : ι → Call) (log : WorkerLog ι) : Prop :=
  ∀ i, ∀ d ∈ dispatches (log.of i), (calls i).Carries d.carried d.requests

theorem Carried.step {calls : ι → Call} {log : WorkerLog ι}
    (hcarries : Carried calls log) {i : ι} {op : Op} (r : Res op)
    (hallowed : (calls i).Allowed (log.of i) op) :
    Carried calls ((i, ⟨op, r⟩) :: log) := by
  intro j d hd
  by_cases hij : i = j
  · subst hij
    rw [Log.of_cons_self,
      ((Grown.refl (log.of i)).event ⟨op, r⟩).dispatches_eq] at hd
    rcases List.mem_append.mp hd with hnew | hold
    · cases op with
      | judge method carried requests =>
          obtain rfl : d = ⟨carried, requests, r⟩ := by
            simpa [ExecEvent.dispatch?] using hnew
          exact hallowed.carries
      | _ => simp [ExecEvent.dispatch?] at hnew
    · exact hcarries i d hold
  · rw [Log.of_cons_ne hij] at hd
    exact hcarries j d hd

/-- What holds of the workers of one query. -/
theorem Workers.agreed {c : ConnectionRuntime} {calls : ι → Call} {scope : ℕ}
    (hscope : ∀ i, (calls i).limits.queryScope = scope) {p : Workers ι}
    (hreach : Workers.Reach QueryStep (Workers.start c calls) p) :
    (Agreed scope p.shared p.log ∧ Carried calls p.log) ∧
      Bookkept p.shared p.log ∧ ∀ i, Follows (calls i).protocol (p.thread i)
        (calls i).Post (p.log.of i) := by
  refine Workers.invariant (fun c log =>
    Agreed scope c log ∧ Carried calls log) hreach
    (fun _ _ h => h.slots.1) ⟨agreed_nil scope c, ?_⟩ ?_ ?_
  · simp [Carried, dispatches]
  · rintro c c' log i op r hbooks ⟨hagreed, hcarries⟩ hallowed hstep
    exact ⟨hagreed.step hbooks (hscope i) hallowed hstep,
      hcarries.step r hallowed⟩
  · rintro c c' log ⟨hagreed, hcarries⟩ hhost
    exact ⟨hagreed.host hhost, hcarries⟩

/-- Over one query, whatever the schedule and the provider: each identity is
sent at most once; all workers which return results return those of one
function of the identity; and what an entry holds does not change. -/
theorem single_dispatch_and_agreement (c : ConnectionRuntime)
    (calls : ι → Call) (scope : ℕ)
    (hscope : ∀ i, (calls i).limits.queryScope = scope) {p p' : Workers ι}
    (hreach : Workers.Reach QueryStep (Workers.start c calls) p)
    (hlater : Workers.Reach QueryStep p p') :
    (carriedBy p.log).Nodup ∧
      (∀ i, ∀ d ∈ dispatches (p.log.of i),
        (calls i).Carries d.carried d.requests) ∧
      (∃ value : JudgmentIdentity → JudgmentResult, ∀ i output,
        p.thread i = .ret (.ok output) →
          output.Perm ((calls i).groups.flatMap fun group =>
            group.expand (value group.identity))) ∧
      ∀ entry outcome, p.shared.slot entry = some outcome →
        p'.shared.slot entry = some outcome := by
  obtain ⟨⟨hagreed, hcarries⟩, hbooks, hfollows⟩ :=
    Workers.agreed hscope hreach
  refine ⟨hagreed.once, hcarries, ?_, ?_⟩
  · obtain ⟨value, hvalue⟩ := hagreed.value hbooks
    refine ⟨value, fun i output hreturned => ?_⟩
    have hpost := hfollows i
    rw [hreturned] at hpost
    exact hpost.2.2.1.perm (hvalue i)
  · exact fun entry outcome hslot =>
      Workers.slot_stays (fun _ _ h => h.slots.1) hlater hslot

/-- Two workers with the same groups, one in batches and one not. -/
def pairCalls : Bool → Call :=
  fun i => textCall 0 (if i then .batched 2 insertionOrder else .single) none

/-- Some schedule lets both workers return. -/
theorem pair_returns :
    ∃ p : Workers Bool,
      Workers.Reach QueryStep (Workers.start firstQuery pairCalls) p ∧
        ∀ i, ∃ output, p.thread i = .ret (.ok output) := by
  have hrun : (((halfEnvironment.run (pairCalls true).program firstQuery).bind
      fun x => (halfEnvironment.run (pairCalls false).program x.2.1.1).map
        fun y => (x.1.toBool, y.1.toBool)) = some (true, true)) := by
    decide
  obtain ⟨⟨first, s₁, events₁⟩, hfirst, hrest⟩ :=
    Option.bind_eq_some_iff.mp hrun
  obtain ⟨⟨second, s₂, events₂⟩, hsecond, hok⟩ :=
    Option.map_eq_some_iff.mp hrest
  obtain ⟨hok₁, hok₂⟩ := Prod.mk.inj hok
  have hreach₁ := Workers.reach_of_run QueryStep halfEnvironment
    (p := Workers.start firstQuery pairCalls) (i := true) hfirst
  have hreach₂ := Workers.reach_of_run QueryStep halfEnvironment
    (p := ⟨s₁.1, Function.update (Workers.start firstQuery pairCalls).thread
      true (.ret first), events₁.map (fun event => (true, event)) ++ []⟩)
    (i := false) hsecond
  refine ⟨_, hreach₁.trans hreach₂, ?_⟩
  rintro (_ | _)
  · cases second with
    | ok output => exact ⟨output, rfl⟩
    | error error => cases hok₂
  · cases first with
    | ok output => exact ⟨output, rfl⟩
    | error error => cases hok₁

theorem single_dispatch_and_agreement_pair :
    ∃ p : Workers Bool, (∀ i, ∃ output, p.thread i = .ret (.ok output)) ∧
      (carriedBy p.log).Nodup ∧
      ∃ value : JudgmentIdentity → JudgmentResult, ∀ i output,
        p.thread i = .ret (.ok output) →
          output.Perm ((pairCalls i).groups.flatMap fun group =>
            group.expand (value group.identity)) := by
  obtain ⟨p, hreach, hreturns⟩ := pair_returns
  have h := single_dispatch_and_agreement firstQuery pairCalls 0
    (fun i => by cases i <;> rfl) hreach Relation.ReflTransGen.refl
  exact ⟨p, hreturns, h.1, h.2.2.1⟩

end DuckJeu
