import DuckJeu.Executor.Batch
import DuckJeu.Executor.Single
import DuckJeu.Host.Frame

/-!
# Workers of one connection

Any number of calls run over one connection, in any order of their operations
and of what the host does in between.  This module keeps the books about all
of them at once: who owns which slot, and what is in it.
-/

namespace DuckJeu

open Effects ConnectionRuntime

/-- A call follows its protocol in either mode. -/
theorem Call.follows (call : Call) :
    Follows call.protocol call.program call.Post [] := by
  cases hmode : call.mode with
  | single => exact single_follows hmode
  | batched maxJudgments order => exact batched_follows hmode

/-- The workers of one connection, each with one call. -/
abbrev Workers (ι : Type) := Pool ι ConnectionRuntime Op Res Answer

abbrev WorkerLog (ι : Type) := Log ι Op Res

variable {ι : Type} [DecidableEq ι]

/-- The workers before they have done anything. -/
def Workers.start (c : ConnectionRuntime) (calls : ι → Call) : Workers ι where
  shared := c
  thread := fun i => (calls i).program
  log := []

/-- Whatever the schedule, the workers lead from one state to the other. -/
abbrev Workers.Reach (host : ConnectionRuntime → ConnectionRuntime → Prop) :
    Workers ι → Workers ι → Prop :=
  Pool.Reachable step host

/-! ## Histories within the log -/

section Log

variable {log : WorkerLog ι} {i j : ι} {event : ExecEvent}

theorem mem_claims_of_cons {claim : Claim} :
    claim ∈ claims (Log.of ((i, event) :: log) j) ↔
      (i = j ∧ event.claim? = some claim) ∨ claim ∈ claims (log.of j) := by
  by_cases hij : i = j
  · subst hij
    rw [Log.of_cons_self, claims, List.mem_filterMap]
    simp [claims]
  · simp [Log.of_cons_ne hij, hij]

theorem mem_ownedClaims_of_cons {claim : Claim} :
    claim ∈ ownedClaims (Log.of ((i, event) :: log) j) ↔
      (i = j ∧ event.claim? = some claim ∧ claim.owned = true) ∨
        claim ∈ ownedClaims (log.of j) := by
  rw [mem_ownedClaims, mem_claims_of_cons, mem_ownedClaims]
  tauto

theorem firstCompletion_of_cons (entry : ℕ) :
    firstCompletion (Log.of ((i, event) :: log) j) entry =
      (firstCompletion (log.of j) entry).or
        (if i = j then firstCompletion [event] entry else none) := by
  by_cases hij : i = j
  · subst hij
    rw [Log.of_cons_self, if_pos rfl, ← firstCompletion_append]
    rfl
  · simp [Log.of_cons_ne hij, hij]

theorem mem_completions_of_cons {completion : ℕ × Outcome} :
    completion ∈ completions (Log.of ((i, event) :: log) j) ↔
      (i = j ∧ event.completion? = some completion) ∨
        completion ∈ completions (log.of j) := by
  by_cases hij : i = j
  · subst hij
    rw [Log.of_cons_self, completions, List.mem_filterMap]
    simp [completions]
  · simp [Log.of_cons_ne hij, hij]

theorem firstCompletion_of_cons_none (hcompletion : event.completion? = none)
    (entry : ℕ) :
    firstCompletion (Log.of ((i, event) :: log) j) entry =
      firstCompletion (log.of j) entry := by
  rw [firstCompletion_of_cons]
  simp [firstCompletion, completions, hcompletion]

end Log

/-! ## The books -/

/-- Slots belong to their owners: nobody else completes them, so that each
holds what its owner has put there first. -/
structure Bookkept (c : ConnectionRuntime) (log : WorkerLog ι) : Prop where
  claims_lt : ∀ i, ∀ claim ∈ claims (log.of i), claim.entry < c.slots.length
  owner : ∀ i j, ∀ claim ∈ ownedClaims (log.of i),
    ∀ claim' ∈ ownedClaims (log.of j), claim.entry = claim'.entry → i = j
  completed : ∀ i, ∀ completion ∈ completions (log.of i),
    ∃ claim ∈ ownedClaims (log.of i), claim.entry = completion.1
  contents : ∀ i, ∀ claim ∈ ownedClaims (log.of i),
    c.slot claim.entry = firstCompletion (log.of i) claim.entry
  waited : ∀ i entry flag result,
    (⟨.wait entry flag, .ok result⟩ : ExecEvent) ∈ log.of i →
      c.slot entry = some (.ok result)
  carry : ∀ i, (carriedIn (log.of i)).Subperm (ownedIdentities (log.of i))

theorem bookkept_nil (c : ConnectionRuntime) :
    Bookkept c ([] : WorkerLog ι) where
  claims_lt := by simp [claims]
  owner := by simp [ownedClaims, claims]
  completed := by simp [completions]
  contents := by simp [ownedClaims, claims]
  waited := by simp
  carry := fun _ => List.Subperm.refl _

section Books

variable {c c' : ConnectionRuntime} {log : WorkerLog ι} {i : ι}
  {event : ExecEvent}

theorem Bookkept.owned_lt (hbooks : Bookkept c log) {j : ι} {claim : Claim}
    (hmem : claim ∈ ownedClaims (log.of j)) : claim.entry < c.slots.length :=
  hbooks.claims_lt j claim (mem_ownedClaims.mp hmem).1

/-- The identities sent stay among the owned ones. -/
theorem Bookkept.carry_cons (hbooks : Bookkept c log)
    (hcarry : ∀ d, event.dispatch? = some d →
      (carriedIn (log.of i) ++ d.carried).Subperm (ownedIdentities (log.of i)))
    (j : ι) :
    (carriedIn (Log.of ((i, event) :: log) j)).Subperm
      (ownedIdentities (Log.of ((i, event) :: log) j)) := by
  by_cases hij : i = j
  · subst hij
    rw [Log.of_cons_self]
    have hgrown := (Grown.refl (log.of i)).event event
    rw [hgrown.carriedIn_eq, ownedIdentities, hgrown.ownedClaims_eq,
      List.map_append]
    refine List.Subperm.trans ?_ (List.sublist_append_right _ _).subperm
    cases hdispatch : event.dispatch? with
    | none => exact hbooks.carry i
    | some d =>
        refine List.Subperm.trans ?_ (hcarry d hdispatch)
        simpa using (List.perm_append_comm : (carriedIn (log.of i) ++
          d.carried).Perm (d.carried ++ carriedIn (log.of i))).symm.subperm
  · rw [Log.of_cons_ne hij]
    exact hbooks.carry j

/-- Events which neither make an entry nor complete one keep the books. -/
theorem Bookkept.quiet (hbooks : Bookkept c log)
    (hslots : c'.slots = c.slots)
    (hclaim : ∀ claim, event.claim? = some claim →
      claim.owned = false ∧ claim.entry < c.slots.length)
    (hcompletion : event.completion? = none)
    (hwait : ∀ entry flag result, event = ⟨.wait entry flag, .ok result⟩ →
      c.slot entry = some (.ok result))
    (hcarry : ∀ d, event.dispatch? = some d →
      (carriedIn (log.of i) ++ d.carried).Subperm
        (ownedIdentities (log.of i))) :
    Bookkept c' ((i, event) :: log) := by
  have hslot : ∀ entry, c'.slot entry = c.slot entry := by
    intro entry
    rw [slot, hslots, slot]
  have howned : ∀ j claim,
      claim ∈ ownedClaims (Log.of ((i, event) :: log) j) ↔
        claim ∈ ownedClaims (log.of j) := by
    intro j claim
    rw [mem_ownedClaims_of_cons]
    refine or_iff_right ?_
    rintro ⟨-, hmem, htrue⟩
    rw [(hclaim claim hmem).1] at htrue
    cases htrue
  refine ⟨?_, ?_, ?_, ?_, ?_, hbooks.carry_cons hcarry⟩
  · intro j claim hmem
    rw [hslots]
    rcases mem_claims_of_cons.mp hmem with ⟨-, hmem⟩ | hmem
    · exact (hclaim claim hmem).2
    · exact hbooks.claims_lt j claim hmem
  · intro j k claim hmem claim' hmem'
    exact hbooks.owner j k claim ((howned j claim).mp hmem) claim'
      ((howned k claim').mp hmem')
  · intro j completion hmem
    rw [mem_completions_of_cons, hcompletion] at hmem
    obtain ⟨claim, hmem, hentry⟩ :=
      hbooks.completed j completion (by simpa using hmem)
    exact ⟨claim, (howned j claim).mpr hmem, hentry⟩
  · intro j claim hmem
    rw [hslot, firstCompletion_of_cons_none hcompletion]
    exact hbooks.contents j claim ((howned j claim).mp hmem)
  · intro j entry flag result hmem
    rw [hslot]
    rw [Log.mem_of, List.mem_cons, Prod.mk.injEq] at hmem
    rcases hmem with ⟨rfl, hevent⟩ | hmem
    · exact hwait entry flag result hevent.symm
    · exact hbooks.waited j entry flag result (Log.mem_of.mpr hmem)

/-- A new entry lies beyond all old ones. -/
theorem Bookkept.newEntry (hbooks : Bookkept c log) {scope : ℕ}
    {identity : JudgmentIdentity}
    (hslot : ∀ entry, c'.slot entry = c.slot entry)
    (hlength : c'.slots.length = c.slots.length + 1) :
    Bookkept c' ((i, ⟨.claimQueryEntry scope identity,
      .ok (c.slots.length, true)⟩) :: log) := by
  refine ⟨?_, ?_, ?_, ?_, ?_, hbooks.carry_cons (by
    simp [ExecEvent.dispatch?])⟩
  · intro j claim hmem
    rw [hlength]
    rcases mem_claims_of_cons.mp hmem with ⟨-, hclaim⟩ | hmem
    · obtain rfl := Option.some.inj hclaim
      exact Nat.lt_succ_self _
    · exact Nat.lt_succ_of_lt (hbooks.claims_lt j claim hmem)
  · intro j k claim hmem claim' hmem' hentry
    rw [mem_ownedClaims_of_cons] at hmem hmem'
    rcases hmem with ⟨hj, hclaim, -⟩ | hmem
    · obtain rfl := Option.some.inj hclaim
      rcases hmem' with ⟨hk, -, -⟩ | hmem'
      · exact hj.symm.trans hk
      · exact absurd hentry (hbooks.owned_lt hmem').ne'
    · rcases hmem' with ⟨-, hclaim, -⟩ | hmem'
      · obtain rfl := Option.some.inj hclaim
        exact absurd hentry (hbooks.owned_lt hmem).ne
      · exact hbooks.owner j k claim hmem claim' hmem' hentry
  · intro j completion hmem
    rw [mem_completions_of_cons] at hmem
    obtain ⟨claim, hclaim, hentry⟩ :=
      hbooks.completed j completion
        (by simpa [ExecEvent.completion?] using hmem)
    exact ⟨claim, mem_ownedClaims_of_cons.mpr (Or.inr hclaim), hentry⟩
  · intro j claim hmem
    rw [hslot, firstCompletion_of_cons_none rfl]
    rcases mem_ownedClaims_of_cons.mp hmem with ⟨rfl, hclaim, -⟩ | hmem
    · obtain rfl := Option.some.inj hclaim
      have hfresh : ¬ Completed (log.of i) c.slots.length := by
        rintro ⟨outcome, hcompletion⟩
        obtain ⟨claim, hclaim, hentry⟩ := hbooks.completed i _ hcompletion
        exact absurd hentry (hbooks.owned_lt hclaim).ne
      rw [firstCompletion_eq_none.mpr hfresh]
      simp [slot]
    · exact hbooks.contents j claim hmem
  · intro j entry flag result hmem
    rw [hslot]
    refine hbooks.waited j entry flag result (Log.mem_of.mpr ?_)
    simpa [Log.mem_of] using hmem

/-- A claim keeps the books. -/
theorem Bookkept.claim (hbooks : Bookkept c log) {scope : ℕ}
    {identity : JudgmentIdentity} {r : Except JudgmentError (ℕ × Bool)}
    (hstep : c.claimQueryEntry scope identity = (r, c')) :
    Admitted (log.of i) (.claimQueryEntry scope identity) r ∧
      Bookkept c' ((i, ⟨.claimQueryEntry scope identity, r⟩) :: log) := by
  rcases claimQueryEntry_cases hstep with ⟨error, rfl, rfl, -⟩ |
    ⟨entry, rfl, -, hlookup, hframe⟩ | ⟨rfl, -, -, hframe⟩
  · exact ⟨trivial, hbooks.quiet rfl (by simp [ExecEvent.claim?]) rfl (by simp)
      (by simp [ExecEvent.dispatch?])⟩
  · refine ⟨trivial, hbooks.quiet hframe.slots ?_ rfl (by simp)
      (by simp [ExecEvent.dispatch?])⟩
    intro claim hclaim
    obtain rfl := Option.some.inj hclaim
    exact ⟨rfl, c.entries_lt identity entry hlookup⟩
  · refine ⟨fun claim hmem => (hbooks.claims_lt i claim hmem).ne,
      hbooks.newEntry ?_ (by simp [hframe.slots, addEntry])⟩
    exact fun entry =>
      (hframe.slot entry).trans (addEntry_slot c identity entry)

/-- A completion by the owner keeps the books. -/
theorem Bookkept.complete (hbooks : Bookkept c log)
    {identity : JudgmentIdentity} {entry : ℕ} {outcome : Outcome} {r : Unit}
    (hclaim : ⟨identity, entry, true⟩ ∈ claims (log.of i)) :
    Bookkept (c.complete entry outcome)
      ((i, ⟨.complete entry outcome, r⟩) :: log) := by
  have howned : ⟨identity, entry, true⟩ ∈ ownedClaims (log.of i) :=
    mem_ownedClaims.mpr ⟨hclaim, rfl⟩
  have hmine : ∀ {j claim}, claim ∈ ownedClaims
      (Log.of ((i, ⟨.complete entry outcome, r⟩) :: log) j) ↔
        claim ∈ ownedClaims (log.of j) := by
    intro j claim
    simp [mem_ownedClaims_of_cons, ExecEvent.claim?]
  have hslot := c.complete_slot outcome (hbooks.owned_lt howned)
  refine ⟨?_, ?_, ?_, ?_, ?_, hbooks.carry_cons (by
    simp [ExecEvent.dispatch?])⟩
  · intro j claim hmem
    rw [complete_length]
    rcases mem_claims_of_cons.mp hmem with ⟨-, hnew⟩ | hmem
    · cases hnew
    · exact hbooks.claims_lt j claim hmem
  · intro j k claim hmem claim' hmem'
    exact hbooks.owner j k claim (hmine.mp hmem) claim' (hmine.mp hmem')
  · intro j completion hmem
    rcases mem_completions_of_cons.mp hmem with ⟨rfl, hnew⟩ | hmem
    · obtain rfl := Option.some.inj hnew
      exact ⟨_, hmine.mpr howned, rfl⟩
    · obtain ⟨claim, hmem, hentry⟩ := hbooks.completed j completion hmem
      exact ⟨claim, hmine.mpr hmem, hentry⟩
  · intro j claim hmem
    have hmem := hmine.mp hmem
    rw [hslot, firstCompletion_of_cons, ← hbooks.contents j claim hmem]
    by_cases hentry : claim.entry = entry
    · obtain rfl := hbooks.owner i j _ howned claim hmem hentry.symm
      rw [if_pos hentry, if_pos rfl, hentry]
      congr 1
      simp [firstCompletion, completions, ExecEvent.completion?]
    · rw [if_neg hentry]
      have hother : firstCompletion
          [(⟨.complete entry outcome, r⟩ : ExecEvent)] claim.entry = none := by
        simp [firstCompletion, completions, ExecEvent.completion?,
          Ne.symm hentry]
      simp [hother]
  · intro j entry' flag result hmem
    have hold := hbooks.waited j entry' flag result (Log.mem_of.mpr (by
      simpa [Log.mem_of] using hmem))
    rw [hslot]
    split
    · rename_i hentry
      rw [← hentry, hold, Option.some_or]
    · exact hold

/-- Every allowed step gets an admitted answer and keeps the books. -/
theorem Bookkept.step (hbooks : Bookkept c log) {call : Call} {op : Op}
    {r : Res op} (hallowed : call.Allowed (log.of i) op)
    (hstep : step c op r c') :
    Admitted (log.of i) op r ∧ Bookkept c' ((i, ⟨op, r⟩) :: log) := by
  by_cases htouches : op.Touches
  · cases op with
    | claimQueryEntry scope identity => exact hbooks.claim hstep
    | complete entry outcome =>
        obtain ⟨identity, hclaim, -⟩ := hallowed
        obtain rfl : c' = _ := hstep
        exact ⟨trivial, hbooks.complete hclaim⟩
    | acquirePermit maxInflight flag =>
        refine ⟨trivial, hbooks.quiet ?_ (by simp [ExecEvent.claim?]) rfl
          (by simp) (by simp [ExecEvent.dispatch?])⟩
        rcases acquirePermit_cases hstep with ⟨_, -, rfl, -⟩ | ⟨-, rfl⟩
        · rfl
        · rfl
    | dropPermit =>
        obtain rfl : c' = _ := hstep
        exact ⟨trivial, hbooks.quiet rfl (by simp [ExecEvent.claim?]) rfl
          (by simp) (by simp [ExecEvent.dispatch?])⟩
    | _ => exact htouches.elim
  · have hframe := step_frame htouches hstep
    cases op with
    | claimQueryEntry => exact absurd trivial htouches
    | complete => exact absurd trivial htouches
    | acquirePermit => exact absurd trivial htouches
    | dropPermit => exact absurd trivial htouches
    | wait entry flag =>
        refine ⟨trivial, hbooks.quiet hframe.slots (by simp [ExecEvent.claim?])
          rfl ?_ (by simp [ExecEvent.dispatch?])⟩
        rintro _ _ result ⟨⟩
        have hwait := hstep.1
        unfold wait at hwait
        split at hwait
        · rename_i hslot
          rw [hslot, hwait]
        · split at hwait
          · cases hwait
          · cases hwait
    | judge method carried requests =>
        refine ⟨trivial, hbooks.quiet hframe.slots (by simp [ExecEvent.claim?])
          rfl (by simp) ?_⟩
        rintro _ ⟨⟩
        exact hallowed.unsent
    | _ =>
        exact ⟨trivial, hbooks.quiet hframe.slots (by simp [ExecEvent.claim?])
          rfl (by simp) (by simp [ExecEvent.dispatch?])⟩

theorem Bookkept.host (hbooks : Bookkept c log) (hslots : c'.slots = c.slots) :
    Bookkept c' log where
  claims_lt := by
    rw [hslots]
    exact hbooks.claims_lt
  owner := hbooks.owner
  completed := hbooks.completed
  contents := by
    intro i claim hmem
    rw [slot, hslots]
    exact hbooks.contents i claim hmem
  waited := by
    intro i entry flag result hmem
    rw [slot, hslots]
    exact hbooks.waited i entry flag result hmem
  carry := hbooks.carry

end Books

/-! ## Runs -/

/-- What every step keeps, given the books and the protocols, holds wherever
the workers get, and so do the books and the protocols. -/
theorem Workers.invariant (Inv : ConnectionRuntime → WorkerLog ι → Prop)
    {calls : ι → Call} {c : ConnectionRuntime}
    {host : ConnectionRuntime → ConnectionRuntime → Prop} {p : Workers ι}
    (hreach : Workers.Reach host (Workers.start c calls) p)
    (hslots : ∀ c c', host c c' → c'.slots = c.slots) (hinit : Inv c [])
    (hstep : ∀ c c' log i op r, Bookkept c log → Inv c log →
      (calls i).Allowed (log.of i) op → step c op r c' →
        Inv c' ((i, ⟨op, r⟩) :: log))
    (hhost : ∀ c c' log, Inv c log → host c c' → Inv c' log) :
    Inv p.shared p.log ∧ Bookkept p.shared p.log ∧ ∀ i,
      Follows (calls i).protocol (p.thread i) (calls i).Post (p.log.of i) := by
  have h := hreach.follows (P := fun i => (calls i).protocol)
    (Q := fun i => (calls i).Post) (g := fun _ => [])
    (fun c log => Inv c log ∧ Bookkept c log) ?_ ?_ ?_ ?_
  · obtain ⟨⟨hinv, hbooks⟩, hfollows⟩ := h
    refine ⟨hinv, hbooks, fun i => ?_⟩
    have hi := hfollows i
    rwa [Protocol.ofHistory_replay] at hi
  · rintro c log i op r c' ⟨hinv, hbooks⟩ hallowed hs
    rw [Protocol.ofHistory_replay] at hallowed ⊢
    obtain ⟨hadmits, hbooks'⟩ := hbooks.step hallowed hs
    exact ⟨hadmits, hstep c c' log i op r hbooks hinv hallowed hs, hbooks'⟩
  · rintro c c' log ⟨hinv, hbooks⟩ hs
    exact ⟨hhost c c' log hinv hs, hbooks.host (hslots c c' hs)⟩
  · exact ⟨hinit, bookkept_nil c⟩
  · exact fun i => (calls i).follows

/-- Whatever a worker has done, it was allowed to do. -/
theorem Workers.allowed {host : ConnectionRuntime → ConnectionRuntime → Prop}
    (hslots : ∀ c c', host c c' → c'.slots = c.slots)
    {c : ConnectionRuntime} {calls : ι → Call} {p : Workers ι}
    (hreach : Workers.Reach host (Workers.start c calls) p) {i : ι}
    {event : ExecEvent} (hmem : event ∈ p.log.of i) :
    ∃ older, older <:+ p.log.of i ∧ (calls i).Allowed older event.1 := by
  have hinv := Workers.invariant (fun _ log => ∀ i, ∀ event ∈ log.of i,
      ∃ older, older <:+ log.of i ∧ (calls i).Allowed older event.1) hreach
    hslots ?_ ?_ fun _ _ _ hall _ => hall
  · exact hinv.1 i event hmem
  · intro i event hmem
    cases hmem
  · intro c c' log j op r _ hall hallowed _ i event hmem
    by_cases hij : j = i
    · subst hij
      rw [Log.of_cons_self] at hmem ⊢
      rcases List.mem_cons.mp hmem with rfl | hmem
      · exact ⟨_, List.suffix_cons _ _, hallowed⟩
      · obtain ⟨older, hsuffix, holder⟩ := hall j event hmem
        exact ⟨older, hsuffix.trans (List.suffix_cons _ _), holder⟩
    · rw [Log.of_cons_ne hij] at hmem ⊢
      exact hall i event hmem

end DuckJeu
