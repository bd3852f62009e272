import DuckJeu.Executor.Agreement
import Mathlib.Data.Finset.Card

/-!
# Progress

Workers block on two things only: on the entry of somebody else, and on a
permit.  A worker which waits for an entry owns nothing open and holds no
permit; a worker which holds a permit does not block at all.  So somebody can
always go on.
-/

namespace DuckJeu

open Effects ConnectionRuntime

variable {ι : Type} [DecidableEq ι]

/-! ## Permits -/

/-- The permits in use are those which workers hold, one each. -/
def Held (c : ConnectionRuntime) (log : WorkerLog ι) : Prop :=
  ∃ holders : Finset ι, c.inflight.active = holders.card ∧
    ∀ i, permits (log.of i) = if i ∈ holders then 1 else 0

/-- Only taking and dropping a permit count. -/
theorem permits_cons {op : Op} (r : Res op) (h : History)
    (hacquire : ∀ maxInflight flag, op ≠ .acquirePermit maxInflight flag)
    (hdrop : op ≠ .dropPermit) : permits (⟨op, r⟩ :: h) = permits h := by
  cases op with
  | acquirePermit maxInflight flag => exact absurd rfl (hacquire _ _)
  | dropPermit => exact absurd rfl hdrop
  | _ => rfl

theorem step_inflight {c c' : ConnectionRuntime} {op : Op} {r : Res op}
    (h : step c op r c')
    (hacquire : ∀ maxInflight flag, op ≠ .acquirePermit maxInflight flag)
    (hdrop : op ≠ .dropPermit) : c'.inflight = c.inflight := by
  by_cases htouches : op.Touches
  · cases op with
    | claimQueryEntry scope identity =>
        rcases claimQueryEntry_cases h with ⟨error, -, rfl, -⟩ |
          ⟨entry, -, -, -, hframe⟩ | ⟨-, -, -, hframe⟩
        · rfl
        · exact hframe.inflight
        · exact hframe.inflight
    | complete entry outcome =>
        obtain rfl : c' = _ := h
        exact (c.complete_frame entry outcome).2.2.1
    | acquirePermit maxInflight flag => exact absurd rfl (hacquire _ _)
    | dropPermit => exact absurd rfl hdrop
    | _ => exact htouches.elim
  · exact (step_frame htouches h).inflight

section Held

variable {c c' : ConnectionRuntime} {log : WorkerLog ι} {i : ι}

/-- The permits of all workers after a step of one of them. -/
theorem permits_of_cons {event : ExecEvent} {before after : ι → ℕ}
    (hbefore : ∀ j, permits (log.of j) = before j)
    (hsame : ∀ j, j ≠ i → after j = before j)
    (hi : permits (event :: log.of i) = after i) (j : ι) :
    permits (Log.of ((i, event) :: log) j) = after j := by
  by_cases hij : i = j
  · subst hij
    rwa [Log.of_cons_self]
  · rw [Log.of_cons_ne hij, hbefore, hsame j (Ne.symm hij)]

theorem Held.step (hheld : Held c log) {call : Call} {op : Op} {r : Res op}
    (hallowed : call.Allowed (log.of i) op) (hstep : step c op r c') :
    Held c' ((i, ⟨op, r⟩) :: log) := by
  obtain ⟨holders, hactive, hpermits⟩ := hheld
  by_cases hacquire : ∃ maxInflight flag, op = .acquirePermit maxInflight flag
  · obtain ⟨maxInflight, flag, rfl⟩ := hacquire
    have hfree : i ∉ holders := by
      intro hmem
      have hone := hpermits i
      rw [if_pos hmem, hallowed.2.1] at hone
      cases hone
    rcases acquirePermit_cases hstep with ⟨error, rfl, rfl, -⟩ | ⟨rfl, rfl⟩
    · exact ⟨holders, hactive,
        permits_of_cons hpermits (fun _ _ => rfl) (hpermits i)⟩
    · refine ⟨insert i holders, ?_, permits_of_cons hpermits ?_ ?_⟩
      · rw [Finset.card_insert_of_notMem hfree]
        exact congrArg (· + 1) hactive
      · intro j hj
        simp [hj]
      · change permits (log.of i) + 1 = _
        rw [hallowed.2.1, if_pos (Finset.mem_insert_self i holders)]
  by_cases hdrop : op = .dropPermit
  · subst hdrop
    obtain rfl : c' = _ := hstep
    have hmem : i ∈ holders := by
      by_contra hnot
      have hzero := hpermits i
      rw [if_neg hnot, show permits (log.of i) = 1 from hallowed] at hzero
      cases hzero
    refine ⟨holders.erase i, ?_, permits_of_cons hpermits ?_ ?_⟩
    · rw [Finset.card_erase_of_mem hmem]
      exact congrArg (· - 1) hactive
    · intro j hj
      simp [hj]
    · change permits (log.of i) - 1 = _
      rw [show permits (log.of i) = 1 from hallowed]
      simp
  · have hother : ∀ maxInflight flag, op ≠ .acquirePermit maxInflight flag :=
      fun maxInflight flag heq => hacquire ⟨maxInflight, flag, heq⟩
    refine ⟨holders, ?_, permits_of_cons hpermits (fun _ _ => rfl) ?_⟩
    · rwa [step_inflight hstep hother hdrop]
    · rw [permits_cons r _ hother hdrop, hpermits]

/-- While a permit is in use, somebody holds it. -/
theorem Held.holder (hheld : Held c log) (hactive : 0 < c.inflight.active) :
    ∃ i, permits (log.of i) = 1 := by
  obtain ⟨holders, hcard, hpermits⟩ := hheld
  rw [hcard, Finset.card_pos] at hactive
  obtain ⟨i, hi⟩ := hactive
  exact ⟨i, by rw [hpermits, if_pos hi]⟩

end Held

/-! ## Entries -/

/-- The entry is completed, or a worker owns it. -/
def Covered (c : ConnectionRuntime) (log : WorkerLog ι) (entry : ℕ) : Prop :=
  (c.slot entry).isSome ∨
    ∃ i, ∃ claim ∈ ownedClaims (log.of i), claim.entry = entry

/-- The query runs and has turned nobody away, and all entries it knows of
are covered. -/
structure Attended (scope : ℕ) (c : ConnectionRuntime) (log : WorkerLog ι) :
    Prop where
  running : c.Running scope
  welcomed : ∀ i, ¬ Refused (log.of i)
  entries : ∀ identity entry, c.queryEntries.lookup identity = some entry →
    Covered c log entry
  claims : ∀ i, ∀ claim ∈ claims (log.of i), Covered c log claim.entry

section Attended

variable {scope : ℕ} {c c' : ConnectionRuntime} {log : WorkerLog ι} {i : ι}

theorem Covered.step {op : Op} {r : Res op} {entry : ℕ}
    (hcovered : Covered c log entry) (hstep : step c op r c') :
    Covered c' ((i, ⟨op, r⟩) :: log) entry := by
  rcases hcovered with hsome | ⟨j, claim, hmem, hentry⟩
  · obtain ⟨outcome, hslot⟩ := Option.isSome_iff_exists.mp hsome
    exact Or.inl (by rw [step_slot hstep hslot]; rfl)
  · exact Or.inr ⟨j, claim, mem_ownedClaims_of_cons.mpr (Or.inr hmem), hentry⟩

/-- A query which runs turns nobody away. -/
theorem not_refuses_of_running {call : Call} {h : History} {op : Op}
    {r : Res op} (hallowed : call.Allowed h op)
    (hrunning : c.Running call.limits.queryScope) (hstep : step c op r c') :
    ¬ ExecEvent.Refuses ⟨op, r⟩ := by
  intro hrefuses
  cases op with
  | claimQueryEntry claimScope identity =>
      rcases claimQueryEntry_cases hstep with ⟨error, -, -, hnot⟩ |
        ⟨entry, rfl, -⟩ | ⟨rfl, -⟩
      · exact hnot (hallowed.1 ▸ hrunning)
      · exact hrefuses
      · exact hrefuses
  | queryCancellation claimScope =>
      obtain ⟨flag, hflag, -⟩ := hrunning
      obtain rfl : claimScope = _ := hallowed
      have hr : r = .ok flag := hstep.1.symm.trans hflag
      subst hr
      exact hrefuses
  | _ => exact hrefuses

theorem Attended.step (hattended : Attended scope c log) {call : Call}
    (hscope : call.limits.queryScope = scope) {op : Op} {r : Res op}
    (hallowed : call.Allowed (log.of i) op) (hstep : step c op r c') :
    Attended scope c' ((i, ⟨op, r⟩) :: log) where
  running := (step_running hstep scope).mpr hattended.running
  welcomed := by
    rintro j ⟨event, hmem, hrefuses⟩
    rw [Log.mem_of, List.mem_cons, Prod.mk.injEq] at hmem
    rcases hmem with ⟨-, rfl⟩ | hmem
    · exact not_refuses_of_running hallowed (hscope ▸ hattended.running) hstep
        hrefuses
    · exact hattended.welcomed j ⟨event, Log.mem_of.mpr hmem, hrefuses⟩
  entries := by
    intro identity entry hlookup
    by_cases hclaim : ∃ claimScope other, op = .claimQueryEntry claimScope other
    · obtain ⟨claimScope, other, rfl⟩ := hclaim
      rcases claimQueryEntry_cases hstep with ⟨error, rfl, rfl, -⟩ |
        ⟨found, rfl, -, -, hframe⟩ | ⟨rfl, -, -, hframe⟩
      · exact (hattended.entries identity entry hlookup).step hstep
      · rw [hframe.entries] at hlookup
        exact (hattended.entries identity entry hlookup).step hstep
      · rw [hframe.entries] at hlookup
        by_cases hsame : identity = other
        · subst hsame
          rw [addEntry, AList.lookup_insert, Option.some.injEq] at hlookup
          exact Or.inr ⟨i, ⟨identity, c.slots.length, true⟩,
            mem_ownedClaims_of_cons.mpr (Or.inl ⟨rfl, rfl, rfl⟩), hlookup⟩
        · rw [addEntry, AList.lookup_insert_ne hsame] at hlookup
          exact (hattended.entries identity entry hlookup).step hstep
    · rw [step_entries hstep fun claimScope other heq =>
        hclaim ⟨claimScope, other, heq⟩] at hlookup
      exact (hattended.entries identity entry hlookup).step hstep
  claims := by
    intro j claim hmem
    rcases mem_claims_of_cons.mp hmem with ⟨rfl, hclaim⟩ | hmem
    · cases op with
      | claimQueryEntry claimScope identity =>
          rcases claimQueryEntry_cases hstep with ⟨error, rfl, -⟩ |
            ⟨entry, rfl, -, hlookup, -⟩ | ⟨rfl, -⟩
          · cases hclaim
          · obtain rfl := Option.some.inj hclaim
            exact (hattended.entries identity entry hlookup).step hstep
          · obtain rfl := Option.some.inj hclaim
            exact Or.inr ⟨i, ⟨identity, c.slots.length, true⟩,
              mem_ownedClaims_of_cons.mpr (Or.inl ⟨rfl, rfl, rfl⟩), rfl⟩
      | _ => cases hclaim
    · exact (hattended.claims j claim hmem).step hstep

theorem Attended.host (hattended : Attended scope c log)
    (hhost : QuietStep c c') : Attended scope c' log where
  running := hhost.frame.running.mpr hattended.running
  welcomed := hattended.welcomed
  entries := by
    intro identity entry hlookup
    rw [hhost.frame.entries] at hlookup
    have hcovered := hattended.entries identity entry hlookup
    rwa [Covered, ← hhost.frame.slot] at hcovered
  claims := by
    intro i claim hmem
    have hcovered := hattended.claims i claim hmem
    rwa [Covered, ← hhost.frame.slot] at hcovered

end Attended

/-! ## Blocking -/

/-- The thread is not done. -/
def Unfinished (p : Run Answer) : Prop := ∃ op k, p = .call op k

/-- The next operation of the thread is not possible now. -/
def Blocked (c : ConnectionRuntime) (p : Run Answer) : Prop :=
  ∃ op k, p = .call op k ∧ ∀ r c', ¬ step c op r c'

/-- Only a wait for an open entry and a full pool of permits block. -/
theorem blocked_cases {c : ConnectionRuntime} {op : Op}
    (h : ∀ r c', ¬ step c op r c') :
    (∃ entry flag, op = .wait entry flag ∧ c.slot entry = none) ∨
      ∃ maxInflight flag, op = .acquirePermit maxInflight flag ∧
        maxInflight ≤ c.inflight.active := by
  cases hhandle : halfEnvironment.handle (c, 0) op with
  | some next =>
      obtain ⟨r, s⟩ := next
      exact absurd (halfEnvironment.handle_step _ op r s hhandle) (h r s.1)
  | none =>
      cases op with
      | wait entry flag =>
          refine Or.inl ⟨entry, flag, rfl, ?_⟩
          cases hslot : c.slot entry with
          | none => rfl
          | some outcome =>
              simp [Environment.handle, wait, hslot] at hhandle
      | acquirePermit maxInflight flag =>
          refine Or.inr ⟨maxInflight, flag, rfl, ?_⟩
          simp only [Environment.handle, acquirePermit, Option.map_eq_none_iff]
            at hhandle
          split at hhandle
          · cases hhandle
          split at hhandle
          · cases hhandle
          split at hhandle
          · cases hhandle
          · omega
      | _ => cases hhandle

/-- A holder of a permit is at work: it is not done and does not block. -/
theorem holder_works {call : Call} {c : ConnectionRuntime} {p : Run Answer}
    {h : History} (hfollows : Follows call.protocol p call.Post h)
    (hpermits : permits h = 1) : Unfinished p ∧ ¬ Blocked c p := by
  cases p with
  | ret answer =>
      have hzero : permits h = 0 := by
        cases answer with
        | ok output => exact hfollows.1
        | error error => exact hfollows.1
      rw [hpermits] at hzero
      cases hzero
  | call op k =>
      refine ⟨⟨op, k, rfl⟩, ?_⟩
      rintro ⟨op', k', heq, hblocked⟩
      obtain ⟨rfl, -⟩ := Prog.call.inj heq
      have hallowed := hfollows.1
      rcases blocked_cases hblocked with ⟨entry, flag, rfl, -⟩ |
        ⟨maxInflight, flag, rfl, -⟩
      · rw [show permits h = 0 from hallowed.1] at hpermits
        cases hpermits
      · rw [show permits h = 0 from hallowed.2.1] at hpermits
        cases hpermits

/-- A worker with an open entry is not done and does not wait for others, if
it was not turned away and all groups are within the capabilities. -/
theorem open_owner_works {call : Call} {c : ConnectionRuntime} {p : Run Answer}
    {h : History} (hfollows : Follows call.protocol p call.Post h)
    (hwelcomed : ¬ Refused h)
    (hgates : ∀ group ∈ call.groups, call.provider.gate group.request = true)
    (hopen : ¬ AllCompleted h) :
    Unfinished p ∧ (Blocked c p → ∃ maxInflight flag k,
      p = .call (.acquirePermit maxInflight flag) k ∧
        maxInflight ≤ c.inflight.active) := by
  cases p with
  | ret answer =>
      cases answer with
      | ok output => exact absurd hfollows.2.1 hopen
      | error error =>
          rcases hfollows.2.1 with hcompleted | hrefused |
            ⟨-, -, -, before, group, after, hgroups, -, hgate, -⟩
          · exact absurd hcompleted hopen
          · exact absurd hrefused hwelcomed
          · have := hgates group (by simp [hgroups])
            rw [hgate] at this
            cases this
  | call op k =>
      refine ⟨⟨op, k, rfl⟩, ?_⟩
      rintro ⟨op', k', heq, hblocked⟩
      obtain ⟨rfl, -⟩ := Prog.call.inj heq
      rcases blocked_cases hblocked with ⟨entry, flag, rfl, -⟩ |
        ⟨maxInflight, flag, rfl, hfull⟩
      · exact absurd hfollows.1.2.1 hopen
      · exact ⟨maxInflight, flag, k, rfl, hfull⟩

/-- While the query of the workers runs, somebody who is not done can go on. -/
theorem Attended.progress {calls : ι → Call} {scope : ℕ} {p : Workers ι}
    (hheld : Held p.shared p.log) (hattended : Attended scope p.shared p.log)
    (hbooks : Bookkept p.shared p.log)
    (hfollows : ∀ i, Follows (calls i).protocol (p.thread i) (calls i).Post
      (p.log.of i))
    (hinflight : ∀ i, 1 ≤ (calls i).limits.maxInflight)
    (hgates : ∀ i, ∀ group ∈ (calls i).groups,
      (calls i).provider.gate group.request = true)
    {i : ι} (hunfinished : Unfinished (p.thread i)) :
    ∃ j, Unfinished (p.thread j) ∧ ¬ Blocked p.shared (p.thread j) := by
  by_contra hnobody
  push Not at hnobody
  -- nobody holds a permit, so nobody blocks on one
  have hwaits : ∀ {j op k}, p.thread j = .call op k →
      ∃ entry flag, op = .wait entry flag ∧ p.shared.slot entry = none := by
    intro j op k hthread
    obtain ⟨op', k', hthread', hstuck⟩ := hnobody j ⟨op, k, hthread⟩
    obtain ⟨rfl, -⟩ := Prog.call.inj (hthread.symm.trans hthread')
    rcases blocked_cases hstuck with hwait | ⟨maxInflight, flag, rfl, hfull⟩
    · exact hwait
    · have hj := hfollows j
      rw [hthread, follows_call] at hj
      have hmax : maxInflight = (calls j).limits.maxInflight := hj.1.1
      have hone := hinflight j
      obtain ⟨holder, hholds⟩ := hheld.holder (by omega)
      obtain ⟨hworks, hfree⟩ := holder_works (hfollows holder) hholds
      exact absurd (hnobody holder hworks) hfree
  obtain ⟨op, k, hthread⟩ := hunfinished
  obtain ⟨entry, flag, rfl, hslot⟩ := hwaits hthread
  -- the owner of the entry is at work as long as the entry is open
  have hi := hfollows i
  rw [hthread, follows_call] at hi
  obtain ⟨identity, hclaim⟩ := hi.1.2.2.2
  rcases hattended.claims i _ hclaim with hsome | ⟨owner, claim, hmem, rfl⟩
  · simp [hslot] at hsome
  have hopen : ¬ AllCompleted (p.log.of owner) := by
    intro hcompleted
    have hfirst := hbooks.contents owner claim hmem
    rw [hslot] at hfirst
    exact firstCompletion_eq_none.mp hfirst.symm (hcompleted claim hmem)
  obtain ⟨howner, hblocked⟩ := open_owner_works (c := p.shared)
    (hfollows owner) (hattended.welcomed owner) (hgates owner) hopen
  obtain ⟨maxInflight, flag', k', hacquire, -⟩ :=
    hblocked (hnobody owner howner)
  obtain ⟨entry', flag'', hop, -⟩ := hwaits hacquire
  cases hop

/-! ## The result -/

/-- Workers over one running query never deadlock: one which waits for an
entry owns nothing open and holds no permit, and as long as somebody is not
done, somebody who is not done can go on. -/
theorem workers_not_deadlocked (c : ConnectionRuntime) (calls : ι → Call)
    (scope : ℕ) (hrunning : c.Running scope)
    (hentries : ∀ identity entry,
      c.queryEntries.lookup identity = some entry → (c.slot entry).isSome)
    (hpermits : c.inflight.active = 0)
    (hscope : ∀ i, (calls i).limits.queryScope = scope)
    (hinflight : ∀ i, 1 ≤ (calls i).limits.maxInflight)
    (hgates : ∀ i, ∀ group ∈ (calls i).groups,
      (calls i).provider.gate group.request = true) {p : Workers ι}
    (hreach : Workers.Reach QuietStep (Workers.start c calls) p) :
    (∀ i entry flag k, p.thread i = .call (.wait entry flag) k →
      permits (p.log.of i) = 0 ∧
        ∀ claim ∈ ownedClaims (p.log.of i),
          (p.shared.slot claim.entry).isSome) ∧
      ((∃ i, Unfinished (p.thread i)) →
        ∃ i, Unfinished (p.thread i) ∧ ¬ Blocked p.shared (p.thread i)) := by
  have hinv : (Held p.shared p.log ∧ Attended scope p.shared p.log) ∧
      Bookkept p.shared p.log ∧ ∀ i, Follows (calls i).protocol (p.thread i)
        (calls i).Post (p.log.of i) := by
    refine Workers.invariant (fun c log =>
      Held c log ∧ Attended scope c log) hreach
      (fun _ _ h => h.frame.slots) ⟨?_, ?_⟩ ?_ ?_
    · exact ⟨∅, hpermits, fun i => rfl⟩
    · exact ⟨hrunning, by simp [Refused], fun identity entry hlookup =>
        Or.inl (hentries identity entry hlookup), by simp [claims]⟩
    · rintro c c' log i op r - ⟨hheld, hattended⟩ hallowed hstep
      exact ⟨hheld.step hallowed hstep,
        hattended.step (hscope i) hallowed hstep⟩
    · rintro c c' log ⟨hheld, hattended⟩ hhost
      refine ⟨?_, hattended.host hhost⟩
      rwa [Held, hhost.frame.inflight]
  obtain ⟨⟨hheld, hattended⟩, hbooks, hfollows⟩ := hinv
  constructor
  · intro i entry flag k hthread
    have hi := hfollows i
    rw [hthread] at hi
    refine ⟨hi.1.1, fun claim hmem => ?_⟩
    rw [hbooks.contents i claim hmem, Option.isSome_iff_ne_none,
      ne_eq, firstCompletion_eq_none, not_not]
    exact hi.1.2.1 claim hmem
  · rintro ⟨i, hunfinished⟩
    exact hattended.progress hheld hbooks hfollows hinflight hgates
      hunfinished

/-- The entry for which a thread waits next. -/
def waitsFor : Run Answer → Option ℕ
  | .call (.wait entry _) _ => some entry
  | _ => none

theorem exists_wait {p : Run Answer} {entry : ℕ} (h : waitsFor p = some entry) :
    ∃ flag k, p = .call (.wait entry flag) k := by
  unfold waitsFor at h
  split at h
  · rename_i flag k
    obtain rfl := Option.some.inj h
    exact ⟨flag, k, rfl⟩
  · cases h

/-- The batched worker waits for an entry of the other one, which has only
claimed it so far. -/
theorem workers_not_deadlocked_pair :
    ∃ p : Workers Bool,
      (∃ entry flag k, p.thread true = .call (.wait entry flag) k ∧
        p.shared.slot entry = none) ∧
      ∃ i, Unfinished (p.thread i) ∧ ¬ Blocked p.shared (p.thread i) := by
  have hrun : ((halfEnvironment.advance 1 (pairCalls false).program
      firstQuery).bind fun x => (halfEnvironment.advance 13
        (pairCalls true).program x.2.1.1).map fun y =>
          (waitsFor y.1, y.2.1.1.slot 0)) = some (some 0, none) := by
    decide
  obtain ⟨⟨thread, s, events⟩, hfirst, hrest⟩ := Option.bind_eq_some_iff.mp hrun
  obtain ⟨⟨thread', s', events'⟩, hsecond, hfacts⟩ :=
    Option.map_eq_some_iff.mp hrest
  obtain ⟨hwaits, hslot⟩ := Prod.mk.inj hfacts
  have hreach₁ := Workers.reach_of_advance QuietStep halfEnvironment
    (p := Workers.start firstQuery pairCalls) (i := false) hfirst
  have hreach₂ := Workers.reach_of_advance QuietStep halfEnvironment
    (p := ⟨s.1, Function.update (Workers.start firstQuery pairCalls).thread
      false thread, events.map (fun event => (false, event)) ++ []⟩)
    (i := true) hsecond
  obtain ⟨flag, k, rfl⟩ := exists_wait hwaits
  refine ⟨_, ?_, (workers_not_deadlocked firstQuery pairCalls 0
    ⟨0, by decide, by decide⟩ (fun _ _ h => by cases h) rfl
    (fun i => by cases i <;> rfl) (fun i => by cases i <;> decide)
    (fun i => by cases i <;> decide) (hreach₁.trans hreach₂)).2
      ⟨true, _, _, rfl⟩⟩
  exact ⟨0, flag, k, rfl, hslot⟩

end DuckJeu
