import DuckJeu.Effects.Schedule
import DuckJeu.Executor.Cancellation

/-!
# Liveness

A worker performs finitely many operations, so only blocking can keep it from
returning.  While its query runs, somebody who is not done can always go on,
and once the query is over a worker does not block at all.
-/

namespace DuckJeu

open Effects ConnectionRuntime

variable {ι : Type} [DecidableEq ι]

/-! ## Progress -/

/-- The query of the workers is attended, or it is over. -/
def AttendedOrOver (scope : ℕ) (c : ConnectionRuntime) (log : WorkerLog ι) :
    Prop :=
  Attended scope c log ∨ ¬ c.Running scope

section Progress

variable {c c' : ConnectionRuntime} {log : WorkerLog ι} {scope : ℕ}

theorem AttendedOrOver.step (h : AttendedOrOver scope c log) {call : Call}
    {i : ι} (hscope : call.limits.queryScope = scope) {op : Op} {r : Res op}
    (hallowed : call.Allowed (log.of i) op) (hstep : step c op r c') :
    AttendedOrOver scope c' ((i, ⟨op, r⟩) :: log) := by
  rcases h with hattended | hover
  · exact Or.inl (hattended.step hscope hallowed hstep)
  · exact Or.inr (mt (step_running hstep scope).mp hover)

theorem AttendedOrOver.host (h : AttendedOrOver scope c log)
    (hhost : QueryStep c c') : AttendedOrOver scope c' log := by
  cases hhost with
  | quiet hquiet =>
      rcases h with hattended | hover
      · exact Or.inl (hattended.host hquiet)
      · exact Or.inr (mt hquiet.frame.running.mp hover)
  | endQuery now interrupt errorType =>
      exact Or.inr (endQuery_not_running c now interrupt errorType scope)

/-- Within a query flags only go up. -/
theorem QueryStep.flagged (hhost : QueryStep c c') {flag : ℕ}
    (hup : c.flagged flag = true) : c'.flagged flag = true := by
  cases hhost with
  | quiet hquiet =>
      rw [ConnectionRuntime.flagged, hquiet.frame.flags]
      exact hup
  | endQuery now interrupt errorType =>
      by_contra hdown
      rw [Bool.not_eq_true, ConnectionRuntime.flagged, endQuery_flags] at hdown
      have hold := (flagged_cancelActive hdown).1
      rw [hup] at hold
      cases hold

/-- The host of a query takes no operation away from a worker. -/
theorem QueryStep.possible (hhost : QueryStep c c') {op : Op}
    (hop : ∃ r s, DuckJeu.step c op r s) : ∃ r s, DuckJeu.step c' op r s := by
  obtain ⟨hslots, hinflight⟩ := hhost.slots
  have hdown : ∀ {flag}, c'.flagged flag = false → c.flagged flag = false := by
    intro flag hflag
    by_contra hup
    rw [hhost.flagged (Bool.not_eq_false _ ▸ hup)] at hflag
    cases hflag
  by_contra hstuck
  push Not at hstuck
  refine absurd hop ?_
  push Not
  rw [stuck_iff]
  rcases stuck_iff.mp hstuck with ⟨entry, flag, rfl, hslot, hflag⟩ |
    ⟨maxInflight, flag, rfl, hzero, hfull, hflag⟩
  · rw [ConnectionRuntime.slot, hslots] at hslot
    exact Or.inl ⟨entry, flag, rfl, hslot, hdown hflag⟩
  · rw [hinflight] at hfull
    exact Or.inr ⟨maxInflight, flag, rfl, hzero, hfull, hdown hflag⟩

end Progress

/-! ## The results -/

theorem unfinished_of_ne {p : Run Answer} (h : ∀ answer, p ≠ .ret answer) :
    Unfinished p := by
  cases p with
  | ret answer => exact absurd rfl (h answer)
  | call op k => exact ⟨op, k, rfl⟩

omit [DecidableEq ι] in
theorem enabled_of_free {p : Workers ι} {i : ι}
    (hunfinished : Unfinished (p.thread i))
    (hfree : ¬ Blocked p.shared (p.thread i)) : Pool.Enabled step p i := by
  obtain ⟨op, k, hthread⟩ := hunfinished
  by_contra hdisabled
  refine hfree ⟨op, k, hthread, fun r s hstep => ?_⟩
  exact hdisabled ⟨op, k, r, s, hthread, hstep⟩

/-- All workers of a query return, under every schedule which is fair to them,
whether the query is ended meanwhile or not. -/
theorem workers_complete [Finite ι] (c : ConnectionRuntime) (calls : ι → Call)
    (scope : ℕ) (hrunning : c.Running scope)
    (hentries : ∀ identity entry,
      c.queryEntries.lookup identity = some entry → (c.slot entry).isSome)
    (hpermits : c.inflight.active = 0)
    (hscope : ∀ i, (calls i).limits.queryScope = scope)
    (hinflight : ∀ i, 1 ≤ (calls i).limits.maxInflight)
    (hgates : ∀ i, ∀ group ∈ (calls i).groups,
      (calls i).provider.gate group.request = true)
    (sch : Pool.Schedule step QueryStep (Workers.start c calls))
    (hfair : ∀ i, sch.Fair i) :
    ∃ n, ∀ i, ∃ answer, (sch.pool n).thread i = .ret answer := by
  refine Pool.Schedule.all_return hfair ?_ fun _ _ _ hhost => hhost.possible
  rintro n ⟨i, hi⟩
  have hreach := sch.reachable n
  obtain ⟨⟨hheld, hattended⟩, hbooks, hfollows⟩ := Workers.invariant
    (fun c log => Held c log ∧ AttendedOrOver scope c log) hreach
    (fun _ _ h => h.slots.1)
    ⟨⟨∅, hpermits, fun i => rfl⟩, Or.inl ⟨hrunning, by simp [Refused],
      fun identity entry hlookup => Or.inl (hentries identity entry hlookup),
      by simp [claims]⟩⟩
    (fun _ _ _ i _ _ _ h hallowed hstep =>
      ⟨h.1.step hallowed hstep, h.2.step (hscope i) hallowed hstep⟩)
    (fun _ _ _ h hhost => ⟨by rw [Held, hhost.slots.2]; exact h.1,
      h.2.host hhost⟩)
  have hunfinished := unfinished_of_ne hi
  suffices hfree : ∃ j, Unfinished ((sch.pool n).thread j) ∧
      ¬ Blocked (sch.pool n).shared ((sch.pool n).thread j) by
    obtain ⟨j, hj, hfree⟩ := hfree
    exact ⟨j, enabled_of_free hj hfree⟩
  rcases hattended with hattended | hover
  · exact hattended.progress hheld hbooks hfollows hinflight hgates hunfinished
  · refine ⟨i, hunfinished, fun hblocked => hover ?_⟩
    have hrun := Workers.running_of_blocked hreach (fun _ _ => .query)
      (.of_running hrunning) i hblocked
    rwa [hscope] at hrun

theorem workers_complete_pair :
    ∃ (sch : Pool.Schedule step QueryStep
      (Workers.start firstQuery pairCalls)) (n : ℕ), ∀ i,
        ∃ answer, (sch.pool n).thread i = .ret answer := by
  obtain ⟨sch, hfair⟩ := Pool.Schedule.exists_fair step QueryStep
    (Workers.start firstQuery pairCalls)
  exact ⟨sch, workers_complete firstQuery pairCalls 0
    ⟨0, by decide, by decide⟩ (fun _ _ h => by cases h) rfl
    (fun i => by cases i <;> rfl) (fun i => by cases i <;> decide)
    (fun i => by cases i <;> decide) sch hfair⟩

/-- Once its query is over, a worker returns under every schedule which is fair
to it, whatever has become of the entries and the permits, and whatever the
other workers and later queries do. -/
theorem stale_worker_returns (c : ConnectionRuntime) (calls : ι → Call)
    (hrange : FlagInRange c)
    (sch : Pool.Schedule step HostStep (Workers.start c calls)) (i : ι)
    (hfair : sch.Fair i) (N : ℕ) (hover : ∀ n, N ≤ n →
      ¬ (sch.pool n).shared.Running (calls i).limits.queryScope) :
    ∃ n answer, (sch.pool n).thread i = .ret answer := by
  refine Pool.Schedule.returns (N := N) hfair fun n hn hi => ?_
  refine enabled_of_free (unfinished_of_ne hi) fun hblocked => hover n hn ?_
  exact Workers.running_of_blocked (sch.reachable n) (fun _ _ h => h) hrange i
    hblocked

/-- The query of both workers is ended before they start. -/
def endedQuery : ConnectionRuntime := firstQuery.endQuery 0 0 0

theorem endedQuery_over : ¬ endedQuery.Running 0 :=
  endQuery_not_running firstQuery 0 0 0 0

theorem endedQuery_range : FlagInRange endedQuery := by
  intro scope flag hok
  cases hok

theorem stale_worker_returns_ended :
    ∃ (sch : Pool.Schedule step HostStep (Workers.start endedQuery pairCalls))
      (n : ℕ) (answer : Answer), (sch.pool n).thread true = .ret answer := by
  obtain ⟨sch, hfair⟩ := Pool.Schedule.exists_fair step (fun _ _ => False)
    (Workers.start endedQuery pairCalls)
  refine ⟨sch.mono fun _ _ h => h.elim, stale_worker_returns endedQuery
    pairCalls endedQuery_range _ true (hfair true) 0 fun n _ => ?_⟩
  refine (sch.reachable n).invariant (fun q => ¬ q.shared.Running 0)
    endedQuery_over ?_
  rintro q q' hover (⟨-, hstep⟩ | hhost)
  · exact mt (step_running hstep 0).mp hover
  · exact hhost.elim

end DuckJeu
