import DuckJeu.Executor.Flags
import DuckJeu.Executor.Progress
import DuckJeu.Host.Permits

/-!
# Cancellation

The end of a query raises its flag.  A worker of the query does not block from
then on, whatever state the entries and the permits are in, and it gets no
permit any more: all it can still send is the one request for which it holds a
permit.
-/

namespace DuckJeu

open Effects ConnectionRuntime

/-! ## Flags -/

/-- The flag was made, and is up unless it is the one of the active query with
this id. -/
structure Governs (c : ConnectionRuntime) (scope flag : ℕ) : Prop where
  flag_lt : flag < c.flags.length
  current : c.flagged flag = false → c.queryCancellation scope = .ok flag

/-- The flag of the active query is among the flags. -/
def FlagInRange (c : ConnectionRuntime) : Prop :=
  ∀ scope flag, c.queryCancellation scope = .ok flag → flag < c.flags.length

section Flags

variable {c c' : ConnectionRuntime} {scope flag : ℕ}

theorem FlagInRange.keep (h : FlagInRange c) (hflags : c'.flags = c.flags)
    (hcancellation : ∀ scope,
      c'.queryCancellation scope = c.queryCancellation scope) :
    FlagInRange c' := by
  intro scope flag hok
  rw [hcancellation] at hok
  rw [hflags]
  exact h scope flag hok

theorem Governs.keep (h : Governs c scope flag) (hflags : c'.flags = c.flags)
    (hcancellation : ∀ scope,
      c'.queryCancellation scope = c.queryCancellation scope) :
    Governs c' scope flag where
  flag_lt := by
    rw [hflags]
    exact h.flag_lt
  current := by
    rw [hcancellation, flagged, hflags]
    exact h.current

/-- A query begins with a flag of its own. -/
theorem flagInRange_beginQuery (c : ConnectionRuntime) (now : ℕ) :
    FlagInRange (c.beginQuery now) := by
  intro scope flag hok
  obtain ⟨-, rfl⟩ := (beginQuery_cancellation now scope flag).mp hok
  simp [ConnectionRuntime.beginQuery, cancelActive_flags_length]

theorem FlagInRange.host (h : FlagInRange c) (hhost : HostStep c c') :
    FlagInRange c' := by
  cases hhost with
  | query hquery =>
      cases hquery with
      | quiet hquiet =>
          exact h.keep hquiet.frame.flags hquiet.frame.cancellation
      | endQuery now interrupt errorType =>
          intro scope flag hok
          obtain ⟨query, hactive, -⟩ := queryCancellation_ok_iff.mp hok
          rw [endQuery_activeQuery] at hactive
          cases hactive
  | beginQuery now => exact flagInRange_beginQuery c now

theorem Governs.host (h : Governs c scope flag) (hhost : HostStep c c') :
    Governs c' scope flag := by
  cases hhost with
  | query hquery =>
      cases hquery with
      | quiet hquiet =>
          exact h.keep hquiet.frame.flags hquiet.frame.cancellation
      | endQuery now interrupt errorType =>
          refine ⟨?_, fun hdown => ?_⟩
          · rw [endQuery_flags, cancelActive_flags_length]
            exact h.flag_lt
          · rw [flagged, endQuery_flags] at hdown
            obtain ⟨hold, hnot⟩ := flagged_cancelActive hdown
            exact absurd (h.current hold) (hnot scope)
  | beginQuery now =>
      have hlt := h.flag_lt
      refine ⟨?_, fun hdown => ?_⟩
      · rw [ConnectionRuntime.beginQuery, List.length_append,
          cancelActive_flags_length]
        exact Nat.lt_succ_of_lt hlt
      · rcases flagged_beginQuery hdown with rfl | ⟨hold, hnot⟩
        · exact absurd hlt (Nat.lt_irrefl _)
        · exact absurd (h.current hold) (hnot scope)

/-- While a query runs, its flag is among the flags. -/
theorem FlagInRange.of_running (hrunning : c.Running scope) :
    FlagInRange c := by
  obtain ⟨flag, hok, hdown⟩ := hrunning
  intro scope' flag' hok'
  obtain ⟨query, hactive, -, rfl⟩ := queryCancellation_ok_iff.mp hok
  obtain ⟨query', hactive', -, rfl⟩ := queryCancellation_ok_iff.mp hok'
  rw [hactive] at hactive'
  obtain rfl := Option.some.inj hactive'
  by_contra hout
  rw [flagged, List.getD_eq_default _ _ (Nat.le_of_not_lt hout)] at hdown
  cases hdown

end Flags

/-! ## Blocking -/

/-- Exactly a wait for an open entry and a full pool of permits block, and
only as long as the flag is down. -/
theorem stuck_iff {c : ConnectionRuntime} {op : Op} :
    (∀ r c', ¬ step c op r c') ↔
      (∃ entry flag, op = .wait entry flag ∧ c.slot entry = none ∧
        c.flagged flag = false) ∨
      ∃ maxInflight flag, op = .acquirePermit maxInflight flag ∧
        maxInflight ≠ 0 ∧ maxInflight ≤ c.inflight.active ∧
        c.flagged flag = false := by
  constructor
  · intro hstuck
    rcases blocked_cases hstuck with ⟨entry, flag, rfl, hslot⟩ |
      ⟨maxInflight, flag, rfl, hfull⟩
    · refine Or.inl ⟨entry, flag, rfl, hslot, ?_⟩
      by_contra hup
      refine hstuck (.error (.provider
        "query was cancelled while awaiting a judgment")) c ⟨?_, rfl⟩
      simp [ConnectionRuntime.wait, hslot, hup]
    · have hzero : maxInflight ≠ 0 := fun hzero => hstuck _ _ (if_pos hzero)
      refine Or.inr ⟨maxInflight, flag, rfl, hzero, hfull, ?_⟩
      by_contra hup
      rw [Bool.not_eq_false] at hup
      exact hstuck _ _ ((if_neg hzero).trans (if_pos hup))
  · rintro (⟨entry, flag, rfl, hslot, hdown⟩ |
      ⟨maxInflight, flag, rfl, hzero, hfull, hdown⟩) r c' hstep
    · have hwait := hstep.1
      simp [ConnectionRuntime.wait, hslot, hdown] at hwait
    · have hacquire : c.acquirePermit maxInflight flag = some (r, c') := hstep
      simp [ConnectionRuntime.acquirePermit, hzero, hdown, hfull.not_gt]
        at hacquire

variable {ι : Type} [DecidableEq ι]

/-- What a worker has at hand. -/
def meansOf (scope : ℕ) (log : WorkerLog ι) (i : ι) : Means :=
  (spending scope).replay {} (log.of i)

/-- Workers know flags of their own queries only. -/
def FlagsGoverned (scopes : ι → ℕ) (c : ConnectionRuntime)
    (log : WorkerLog ι) : Prop :=
  FlagInRange c ∧ ∀ i, ∀ flag ∈ (meansOf (scopes i) log i).flags,
    Governs c (scopes i) flag

section Governed

variable {scopes : ι → ℕ} {c c' : ConnectionRuntime} {log : WorkerLog ι} {j : ι}

@[simp] theorem meansOf_cons_self (scope : ℕ) (op : Op) (r : Res op) :
    meansOf scope ((j, ⟨op, r⟩) :: log) j =
      (spending scope).note (meansOf scope log j) op r := by
  rw [meansOf, Log.of_cons_self, Protocol.replay_cons, meansOf]

theorem meansOf_cons_ne {i : ι} (hij : j ≠ i) (scope : ℕ) (event : ExecEvent) :
    meansOf scope ((j, event) :: log) i = meansOf scope log i := by
  rw [meansOf, Log.of_cons_ne hij, meansOf]

theorem FlagsGoverned.step (h : FlagsGoverned scopes c log) {op : Op}
    {r : Res op}
    (hallowed : (spending (scopes j)).Allowed (meansOf (scopes j) log j) op)
    (hstep : step c op r c') :
    FlagsGoverned scopes c' ((j, ⟨op, r⟩) :: log) := by
  obtain ⟨hflags, hcancellation⟩ := step_query hstep
  refine ⟨h.1.keep hflags hcancellation, fun i flag hmem => ?_⟩
  refine Governs.keep ?_ hflags hcancellation
  by_cases hij : j = i
  · subst hij
    rw [meansOf_cons_self] at hmem
    cases op with
    | queryCancellation scope =>
        obtain rfl : scope = _ := hallowed
        cases r with
        | error error => exact h.2 j flag hmem
        | ok found =>
            rcases List.mem_cons.mp hmem with rfl | hmem
            · exact ⟨h.1 _ _ hstep.1, fun _ => hstep.1⟩
            · exact h.2 j flag hmem
    | acquirePermit maxInflight given =>
        cases r with
        | error error => exact h.2 j flag hmem
        | ok granted => exact h.2 j flag hmem
    | _ => exact h.2 j flag hmem
  · rw [meansOf_cons_ne hij] at hmem
    exact h.2 i flag hmem

theorem FlagsGoverned.host (h : FlagsGoverned scopes c log)
    (hhost : HostStep c c') : FlagsGoverned scopes c' log :=
  ⟨h.1.host hhost, fun i flag hmem => (h.2 i flag hmem).host hhost⟩

end Governed

/-- What the workers have at hand is governed, and they go on to spend it. -/
def Workers.Governed (calls : ι → Call) (p : Workers ι) : Prop :=
  FlagsGoverned (fun i => (calls i).limits.queryScope) p.shared p.log ∧
    ∀ i, Follows (spending (calls i).limits.queryScope) (p.thread i)
      (fun _ => Knows []) (meansOf (calls i).limits.queryScope p.log i)

theorem Workers.start_governed {c : ConnectionRuntime} (calls : ι → Call)
    (hrange : FlagInRange c) : (Workers.start c calls).Governed calls :=
  ⟨⟨hrange, fun i flag hmem => by cases hmem⟩, fun i => (calls i).spends⟩

/-- What every step keeps under governed flags holds wherever governed workers
get. -/
theorem Workers.Governed.invariant {calls : ι → Call}
    {host : ConnectionRuntime → ConnectionRuntime → Prop} {p p' : Workers ι}
    (hgoverned : p.Governed calls) (hreach : Workers.Reach host p p')
    (hhost : ∀ c c', host c c' → HostStep c c')
    (Inv : ConnectionRuntime → WorkerLog ι → Prop) (hinit : Inv p.shared p.log)
    (hstep : ∀ c c' log j op r,
      FlagsGoverned (fun i => (calls i).limits.queryScope) c log → Inv c log →
      (spending (calls j).limits.queryScope).Allowed
        (meansOf (calls j).limits.queryScope log j) op →
      step c op r c' → Inv c' ((j, ⟨op, r⟩) :: log))
    (hkeep : ∀ c c' log, Inv c log → host c c' → Inv c' log) :
    Inv p'.shared p'.log ∧ p'.Governed calls := by
  have h := hreach.follows
    (P := fun i => spending (calls i).limits.queryScope)
    (Q := fun _ _ => Knows []) (g := fun _ => {})
    (fun c log => Inv c log ∧
      FlagsGoverned (fun i => (calls i).limits.queryScope) c log) ?_ ?_
    ⟨hinit, hgoverned.1⟩ hgoverned.2
  · exact ⟨h.1.1, h.1.2, h.2⟩
  · rintro c log j op r c' ⟨hinv, hflags⟩ hallowed hs
    exact ⟨trivial, hstep c c' log j op r hflags hinv hallowed hs,
      hflags.step hallowed hs⟩
  · rintro c c' log ⟨hinv, hflags⟩ hs
    exact ⟨hkeep c c' log hinv hs, hflags.host (hhost c c' hs)⟩

/-- Wherever the workers get, a worker which blocks does so under the flag of
its running query. -/
theorem Workers.running_of_blocked {c : ConnectionRuntime} {calls : ι → Call}
    {host : ConnectionRuntime → ConnectionRuntime → Prop} {p : Workers ι}
    (hreach : Workers.Reach host (Workers.start c calls) p)
    (hhost : ∀ c c', host c c' → HostStep c c') (hrange : FlagInRange c) (i : ι)
    (hblocked : Blocked p.shared (p.thread i)) :
    p.shared.Running (calls i).limits.queryScope := by
  obtain ⟨-, hgoverned, hfollows⟩ :=
    (Workers.start_governed calls hrange).invariant hreach hhost
      (fun _ _ => True) trivial (fun _ _ _ _ _ _ _ _ _ _ => trivial)
      (fun _ _ _ _ _ => trivial)
  obtain ⟨op, k, hthread, hstuck⟩ := hblocked
  have hi := hfollows i
  rw [hthread, follows_call] at hi
  -- the operation blocks under a flag which is known and down
  have hdown : ∃ flag ∈ (meansOf (calls i).limits.queryScope p.log i).flags,
      p.shared.flagged flag = false := by
    rcases stuck_iff.mp hstuck with ⟨entry, flag, rfl, -, hdown⟩ |
      ⟨maxInflight, flag, rfl, -, -, hdown⟩
    · exact ⟨flag, hi.1, hdown⟩
    · exact ⟨flag, hi.1, hdown⟩
  obtain ⟨flag, hmem, hdown⟩ := hdown
  exact ⟨flag, (hgoverned.2 i flag hmem).current hdown, hdown⟩

/-! ## The last requests of a query -/

/-- What is not spent is held. -/
theorem unspent_step {scope : ℕ} {log : WorkerLog ι} {i j : ι} {op : Op}
    {r : Res op} (hle : (meansOf scope log i).unspent ≤ permits (log.of i))
    (hallowed : j = i → (spending scope).Allowed (meansOf scope log i) op) :
    (meansOf scope ((j, ⟨op, r⟩) :: log) i).unspent ≤
      permits (Log.of ((j, ⟨op, r⟩) :: log) i) := by
  by_cases hij : j = i
  · subst hij
    rw [meansOf_cons_self, Log.of_cons_self]
    cases op with
    | acquirePermit maxInflight flag =>
        cases r with
        | error error => exact hle
        | ok granted => exact Nat.succ_le_succ hle
    | queryCancellation queryScope =>
        cases r with
        | error error => exact hle
        | ok flag => exact hle
    | judge method carried requests => exact (Nat.sub_le _ _).trans hle
    | dropPermit =>
        have hzero : (meansOf scope log j).unspent = 0 := hallowed rfl
        exact hzero.le.trans (Nat.zero_le _)
    | _ => exact hle
  · rwa [meansOf_cons_ne hij, Log.of_cons_ne hij]

theorem permits_le_one {c : ConnectionRuntime} {calls : ι → Call}
    {p : Workers ι} (hreach : Workers.Reach HostStep (Workers.start c calls) p)
    (i : ι) : permits (p.log.of i) ≤ 1 := by
  refine (Workers.invariant (fun _ log => permits (log.of i) ≤ 1) hreach
    (fun _ _ h => h.slots.1) (Nat.zero_le 1) ?_ fun _ _ _ h _ => h).1
  rintro c c' log j op r - hle hallowed hstep
  by_cases hij : j = i
  · subst hij
    rw [Log.of_cons_self]
    cases op with
    | acquirePermit maxInflight flag =>
        cases r with
        | error error => exact hle
        | ok granted => exact Nat.succ_le_succ hallowed.2.1.le
    | dropPermit => exact (Nat.sub_le _ _).trans hle
    | _ => exact hle
  · rwa [Log.of_cons_ne hij]

/-- Once its query is over, a worker sends at most the one request for which it
holds a permit, whatever the other workers and later queries do. -/
theorem cancelled_worker_stops (c : ConnectionRuntime) (calls : ι → Call)
    (hrange : FlagInRange c) (i : ι) {p p' : Workers ι}
    (hreach : Workers.Reach HostStep (Workers.start c calls) p)
    (hover : ¬ p.shared.Running (calls i).limits.queryScope)
    (hlater : Workers.Reach (fun c c' =>
      HostStep c c' ∧ ¬ c'.Running (calls i).limits.queryScope) p p') :
    permits (p.log.of i) ≤ 1 ∧ (dispatches (p'.log.of i)).length ≤
      (dispatches (p.log.of i)).length + permits (p.log.of i) := by
  refine ⟨permits_le_one hreach i, ?_⟩
  obtain ⟨hheld, hgoverned⟩ :=
    (Workers.start_governed calls hrange).invariant hreach (fun _ _ h => h)
      (fun _ log => (meansOf (calls i).limits.queryScope log i).unspent ≤
        permits (log.of i)) (Nat.zero_le _)
      (fun _ _ log j op r _ hle hallowed _ => unspent_step hle
        fun hji => hji ▸ hallowed)
      (fun _ _ _ h _ => h)
  -- what was at hand when the query ended is all which can still be spent
  have hfinal := hgoverned.invariant hlater (fun _ _ h => h.1)
    (fun c log => ¬ c.Running (calls i).limits.queryScope ∧
      (dispatches (log.of i)).length +
        (meansOf (calls i).limits.queryScope log i).unspent ≤
      (dispatches (p.log.of i)).length +
        (meansOf (calls i).limits.queryScope p.log i).unspent)
    ⟨hover, le_rfl⟩ ?_ fun _ _ _ h hhost => ⟨hhost.2, h.2⟩
  · have hspent := hfinal.1.2
    omega
  rintro c c' log j op r hflags ⟨hstopped, hspent⟩ hallowed hstep
  refine ⟨mt (step_running hstep _).mp hstopped, ?_⟩
  by_cases hij : j = i
  · subst hij
    rw [meansOf_cons_self, Log.of_cons_self]
    cases op with
    | acquirePermit maxInflight flag =>
        cases r with
        | error error => exact hspent
        | ok granted =>
            have hdown := (acquirePermit_ok hstep).1
            exact absurd ⟨flag, (hflags.2 j flag hallowed).current hdown,
              hdown⟩ hstopped
    | queryCancellation queryScope =>
        cases r with
        | error error => exact hspent
        | ok flag => exact hspent
    | judge method carried requests =>
        have hfresh : 0 < (meansOf (calls j).limits.queryScope log j).unspent :=
          hallowed
        change (_ :: dispatches (log.of j)).length +
          ((meansOf (calls j).limits.queryScope log j).unspent - 1) ≤ _
        rw [List.length_cons]
        omega
    | _ => exact hspent
  · rwa [meansOf_cons_ne hij, Log.of_cons_ne hij]

/-- The query is ended while the batched worker holds its permit.  It sends the
request for which it has it, and no other. -/
theorem cancelled_worker_stops_ended :
    ∃ (p p' : Workers Bool) (answer : Answer),
      permits (p.log.of true) = 1 ∧ dispatches (p.log.of true) = [] ∧
        ¬ p.shared.Running 0 ∧ p'.thread true = .ret answer ∧
        (dispatches (p'.log.of true)).length ≤ 1 := by
  have hrun : ((halfEnvironment.advance 6 (pairCalls true).program
      firstQuery).bind fun x => (halfEnvironment.run x.1
        (x.2.1.1.endQuery 0 1 0)).map fun _ =>
          (permits x.2.2, (dispatches x.2.2).length)) = some (1, 0) := by
    decide
  obtain ⟨⟨thread, s, events⟩, hbefore, hrest⟩ :=
    Option.bind_eq_some_iff.mp hrun
  obtain ⟨⟨answer, s', events'⟩, hafter, hfacts⟩ :=
    Option.map_eq_some_iff.mp hrest
  obtain ⟨hpermits, hlength⟩ := Prod.mk.inj hfacts
  have hnone : dispatches events = [] := List.length_eq_zero_iff.mp hlength
  let stopped : Workers Bool :=
    { shared := s.1.endQuery 0 1 0
      thread := Function.update (Workers.start firstQuery pairCalls).thread
        true thread
      log := events.map (fun event => (true, event)) ++ [] }
  have hlog : stopped.log.of true = events := by
    simp [stopped, Log.of]
  have hreach : Workers.Reach HostStep (Workers.start firstQuery pairCalls)
      stopped :=
    (Workers.reach_of_advance HostStep halfEnvironment hbefore).tail
      (.host (.query (.endQuery s.1 0 1 0)))
  have hrunning : firstQuery.Running 0 := ⟨0, by decide, by decide⟩
  have hover : ¬ stopped.shared.Running 0 :=
    endQuery_not_running s.1 0 1 0 0
  have hlater := Workers.reach_of_run
    (fun c c' => HostStep c c' ∧ ¬ c'.Running 0) halfEnvironment
    (p := stopped) (i := true) hafter
  have hbound := (cancelled_worker_stops firstQuery pairCalls
    (.of_running hrunning) true hreach hover
    hlater).2
  rw [hlog, hpermits, hnone] at hbound
  exact ⟨stopped, _, answer, hlog ▸ hpermits, hlog ▸ hnone, hover, by simp,
    hbound⟩

end DuckJeu
