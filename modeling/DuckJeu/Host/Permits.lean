import DuckJeu.Host.Session
import Mathlib.Data.List.GetD

/-!
# Permits of a session

The invariant of a session says which cancellation flags are down and what
the pool counts: a flag is down while its query is active, and the pool counts
the permits which are held.  The limits follow, as an attempt is granted a
permit only by looking at its own flag and its own limit.
-/

namespace DuckJeu

open ConnectionRuntime

variable {hash : String → UInt64}

/-! ## Flags over the lifecycle of queries -/

namespace ConnectionRuntime

variable {c : ConnectionRuntime}

theorem queryCancellation_ok_iff {scope flag : ℕ} :
    c.queryCancellation scope = .ok flag ↔
      ∃ query, c.activeQuery = some query ∧ query.queryId = scope ∧
        query.cancelled = flag := by
  unfold queryCancellation
  constructor
  · intro h
    split at h
    · cases h
    rename_i query hquery
    obtain ⟨hactive, hid⟩ := activeFor_some hquery
    exact ⟨query, hactive, hid, Except.ok.inj h⟩
  · rintro ⟨query, hactive, hid, hflag⟩
    have hquery : c.activeFor scope = some query := by
      simp [activeFor, hactive, hid]
    rw [hquery, ← hflag]

theorem flagged_cancel {flag other : ℕ}
    (h : (c.cancel flag).flagged other = false) :
    c.flagged other = false ∧ other ≠ flag := by
  by_cases hother : other = flag
  · subst hother
    exfalso
    unfold cancel flagged at h
    by_cases hlt : other < c.flags.length
    · simp [hlt] at h
    · simp [Nat.le_of_not_lt hlt] at h
  · refine ⟨?_, hother⟩
    have hsame : (c.cancel flag).flagged other = c.flagged other := by
      simp [cancel, flagged, List.getElem?_set_ne (Ne.symm hother)]
    rw [← hsame, h]

/-- Cancelling the active query leaves no other flag down. -/
theorem flagged_cancelActive {flag : ℕ}
    (h : c.cancelActive.flagged flag = false) :
    c.flagged flag = false ∧ ∀ scope, c.queryCancellation scope ≠ .ok flag := by
  unfold cancelActive at h
  split at h
  · rename_i hnone
    refine ⟨h, fun scope hok => ?_⟩
    obtain ⟨query, hactive, -⟩ := queryCancellation_ok_iff.mp hok
    rw [hnone] at hactive
    cases hactive
  · rename_i previous hprevious
    obtain ⟨hdown, hne⟩ := flagged_cancel h
    refine ⟨hdown, fun scope hok => ?_⟩
    obtain ⟨query, hactive, -, hflag⟩ := queryCancellation_ok_iff.mp hok
    rw [hprevious] at hactive
    obtain rfl := Option.some.inj hactive
    exact hne hflag.symm

theorem cancelActive_flags_length :
    c.cancelActive.flags.length = c.flags.length := by
  unfold cancelActive
  split
  · rfl
  · simp [cancel]

theorem cancelActive_inflight : c.cancelActive.inflight = c.inflight := by
  unfold cancelActive
  split
  · rfl
  · rfl

theorem cancelActive_nextQueryId :
    c.cancelActive.nextQueryId = c.nextQueryId := by
  unfold cancelActive
  split
  · rfl
  · rfl

theorem beginQuery_cancellation (now scope flag : ℕ) :
    (c.beginQuery now).queryCancellation scope = .ok flag ↔
      scope = c.nextQueryId ∧ flag = c.flags.length := by
  rw [queryCancellation_ok_iff]
  simp only [beginQuery, Option.some.injEq, exists_eq_left',
    cancelActive_flags_length, cancelActive_nextQueryId]
  rw [eq_comm, eq_comm (a := c.flags.length)]

theorem flagged_beginQuery {now flag : ℕ}
    (h : (c.beginQuery now).flagged flag = false) :
    flag = c.flags.length ∨ c.flagged flag = false ∧
      ∀ scope, c.queryCancellation scope ≠ .ok flag := by
  have hflags : (c.beginQuery now).flags = c.cancelActive.flags ++ [false] :=
    rfl
  by_cases hlt : flag < c.flags.length
  · refine Or.inr (flagged_cancelActive ?_)
    rw [flagged, hflags] at h
    rwa [List.getD_append _ _ _ _ (by rwa [cancelActive_flags_length])] at h
  · refine Or.inl ?_
    by_contra hne
    have hout : (c.beginQuery now).flags.length ≤ flag := by
      rw [hflags, List.length_append, cancelActive_flags_length,
        List.length_singleton]
      omega
    rw [flagged, List.getD_eq_default _ _ hout] at h
    cases h

theorem endQuery_activeQuery (now interrupt errorType : ℕ) :
    (c.endQuery now interrupt errorType).activeQuery = none := by
  unfold endQuery
  split
  · rename_i hnone
    exact hnone
  · rfl

theorem endQuery_nextQueryId (now interrupt errorType : ℕ) :
    (c.endQuery now interrupt errorType).nextQueryId = c.nextQueryId := by
  unfold endQuery
  split
  · rfl
  · rfl

theorem endQuery_flags (now interrupt errorType : ℕ) :
    (c.endQuery now interrupt errorType).flags = c.cancelActive.flags := by
  unfold endQuery cancelActive
  split
  · rfl
  · rfl

end ConnectionRuntime

/-! ## The invariant -/

/-- What the flags and the pool of a session stand for. -/
structure SessionSound (s : Session) : Prop where
  active_eq : s.runtime.inflight.active = s.held.length
  flags_length : s.runtime.flags.length = s.begun
  nextQueryId_eq : s.runtime.nextQueryId = s.begun % 2 ^ 64
  /-- The active query is the last one which began. -/
  current : ∀ scope flag, s.runtime.queryCancellation scope = .ok flag →
    flag + 1 = s.begun ∧ scope = flag % 2 ^ 64 ∧
      s.runtime.flagged flag = false
  /-- Only the flag of the active query is down. -/
  down : ∀ flag, s.runtime.flagged flag = false →
    ∃ scope, s.runtime.queryCancellation scope = .ok flag
  attempts : ∀ attempt ∈ s.waiting, attempt.flag + 1 = attempt.begun

theorem sessionSound_init (scope next : ℕ) :
    SessionSound { runtime := .init scope, nextScope := next } where
  active_eq := rfl
  flags_length := rfl
  nextQueryId_eq := rfl
  current := by
    intro scope flag h
    obtain ⟨query, hactive, -⟩ := queryCancellation_ok_iff.mp h
    cases hactive
  down := by
    intro flag h
    cases h
  attempts := fun _ h => absurd h List.not_mem_nil

theorem getElem?_mem_length {α : Type} {l : List α} {i : ℕ} {a : α}
    (h : l[i]? = some a) : a ∈ l ∧ (l.eraseIdx i).length + 1 = l.length := by
  obtain ⟨hlt, hget⟩ := List.getElem?_eq_some_iff.mp h
  refine ⟨hget ▸ List.getElem_mem hlt, ?_⟩
  rw [List.length_eraseIdx_of_lt hlt]
  omega

/-- A step which keeps the flags and the queries keeps what is said about
them. -/
theorem SessionSound.keep {s s' : Session} (h : SessionSound s)
    (hflags : s'.runtime.flags = s.runtime.flags)
    (hcancellation : ∀ scope, s'.runtime.queryCancellation scope =
      s.runtime.queryCancellation scope)
    (hnext : s'.runtime.nextQueryId = s.runtime.nextQueryId)
    (hbegun : s'.begun = s.begun)
    (hactive : s'.runtime.inflight.active = s'.held.length)
    (hattempts : ∀ attempt ∈ s'.waiting, attempt ∈ s.waiting ∨
      attempt.flag + 1 = attempt.begun) : SessionSound s' where
  active_eq := hactive
  flags_length := by rw [hflags, hbegun, h.flags_length]
  nextQueryId_eq := by rw [hnext, hbegun, h.nextQueryId_eq]
  current := by
    intro scope flag hok
    rw [hcancellation] at hok
    rw [flagged, hflags, hbegun]
    exact h.current scope flag hok
  down := by
    intro flag hdown
    rw [flagged, hflags] at hdown
    obtain ⟨scope, hok⟩ := h.down flag hdown
    exact ⟨scope, (hcancellation scope).trans hok⟩
  attempts := by
    intro attempt hmem
    rcases hattempts attempt hmem with hold | hnew
    · exact h.attempts attempt hold
    · exact hnew

theorem SessionSound.step {s s' : Session} {event : SessionEvent}
    (h : SessionSound s) (hstep : SessionStep s s' event) :
    SessionSound s' := by
  cases hstep with
  | beginQuery now hruntime hbegun hwaiting hheld =>
      have hinflight : s'.runtime.inflight = s.runtime.inflight := by
        rw [hruntime]
        exact cancelActive_inflight
      constructor
      · rw [hinflight, hheld, h.active_eq]
      · rw [hruntime, hbegun, ← h.flags_length]
        simp [ConnectionRuntime.beginQuery, cancelActive_flags_length]
      · rw [hruntime, hbegun]
        simp [ConnectionRuntime.beginQuery, cancelActive_nextQueryId,
          h.nextQueryId_eq]
      · intro scope flag hok
        rw [hruntime] at hok
        obtain ⟨rfl, rfl⟩ := (beginQuery_cancellation now scope flag).mp hok
        refine ⟨by rw [hbegun, h.flags_length], ?_, ?_⟩
        · rw [h.nextQueryId_eq, h.flags_length]
        · rw [hruntime]
          simp [flagged, ConnectionRuntime.beginQuery,
            ← cancelActive_flags_length (c := s.runtime)]
      · intro flag hdown
        rw [hruntime] at hdown ⊢
        rcases flagged_beginQuery hdown with rfl | ⟨hold, hnot⟩
        · exact ⟨_, (beginQuery_cancellation now _ _).mpr ⟨rfl, rfl⟩⟩
        · obtain ⟨scope, hok⟩ := h.down flag hold
          exact absurd hok (hnot scope)
      · rw [hwaiting]
        exact h.attempts
  | endQuery now interrupt errorType hruntime hbegun hwaiting hheld =>
      obtain ⟨-, hinflight, -⟩ :=
        endQuery_slots s.runtime now interrupt errorType
      constructor
      · rw [hruntime, hinflight, hheld, h.active_eq]
      · rw [hruntime, hbegun, endQuery_flags, cancelActive_flags_length,
          h.flags_length]
      · rw [hruntime, hbegun, endQuery_nextQueryId, h.nextQueryId_eq]
      · intro scope flag hok
        obtain ⟨query, hactive, -⟩ := queryCancellation_ok_iff.mp hok
        rw [hruntime, endQuery_activeQuery] at hactive
        cases hactive
      · intro flag hdown
        rw [hruntime, flagged, endQuery_flags] at hdown
        obtain ⟨hold, hnot⟩ := flagged_cancelActive hdown
        obtain ⟨scope, hok⟩ := h.down flag hold
        exact absurd hok (hnot scope)
      · rw [hwaiting]
        exact h.attempts
  | newEntry hrunning hnew hframe hnext hbegun hwaiting hheld =>
      refine h.keep hframe.flags hframe.cancellation hnext hbegun ?_ ?_
      · rw [hframe.inflight, hheld]
        exact h.active_eq
      · rw [hwaiting]
        exact fun _ hmem => Or.inl hmem
  | enter hflag hruntime hbegun hwaiting hheld =>
      refine h.keep (by rw [hruntime]) (fun _ => by rw [hruntime])
        (by rw [hruntime]) hbegun ?_ ?_
      · rw [hruntime, hheld, h.active_eq]
      · rw [hwaiting]
        intro attempt hmem
        rcases List.mem_append.mp hmem with hold | hnew
        · exact Or.inl hold
        · obtain rfl := List.mem_singleton.mp hnew
          exact Or.inr (h.current _ _ hflag).1
  | granted hattempt hgrant hbegun hwaiting hheld =>
      rcases acquirePermit_cases hgrant with ⟨error, herror, -⟩ | ⟨-, hruntime⟩
      · cases herror
      refine h.keep (by rw [hruntime]) (fun _ => by rw [hruntime]; rfl)
        (by rw [hruntime]) hbegun ?_ ?_
      · rw [hruntime, hheld, List.length_append, ← h.active_eq]
        rfl
      · rw [hwaiting]
        exact fun _ hmem => Or.inl (List.mem_of_mem_eraseIdx hmem)
  | refused hruntime hbegun hwaiting hheld =>
      refine h.keep (by rw [hruntime]) (fun _ => by rw [hruntime])
        (by rw [hruntime]) hbegun ?_ ?_
      · rw [hruntime, hheld, h.active_eq]
      · rw [hwaiting]
        exact fun _ hmem => Or.inl (List.mem_of_mem_eraseIdx hmem)
  | dropped hattempt hruntime hbegun hwaiting hheld =>
      have hlength := (getElem?_mem_length hattempt).2
      refine h.keep (by rw [hruntime]; rfl) (fun _ => by rw [hruntime]; rfl)
        (by rw [hruntime]; rfl) hbegun ?_ ?_
      · have hdrop : s'.runtime.inflight.active =
            s.runtime.inflight.active - 1 := by
          rw [hruntime]
          rfl
        rw [hdrop, hheld, h.active_eq]
        omega
      · rw [hwaiting]
        exact fun _ hmem => Or.inl hmem
  | quiet hop hgranted hdropped hframe hnext hbegun hwaiting hheld =>
      refine h.keep hframe.flags hframe.cancellation hnext hbegun ?_ ?_
      · rw [hframe.inflight, hheld, h.active_eq]
      · rw [hwaiting]
        exact fun _ hmem => Or.inl hmem

theorem Session.run_sound (hash : String → UInt64) (scope : ℕ)
    (ops : List SessionOp) : SessionSound (Session.run hash scope ops).2 := by
  induction ops with
  | nil => exact sessionSound_init scope _
  | cons op earlier ih => exact ih.step (Session.apply_step hash _ op)

/-! ## Limits -/

/-- How many permits were granted. -/
def grants (events : List SessionEvent) : ℕ :=
  events.countP fun event => event.Granted

/-- How many permits were dropped. -/
def drops (events : List SessionEvent) : ℕ :=
  events.countP fun event => event.Dropped

/-- The largest number of permits outstanding at any time of the session. -/
def largestActive (hash : String → UInt64) (scope : ℕ) : List SessionOp → ℕ
  | [] => 0
  | op :: earlier =>
      max (largestActive hash scope earlier)
        (Session.run hash scope (op :: earlier)).2.runtime.inflight.active

/-- The call of this attempt is over before it looks at the pool: another
query has begun since, or none is active. -/
def Session.Over (s : Session) (attempt : PermitCall) : Prop :=
  s.begun ≠ attempt.begun ∨ s.runtime.activeQuery = none

theorem active_le_largestActive (hash : String → UInt64) (scope : ℕ)
    (ops : List SessionOp) :
    (Session.run hash scope ops).2.runtime.inflight.active ≤
      largestActive hash scope ops := by
  cases ops with
  | nil => exact le_refl 0
  | cons op earlier => exact le_max_right _ _

/-- One operation changes the count of permits as it says. -/
theorem SessionStep.active {s s' : Session} {event : SessionEvent}
    (h : SessionSound s) (hstep : SessionStep s s' event) :
    s'.runtime.inflight.active + (if event.Dropped then 1 else 0) =
      s.runtime.inflight.active + if event.Granted then 1 else 0 := by
  have hsound' := h.step hstep
  rw [h.active_eq, hsound'.active_eq]
  cases hstep with
  | granted hattempt hgrant hbegun hwaiting hheld =>
      rw [hheld, List.length_append]
      rfl
  | dropped hattempt hruntime hbegun hwaiting hheld =>
      have hlength := (getElem?_mem_length hattempt).2
      rw [hheld, ← hlength]
      rfl
  | quiet hop hgranted hdropped hframe hnext hbegun hwaiting hheld =>
      rw [hheld, if_neg hgranted, if_neg hdropped]
  | beginQuery now hruntime hbegun hwaiting hheld => rw [hheld]; rfl
  | endQuery now interrupt errorType hruntime hbegun hwaiting hheld =>
      rw [hheld]
      rfl
  | newEntry hrunning hnew hframe hnext hbegun hwaiting hheld =>
      rw [hheld]
      rfl
  | enter hflag hruntime hbegun hwaiting hheld => rw [hheld]; rfl
  | refused hruntime hbegun hwaiting hheld => rw [hheld]; rfl

theorem run_active_eq (hash : String → UInt64) (scope : ℕ)
    (ops : List SessionOp) :
    (Session.run hash scope ops).2.runtime.inflight.active +
        drops (Session.run hash scope ops).1 =
      grants (Session.run hash scope ops).1 := by
  induction ops with
  | nil => rfl
  | cons op earlier ih =>
      have hsound := Session.run_sound hash scope earlier
      have hstep := (Session.apply_step hash
        (Session.run hash scope earlier).2 op).active hsound
      simp only [Session.run, drops, grants, List.countP_cons,
        decide_eq_true_eq] at ih hstep ⊢
      omega

/-- When a permit is granted, the flag was down and the pool below the
limit. -/
theorem ConnectionRuntime.acquirePermit_ok {c c' : ConnectionRuntime}
    {maxInflight flag : ℕ}
    (h : c.acquirePermit maxInflight flag = some (.ok (), c')) :
    c.flagged flag = false ∧ c.inflight.active < maxInflight ∧
      c'.inflight.active = c.inflight.active + 1 ∧
      c'.inflight.peak = max c.inflight.peak c'.inflight.active := by
  unfold ConnectionRuntime.acquirePermit at h
  by_cases hzero : maxInflight = 0
  · rw [if_pos hzero] at h
    cases h
  rw [if_neg hzero] at h
  by_cases hflag : c.flagged flag = true
  · rw [if_pos hflag] at h
    cases h
  rw [if_neg hflag] at h
  by_cases hfree : c.inflight.active < maxInflight
  · rw [if_pos hfree] at h
    obtain ⟨-, rfl⟩ := Prod.mk.inj (Option.some.inj h)
    exact ⟨by simpa using hflag, hfree, rfl, rfl⟩
  · rw [if_neg hfree] at h
    cases h

theorem SessionStep.peak {s s' : Session} {event : SessionEvent}
    (hstep : SessionStep s s' event) :
    s'.runtime.inflight.peak =
        max s.runtime.inflight.peak s'.runtime.inflight.active ∨
      s'.runtime.inflight.peak = s.runtime.inflight.peak ∧
        s'.runtime.inflight.active ≤ s.runtime.inflight.active := by
  cases hstep with
  | granted hattempt hgrant hbegun hwaiting hheld =>
      exact Or.inl (acquirePermit_ok hgrant).2.2.2
  | beginQuery now hruntime hbegun hwaiting hheld =>
      have hinflight : s'.runtime.inflight = s.runtime.inflight := by
        rw [hruntime]
        exact cancelActive_inflight
      rw [hinflight]
      exact Or.inr ⟨rfl, le_refl _⟩
  | endQuery now interrupt errorType hruntime hbegun hwaiting hheld =>
      obtain ⟨-, hinflight, -⟩ :=
        endQuery_slots s.runtime now interrupt errorType
      rw [hruntime, hinflight]
      exact Or.inr ⟨rfl, le_refl _⟩
  | newEntry hrunning hnew hframe hnext hbegun hwaiting hheld =>
      rw [hframe.inflight]
      exact Or.inr ⟨rfl, le_refl _⟩
  | enter hflag hruntime hbegun hwaiting hheld =>
      rw [hruntime]
      exact Or.inr ⟨rfl, le_refl _⟩
  | refused hruntime hbegun hwaiting hheld =>
      rw [hruntime]
      exact Or.inr ⟨rfl, le_refl _⟩
  | dropped hattempt hruntime hbegun hwaiting hheld =>
      rw [hruntime]
      exact Or.inr ⟨rfl, Nat.sub_le _ _⟩
  | quiet hop hgranted hdropped hframe hnext hbegun hwaiting hheld =>
      rw [hframe.inflight]
      exact Or.inr ⟨rfl, le_refl _⟩

theorem run_peak_eq (hash : String → UInt64) (scope : ℕ)
    (ops : List SessionOp) :
    (Session.run hash scope ops).2.runtime.inflight.peak =
      largestActive hash scope ops := by
  induction ops with
  | nil => rfl
  | cons op earlier ih =>
      have hactive := active_le_largestActive hash scope earlier
      have hstep := (Session.apply_step hash
        (Session.run hash scope earlier).2 op).peak
      rcases hstep with hpeak | ⟨hpeak, hle⟩
      · rw [largestActive, ← ih]
        exact hpeak
      · have hmax : largestActive hash scope (op :: earlier) =
            largestActive hash scope earlier :=
          max_eq_left (hle.trans hactive)
        rw [hmax, ← ih]
        exact hpeak

theorem SessionStep.waiting {s s' : Session} {event : SessionEvent}
    (hstep : SessionStep s s' event) :
    ∀ attempt ∈ s'.waiting, attempt ∈ s.waiting ∨
      ∃ scope, event.1 = .acquireRequestPermit scope attempt.maxInflight := by
  cases hstep with
  | enter hflag hruntime hbegun hwaiting hheld =>
      rw [hwaiting]
      intro attempt hmem
      rcases List.mem_append.mp hmem with hold | hnew
      · exact Or.inl hold
      · obtain rfl := List.mem_singleton.mp hnew
        exact Or.inr ⟨_, rfl⟩
  | granted hattempt hgrant hbegun hwaiting hheld =>
      rw [hwaiting]
      exact fun _ hmem => Or.inl (List.mem_of_mem_eraseIdx hmem)
  | refused hruntime hbegun hwaiting hheld =>
      rw [hwaiting]
      exact fun _ hmem => Or.inl (List.mem_of_mem_eraseIdx hmem)
  | beginQuery now hruntime hbegun hwaiting hheld =>
      rw [hwaiting]
      exact fun _ hmem => Or.inl hmem
  | endQuery now interrupt errorType hruntime hbegun hwaiting hheld =>
      rw [hwaiting]
      exact fun _ hmem => Or.inl hmem
  | newEntry hrunning hnew hframe hnext hbegun hwaiting hheld =>
      rw [hwaiting]
      exact fun _ hmem => Or.inl hmem
  | dropped hattempt hruntime hbegun hwaiting hheld =>
      rw [hwaiting]
      exact fun _ hmem => Or.inl hmem
  | quiet hop hgranted hdropped hframe hnext hbegun hwaiting hheld =>
      rw [hwaiting]
      exact fun _ hmem => Or.inl hmem

/-- A step counts no permit beyond the limit of a waiting attempt. -/
theorem SessionStep.active_le {s s' : Session} {event : SessionEvent}
    {limit : ℕ} (h : SessionSound s) (hstep : SessionStep s s' event)
    (hlimits : ∀ attempt ∈ s.waiting, attempt.maxInflight = limit)
    (hle : s.runtime.inflight.active ≤ limit) :
    s'.runtime.inflight.active ≤ limit := by
  by_cases hgranted : event.Granted
  · cases hstep with
    | granted hattempt hgrant hbegun hwaiting hheld =>
        obtain ⟨-, hfree, hcount, -⟩ := acquirePermit_ok hgrant
        rw [hlimits _ (getElem?_mem_length hattempt).1] at hfree
        omega
    | quiet hop hnot hdropped hframe hnext hbegun hwaiting hheld =>
        exact absurd hgranted hnot
    | _ => exact hgranted.elim
  · have hcount := hstep.active h
    rw [if_neg hgranted] at hcount
    omega

theorem run_active_le (hash : String → UInt64) (scope limit : ℕ)
    {ops : List SessionOp}
    (hlimit : ∀ query maxInflight,
      .acquireRequestPermit query maxInflight ∈ ops → maxInflight = limit) :
    (∀ attempt ∈ (Session.run hash scope ops).2.waiting,
        attempt.maxInflight = limit) ∧
      (Session.run hash scope ops).2.runtime.inflight.active ≤ limit := by
  induction ops with
  | nil => exact ⟨fun _ h => absurd h List.not_mem_nil, Nat.zero_le _⟩
  | cons op earlier ih =>
      obtain ⟨hlimits, hle⟩ := ih fun query maxInflight hmem =>
        hlimit query maxInflight (List.mem_cons_of_mem _ hmem)
      have hstep := Session.apply_step hash
        (Session.run hash scope earlier).2 op
      refine ⟨?_, hstep.active_le (Session.run_sound hash scope earlier)
        hlimits hle⟩
      intro attempt hmem
      rcases hstep.waiting attempt hmem with hold | ⟨query, hop⟩
      · exact hlimits attempt hold
      · exact hlimit query _ (List.mem_cons.mpr (Or.inl (Eq.symm hop)))

/-- The flag of an attempt whose call is over is up. -/
theorem SessionSound.over_flagged {s : Session} (h : SessionSound s)
    {attempt : PermitCall} (hmem : attempt ∈ s.waiting)
    (hover : s.Over attempt) :
    s.runtime.flagged attempt.flag = true := by
  by_contra hnot
  have hdown : s.runtime.flagged attempt.flag = false := by simpa using hnot
  obtain ⟨scope, hok⟩ := h.down attempt.flag hdown
  rcases hover with hlater | hnone
  · have hflag := (h.current scope attempt.flag hok).1
    exact hlater (hflag.symm.trans (h.attempts attempt hmem))
  · obtain ⟨query, hactive, -⟩ := queryCancellation_ok_iff.mp hok
    rw [hnone] at hactive
    cases hactive

theorem SessionSound.over_refused {s : Session} (h : SessionSound s) {i : ℕ}
    {attempt : PermitCall} (hattempt : s.waiting[i]? = some attempt)
    (hover : s.Over attempt) :
    ∃ error, (s.apply hash (.checkPermit i)).1 = .permit (.error error) := by
  have hflag := h.over_flagged (getElem?_mem_length hattempt).1 hover
  simp only [Session.apply, hattempt, ConnectionRuntime.acquirePermit]
  by_cases hzero : attempt.maxInflight = 0
  · rw [if_pos hzero]
    exact ⟨_, rfl⟩
  · rw [if_neg hzero, if_pos hflag]
    exact ⟨_, rfl⟩

theorem granted_le {s : Session} {i : ℕ} {attempt : PermitCall}
    (hattempt : s.waiting[i]? = some attempt)
    (hgranted : (s.apply hash (.checkPermit i)).1 = .permit (.ok ())) :
    (s.apply hash (.checkPermit i)).2.runtime.inflight.active ≤
      attempt.maxInflight := by
  cases hlook : s.runtime.acquirePermit attempt.maxInflight attempt.flag with
  | none => simp [Session.apply, hattempt, hlook] at hgranted
  | some look =>
      obtain ⟨answer, runtime⟩ := look
      cases answer with
      | error e => simp [Session.apply, hattempt, hlook] at hgranted
      | ok u =>
          obtain ⟨-, hfree, hcount, -⟩ := acquirePermit_ok hlook
          simp only [Session.apply, hattempt, hlook]
          omega

/-- In every session the pool counts the permits which are out, a grant keeps
to the limit of its call, the peak is the largest count there was, and a call
whose query is over gets no permit. -/
theorem session_permits (hash : String → UInt64) (scope : ℕ)
    (ops : List SessionOp) :
    let events := (Session.run hash scope ops).1
    let s := (Session.run hash scope ops).2
    s.runtime.inflight.active + drops events = grants events ∧
      s.runtime.inflight.active = s.held.length ∧
      (∀ (i : ℕ) (attempt : PermitCall), s.held[i]? = some attempt →
        0 < s.runtime.inflight.active) ∧
      (∀ (i : ℕ) (attempt : PermitCall), s.waiting[i]? = some attempt →
        (s.apply hash (.checkPermit i)).1 = .permit (.ok ()) →
        (s.apply hash (.checkPermit i)).2.runtime.inflight.active ≤
          attempt.maxInflight) ∧
      (∀ limit, (∀ query maxInflight,
          .acquireRequestPermit query maxInflight ∈ ops → maxInflight = limit) →
        s.held.length ≤ limit) ∧
      s.runtime.inflight.peak = largestActive hash scope ops ∧
      ∀ (i : ℕ) (attempt : PermitCall), s.waiting[i]? = some attempt →
        s.Over attempt →
        ∃ error, (s.apply hash (.checkPermit i)).1 =
          .permit (.error error) := by
  have hsound := Session.run_sound hash scope ops
  refine ⟨run_active_eq hash scope ops, hsound.active_eq, ?_,
    fun _ _ hattempt => granted_le hattempt, ?_, run_peak_eq hash scope ops,
    fun _ _ hattempt => hsound.over_refused hattempt⟩
  · intro i attempt hattempt
    have hlength := (getElem?_mem_length hattempt).2
    rw [hsound.active_eq]
    omega
  · intro limit hlimit
    rw [← hsound.active_eq]
    exact (run_active_le hash scope limit hlimit).2

/-- One query takes two permits under the limit two and ends while a third
call is waiting. -/
def permitOps : List SessionOp :=
  [.endQuery 1 2 0, .checkPermit 0, .acquireRequestPermit 0 2, .checkPermit 0,
    .acquireRequestPermit 0 2, .checkPermit 0, .acquireRequestPermit 0 2,
    .beginQuery 0]

theorem session_permits_waiting :
    (Session.run (fun _ => 0) 1 permitOps).2.held.length ≤ 2 ∧
      ∃ error, ((Session.run (fun _ => 0) 1 permitOps).2.apply (fun _ => 0)
        (.checkPermit 0)).1 = .permit (.error error) := by
  have hpermits := session_permits (fun _ => 0) 1 permitOps
  refine ⟨hpermits.2.2.2.2.1 2 ?_, hpermits.2.2.2.2.2.2 0 ⟨2, 0, 1⟩ rfl
    (Or.inr rfl)⟩
  intro query maxInflight hmem
  simp only [permitOps, List.mem_cons, List.not_mem_nil, reduceCtorEq,
    SessionOp.acquireRequestPermit.injEq, or_false, false_or] at hmem
  omega

end DuckJeu
