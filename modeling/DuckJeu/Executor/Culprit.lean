import DuckJeu.Executor.Blame
import DuckJeu.Executor.Cancellation

/-!
# Who is to blame

While their query runs, its workers are not turned away.  So a worker fails
with an error of its own settings or with a failure of its own request, or it
has waited for an entry whose owner failed so.
-/

namespace DuckJeu

open Effects ConnectionRuntime

variable {ι : Type} [DecidableEq ι]

/-! ## A running query -/

/-- The event is one of a query which runs: nothing was refused, and a failed
wait has found its error in the entry. -/
def ExecEvent.Stands (c : ConnectionRuntime) (scope : ℕ) : ExecEvent → Prop
  | ⟨.claimQueryEntry queryScope _, .error _⟩ => ¬ c.Running queryScope
  | ⟨.claimQueryEntry queryScope _, .ok _⟩ =>
      ∀ other, c.Running other → other = queryScope
  | ⟨.queryCancellation queryScope, .error _⟩ => ¬ c.Running queryScope
  | ⟨.acquirePermit maxInflight _, .error error⟩ => c.Running scope →
      maxInflight = 0 ∧
        error = .configuration "duckjeu_max_inflight must be positive"
  | ⟨.wait entry _, .error error⟩ => c.Running scope →
      c.slot entry = some (.error error)
  | _ => True

section Stands

variable {c c' : ConnectionRuntime} {scope : ℕ}

/-- No query comes back, and no slot is emptied. -/
structure Onward (c c' : ConnectionRuntime) : Prop where
  running : ∀ scope, c'.Running scope → c.Running scope ∧
    c'.queryCancellation scope = c.queryCancellation scope
  slot : ∀ entry outcome, c.slot entry = some outcome →
    c'.slot entry = some outcome

theorem onward_step {op : Op} {r : Res op} (h : step c op r c') :
    Onward c c' where
  running := fun scope hrunning =>
    ⟨(step_running h scope).mp hrunning, (step_query h).2 scope⟩
  slot := fun _ _ hslot => step_slot h hslot

theorem onward_query (h : QueryStep c c') : Onward c c' where
  running := by
    intro scope hrunning
    cases h with
    | quiet hquiet =>
        exact ⟨hquiet.frame.running.mp hrunning,
          hquiet.frame.cancellation scope⟩
    | endQuery now interrupt errorType =>
        exact absurd hrunning
          (endQuery_not_running c now interrupt errorType scope)
  slot := by
    intro entry outcome hslot
    rwa [ConnectionRuntime.slot, h.slots.1]

theorem ExecEvent.Stands.onward {event : ExecEvent}
    (h : event.Stands c scope) (honward : Onward c c') :
    event.Stands c' scope := by
  have hrunning : ∀ {scope}, c'.Running scope → c.Running scope :=
    fun hrunning => (honward.running _ hrunning).1
  obtain ⟨op, r⟩ := event
  cases op with
  | claimQueryEntry queryScope identity =>
      cases r with
      | error error => exact mt hrunning h
      | ok claim => exact fun other hother => h other (hrunning hother)
  | queryCancellation queryScope =>
      cases r with
      | error error => exact mt hrunning h
      | ok flag => trivial
  | acquirePermit maxInflight flag =>
      cases r with
      | error error => exact fun hrun => h (hrunning hrun)
      | ok granted => trivial
  | wait entry flag =>
      cases r with
      | error error => exact fun hrun => honward.slot _ _ (h (hrunning hrun))
      | ok result => trivial
  | _ => trivial

theorem running_unique {scope other : ℕ} (h : c.Running scope)
    (hother : c.Running other) : other = scope := by
  obtain ⟨flag, hflag, -⟩ := h
  obtain ⟨flag', hflag', -⟩ := hother
  obtain ⟨query, hactive, hscope, -⟩ := queryCancellation_ok_iff.mp hflag
  obtain ⟨query', hactive', hscope', -⟩ := queryCancellation_ok_iff.mp hflag'
  rw [hactive] at hactive'
  obtain rfl := Option.some.inj hactive'
  exact hscope'.symm.trans hscope

/-- While its query runs, a flag which it gave is down. -/
theorem flagged_of_running {flag : ℕ} (hrunning : c.Running scope)
    (hgiven : c.queryCancellation scope = .ok flag) :
    c.flagged flag = false := by
  obtain ⟨flag', hflag', hdown⟩ := hrunning
  rw [hgiven] at hflag'
  obtain rfl := Except.ok.inj hflag'
  exact hdown

/-- What a worker does stands, if it blocks under flags of its query only. -/
theorem stands_step {means : Means} {op : Op} {r : Res op}
    (hflags : ∀ flag ∈ means.flags, c.Running scope →
      c.queryCancellation scope = .ok flag)
    (hallowed : (spending scope).Allowed means op) (hstep : step c op r c') :
    ExecEvent.Stands c' scope ⟨op, r⟩ := by
  have honward := onward_step hstep
  cases op with
  | claimQueryEntry queryScope identity =>
      rcases claimQueryEntry_cases hstep with ⟨error, rfl, rfl, hover⟩ |
        ⟨entry, rfl, hrunning, -⟩ | ⟨rfl, hrunning, -⟩
      · exact hover
      · exact fun other hother =>
          running_unique hrunning (honward.running other hother).1
      · exact fun other hother =>
          running_unique hrunning (honward.running other hother).1
  | queryCancellation queryScope =>
      cases r with
      | error error =>
          rintro hrunning
          obtain ⟨flag, hflag, -⟩ := (honward.running _ hrunning).1
          cases hstep.1.symm.trans hflag
      | ok flag => trivial
  | acquirePermit maxInflight flag =>
      cases r with
      | error error =>
          intro hrunning
          obtain ⟨hrunning, -⟩ := honward.running _ hrunning
          have hdown := flagged_of_running hrunning
            (hflags flag hallowed hrunning)
          change c.acquirePermit maxInflight flag = _ at hstep
          unfold ConnectionRuntime.acquirePermit at hstep
          split at hstep
          · rename_i hzero
            obtain ⟨herror, -⟩ := Prod.mk.inj (Option.some.inj hstep)
            exact ⟨hzero, (Except.error.inj herror).symm⟩
          · rw [hdown, if_neg Bool.false_ne_true] at hstep
            split at hstep
            · cases hstep
            · cases hstep
      | ok granted => trivial
  | wait entry flag =>
      cases r with
      | error error =>
          intro hrunning
          obtain ⟨hrunning, -⟩ := honward.running _ hrunning
          have hdown := flagged_of_running hrunning
            (hflags flag hallowed hrunning)
          have hwait := hstep.1
          unfold ConnectionRuntime.wait at hwait
          split at hwait
          · rename_i hslot
            rw [hwait] at hslot
            exact honward.slot _ _ hslot
          · rw [hdown, if_neg Bool.false_ne_true] at hwait
            cases hwait
      | ok result => trivial
  | _ => trivial

end Stands

/-- While the query of a worker runs, the flags which it has are of this query.
What it has done stands. -/
structure Standing (scope : ℕ) (c : ConnectionRuntime) (log : WorkerLog ι)
    (i : ι) : Prop where
  flags : ∀ flag ∈ (meansOf scope log i).flags, c.Running scope →
    c.queryCancellation scope = .ok flag
  events : ∀ event ∈ log.of i, ExecEvent.Stands c scope event

section Standing

variable {scope : ℕ} {c c' : ConnectionRuntime} {log : WorkerLog ι} {i j : ι}

theorem standing_nil : Standing scope c ([] : WorkerLog ι) i where
  flags := by
    intro flag hmem
    cases hmem
  events := by
    intro event hmem
    cases hmem

theorem Standing.onward (h : Standing scope c log i) (honward : Onward c c') :
    Standing scope c' log i where
  flags := by
    intro flag hmem hrunning
    obtain ⟨hrunning, hsame⟩ := honward.running _ hrunning
    rw [hsame]
    exact h.flags flag hmem hrunning
  events := fun event hmem => (h.events event hmem).onward honward

theorem Standing.step (h : Standing scope c log i) {op : Op} {r : Res op}
    (hallowed : j = i → (spending scope).Allowed (meansOf scope log i) op)
    (hstep : step c op r c') : Standing scope c' ((j, ⟨op, r⟩) :: log) i := by
  have hold := h.onward (onward_step hstep)
  by_cases hij : j = i
  · subst hij
    have hallowed := hallowed rfl
    refine ⟨fun flag hmem hrunning => ?_, ?_⟩
    · rw [meansOf_cons_self] at hmem
      cases op with
      | queryCancellation queryScope =>
          obtain rfl : queryScope = _ := hallowed
          cases r with
          | error error => exact hold.flags flag hmem hrunning
          | ok given =>
              rcases List.mem_cons.mp hmem with rfl | hmem
              · rw [((onward_step hstep).running _ hrunning).2]
                exact hstep.1
              · exact hold.flags flag hmem hrunning
      | acquirePermit maxInflight given =>
          cases r with
          | error error => exact hold.flags flag hmem hrunning
          | ok granted => exact hold.flags flag hmem hrunning
      | _ => exact hold.flags flag hmem hrunning
    · rw [Log.of_cons_self]
      exact List.forall_mem_cons.mpr
        ⟨stands_step h.flags hallowed hstep, hold.events⟩
  · refine ⟨?_, ?_⟩
    · rw [meansOf_cons_ne hij]
      exact hold.flags
    · rw [Log.of_cons_ne hij]
      exact hold.events

end Standing

/-- Within one query, whatever the workers have done stands. -/
theorem Workers.standing {c : ConnectionRuntime} {calls : ι → Call}
    {p : Workers ι} (hrange : FlagInRange c)
    (hreach : Workers.Reach QueryStep (Workers.start c calls) p) (i : ι) :
    Standing (calls i).limits.queryScope p.shared p.log i := by
  refine ((Workers.start_governed calls hrange).invariant hreach
    (fun _ _ h => .query h)
    (fun c log => ∀ i, Standing (calls i).limits.queryScope c log i) ?_ ?_
    ?_).1 i
  · exact fun i => standing_nil
  · intro c c' log j op r _ hall hallowed hstep i
    exact (hall i).step (fun hji => hji ▸ hallowed) hstep
  · exact fun c c' log hall hhost i => (hall i).onward (onward_query hhost)

/-! ## The culprit -/

/-- What a call has done so far and what is left of it keep to its own
errors. -/
theorem Call.blames_after {call : Call} {h : History} {q : Run Answer}
    (hafter : call.program.After h q) :
    (∀ entry error, (entry, Except.error error) ∈ completions h →
      call.Owns h error) ∧
    Follows call.blaming q (fun answer h' =>
      ∀ error, answer = .error error → call.Passes h' error) h := by
  have hfollows := hafter.follows (P := call.blaming)
    (I := fun older g => g = older ∧ ∀ entry error,
      (entry, Except.error error) ∈ completions older →
        call.Owns older error)
    (fun _ _ _ => trivial) ⟨rfl, by simp [completions]⟩ ?_ call.blames
  · obtain ⟨⟨hsame, howns⟩, hleft⟩ := hfollows
    rw [hsame] at hleft
    exact ⟨howns, hleft⟩
  · rintro older _ op r ⟨rfl, hold⟩ hallowed
    refine ⟨rfl, fun entry error hmem => ?_⟩
    rcases List.mem_cons.mp (mem_completions.mp hmem) with hnew | hmem
    · obtain ⟨rfl, -⟩ := Sigma.mk.inj hnew
      exact (hallowed entry error rfl).mono (List.suffix_cons _ _)
    · exact (hold entry error (mem_completions.mpr hmem)).mono
        (List.suffix_cons _ _)

/-- The provider has answered the request with the error, or with a response
which was turned down with it. -/
def Dispatch.Fails (d : Dispatch) (error : JudgmentError) : Prop :=
  d.response = .error error ∨ ∃ response, d.response = .ok response ∧
    validateBatchResult d.requests response = .error error

/-- The error is one of the settings of the call, or a failure of one of its
requests. -/
def Call.Blamed (call : Call) (h : History) (error : JudgmentError) : Prop :=
  call.Faults error ∨ ∃ d ∈ dispatches h, d.Fails error

/-- Whoever has done `h` has found an entry of the owner. -/
def Joins (h owner : History) : Prop :=
  ∃ identity entry, ⟨identity, entry, false⟩ ∈ claims h ∧
    ⟨identity, entry, true⟩ ∈ claims owner

section Culprit

variable {c : ConnectionRuntime} {calls : ι → Call} {p : Workers ι}

/-- While its query runs, an own error of a worker is blamed on its settings or
its requests. -/
theorem Workers.owned_blamed (hrange : FlagInRange c)
    (hreach : Workers.Reach QueryStep (Workers.start c calls) p) {i : ι}
    (hrunning : p.shared.Running (calls i).limits.queryScope)
    {error : JudgmentError} (howns : (calls i).Owns (p.log.of i) error) :
    (calls i).Blamed (p.log.of i) error := by
  rcases howns with hfaults | ⟨event, hmem, hraises⟩
  · exact Or.inl hfaults
  have hstands := (Workers.standing hrange hreach i).events event hmem
  obtain ⟨older, -, hallowed⟩ :=
    Workers.allowed (fun _ _ h => h.slots.1) hreach hmem
  obtain ⟨op, r⟩ := event
  cases op with
  | claimQueryEntry scope identity =>
      obtain rfl : r = .error error := hraises
      obtain ⟨rfl, -⟩ := hallowed
      exact absurd hrunning hstands
  | queryCancellation scope =>
      obtain rfl : r = .error error := hraises
      obtain rfl : scope = _ := hallowed
      exact absurd hrunning hstands
  | acquirePermit maxInflight flag =>
      obtain rfl : r = .error error := hraises
      obtain ⟨rfl, -⟩ := hallowed
      obtain ⟨hzero, rfl⟩ := hstands hrunning
      exact Or.inl (.inflight hzero)
  | judge method carried requests =>
      refine Or.inr ⟨⟨carried, requests, r⟩, mem_dispatches.mpr ⟨method, hmem⟩,
        ?_⟩
      cases r with
      | error raised => exact Or.inl (congrArg Except.error hraises)
      | ok response => exact Or.inr ⟨response, rfl, hraises⟩
  | _ => exact hraises.elim

/-- While its query runs, a worker fails only with an error which is to be
blamed on its own settings and requests, or on those of a worker whose entry it
has found. -/
theorem Workers.culprit (hentries : c.queryEntries = ∅)
    (hrange : FlagInRange c)
    (hreach : Workers.Reach QueryStep (Workers.start c calls) p) {i : ι}
    (hrunning : p.shared.Running (calls i).limits.queryScope)
    {error : JudgmentError} (hreturned : p.thread i = .ret (.error error)) :
    ∃ j, (j = i ∨ Joins (p.log.of i) (p.log.of j)) ∧
      (calls j).Blamed (p.log.of j) error := by
  obtain ⟨howned, hbooks, -⟩ := Workers.invariant EntriesOwned hreach
    (fun _ _ h => h.slots.1) (entriesOwned_nil hentries)
    (fun _ _ _ _ _ _ _ howned _ hstep => howned.step hstep)
    fun _ _ _ howned hhost => howned.host (.query hhost)
  have hafter := Pool.Reachable.after hreach rfl
  have hpasses := (Call.blames_after (hafter i)).2
  rw [hreturned] at hpasses
  rcases hpasses error rfl with howns | ⟨entry, flag, hwait⟩
  · exact ⟨i, Or.inl rfl, Workers.owned_blamed hrange hreach hrunning howns⟩
  -- the entry is one of another worker, which has failed it
  have hslot : p.shared.slot entry = some (.error error) :=
    (Workers.standing hrange hreach i).events _ hwait hrunning
  obtain ⟨older, hsuffix, -, -, -, identity, hclaim⟩ :=
    Workers.allowed (fun _ _ h => h.slots.1) hreach hwait
  have hclaim := claims_subset hsuffix hclaim
  obtain ⟨j, howner⟩ := howned.claims i _ hclaim
  have hcontents := hbooks.contents j _ (mem_ownedClaims.mpr ⟨howner, rfl⟩)
  rw [hslot] at hcontents
  have howns := (Call.blames_after (hafter j)).1 entry error
    (firstCompletion_mem hcontents.symm)
  refine ⟨j, Or.inr ⟨identity, entry, hclaim, howner⟩,
    Workers.owned_blamed hrange hreach ?_ howns⟩
  -- the query of the owner is the one which runs
  obtain ⟨scope, hevent⟩ := mem_claims.mp howner
  obtain ⟨-, -, rfl, -⟩ :=
    Workers.allowed (fun _ _ h => h.slots.1) hreach hevent
  have hsame := (Workers.standing hrange hreach j).events _ hevent _ hrunning
  rwa [← hsame]

end Culprit

end DuckJeu
