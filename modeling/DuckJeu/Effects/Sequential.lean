import DuckJeu.Effects.Pool

/-!
# Running one program alone

The sequential interpreter runs a program to its end against a partial
handler of operations.  A handler which refuses an operation models a program
that blocks forever, because nobody else is there to wake it up.

Two rules connect the interpreter to the rest: a program which follows its
protocol runs to the end when an invariant makes every allowed operation
possible, and a sequential run is one particular schedule of a pool.
-/

namespace Effects

variable {ι σ τ Op α β γ : Type} {Res : Op → Type}

namespace Prog

/-- Run a program against `handle`, returning its result, the final state and
the events it performed, the newest first. -/
def run (handle : σ → (op : Op) → Option (Res op × σ)) :
    Prog Op Res α → σ → Option (α × σ × List (Event Op Res))
  | .ret a, s => some (a, s, [])
  | .call op k, s =>
      match handle s op with
      | none => none
      | some (r, s') =>
          match run handle (k r) s' with
          | none => none
          | some (a, s'', events) => some (a, s'', events ++ [⟨op, r⟩])

variable {handle : σ → (op : Op) → Option (Res op × σ)}

@[simp] theorem run_ret (a : α) (s : σ) :
    run handle (.ret a : Prog Op Res α) s = some (a, s, []) := rfl

theorem run_call {op : Op} {k : Res op → Prog Op Res α} {s s' s'' : σ}
    {r : Res op} {a : α} {events : List (Event Op Res)}
    (hop : handle s op = some (r, s'))
    (hk : run handle (k r) s' = some (a, s'', events)) :
    run handle (.call op k) s = some (a, s'', events ++ [⟨op, r⟩]) := by
  simp [run, hop, hk]

theorem run_perform (op : Op) (s : σ) :
    run handle (.perform op) s =
      (handle s op).map fun next => (next.1, next.2, [⟨op, next.1⟩]) := by
  rw [perform, run]
  cases handle s op with
  | none => rfl
  | some next => rfl

/-- The second of two programs runs where the first one has ended. -/
theorem run_bind (p : Prog Op Res α) (f : α → Prog Op Res β) (s : σ) :
    run handle (p >>= f) s =
      (run handle p s).bind fun first =>
        (run handle (f first.1) first.2.1).map fun next =>
          (next.1, next.2.1, next.2.2 ++ first.2.2) := by
  induction p generalizing s with
  | ret a => simp
  | call op k ih =>
      rw [call_bind, run, run]
      cases hop : handle s op with
      | none => rfl
      | some result =>
          obtain ⟨r, s'⟩ := result
          dsimp only
          rw [ih r s']
          cases hk : run handle (k r) s' with
          | none => rfl
          | some first =>
              cases hf : run handle (f first.1) first.2.1 with
              | none => simp [hf]
              | some next => simp [hf]

/-- What every handled operation keeps holds at the end of a run. -/
theorem run_invariant {I : σ → List (Event Op Res) → Prop}
    (hstep : ∀ s older op r s', I s older → handle s op = some (r, s') →
      I s' (⟨op, r⟩ :: older))
    {p : Prog Op Res α} {s s' : σ} {a : α} {events older : List (Event Op Res)}
    (hrun : run handle p s = some (a, s', events)) (hinv : I s older) :
    I s' (events ++ older) := by
  induction p generalizing s events older with
  | ret b =>
      simp only [run_ret, Option.some.injEq, Prod.mk.injEq] at hrun
      obtain ⟨rfl, rfl, rfl⟩ := hrun
      exact hinv
  | call op k ih =>
      rw [run] at hrun
      cases hop : handle s op with
      | none => simp [hop] at hrun
      | some result =>
          obtain ⟨r, s₁⟩ := result
          cases hk : run handle (k r) s₁ with
          | none => simp [hop, hk] at hrun
          | some last =>
              obtain ⟨b, s₂, later⟩ := last
              simp only [hop, hk, Option.some.injEq, Prod.mk.injEq] at hrun
              obtain ⟨rfl, rfl, rfl⟩ := hrun
              have hlast := ih r hk (hstep s older op r s₁ hinv hop)
              simpa using hlast

/-- All events of a run come from the handler. -/
theorem run_handled {p : Prog Op Res α} {s s' : σ} {a : α}
    {events : List (Event Op Res)}
    (hrun : run handle p s = some (a, s', events)) :
    ∀ event ∈ events, ∃ before after,
      handle before event.1 = some (event.2, after) := by
  have hall := run_invariant
    (I := fun _ older => ∀ event ∈ older, ∃ before after,
      handle before event.1 = some (event.2, after)) ?_ hrun
    (List.forall_mem_nil _)
  · rwa [List.append_nil] at hall
  intro s older op r s' holder hhandle
  exact List.forall_mem_cons.mpr ⟨⟨s, s', hhandle⟩, holder⟩

/-- Every program runs to its end where no operation is refused. -/
theorem run_total (hop : ∀ s op, ∃ r s', handle s op = some (r, s'))
    (p : Prog Op Res α) (s : σ) :
    ∃ a s' events, run handle p s = some (a, s', events) := by
  induction p generalizing s with
  | ret a => exact ⟨a, s, [], rfl⟩
  | call op k ih =>
      obtain ⟨r, s', hhandle⟩ := hop s op
      obtain ⟨a, s'', events, hrun⟩ := ih r s'
      exact ⟨a, s'', _, run_call hhandle hrun⟩

/-- A program that follows its protocol runs to its end, provided an
invariant of state and ledger makes every allowed operation possible. -/
theorem run_of_follows (handle : σ → (op : Op) → Option (Res op × σ))
    {P : Protocol Op Res γ} {I : σ → γ → Prop}
    (hop : ∀ s g op, I s g → P.Allowed g op →
      ∃ r s', handle s op = some (r, s') ∧ P.Admits g op r ∧
        I s' (P.note g op r))
    {p : Prog Op Res α} {Q : α → γ → Prop} {s : σ} {g : γ}
    (hfollows : Follows P p Q g) (hinv : I s g) :
    ∃ a s' events, run handle p s = some (a, s', events) ∧
      Q a (P.replay g events) ∧ I s' (P.replay g events) := by
  induction p generalizing s g with
  | ret a => exact ⟨a, s, [], rfl, hfollows, hinv⟩
  | call op k ih =>
      obtain ⟨r, s', hhandle, hadmits, hinv'⟩ := hop s g op hinv hfollows.1
      obtain ⟨a, s'', events, hrun, hQ, hinv''⟩ :=
        ih r (hfollows.2 r hadmits) hinv'
      refine ⟨a, s'', events ++ [⟨op, r⟩], run_call hhandle hrun, ?_, ?_⟩
      · simpa [Protocol.replay_append] using hQ
      · simpa [Protocol.replay_append] using hinv''

/-- A sequential run is a schedule: from any pool in which thread `i` is
about to run `p`, that thread alone reaches the end of `p`.  The state of the
interpreter may hold more than that of the pool, which sees it through `π`. -/
theorem run_reachable [DecidableEq ι] {π : σ → τ}
    {step : τ → (op : Op) → Res op → τ → Prop} {host : τ → τ → Prop}
    (hrefines : ∀ s op r s', handle s op = some (r, s') →
      step (π s) op r (π s'))
    {p : Prog Op Res α} {s s' : σ} {a : α} {events : List (Event Op Res)}
    (hrun : run handle p s = some (a, s', events))
    {thread : ι → Prog Op Res α} {i : ι} {log : Log ι Op Res}
    (hthread : thread i = p) :
    Pool.Reachable step host ⟨π s, thread, log⟩
      ⟨π s', Function.update thread i (.ret a),
        events.map (fun event => (i, event)) ++ log⟩ := by
  induction p generalizing s events thread log with
  | ret b =>
      simp only [run_ret, Option.some.injEq, Prod.mk.injEq] at hrun
      obtain ⟨rfl, rfl, rfl⟩ := hrun
      have hsame : Function.update thread i (.ret b) = thread := by
        rw [← hthread, Function.update_eq_self]
      rw [hsame]
      exact Relation.ReflTransGen.refl
  | call op k ih =>
      cases hop : handle s op with
      | none => simp [run, hop] at hrun
      | some next =>
          obtain ⟨r, s₁⟩ := next
          cases hk : run handle (k r) s₁ with
          | none => simp [run, hop, hk] at hrun
          | some last =>
              obtain ⟨b, s₂, later⟩ := last
              simp only [run, hop, hk, Option.some.injEq,
                Prod.mk.injEq] at hrun
              obtain ⟨rfl, rfl, rfl⟩ := hrun
              have hfirst : Pool.Step step host ⟨π s, thread, log⟩
                  ⟨π s₁, Function.update thread i (k r),
                    (i, ⟨op, r⟩) :: log⟩ :=
                Pool.Step.thread (p := ⟨π s, thread, log⟩) hthread
                  (hrefines _ _ _ _ hop)
              have hrest : Pool.Reachable step host
                  ⟨π s₁, Function.update thread i (k r), (i, ⟨op, r⟩) :: log⟩
                  _ := ih r hk (Function.update_self i (k r) thread)
              refine Relation.ReflTransGen.head hfirst ?_
              simpa [Pool.Reachable, Function.update_idem] using hrest

/-! ## Running for some operations only -/

/-- Run a program for at most so many operations, returning what is left of
it. -/
def advance (handle : σ → (op : Op) → Option (Res op × σ)) :
    ℕ → Prog Op Res α → σ → Option (Prog Op Res α × σ × List (Event Op Res))
  | 0, p, s => some (p, s, [])
  | _ + 1, .ret a, s => some (.ret a, s, [])
  | n + 1, .call op k, s =>
      match handle s op with
      | none => none
      | some (r, s') =>
          match advance handle n (k r) s' with
          | none => none
          | some (p, s'', events) => some (p, s'', events ++ [⟨op, r⟩])

/-- Such a run is a schedule as well. -/
theorem advance_reachable [DecidableEq ι] {π : σ → τ}
    {step : τ → (op : Op) → Res op → τ → Prop} {host : τ → τ → Prop}
    (hrefines : ∀ s op r s', handle s op = some (r, s') →
      step (π s) op r (π s'))
    {n : ℕ} {p p' : Prog Op Res α} {s s' : σ} {events : List (Event Op Res)}
    (hrun : advance handle n p s = some (p', s', events))
    {thread : ι → Prog Op Res α} {i : ι} {log : Log ι Op Res}
    (hthread : thread i = p) :
    Pool.Reachable step host ⟨π s, thread, log⟩
      ⟨π s', Function.update thread i p',
        events.map (fun event => (i, event)) ++ log⟩ := by
  have hsame : Function.update thread i p = thread := by
    rw [← hthread, Function.update_eq_self]
  induction n generalizing p s events thread log with
  | zero =>
      obtain ⟨rfl, rfl, rfl⟩ : p = p' ∧ s = s' ∧ [] = events := by
        simpa [advance] using hrun
      rw [hsame]
      exact Relation.ReflTransGen.refl
  | succ n ih =>
      cases p with
      | ret a =>
          obtain ⟨rfl, rfl, rfl⟩ : .ret a = p' ∧ s = s' ∧ [] = events := by
            simpa [advance] using hrun
          rw [hsame]
          exact Relation.ReflTransGen.refl
      | call op k =>
          rw [advance] at hrun
          split at hrun
          · cases hrun
          rename_i r s₁ hop
          split at hrun
          · cases hrun
          rename_i q s₂ later hk
          obtain ⟨rfl, rfl, rfl⟩ : q = p' ∧ s₂ = s' ∧
              later ++ [⟨op, r⟩] = events := by
            simpa using hrun
          have hfirst : Pool.Step step host ⟨π s, thread, log⟩
              ⟨π s₁, Function.update thread i (k r), (i, ⟨op, r⟩) :: log⟩ :=
            Pool.Step.thread (p := ⟨π s, thread, log⟩) hthread
              (hrefines _ _ _ _ hop)
          have hrest : Pool.Reachable step host
              ⟨π s₁, Function.update thread i (k r), (i, ⟨op, r⟩) :: log⟩
              _ := ih hk (Function.update_self i (k r) thread)
                (by rw [Function.update_idem])
          refine Relation.ReflTransGen.head hfirst ?_
          simpa [Pool.Reachable, Function.update_idem] using hrest

end Prog

end Effects
