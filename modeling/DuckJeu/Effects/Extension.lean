import DuckJeu.Effects.Sequential

/-!
# Programs over a larger interface

A program over the operations `Op` is also one over `Op` and further
operations `Ext`.  A program which does other things as well, and somewhere
runs a program over `Op`, is described by the events on both sides: those
outside tell which program has begun, and those inside follow it.

The main result is about pools of such programs.  Seen through the events on
`Op` alone, every schedule of them is a schedule of the programs which they
have begun.
-/

namespace Effects

variable {ι σ τ Op Ext α β : Type} {Res : Op → Type} {ResE : Ext → Type}

/-- The results of two interfaces. -/
abbrev SumRes (Res : Op → Type) (ResE : Ext → Type) : Op ⊕ Ext → Type
  | .inl op => Res op
  | .inr op => ResE op

/-- An event of either interface. -/
abbrev SumEvent (Res : Op → Type) (ResE : Ext → Type) :=
  Event (Op ⊕ Ext) (SumRes Res ResE)

/-- The same program over the larger interface. -/
def Prog.embed : Prog Op Res α → Prog (Op ⊕ Ext) (SumRes Res ResE) α
  | .ret a => .ret a
  | .call op k => .call (.inl op) fun r => (k r).embed

/-! ## The two sides of a history -/

def inner? : SumEvent Res ResE → Option (Event Op Res)
  | ⟨.inl op, r⟩ => some ⟨op, r⟩
  | ⟨.inr _, _⟩ => none

def outer? : SumEvent Res ResE → Option (Event Ext ResE)
  | ⟨.inl _, _⟩ => none
  | ⟨.inr op, r⟩ => some ⟨op, r⟩

def innerOf (h : List (SumEvent Res ResE)) : List (Event Op Res) :=
  h.filterMap inner?

def outerOf (h : List (SumEvent Res ResE)) : List (Event Ext ResE) :=
  h.filterMap outer?

section Sides

variable {h : List (SumEvent Res ResE)}

@[simp] theorem innerOf_inl (op : Op) (r : Res op) :
    innerOf ((⟨.inl op, r⟩ : SumEvent Res ResE) :: h) =
      ⟨op, r⟩ :: innerOf h := rfl

@[simp] theorem innerOf_inr (op : Ext) (r : ResE op) :
    innerOf ((⟨.inr op, r⟩ : SumEvent Res ResE) :: h) = innerOf h := rfl

@[simp] theorem outerOf_inl (op : Op) (r : Res op) :
    outerOf ((⟨.inl op, r⟩ : SumEvent Res ResE) :: h) = outerOf h := rfl

@[simp] theorem outerOf_inr (op : Ext) (r : ResE op) :
    outerOf ((⟨.inr op, r⟩ : SumEvent Res ResE) :: h) =
      ⟨op, r⟩ :: outerOf h := rfl

theorem mem_innerOf {op : Op} {r : Res op} :
    (⟨op, r⟩ : Event Op Res) ∈ innerOf h ↔
      (⟨.inl op, r⟩ : SumEvent Res ResE) ∈ h := by
  simp only [innerOf, List.mem_filterMap]
  constructor
  · rintro ⟨⟨op' | op', r'⟩, hmem, hevent⟩
    · cases hevent
      exact hmem
    · cases hevent
  · intro hmem
    exact ⟨_, hmem, rfl⟩

theorem mem_outerOf {op : Ext} {r : ResE op} :
    (⟨op, r⟩ : Event Ext ResE) ∈ outerOf h ↔
      (⟨.inr op, r⟩ : SumEvent Res ResE) ∈ h := by
  simp only [outerOf, List.mem_filterMap]
  constructor
  · rintro ⟨⟨op' | op', r'⟩, hmem, hevent⟩
    · cases hevent
    · cases hevent
      exact hmem
  · intro hmem
    exact ⟨_, hmem, rfl⟩

end Sides

/-- What a log tells about the smaller interface. -/
def Log.inner (log : Log ι (Op ⊕ Ext) (SumRes Res ResE)) : Log ι Op Res :=
  log.filterMap fun entry =>
    (inner? entry.2).map fun event => (entry.1, event)

@[simp] theorem Log.inner_inl (i : ι) (op : Op) (r : Res op)
    (log : Log ι (Op ⊕ Ext) (SumRes Res ResE)) :
    Log.inner ((i, ⟨.inl op, r⟩) :: log) = (i, ⟨op, r⟩) :: log.inner := rfl

@[simp] theorem Log.inner_inr (i : ι) (op : Ext) (r : ResE op)
    (log : Log ι (Op ⊕ Ext) (SumRes Res ResE)) :
    Log.inner ((i, ⟨.inr op, r⟩) :: log) = log.inner := rfl

theorem Log.inner_of [DecidableEq ι]
    (log : Log ι (Op ⊕ Ext) (SumRes Res ResE)) (i : ι) :
    log.inner.of i = innerOf (log.of i) := by
  induction log with
  | nil => rfl
  | cons entry log ih =>
      obtain ⟨j, op, r⟩ := entry
      by_cases hij : j = i
      · subst hij
        cases op with
        | inl op => simp [ih]
        | inr op => simp [ih]
      · rw [Log.of_cons_ne hij]
        cases op with
        | inl op => rw [Log.inner_inl, Log.of_cons_ne hij, ih]
        | inr op => rw [Log.inner_inr, ih]

/-! ## What is left of a program -/

/-- After the events, the newest first, this is left of the program. -/
def Prog.After (p : Prog Op Res α) :
    List (Event Op Res) → Prog Op Res α → Prop
  | [], p' => p' = p
  | event :: older, p' =>
      ∃ k, p.After older (.call event.1 k) ∧ p' = k event.2

theorem Prog.After.unique {p q q' : Prog Op Res α}
    {events : List (Event Op Res)} (h : p.After events q)
    (h' : p.After events q') : q = q' := by
  induction events generalizing q q' with
  | nil => exact h.trans h'.symm
  | cons event older ih =>
      obtain ⟨k, hk, rfl⟩ := h
      obtain ⟨k', hk', rfl⟩ := h'
      obtain ⟨-, hsame⟩ := Prog.call.inj (ih hk hk')
      rw [eq_of_heq hsame]

/-- What is left after further events is left after them all. -/
theorem Prog.After.append {p q q' : Prog Op Res α}
    {older newer : List (Event Op Res)} (h : p.After older q)
    (h' : q.After newer q') : p.After (newer ++ older) q' := by
  induction newer generalizing q' with
  | nil =>
      obtain rfl : q' = q := h'
      exact h
  | cons event newer ih =>
      obtain ⟨k, hk, rfl⟩ := h'
      exact ⟨k, ih hk, rfl⟩

/-- A program alone returns after the events of its run. -/
theorem Prog.After.of_run {handle : σ → (op : Op) → Option (Res op × σ)}
    {p : Prog Op Res α} {s s' : σ} {a : α} {events : List (Event Op Res)}
    (h : p.run handle s = some (a, s', events)) : p.After events (.ret a) := by
  induction p generalizing s events with
  | ret b =>
      simp only [run_ret, Option.some.injEq, Prod.mk.injEq] at h
      obtain ⟨rfl, -, rfl⟩ := h
      exact rfl
  | call op k ih =>
      rw [run] at h
      cases hop : handle s op with
      | none => simp [hop] at h
      | some result =>
          obtain ⟨r, s₁⟩ := result
          cases hk : run handle (k r) s₁ with
          | none => simp [hop, hk] at h
          | some last =>
              obtain ⟨b, s₂, later⟩ := last
              simp only [hop, hk, Option.some.injEq, Prod.mk.injEq] at h
              obtain ⟨rfl, rfl, rfl⟩ := h
              have hfirst : (Prog.call op k).After [⟨op, r⟩] (k r) :=
                ⟨k, rfl, rfl⟩
              exact hfirst.append (ih r hk)

/-- After its return a program performs nothing. -/
theorem Prog.After.of_ret {a : α} {q : Prog Op Res α}
    {events : List (Event Op Res)}
    (h : (Prog.ret a : Prog Op Res α).After events q) :
    events = [] ∧ q = .ret a := by
  induction events generalizing q with
  | nil => exact ⟨rfl, h⟩
  | cons event older ih =>
      obtain ⟨k, hk, -⟩ := h
      cases (ih hk).2

/-- A program which follows its protocol still follows it after any events,
provided all results are admitted.  What the allowed events keep holds then of
the events and the ledger. -/
theorem Prog.After.follows {γ : Type} {P : Protocol Op Res γ}
    (hadmits : ∀ g op r, P.Admits g op r) {Q : α → γ → Prop} {g : γ}
    {I : List (Event Op Res) → γ → Prop} (hinit : I [] g)
    (hkeep : ∀ h g op r, I h g → P.Allowed g op →
      I (⟨op, r⟩ :: h) (P.note g op r))
    {p q : Prog Op Res α} {events : List (Event Op Res)}
    (h : p.After events q) (hfollows : Follows P p Q g) :
    I events (P.replay g events) ∧ Follows P q Q (P.replay g events) := by
  induction events generalizing q with
  | nil =>
      obtain rfl : q = p := h
      exact ⟨hinit, hfollows⟩
  | cons event older ih =>
      obtain ⟨k, hk, rfl⟩ := h
      obtain ⟨hinv, hallowed, hnext⟩ := ih hk
      exact ⟨hkeep _ _ _ _ hinv hallowed, hnext _ (hadmits _ _ _)⟩

/-- What holds of all allowed operations holds of those which a program has
performed. -/
theorem Prog.After.performed {γ : Type} {P : Protocol Op Res γ}
    (hadmits : ∀ g op r, P.Admits g op r) {A : Op → Prop}
    (hallowed : ∀ g op, P.Allowed g op → A op) {Q : α → γ → Prop} {g : γ}
    {p q : Prog Op Res α} {events : List (Event Op Res)}
    (h : p.After events q) (hfollows : Follows P p Q g) :
    ∀ event ∈ events, A event.1 := by
  refine (h.follows (I := fun older _ => ∀ event ∈ older, A event.1)
    hadmits (by simp) ?_ hfollows).1
  intro older g op r hbefore hop event hevent
  rcases List.mem_cons.mp hevent with rfl | hevent
  · exact hallowed g op hop
  · exact hbefore event hevent

/-- What a thread has done so far and what is left of it make up its
program. -/
theorem Pool.Reachable.after [DecidableEq ι]
    {step : σ → (op : Op) → Res op → σ → Prop} {host : σ → σ → Prop}
    {p p' : Pool ι σ Op Res α} (h : Pool.Reachable step host p p')
    (hlog : p.log = []) (i : ι) :
    (p.thread i).After (p'.log.of i) (p'.thread i) := by
  refine h.invariant
    (fun q => ∀ i, (p.thread i).After (q.log.of i) (q.thread i)) ?_ ?_ i
  · intro i
    rw [hlog]
    exact rfl
  · rintro q q' hq (⟨hnext, hs⟩ | hs)
    · rename_i j op k r s
      intro i
      dsimp only
      by_cases hij : j = i
      · subst hij
        rw [Log.of_cons_self, Function.update_self]
        exact ⟨k, hnext ▸ hq j, rfl⟩
      · rw [Log.of_cons_ne hij, Function.update_of_ne (Ne.symm hij)]
        exact hq i
    · exact hq

/-! ## Protocols about one side -/

/-- What a protocol says about the inner side. -/
def Protocol.within {γ : Type}
    (P : Protocol (Op ⊕ Ext) (SumRes Res ResE) γ) : Protocol Op Res γ where
  note := fun g op r => P.note g (.inl op) r
  Allowed := fun g op => P.Allowed g (.inl op)
  Admits := fun g op r => P.Admits g (.inl op) r

theorem follows_embed_iff {γ : Type}
    {P : Protocol (Op ⊕ Ext) (SumRes Res ResE) γ} {p : Prog Op Res α}
    {Q : α → γ → Prop} {g : γ} :
    Follows P p.embed Q g ↔ Follows P.within p Q g := by
  induction p generalizing g with
  | ret a => exact Iff.rfl
  | call op k ih =>
      exact and_congr Iff.rfl
        (forall_congr' fun r => forall_congr' fun _ => ih r)

/-- A protocol which sees the outer events only. -/
def Protocol.outside (Allowed : List (Event Ext ResE) → Ext → Prop) :
    Protocol (Op ⊕ Ext) (SumRes Res ResE) (List (Event Ext ResE)) where
  note := fun h op =>
    match op with
    | .inl _ => fun _ => h
    | .inr op => fun r => ⟨op, r⟩ :: h
  Allowed := fun h op =>
    match op with
    | .inl _ => True
    | .inr op => Allowed h op
  Admits := fun _ _ _ => True

section Outside

variable {Allowed : List (Event Ext ResE) → Ext → Prop}

theorem Protocol.outside_replay (g : List (Event Ext ResE))
    (h : List (SumEvent Res ResE)) :
    (Protocol.outside Allowed).replay g h = outerOf h ++ g := by
  induction h with
  | nil => rfl
  | cons event h ih =>
      obtain ⟨op | op, r⟩ := event
      · rw [Protocol.replay_cons, ih]
        rfl
      · rw [Protocol.replay_cons, ih]
        rfl

/-- Programs over the inner side are no concern of such a protocol. -/
theorem follows_outside_embed (p : Prog Op Res α)
    {Q : α → List (Event Ext ResE) → Prop} {g : List (Event Ext ResE)}
    (hg : ∀ a, Q a g) :
    Follows (Protocol.outside Allowed) p.embed Q g := by
  induction p with
  | ret a => exact hg a
  | call op k ih => exact ⟨trivial, fun r _ => ih r⟩

/-- What is kept by the events which are allowed holds of all outer events of
a program. -/
theorem Prog.After.outside {P : List (Event Ext ResE) → Prop} (hnil : P [])
    (hkeep : ∀ h op r, P h → Allowed h op → P (⟨op, r⟩ :: h))
    {Q : α → List (Event Ext ResE) → Prop}
    {p q : Prog (Op ⊕ Ext) (SumRes Res ResE) α} {h : List (SumEvent Res ResE)}
    (hafter : p.After h q)
    (hfollows : Follows (Protocol.outside Allowed) p Q []) :
    P (outerOf h) := by
  have hevents := hafter.follows (I := fun _ g => P g)
    (fun _ _ _ => trivial) hnil ?_ hfollows
  · rw [Protocol.outside_replay, List.append_nil] at hevents
    exact hevents.1
  rintro _ g (op | op) r hg hallowed
  · exact hg
  · exact hkeep g op r hg hallowed

end Outside

/-! ## Programs which run another one -/

/-- The protocol of a program which runs the program that the outer events
tell, and apart from that does what is allowed outside. -/
def Protocol.scripted
    (begun : List (Event Ext ResE) → Option (Prog Op Res β))
    (AllowedOutside : List (Event Ext ResE) → Ext → Prop) :
    Protocol (Op ⊕ Ext) (SumRes Res ResE) (List (SumEvent Res ResE)) :=
  Protocol.ofHistory
    (fun h op =>
      match op with
      | .inl op => ∃ p k, begun (outerOf h) = some p ∧
          p.After (innerOf h) (.call op k)
      | .inr op => AllowedOutside (outerOf h) op)
    (fun _ _ _ => True)

section Scripted

variable {begun : List (Event Ext ResE) → Option (Prog Op Res β)}
  {AllowedOutside : List (Event Ext ResE) → Ext → Prop}

/-- A program which has begun may run to its end. -/
theorem follows_embed {p : Prog Op Res β} (q : Prog Op Res β)
    {h : List (SumEvent Res ResE)} (hbegun : begun (outerOf h) = some p)
    (hafter : p.After (innerOf h) q) :
    Follows (Protocol.scripted begun AllowedOutside) q.embed
      (fun a h' => p.After (innerOf h') (.ret a) ∧ outerOf h' = outerOf h)
      h := by
  induction q generalizing h with
  | ret a => exact ⟨hafter, rfl⟩
  | call op k ih =>
      refine ⟨⟨p, k, hbegun, hafter⟩, fun r _ => ?_⟩
      exact ih r (h := ⟨.inl op, r⟩ :: h) hbegun ⟨k, hafter, rfl⟩

end Scripted

/-! ## Pools -/

section Pools

variable [DecidableEq ι]
  {step : σ → (op : Op ⊕ Ext) → SumRes Res ResE op → σ → Prop}
  {host : σ → σ → Prop}
  {begun : ι → List (Event Ext ResE) → Option (Prog Op Res β)}
  {AllowedOutside : ι → List (Event Ext ResE) → Ext → Prop}

/-- What is kept by the events that are allowed outside holds of all that a
thread has done there. -/
theorem Pool.Reachable.outside (Inv : ι → List (Event Ext ResE) → Prop)
    (hnil : ∀ i, Inv i [])
    (hkeep : ∀ i h op r, Inv i h → AllowedOutside i h op →
      Inv i (⟨op, r⟩ :: h))
    {Q : ι → α → List (SumEvent Res ResE) → Prop}
    {p p' : Pool ι σ (Op ⊕ Ext) (SumRes Res ResE) α}
    (hreach : Pool.Reachable step host p p') (hlog : p.log = [])
    (hthread : ∀ i, Follows (Protocol.scripted (begun i) (AllowedOutside i))
      (p.thread i) (Q i) []) :
    ∀ i, Inv i (outerOf (p'.log.of i)) := by
  refine (hreach.follows (g := fun _ => []) (Q := Q)
    (P := fun i => Protocol.scripted (begun i) (AllowedOutside i))
    (fun _ log => ∀ i, Inv i (outerOf (Log.of log i)))
    ?_ (fun _ _ _ hinv _ => hinv) ?_ ?_).1
  · intro s log i op r s' hinv hallowed _
    rw [Protocol.scripted, Protocol.ofHistory_replay] at hallowed
    refine ⟨trivial, fun j => ?_⟩
    by_cases hij : i = j
    · subst hij
      rw [Log.of_cons_self]
      cases op with
      | inl op => exact hinv i
      | inr op => exact hkeep i _ op r (hinv i) hallowed
    · rw [Log.of_cons_ne hij]
      exact hinv j
  · intro i
    rw [hlog]
    exact hnil i
  · intro i
    rw [hlog]
    exact hthread i

/-- Seen through `π` and the events on the smaller interface, a schedule of
programs which follow scripts is a schedule of the programs which they have
begun.  Where none has begun, it may be any program. -/
theorem Pool.Reachable.inner (π : σ → τ)
    (innerStep : τ → (op : Op) → Res op → τ → Prop) (innerHost : τ → τ → Prop)
    (hstep : ∀ s op r s', step s (.inl op) r s' → innerStep (π s) op r (π s'))
    (hout : ∀ s op r s', step s (.inr op) r s' →
      Relation.ReflTransGen innerHost (π s) (π s'))
    (hhost : ∀ s s', host s s' →
      Relation.ReflTransGen innerHost (π s) (π s'))
    (hmono : ∀ i event older p, begun i older = some p →
      begun i (event :: older) = some p)
    {Q : ι → α → List (SumEvent Res ResE) → Prop}
    {p p' : Pool ι σ (Op ⊕ Ext) (SumRes Res ResE) α}
    (hreach : Pool.Reachable step host p p') (hlog : p.log = [])
    (hthread : ∀ i, Follows (Protocol.scripted (begun i) (AllowedOutside i))
      (p.thread i) (Q i) []) :
    (∀ progs : ι → Prog Op Res β,
      (∀ i q, begun i (outerOf (p'.log.of i)) = some q → progs i = q) →
      ∃ thread : ι → Prog Op Res β,
        (∀ i, (progs i).After (innerOf (p'.log.of i)) (thread i)) ∧
        Pool.Reachable innerStep innerHost ⟨π p.shared, progs, []⟩
          ⟨π p'.shared, thread, p'.log.inner⟩) ∧
      ∀ i, Follows (Protocol.scripted (begun i) (AllowedOutside i))
        (p'.thread i) (Q i) (p'.log.of i) := by
  have hhosts : ∀ {t t' : τ} {thread : ι → Prog Op Res β}
      {log : Log ι Op Res}, Relation.ReflTransGen innerHost t t' →
        Pool.Reachable innerStep innerHost ⟨t, thread, log⟩
          ⟨t', thread, log⟩ := by
    intro t t' thread log h
    induction h with
    | refl => exact Relation.ReflTransGen.refl
    | tail _ hlast ih => exact ih.tail (.host hlast)
  have hall := hreach.follows
    (P := fun i => Protocol.scripted (begun i) (AllowedOutside i)) (Q := Q)
    (g := fun _ => [])
    (fun s log => ∀ progs : ι → Prog Op Res β,
      (∀ i q, begun i (outerOf (log.of i)) = some q → progs i = q) →
      ∃ thread : ι → Prog Op Res β,
        (∀ i, (progs i).After (innerOf (log.of i)) (thread i)) ∧
        Pool.Reachable innerStep innerHost ⟨π p.shared, progs, []⟩
          ⟨π s, thread, log.inner⟩) ?_ ?_ ?_ ?_
  · obtain ⟨hinv, hfollows⟩ := hall
    refine ⟨hinv, fun i => ?_⟩
    have hi := hfollows i
    rwa [Protocol.scripted, Protocol.ofHistory_replay] at hi
  · intro s log i op r s' hinv hallowed hs
    rw [Protocol.scripted, Protocol.ofHistory_replay] at hallowed
    refine ⟨trivial, fun progs hprogs => ?_⟩
    cases op with
    | inl op =>
        obtain ⟨q, k, hbegun, hafter⟩ := hallowed
        have hold : ∀ j q, begun j (outerOf (log.of j)) = some q →
            progs j = q := by
          intro j q hj
          refine hprogs j q ?_
          by_cases hij : i = j
          · subst hij
            rwa [Log.of_cons_self, outerOf_inl]
          · rwa [Log.of_cons_ne hij]
        obtain ⟨thread, hthreads, hto⟩ := hinv progs hold
        have hnext : thread i = .call op k := by
          refine (hthreads i).unique ?_
          rwa [hold i q hbegun]
        refine ⟨Function.update thread i (k r), fun j => ?_, hto.tail ?_⟩
        · by_cases hij : i = j
          · subst hij
            rw [Log.of_cons_self, innerOf_inl, Function.update_self]
            exact ⟨k, hnext ▸ hthreads i, rfl⟩
          · rw [Log.of_cons_ne hij, Function.update_of_ne (Ne.symm hij)]
            exact hthreads j
        · exact .thread (p := ⟨π s, thread, log.inner⟩) hnext
            (hstep s op r s' hs)
    | inr op =>
        have hold : ∀ j q, begun j (outerOf (log.of j)) = some q →
            progs j = q := by
          intro j q hj
          refine hprogs j q ?_
          by_cases hij : i = j
          · subst hij
            rw [Log.of_cons_self, outerOf_inr]
            exact hmono _ _ _ _ hj
          · rwa [Log.of_cons_ne hij]
        obtain ⟨thread, hthreads, hto⟩ := hinv progs hold
        refine ⟨thread, fun j => ?_, hto.trans (hhosts (hout s op r s' hs))⟩
        by_cases hij : i = j
        · subst hij
          rw [Log.of_cons_self, innerOf_inr]
          exact hthreads i
        · rw [Log.of_cons_ne hij]
          exact hthreads j
  · intro s s' log hinv hs progs hprogs
    obtain ⟨thread, hthreads, hto⟩ := hinv progs hprogs
    exact ⟨thread, hthreads, hto.trans (hhosts (hhost s s' hs))⟩
  · intro progs _
    rw [hlog]
    exact ⟨progs, fun _ => rfl, Relation.ReflTransGen.refl⟩
  · intro i
    rw [hlog]
    exact hthread i

end Pools

end Effects
