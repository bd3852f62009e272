import Mathlib.Data.List.Basic

/-!
# Programs over an interface of operations

This module contains the program-independent syntax and reasoning rules for
code that does its work through a fixed interface: a program either returns
or performs one operation and continues with that operation's result.  What
an operation does to a shared state is not part of the syntax.  It is supplied
later, by a sequential interpreter or by a pool of interleaved threads.

Local reasoning goes through a protocol: a ledger updated by every performed
operation, the operations allowed under a ledger, and the results which the
surroundings may hand back.
-/

namespace Effects

/-- A program over the operations `Op`, whose results have type `Res`. -/
inductive Prog (Op : Type) (Res : Op → Type) (α : Type) : Type where
  | ret (a : α)
  | call (op : Op) (k : Res op → Prog Op Res α)

/-- One performed operation together with the result it received. -/
abbrev Event (Op : Type) (Res : Op → Type) := (op : Op) × Res op

variable {Op : Type} {Res : Op → Type} {α β ε : Type} {γ : Type}

namespace Prog

/-- Perform one operation and return its result. -/
def perform (op : Op) : Prog Op Res (Res op) := .call op .ret

/-- Run `p` and continue with `f` on its result. -/
def bind : Prog Op Res α → (α → Prog Op Res β) → Prog Op Res β
  | .ret a, f => f a
  | .call op k, f => .call op fun r => bind (k r) f

instance : Monad (Prog Op Res) where
  pure := .ret
  bind := bind

@[simp] theorem pure_eq_ret (a : α) :
    (pure a : Prog Op Res α) = .ret a := rfl

@[simp] theorem ret_bind (a : α) (f : α → Prog Op Res β) :
    (.ret a : Prog Op Res α) >>= f = f a := rfl

@[simp] theorem call_bind (op : Op) (k : Res op → Prog Op Res α)
    (f : α → Prog Op Res β) :
    .call op k >>= f = .call op fun r => k r >>= f := rfl

end Prog

/-! ## Protocols and the programs which follow them -/

/-- A ledger discipline for programs: how a performed operation is noted,
which operations a ledger allows, and which results it can be handed. -/
structure Protocol (Op : Type) (Res : Op → Type) (γ : Type) where
  note : γ → (op : Op) → Res op → γ
  Allowed : γ → Op → Prop
  Admits : γ → (op : Op) → Res op → Prop

/-- The ledger after a history of events, the newest event first. -/
def Protocol.replay (P : Protocol Op Res γ) (g : γ) :
    List (Event Op Res) → γ
  | [] => g
  | event :: older => P.note (P.replay g older) event.1 event.2

@[simp] theorem Protocol.replay_nil (P : Protocol Op Res γ) (g : γ) :
    P.replay g [] = g := rfl

@[simp] theorem Protocol.replay_cons (P : Protocol Op Res γ) (g : γ)
    (event : Event Op Res) (older : List (Event Op Res)) :
    P.replay g (event :: older) =
      P.note (P.replay g older) event.1 event.2 := rfl

theorem Protocol.replay_append (P : Protocol Op Res γ) (g : γ)
    (newer older : List (Event Op Res)) :
    P.replay g (newer ++ older) = P.replay (P.replay g older) newer := by
  induction newer with
  | nil => rfl
  | cons event newer ih => simp [ih]

/-- `p`, started under the ledger `g`, performs allowed operations only, and
returns with `Q`, as long as every result it receives is admitted. -/
def Follows (P : Protocol Op Res γ) :
    Prog Op Res α → (α → γ → Prop) → γ → Prop
  | .ret a, Q, g => Q a g
  | .call op k, Q, g =>
      P.Allowed g op ∧
        ∀ r, P.Admits g op r → Follows P (k r) Q (P.note g op r)

variable {P : Protocol Op Res γ}

@[simp] theorem follows_ret (a : α) (Q : α → γ → Prop) (g : γ) :
    Follows P (.ret a : Prog Op Res α) Q g ↔ Q a g := Iff.rfl

@[simp] theorem follows_call (op : Op) (k : Res op → Prog Op Res α)
    (Q : α → γ → Prop) (g : γ) :
    Follows P (.call op k) Q g ↔
      P.Allowed g op ∧
        ∀ r, P.Admits g op r → Follows P (k r) Q (P.note g op r) := Iff.rfl

@[simp] theorem follows_perform (op : Op) (Q : Res op → γ → Prop) (g : γ) :
    Follows P (.perform op) Q g ↔
      P.Allowed g op ∧ ∀ r, P.Admits g op r → Q r (P.note g op r) := Iff.rfl

@[simp] theorem follows_pure (a : α) (Q : α → γ → Prop) (g : γ) :
    Follows P (pure a : Prog Op Res α) Q g ↔ Q a g := Iff.rfl

@[simp] theorem follows_bind (p : Prog Op Res α) (f : α → Prog Op Res β)
    (Q : β → γ → Prop) (g : γ) :
    Follows P (p >>= f) Q g ↔
      Follows P p (fun a g' => Follows P (f a) Q g') g := by
  induction p generalizing g with
  | ret a => rfl
  | call op k ih =>
      rw [Prog.call_bind, follows_call, follows_call]
      constructor
      · rintro ⟨hallowed, hk⟩
        exact ⟨hallowed, fun r hr => (ih r _).mp (hk r hr)⟩
      · rintro ⟨hallowed, hk⟩
        exact ⟨hallowed, fun r hr => (ih r _).mpr (hk r hr)⟩

theorem Follows.mono {p : Prog Op Res α} {Q Q' : α → γ → Prop} {g : γ}
    (h : Follows P p Q g) (hQ : ∀ a g', Q a g' → Q' a g') :
    Follows P p Q' g := by
  induction p generalizing g with
  | ret a => exact hQ a g h
  | call op k ih => exact ⟨h.1, fun r hr => ih r (h.2 r hr)⟩

/-- The protocol always allows the operation and takes no note of it. -/
def Protocol.Ignores (P : Protocol Op Res γ) (op : Op) : Prop :=
  ∀ g, P.Allowed g op ∧ ∀ r, P.note g op r = g

theorem Protocol.Ignores.follows {op : Op} (h : P.Ignores op)
    {I : γ → Prop} {g : γ} (hg : I g) :
    Follows P (.perform op) (fun _ => I) g := by
  obtain ⟨hallowed, hnote⟩ := h g
  rw [follows_perform]
  refine ⟨hallowed, fun r _ => ?_⟩
  rwa [hnote r]

/-- Whatever relates a ledger to itself, composes, and holds across every
noted operation relates the first ledger of a program to its last one. -/
theorem Follows.frame {R : γ → γ → Prop}
    (hrefl : ∀ g, R g g)
    (htrans : ∀ g₁ g₂ g₃, R g₁ g₂ → R g₂ g₃ → R g₁ g₃)
    (hnote : ∀ g op r, R g (P.note g op r))
    {p : Prog Op Res α} {Q : α → γ → Prop} {g : γ}
    (h : Follows P p Q g) :
    Follows P p (fun a g' => Q a g' ∧ R g g') g := by
  induction p generalizing g with
  | ret a => exact ⟨h, hrefl g⟩
  | call op k ih =>
      refine ⟨h.1, fun r hr => (ih r (h.2 r hr)).mono ?_⟩
      rintro a g' ⟨hQ, hR⟩
      exact ⟨hQ, htrans _ _ _ (hnote g op r) hR⟩

/-! ## Protocols whose ledger is the history -/

/-- The protocol which notes every event. -/
def Protocol.ofHistory (Allowed : List (Event Op Res) → Op → Prop)
    (Admits : List (Event Op Res) → (op : Op) → Res op → Prop) :
    Protocol Op Res (List (Event Op Res)) where
  note := fun h op r => ⟨op, r⟩ :: h
  Allowed := Allowed
  Admits := Admits

section History

variable {Allowed : List (Event Op Res) → Op → Prop}
  {Admits : List (Event Op Res) → (op : Op) → Res op → Prop}

@[simp] theorem Protocol.ofHistory_note (h : List (Event Op Res)) (op : Op)
    (r : Res op) :
    (Protocol.ofHistory Allowed Admits).note h op r = ⟨op, r⟩ :: h := rfl

@[simp] theorem Protocol.ofHistory_allowed (h : List (Event Op Res))
    (op : Op) :
    (Protocol.ofHistory Allowed Admits).Allowed h op ↔ Allowed h op := Iff.rfl

@[simp] theorem Protocol.ofHistory_admits (h : List (Event Op Res)) (op : Op)
    (r : Res op) :
    (Protocol.ofHistory Allowed Admits).Admits h op r ↔ Admits h op r :=
  Iff.rfl

theorem Protocol.ofHistory_replay (h : List (Event Op Res)) :
    (Protocol.ofHistory Allowed Admits).replay [] h = h := by
  induction h with
  | nil => rfl
  | cons event h ih => simp [ih]

end History

/-! ## Programs which may raise an error -/

/-- `x` follows the protocol, returns with `Q`, or raises with `E`. -/
def Secures (P : Protocol Op Res γ) (x : ExceptT ε (Prog Op Res) α)
    (Q : α → γ → Prop) (E : ε → γ → Prop) (g : γ) : Prop :=
  Follows P x.run
    (fun outcome g' =>
      match outcome with
      | .ok a => Q a g'
      | .error e => E e g') g

variable {Q : α → γ → Prop} {E : ε → γ → Prop} {g : γ}

@[simp] theorem secures_pure (a : α) :
    Secures P (pure a : ExceptT ε (Prog Op Res) α) Q E g ↔ Q a g := Iff.rfl

@[simp] theorem secures_throw (e : ε) :
    Secures P (throw e : ExceptT ε (Prog Op Res) α) Q E g ↔ E e g := Iff.rfl

@[simp] theorem secures_bind (x : ExceptT ε (Prog Op Res) α)
    (f : α → ExceptT ε (Prog Op Res) β) {Q : β → γ → Prop} :
    Secures P (x >>= f) Q E g ↔
      Secures P x (fun a g' => Secures P (f a) Q E g') E g := by
  unfold Secures
  change Follows P (x.run >>= fun outcome => _) _ g ↔ _
  rw [follows_bind]
  constructor
  · intro h
    refine h.mono ?_
    rintro (e | a) g' hnext
    · exact hnext
    · exact hnext
  · intro h
    refine h.mono ?_
    rintro (e | a) g' hnext
    · exact hnext
    · exact hnext

@[simp] theorem secures_mk (p : Prog Op Res (Except ε α)) :
    Secures P (ExceptT.mk p) Q E g ↔
      Follows P p
        (fun outcome g' =>
          match outcome with
          | .ok a => Q a g'
          | .error e => E e g') g := Iff.rfl

@[simp] theorem secures_lift (p : Prog Op Res α) :
    Secures P (ExceptT.lift p : ExceptT ε (Prog Op Res) α) Q E g ↔
      Follows P p Q g := by
  unfold Secures
  change Follows P (p >>= fun a => pure (Except.ok a)) _ g ↔ _
  rw [follows_bind]
  rfl

theorem Secures.mono {x : ExceptT ε (Prog Op Res) α}
    {Q' : α → γ → Prop} {E' : ε → γ → Prop}
    (h : Secures P x Q E g)
    (hQ : ∀ a g', Q a g' → Q' a g') (hE : ∀ e g', E e g' → E' e g') :
    Secures P x Q' E' g := by
  refine Follows.mono h ?_
  rintro (e | a) g' hpost
  · exact hE e g' hpost
  · exact hQ a g' hpost

/-! ## Invariants of programs -/

/-- From every ledger within `I`, `x` follows the protocol and ends, or
raises an error, within `I`. -/
def Keeps (P : Protocol Op Res γ) (I : γ → Prop)
    (x : ExceptT ε (Prog Op Res) α) : Prop :=
  ∀ g, I g → Secures P x (fun _ => I) (fun _ => I) g

section Keeps

variable {I : γ → Prop}

theorem keeps_pure (a : α) :
    Keeps P I (pure a : ExceptT ε (Prog Op Res) α) := fun _ hg => hg

theorem keeps_throw (e : ε) :
    Keeps P I (throw e : ExceptT ε (Prog Op Res) α) := fun _ hg => hg

theorem Keeps.bind {x : ExceptT ε (Prog Op Res) α}
    {f : α → ExceptT ε (Prog Op Res) β} (hx : Keeps P I x)
    (hf : ∀ a, Keeps P I (f a)) : Keeps P I (x >>= f) := by
  intro g hg
  rw [secures_bind]
  exact (hx g hg).mono (fun a g' hg' => hf a g' hg') fun _ _ hg' => hg'

theorem keeps_lift {p : Prog Op Res α}
    (hp : ∀ g, I g → Follows P p (fun _ => I) g) :
    Keeps P I (ExceptT.lift p : ExceptT ε (Prog Op Res) α) := by
  intro g hg
  rw [secures_lift]
  exact hp g hg

theorem Protocol.Ignores.keeps {op : Op} (h : P.Ignores op) :
    Keeps P I (ExceptT.lift (.perform op) : ExceptT ε (Prog Op Res) (Res op)) :=
  keeps_lift fun _ hg => h.follows hg

theorem keeps_mk {p : Prog Op Res (Except ε α)}
    (hp : ∀ g, I g → Follows P p (fun _ => I) g) :
    Keeps P I (ExceptT.mk p) := by
  intro g hg
  rw [secures_mk]
  refine (hp g hg).mono ?_
  rintro (e | a) g' hg'
  · exact hg'
  · exact hg'

theorem Keeps.run {x : ExceptT ε (Prog Op Res) α} (hx : Keeps P I x)
    {g : γ} (hg : I g) : Follows P x.run (fun _ => I) g := by
  refine Follows.mono (hx g hg) ?_
  rintro (e | a) g' hg'
  · exact hg'
  · exact hg'

end Keeps

end Effects
