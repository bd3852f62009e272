import DuckJeu.Host.Connection

/-!
# Credential scopes of a process

All connections of a process draw their scopes from one counter.  A scope
stands for one connection and one credential from the call which draws it to
the next switch on that connection.  The invariant says this about every scope
that was ever handed out, in terms of the calls made since.
-/

namespace DuckJeu

/-- The connections of a process, in the order in which they were made, and
the counter from which scopes are drawn. -/
structure Process where
  connections : List ConnectionRuntime := []
  nextScope : ℕ := 1

/-- What may happen in a process.  A connection is named by its position. -/
inductive ProcessOp where
  | connect
  | beginQuery (k now : ℕ)
  | endQuery (k now interrupt errorType : ℕ)
  | credentialScope (k scope : ℕ) (credential : Option String)
  | cacheInsert (k : ℕ) (identity : JudgmentIdentity) (result : JudgmentResult)
      (now : ℕ) (policy : CachePolicy)
  | cacheLookup (k : ℕ) (identity : JudgmentIdentity) (now : ℕ)
      (policy : CachePolicy)
  | cacheClear (k : ℕ)

inductive ProcessReply where
  | done
  | scope (answer : Except JudgmentError ℕ)
  | served (result : Option JudgmentResult)

abbrev ProcessEvent := ProcessOp × ProcessReply

namespace Process

def modify (p : Process) (k : ℕ) (f : ConnectionRuntime → ConnectionRuntime) :
    Process :=
  { p with connections := p.connections.modify k f }

variable (hash : ℕ → String → UInt64)

/-- One operation; `hash k` is the hasher of connection `k`.  An operation on
a connection which does not exist does nothing. -/
def apply (p : Process) : ProcessOp → ProcessReply × Process
  | .connect =>
      (.done,
        { connections := p.connections ++ [.init p.nextScope]
          nextScope := (p.nextScope + 1) % 2 ^ 64 })
  | .beginQuery k now => (.done, p.modify k fun c => c.beginQuery now)
  | .endQuery k now interrupt errorType =>
      (.done, p.modify k fun c => c.endQuery now interrupt errorType)
  | .credentialScope k scope credential =>
      match p.connections[k]? with
      | none => (.done, p)
      | some c =>
          let (answer, c', next) :=
            c.credentialScopeFor (hash k) p.nextScope scope credential
          (.scope answer,
            { connections := p.connections.set k c'
              nextScope := next })
  | .cacheInsert k identity result now policy =>
      (.done, p.modify k fun c =>
        (c.cacheInsert identity result now policy).2)
  | .cacheLookup k identity now policy =>
      match p.connections[k]? with
      | none => (.done, p)
      | some c =>
          let (result, c') := c.cacheLookup (some identity) now policy
          (.served result, { p with connections := p.connections.set k c' })
  | .cacheClear k =>
      (.done, p.modify k fun c => { c with cache := c.cache.clear.2 })

/-- Perform a sequence of operations in a new process, newest first. -/
def run : List ProcessOp → List ProcessEvent × Process
  | [] => ([], {})
  | op :: earlier =>
      let (events, p) := run earlier
      let (reply, p') := p.apply hash op
      ((op, reply) :: events, p')

end Process

/-! ## Successful calls -/

/-- A successful call of `credential_scope`. -/
structure ScopeCall where
  connection : ℕ
  credential : Option String
  scope : ℕ
  deriving DecidableEq

def ProcessEvent.call? : ProcessEvent → Option ScopeCall
  | (.credentialScope k _ credential, .scope (.ok scope)) =>
      some ⟨k, credential, scope⟩
  | _ => none

/-- The successful calls of a history, newest first. -/
def scopeCalls (events : List ProcessEvent) : List ScopeCall :=
  events.filterMap ProcessEvent.call?

/-- None of these calls presents another credential on this connection. -/
def Unswitched (k : ℕ) (credential : Option String)
    (calls : List ScopeCall) : Prop :=
  ∀ call ∈ calls, call.connection = k → call.credential = credential

theorem unswitched_cons {k : ℕ} {credential : Option String}
    {call : ScopeCall} {calls : List ScopeCall} :
    Unswitched k credential (call :: calls) ↔
      (call.connection = k → call.credential = credential) ∧
        Unswitched k credential calls := by
  simp [Unswitched]

/-- The current scope of a connection. -/
def Process.currentScope (p : Process) (k : ℕ) : Option ℕ :=
  (p.connections[k]?).map ConnectionRuntime.credentialScope

/-- The fingerprint of the current credential of a connection. -/
def Process.fingerprint (p : Process) (k : ℕ) : Option (Option UInt64) :=
  (p.connections[k]?).map ConnectionRuntime.credentialFingerprint

/-! ## One successful call -/

/-- What `credential_scope` can do: refuse, hand out the current scope, or
switch to a fresh one with an empty cache. -/
theorem credentialScopeFor_cases (c : ConnectionRuntime)
    (hash : String → UInt64) (next scope : ℕ) (credential : Option String) :
    c.credentialScopeFor hash next scope credential =
        (.error inactiveError, c, next) ∨
      (credential.map hash = c.credentialFingerprint ∧
        c.credentialScopeFor hash next scope credential =
          (.ok c.credentialScope, c, next)) ∨
      (credential.map hash ≠ c.credentialFingerprint ∧
        c.credentialScopeFor hash next scope credential =
          (.ok next,
            { c with
              credentialFingerprint := credential.map hash
              credentialScope := next
              cache := c.cache.clear.2 },
            (next + 1) % 2 ^ 64)) := by
  unfold ConnectionRuntime.credentialScopeFor
  split
  · exact Or.inl rfl
  dsimp only
  by_cases hsame : credential.map hash = c.credentialFingerprint
  · rw [if_neg (not_not.mpr hsame)]
    exact Or.inr (Or.inl ⟨hsame, rfl⟩)
  · rw [if_pos hsame]
    exact Or.inr (Or.inr ⟨hsame, rfl⟩)

/-! ## What one operation does to the scopes -/

section Steps

variable (hash : ℕ → String → UInt64)

/-- The effect of one operation on scopes and fingerprints, with the
successful call it makes, if any. -/
inductive ScopeStep (p p' : Process) : Option ScopeCall → Prop
  | keep (hscope : p'.currentScope = p.currentScope)
      (hfingerprint : p'.fingerprint = p.fingerprint)
      (hnext : p'.nextScope = p.nextScope) : ScopeStep p p' none
  | connect {n : ℕ} (hnew : p.currentScope n = none)
      (hscope : p'.currentScope =
        Function.update p.currentScope n (some p.nextScope))
      (hfingerprint : p'.fingerprint =
        Function.update p.fingerprint n (some none))
      (hnext : p'.nextScope = (p.nextScope + 1) % 2 ^ 64) :
      ScopeStep p p' none
  | handed {k : ℕ} {credential : Option String} {scope : ℕ}
      (hcurrent : p.currentScope k = some scope)
      (hsame : p.fingerprint k = some (credential.map (hash k)))
      (hscope : p'.currentScope = p.currentScope)
      (hfingerprint : p'.fingerprint = p.fingerprint)
      (hnext : p'.nextScope = p.nextScope) :
      ScopeStep p p' (some ⟨k, credential, scope⟩)
  | switched {k : ℕ} {credential : Option String}
      (hother : p.fingerprint k ≠ some (credential.map (hash k)))
      (hscope : p'.currentScope =
        Function.update p.currentScope k (some p.nextScope))
      (hfingerprint : p'.fingerprint =
        Function.update p.fingerprint k (some (credential.map (hash k))))
      (hnext : p'.nextScope = (p.nextScope + 1) % 2 ^ 64)
      (hempty : ∀ c ∈ p'.connections[k]?, c.cache.entries = ∅ ∧
        c.cache.lru = [] ∧ c.cache.estimatedBytes = 0) :
      ScopeStep p p' (some ⟨k, credential, p.nextScope⟩)

theorem modify_scopes (p : Process) (k : ℕ)
    {f : ConnectionRuntime → ConnectionRuntime}
    (hscope : ∀ c, (f c).credentialScope = c.credentialScope)
    (hfingerprint : ∀ c,
      (f c).credentialFingerprint = c.credentialFingerprint) :
    (p.modify k f).currentScope = p.currentScope ∧
      (p.modify k f).fingerprint = p.fingerprint := by
  constructor
  · funext j
    simp only [Process.currentScope, Process.modify, List.getElem?_modify]
    split <;> cases p.connections[j]? <;> simp [hscope]
  · funext j
    simp only [Process.fingerprint, Process.modify, List.getElem?_modify]
    split <;> cases p.connections[j]? <;> simp [hfingerprint]

theorem set_scopes {p : Process} {k : ℕ} {c : ConnectionRuntime}
    (hk : p.connections[k]? = some c) (c' : ConnectionRuntime) (next : ℕ) :
    (Process.mk (p.connections.set k c') next).currentScope =
        Function.update p.currentScope k (some c'.credentialScope) ∧
      (Process.mk (p.connections.set k c') next).fingerprint =
        Function.update p.fingerprint k (some c'.credentialFingerprint) := by
  have hlength : k < p.connections.length :=
    (List.getElem?_eq_some_iff.mp hk).1
  constructor
  · funext j
    by_cases hj : j = k
    · subst hj
      simp [Process.currentScope, hlength]
    · simp [Process.currentScope, Function.update_of_ne hj,
        List.getElem?_set_ne (Ne.symm hj)]
  · funext j
    by_cases hj : j = k
    · subst hj
      simp [Process.fingerprint, hlength]
    · simp [Process.fingerprint, Function.update_of_ne hj,
        List.getElem?_set_ne (Ne.symm hj)]

/-- Writing back a connection with the scope and fingerprint it had. -/
theorem set_scopes_same {p : Process} {k : ℕ} {c : ConnectionRuntime}
    (hk : p.connections[k]? = some c) (c' : ConnectionRuntime)
    (hscope : c'.credentialScope = c.credentialScope)
    (hfingerprint : c'.credentialFingerprint = c.credentialFingerprint)
    (next : ℕ) :
    (Process.mk (p.connections.set k c') next).currentScope = p.currentScope ∧
      (Process.mk (p.connections.set k c') next).fingerprint =
        p.fingerprint := by
  obtain ⟨hscopes, hfingerprints⟩ := set_scopes hk c' next
  rw [hscopes, hfingerprints, hscope, hfingerprint]
  constructor
  · exact Function.update_eq_self_iff.mpr (by simp [Process.currentScope, hk])
  · exact Function.update_eq_self_iff.mpr (by simp [Process.fingerprint, hk])

theorem beginQuery_scopes (c : ConnectionRuntime) (now : ℕ) :
    (c.beginQuery now).credentialScope = c.credentialScope ∧
      (c.beginQuery now).credentialFingerprint = c.credentialFingerprint ∧
      (c.beginQuery now).cache = c.cache := by
  cases hactive : c.activeQuery <;>
    simp [ConnectionRuntime.beginQuery, ConnectionRuntime.cancelActive,
      ConnectionRuntime.cancel, hactive]

theorem endQuery_scopes (c : ConnectionRuntime)
    (now interrupt errorType : ℕ) :
    (c.endQuery now interrupt errorType).credentialScope =
        c.credentialScope ∧
      (c.endQuery now interrupt errorType).credentialFingerprint =
        c.credentialFingerprint ∧
      (c.endQuery now interrupt errorType).cache = c.cache := by
  cases hactive : c.activeQuery <;>
    simp [ConnectionRuntime.endQuery, ConnectionRuntime.cancel, hactive]

theorem cacheLookup_scopes (c : ConnectionRuntime)
    (identity : Option JudgmentIdentity) (now : ℕ) (policy : CachePolicy) :
    (c.cacheLookup identity now policy).2.credentialScope =
        c.credentialScope ∧
      (c.cacheLookup identity now policy).2.credentialFingerprint =
        c.credentialFingerprint := by
  unfold ConnectionRuntime.cacheLookup
  split
  · exact ⟨rfl, rfl⟩
  · cases identity <;> exact ⟨rfl, rfl⟩

/-- Every operation is one of the scope steps. -/
theorem Process.apply_scopeStep (p : Process) (op : ProcessOp) :
    ScopeStep hash p (p.apply hash op).2
      (ProcessEvent.call? (op, (p.apply hash op).1)) := by
  cases op with
  | connect =>
      refine .connect (n := p.connections.length) ?_ ?_ ?_ rfl
      · simp [currentScope]
      · funext j
        by_cases hj : j = p.connections.length
        · subst hj
          simp [currentScope, apply, ConnectionRuntime.init]
        · rw [Function.update_of_ne hj]
          by_cases hlt : j < p.connections.length
          · simp [currentScope, apply, List.getElem?_append_left hlt]
          · have hge : p.connections.length < j := by omega
            have hmore : (p.connections ++ [ConnectionRuntime.init
                p.nextScope]).length ≤ j := by
              rw [List.length_append]
              exact hge
            simp only [currentScope, apply]
            rw [List.getElem?_eq_none hmore, List.getElem?_eq_none hge.le]
      · funext j
        by_cases hj : j = p.connections.length
        · subst hj
          simp [fingerprint, apply, ConnectionRuntime.init]
        · rw [Function.update_of_ne hj]
          by_cases hlt : j < p.connections.length
          · simp [fingerprint, apply, List.getElem?_append_left hlt]
          · have hge : p.connections.length < j := by omega
            have hmore : (p.connections ++ [ConnectionRuntime.init
                p.nextScope]).length ≤ j := by
              rw [List.length_append]
              exact hge
            simp only [fingerprint, apply]
            rw [List.getElem?_eq_none hmore, List.getElem?_eq_none hge.le]
  | beginQuery k now =>
      obtain ⟨hscope, hfingerprint⟩ := modify_scopes p k
        (fun c => (beginQuery_scopes c now).1)
        (fun c => (beginQuery_scopes c now).2.1)
      exact .keep hscope hfingerprint rfl
  | endQuery k now interrupt errorType =>
      obtain ⟨hscope, hfingerprint⟩ := modify_scopes p k
        (fun c => (endQuery_scopes c now interrupt errorType).1)
        (fun c => (endQuery_scopes c now interrupt errorType).2.1)
      exact .keep hscope hfingerprint rfl
  | cacheInsert k identity result now policy =>
      obtain ⟨hscope, hfingerprint⟩ := modify_scopes p k
        (f := fun c => (c.cacheInsert identity result now policy).2)
        (fun _ => rfl) (fun _ => rfl)
      exact .keep hscope hfingerprint rfl
  | cacheClear k =>
      obtain ⟨hscope, hfingerprint⟩ := modify_scopes p k
        (f := fun c => { c with cache := c.cache.clear.2 })
        (fun _ => rfl) (fun _ => rfl)
      exact .keep hscope hfingerprint rfl
  | cacheLookup k identity now policy =>
      cases hk : p.connections[k]? with
      | none =>
          simp only [apply, hk]
          exact .keep rfl rfl rfl
      | some c =>
          obtain ⟨hscope, hfingerprint⟩ := cacheLookup_scopes c (some identity)
            now policy
          obtain ⟨hscopes, hfingerprints⟩ :=
            set_scopes_same hk _ hscope hfingerprint p.nextScope
          simp only [apply, hk]
          exact .keep hscopes hfingerprints rfl
  | credentialScope k scope credential =>
      cases hk : p.connections[k]? with
      | none =>
          simp only [apply, hk]
          exact .keep rfl rfl rfl
      | some c =>
          have hcurrent : p.currentScope k = some c.credentialScope := by
            simp [currentScope, hk]
          have hfp : p.fingerprint k = some c.credentialFingerprint := by
            simp [fingerprint, hk]
          simp only [apply, hk]
          rcases credentialScopeFor_cases c (hash k) p.nextScope scope
              credential with h | ⟨hsame, h⟩ | ⟨hother, h⟩
          · rw [h]
            obtain ⟨hscopes, hfingerprints⟩ :=
              set_scopes_same hk c rfl rfl p.nextScope
            exact .keep hscopes hfingerprints rfl
          · rw [h]
            obtain ⟨hscopes, hfingerprints⟩ :=
              set_scopes_same hk c rfl rfl p.nextScope
            exact .handed hcurrent (by rw [hfp, hsame]) hscopes hfingerprints
              rfl
          · rw [h]
            obtain ⟨hscopes, hfingerprints⟩ := set_scopes hk
              { c with
                credentialFingerprint := credential.map (hash k)
                credentialScope := p.nextScope
                cache := c.cache.clear.2 } ((p.nextScope + 1) % 2 ^ 64)
            refine .switched ?_ hscopes hfingerprints rfl ?_
            · rw [hfp]
              exact fun heq => hother (Option.some.inj heq).symm
            · have hlength : k < p.connections.length :=
                (List.getElem?_eq_some_iff.mp hk).1
              simp [hlength, JudgmentCache.clear]

/-! ## The scope invariant -/

/-- The hasher of each connection tells apart the credentials presented on
it. -/
def NoCollision (calls : List ScopeCall) : Prop :=
  ∀ a ∈ calls, ∀ b ∈ calls, a.connection = b.connection →
    a.credential.map (hash a.connection) =
      b.credential.map (hash b.connection) →
    a.credential = b.credential

/-- Scopes are drawn in order, no two connections share one, and a scope which
was handed out is current exactly on the connection of its call, as long as no
later call on it has presented another credential. -/
structure ScopesSound (calls : List ScopeCall) (p : Process) : Prop where
  scope_lt : ∀ k scope, p.currentScope k = some scope → scope < p.nextScope
  scope_unique : ∀ k k' scope, p.currentScope k = some scope →
    p.currentScope k' = some scope → k = k'
  call_lt : ∀ call ∈ calls, call.scope < p.nextScope
  call_current : ∀ newer call older, calls = newer ++ call :: older →
    ∀ k, p.currentScope k = some call.scope ↔
      k = call.connection ∧
        Unswitched call.connection call.credential newer
  call_fingerprint : ∀ newer call older, calls = newer ++ call :: older →
    Unswitched call.connection call.credential newer →
      p.fingerprint call.connection =
        some (call.credential.map (hash call.connection))

variable {hash}

theorem counter_no_wrap {next : ℕ} (h : next ≤ (next + 1) % 2 ^ 64) :
    (next + 1) % 2 ^ 64 = next + 1 := by
  omega

/-- A call in the calls after one more: the new one or an older one. -/
theorem calls_split (new : Option ScopeCall)
    {calls newer older : List ScopeCall} {call : ScopeCall}
    (h : new.toList ++ calls = newer ++ call :: older) :
    (newer = [] ∧ new = some call) ∨
      ∃ newer', newer = new.toList ++ newer' ∧
        calls = newer' ++ call :: older := by
  cases new with
  | none => exact Or.inr ⟨newer, rfl, h⟩
  | some fresh =>
      cases newer with
      | nil =>
          obtain ⟨rfl, -⟩ := List.cons.inj h
          exact Or.inl ⟨rfl, rfl⟩
      | cons first newer =>
          obtain ⟨rfl, hrest⟩ := List.cons.inj h
          exact Or.inr ⟨newer, rfl, hrest⟩

theorem ScopesSound.of_same {calls : List ScopeCall} {p p' : Process}
    (h : ScopesSound hash calls p)
    (hscope : p'.currentScope = p.currentScope)
    (hfingerprint : p'.fingerprint = p.fingerprint)
    (hnext : p'.nextScope = p.nextScope) : ScopesSound hash calls p' where
  scope_lt := by
    rw [hscope, hnext]
    exact h.scope_lt
  scope_unique := by
    rw [hscope]
    exact h.scope_unique
  call_lt := by
    rw [hnext]
    exact h.call_lt
  call_current := by
    rw [hscope]
    exact h.call_current
  call_fingerprint := by
    rw [hfingerprint]
    exact h.call_fingerprint

/-- A connection gets a scope which was never drawn before. -/
theorem scope_update {p p' : Process} {k : ℕ}
    (hscope : p'.currentScope =
      Function.update p.currentScope k (some p.nextScope))
    (hnext : p'.nextScope = p.nextScope + 1)
    (hlt : ∀ k scope, p.currentScope k = some scope → scope < p.nextScope)
    (hunique : ∀ k k' scope, p.currentScope k = some scope →
      p.currentScope k' = some scope → k = k') :
    (∀ j scope, p'.currentScope j = some scope → scope < p'.nextScope) ∧
      ∀ j j' scope, p'.currentScope j = some scope →
        p'.currentScope j' = some scope → j = j' := by
  have hcases : ∀ j scope, p'.currentScope j = some scope →
      (j = k ∧ scope = p.nextScope) ∨
        (j ≠ k ∧ p.currentScope j = some scope ∧ scope < p.nextScope) := by
    intro j scope hj
    rw [hscope] at hj
    by_cases hjk : j = k
    · subst hjk
      rw [Function.update_self] at hj
      exact Or.inl ⟨rfl, (Option.some.inj hj).symm⟩
    · rw [Function.update_of_ne hjk] at hj
      exact Or.inr ⟨hjk, hj, hlt j scope hj⟩
  constructor
  · intro j scope hj
    rcases hcases j scope hj with ⟨-, rfl⟩ | ⟨-, -, hlt'⟩ <;> omega
  · intro j j' scope hj hj'
    rcases hcases j scope hj with ⟨rfl, hs⟩ | ⟨-, hj, hs⟩ <;>
      rcases hcases j' scope hj' with ⟨rfl, hs'⟩ | ⟨-, hj', hs'⟩
    · rfl
    · omega
    · omega
    · exact hunique j j' scope hj hj'

/-- Every step keeps the invariant, as long as the counter does not wrap. -/
theorem ScopesSound.step {calls : List ScopeCall} {p p' : Process}
    {new : Option ScopeCall} (h : ScopesSound hash calls p)
    (hstep : ScopeStep hash p p' new)
    (hcollision : NoCollision hash (new.toList ++ calls))
    (hwrap : p.nextScope ≤ p'.nextScope) :
    ScopesSound hash (new.toList ++ calls) p' := by
  cases hstep with
  | keep hscope hfingerprint hnext =>
      exact h.of_same hscope hfingerprint hnext
  | @connect n hnew hscope hfingerprint hnext =>
      rw [hnext] at hwrap
      rw [counter_no_wrap hwrap] at hnext
      obtain ⟨hlt, hunique⟩ :=
        scope_update hscope hnext h.scope_lt h.scope_unique
      have hcall : ∀ newer call older, calls = newer ++ call :: older →
          call.scope < p.nextScope := fun newer call older hcalls =>
        h.call_lt call (by simp [hcalls])
      refine ⟨hlt, hunique, ?_, ?_, ?_⟩
      · intro call hmem
        have := h.call_lt call hmem
        omega
      · intro newer call older hcalls k
        have hfresh := hcall newer call older hcalls
        rw [← h.call_current newer call older hcalls k, hscope]
        by_cases hk : k = n
        · subst hk
          rw [Function.update_self, hnew]
          simp only [Option.some.injEq, reduceCtorEq, iff_false]
          omega
        · rw [Function.update_of_ne hk]
      · intro newer call older hcalls hunswitched
        have hcurrent := (h.call_current newer call older hcalls
          call.connection).mpr ⟨rfl, hunswitched⟩
        have hne : call.connection ≠ n := by
          rintro rfl
          rw [hnew] at hcurrent
          cases hcurrent
        rw [hfingerprint, Function.update_of_ne hne]
        exact h.call_fingerprint newer call older hcalls hunswitched
  | @handed k credential scope hcurrent hsame hscope hfingerprint hnext =>
      have hold := h.of_same hscope hfingerprint hnext
      refine ⟨hold.scope_lt, hold.scope_unique, ?_, ?_, ?_⟩
      · intro call hmem
        rcases List.mem_cons.mp hmem with rfl | hmem
        · rw [hnext]
          exact h.scope_lt k scope hcurrent
        · exact hold.call_lt call hmem
      · intro newer call older hcalls j
        rcases calls_split (some ⟨k, credential, scope⟩) hcalls with
          ⟨rfl, hcall⟩ | ⟨newer', rfl, hcalls'⟩
        · obtain rfl := Option.some.inj hcall
          rw [hscope]
          constructor
          · intro hj
            exact ⟨h.scope_unique j k scope hj hcurrent,
              by simp [Unswitched]⟩
          · rintro ⟨rfl, -⟩
            exact hcurrent
        · rw [hold.call_current newer' call older hcalls' j,
            Option.toList_some, List.singleton_append, unswitched_cons]
          constructor
          · rintro ⟨rfl, hunswitched⟩
            refine ⟨rfl, fun hconnection => ?_, hunswitched⟩
            have hfp := h.call_fingerprint newer' call older hcalls'
              hunswitched
            change k = call.connection at hconnection
            subst hconnection
            rw [hsame] at hfp
            exact hcollision _ (by simp) call (by simp [hcalls']) rfl
              (Option.some.inj hfp)
          · rintro ⟨rfl, -, hunswitched⟩
            exact ⟨rfl, hunswitched⟩
      · intro newer call older hcalls hunswitched
        rcases calls_split (some ⟨k, credential, scope⟩) hcalls with
          ⟨rfl, hcall⟩ | ⟨newer', rfl, hcalls'⟩
        · obtain rfl := Option.some.inj hcall
          rw [hfingerprint]
          exact hsame
        · rw [Option.toList_some, List.singleton_append,
            unswitched_cons] at hunswitched
          exact hold.call_fingerprint newer' call older hcalls' hunswitched.2
  | @switched k credential hother hscope hfingerprint hnext _ =>
      rw [hnext] at hwrap
      rw [counter_no_wrap hwrap] at hnext
      obtain ⟨hlt, hunique⟩ :=
        scope_update hscope hnext h.scope_lt h.scope_unique
      refine ⟨hlt, hunique, ?_, ?_, ?_⟩
      · intro call hmem
        rcases List.mem_cons.mp hmem with rfl | hmem
        · rw [hnext]
          exact Nat.lt_succ_self _
        · have := h.call_lt call hmem
          omega
      · intro newer call older hcalls j
        rcases calls_split (some ⟨k, credential, p.nextScope⟩) hcalls
          with ⟨rfl, hcall⟩ | ⟨newer', rfl, hcalls'⟩
        · obtain rfl := Option.some.inj hcall
          rw [hscope]
          constructor
          · intro hj
            refine ⟨?_, by simp [Unswitched]⟩
            by_contra hne
            rw [Function.update_of_ne hne] at hj
            exact absurd (h.scope_lt j _ hj) (lt_irrefl _)
          · rintro ⟨rfl, -⟩
            exact Function.update_self ..
        · have hfresh := h.call_lt call (by simp [hcalls'])
          have hold := h.call_current newer' call older hcalls'
          rw [hscope, Option.toList_some, List.singleton_append,
            unswitched_cons]
          constructor
          · intro hj
            have hjk : j ≠ k := by
              rintro rfl
              rw [Function.update_self] at hj
              have := Option.some.inj hj
              omega
            rw [Function.update_of_ne hjk] at hj
            obtain ⟨rfl, hunswitched⟩ := (hold j).mp hj
            exact ⟨rfl, fun hk => absurd hk.symm hjk, hunswitched⟩
          · rintro ⟨rfl, hnew, hunswitched⟩
            have hjk : call.connection ≠ k := by
              rintro rfl
              apply hother
              rw [h.call_fingerprint newer' call older hcalls' hunswitched,
                ← hnew rfl]
            rw [Function.update_of_ne hjk]
            exact (hold _).mpr ⟨rfl, hunswitched⟩
      · intro newer call older hcalls hunswitched
        rcases calls_split (some ⟨k, credential, p.nextScope⟩) hcalls
          with ⟨rfl, hcall⟩ | ⟨newer', rfl, hcalls'⟩
        · obtain rfl := Option.some.inj hcall
          rw [hfingerprint]
          exact Function.update_self ..
        · rw [Option.toList_some, List.singleton_append,
            unswitched_cons] at hunswitched
          have hjk : call.connection ≠ k := by
            rintro rfl
            apply hother
            rw [h.call_fingerprint newer' call older hcalls' hunswitched.2,
              ← hunswitched.1 rfl]
          rw [hfingerprint, Function.update_of_ne hjk]
          exact h.call_fingerprint newer' call older hcalls' hunswitched.2

end Steps

end DuckJeu
