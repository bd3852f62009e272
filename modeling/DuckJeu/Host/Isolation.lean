import DuckJeu.Host.Credential

/-!
# Credential isolation of the cache

Two consequences of the scope invariant: equal scopes mean one connection and
one uninterrupted credential, and a lookup under the current scope serves only
what was inserted under a scope obtained for that connection and credential
since the last switch.
-/

namespace DuckJeu

variable {hash : ℕ → String → UInt64}

/-! ## Runs of a process -/

theorem Process.run_suffix {earlier ops : List ProcessOp}
    (h : earlier <:+ ops) :
    (Process.run hash earlier).1 <:+ (Process.run hash ops).1 := by
  induction ops with
  | nil =>
      obtain rfl := List.suffix_nil.mp h
      exact List.suffix_refl _
  | cons op ops ih =>
      rcases List.suffix_cons_iff.mp h with rfl | h
      · exact List.suffix_refl _
      · exact (ih h).trans (List.suffix_cons _ _)

theorem scopeCalls_cons (event : ProcessEvent) (events : List ProcessEvent) :
    scopeCalls (event :: events) = event.call?.toList ++ scopeCalls events := by
  cases h : event.call? <;> simp [scopeCalls, h]

theorem scopeCalls_suffix {earlier events : List ProcessEvent}
    (h : earlier <:+ events) : scopeCalls earlier <:+ scopeCalls events := by
  obtain ⟨later, rfl⟩ := h
  exact ⟨scopeCalls later, by simp [scopeCalls]⟩

/-- No operation of the sequence lowers the scope counter. -/
def CounterGrows (hash : ℕ → String → UInt64) (ops : List ProcessOp) : Prop :=
  ∀ op earlier, op :: earlier <:+ ops →
    (Process.run hash earlier).2.nextScope ≤
      (Process.run hash (op :: earlier)).2.nextScope

theorem CounterGrows.suffix {earlier ops : List ProcessOp}
    (h : CounterGrows hash ops) (hsuffix : earlier <:+ ops) :
    CounterGrows hash earlier :=
  fun op older holder => h op older (holder.trans hsuffix)

theorem NoCollision.mono {calls calls' : List ScopeCall}
    (h : NoCollision hash calls) (hsub : calls' ⊆ calls) :
    NoCollision hash calls' :=
  fun a ha b hb => h a (hsub ha) b (hsub hb)

theorem scopesSound_new : ScopesSound hash [] {} where
  scope_lt := by simp [Process.currentScope]
  scope_unique := by simp [Process.currentScope]
  call_lt := by simp
  call_current := by simp
  call_fingerprint := by simp

theorem Process.run_sound (ops : List ProcessOp)
    (hgrows : CounterGrows hash ops)
    (hcollision : NoCollision hash (scopeCalls (Process.run hash ops).1)) :
    ScopesSound hash (scopeCalls (Process.run hash ops).1)
      (Process.run hash ops).2 := by
  induction ops with
  | nil => exact scopesSound_new
  | cons op earlier ih =>
      have hsuffix : earlier <:+ op :: earlier := List.suffix_cons _ _
      have hearlier := ih (hgrows.suffix hsuffix)
        (hcollision.mono
          (scopeCalls_suffix (Process.run_suffix hsuffix)).subset)
      have hwrap := hgrows op earlier (List.suffix_refl _)
      simp only [Process.run, scopeCalls_cons] at hcollision hwrap ⊢
      exact hearlier.step (Process.apply_scopeStep hash _ op) hcollision hwrap

/-! ## Where cached entries come from -/

/-- A cached entry after one operation was inserted by it, or was cached
before with the same result. -/
theorem Process.apply_cached (p : Process) (op : ProcessOp) {k : ℕ}
    {c' : ConnectionRuntime} {identity : JudgmentIdentity}
    {entry' : CacheEntry}
    (hc' : (p.apply hash op).2.connections[k]? = some c')
    (hentry' : c'.cache.entries.lookup identity = some entry') :
    (∃ now policy,
        op = .cacheInsert k identity entry'.result now policy) ∨
      ∃ c entry, p.connections[k]? = some c ∧
        c.cache.entries.lookup identity = some entry ∧
          entry'.result = entry.result := by
  have hmodify : ∀ (j : ℕ) (f : ConnectionRuntime → ConnectionRuntime),
      (p.modify j f).connections[k]? = some c' →
        ∃ c, p.connections[k]? = some c ∧
          c' = if j = k then f c else c := by
    intro j f h
    simp only [Process.modify, List.getElem?_modify] at h
    cases hc : p.connections[k]? with
    | none => simp [hc] at h
    | some c => exact ⟨c, rfl, by simpa [hc] using h.symm⟩
  cases op with
  | connect =>
      simp only [apply, List.getElem?_append] at hc'
      split at hc'
      · exact Or.inr ⟨c', entry', hc', hentry', rfl⟩
      · rw [List.getElem?_singleton] at hc'
        split at hc'
        · obtain rfl := Option.some.inj hc'
          simp [ConnectionRuntime.init] at hentry'
        · cases hc'
  | beginQuery j now =>
      obtain ⟨c, hc, rfl⟩ := hmodify j _ hc'
      refine Or.inr ⟨c, entry', hc, ?_, rfl⟩
      split at hentry'
      · rwa [(beginQuery_scopes c now).2.2] at hentry'
      · exact hentry'
  | endQuery j now interrupt errorType =>
      obtain ⟨c, hc, rfl⟩ := hmodify j _ hc'
      refine Or.inr ⟨c, entry', hc, ?_, rfl⟩
      split at hentry'
      · rwa [(endQuery_scopes c now interrupt errorType).2.2] at hentry'
      · exact hentry'
  | cacheClear j =>
      obtain ⟨c, hc, rfl⟩ := hmodify j _ hc'
      refine Or.inr ⟨c, entry', hc, ?_, rfl⟩
      split at hentry'
      · simp [JudgmentCache.clear] at hentry'
      · exact hentry'
  | cacheInsert j key result now policy =>
      obtain ⟨c, hc, rfl⟩ := hmodify j _ hc'
      split at hentry'
      · rename_i hjk
        subst hjk
        rcases c.cacheInsert_ages hentry' with
          ⟨-, rfl, rfl⟩ | ⟨-, entry, hentry, hages⟩
        · exact Or.inl ⟨now, policy, rfl⟩
        · exact Or.inr ⟨c, entry, hc, hentry, hages.result_eq⟩
      · exact Or.inr ⟨c, entry', hc, hentry', rfl⟩
  | cacheLookup j key now policy =>
      cases hj : p.connections[j]? with
      | none =>
          simp only [apply, hj] at hc'
          exact Or.inr ⟨c', entry', hc', hentry', rfl⟩
      | some c =>
          simp only [apply, hj] at hc'
          by_cases hjk : j = k
          · subst hjk
            have hlength : j < p.connections.length :=
              (List.getElem?_eq_some_iff.mp hj).1
            rw [List.getElem?_set_self hlength, Option.some.injEq] at hc'
            subst hc'
            obtain ⟨entry, hentry, hages⟩ :=
              c.cacheLookup_ages hentry'
            exact Or.inr ⟨c, entry, hj, hentry, hages.result_eq⟩
          · rw [List.getElem?_set_ne hjk] at hc'
            exact Or.inr ⟨c', entry', hc', hentry', rfl⟩
  | credentialScope j scope credential =>
      cases hj : p.connections[j]? with
      | none =>
          simp only [apply, hj] at hc'
          exact Or.inr ⟨c', entry', hc', hentry', rfl⟩
      | some c =>
          simp only [apply, hj] at hc'
          by_cases hjk : j = k
          · subst hjk
            have hlength : j < p.connections.length :=
              (List.getElem?_eq_some_iff.mp hj).1
            rw [List.getElem?_set_self hlength, Option.some.injEq] at hc'
            subst hc'
            rcases credentialScopeFor_cases c (hash j) p.nextScope scope
                credential with h | ⟨-, h⟩ | ⟨-, h⟩
            · rw [h] at hentry'
              exact Or.inr ⟨c, entry', hj, hentry', rfl⟩
            · rw [h] at hentry'
              exact Or.inr ⟨c, entry', hj, hentry', rfl⟩
            · rw [h] at hentry'
              simp [JudgmentCache.clear] at hentry'
          · rw [List.getElem?_set_ne hjk] at hc'
            exact Or.inr ⟨c', entry', hc', hentry', rfl⟩

/-- Every cached entry was inserted on its connection. -/
theorem Process.run_cached (ops : List ProcessOp) {k : ℕ}
    {c : ConnectionRuntime} {identity : JudgmentIdentity} {entry : CacheEntry}
    (hc : (Process.run hash ops).2.connections[k]? = some c)
    (hentry : c.cache.entries.lookup identity = some entry) :
    ∃ now policy earlier,
      .cacheInsert k identity entry.result now policy :: earlier <:+ ops := by
  induction ops generalizing c entry with
  | nil => simp [Process.run] at hc
  | cons op earlier ih =>
      rcases Process.apply_cached _ op hc hentry with
        ⟨now, policy, rfl⟩ | ⟨c₀, entry₀, hc₀, hentry₀, hresult⟩
      · exact ⟨now, policy, earlier, List.suffix_refl _⟩
      · obtain ⟨now, policy, older, hsuffix⟩ := ih hc₀ hentry₀
        rw [hresult]
        exact ⟨now, policy, older, hsuffix.trans (List.suffix_cons _ _)⟩

/-! ## Isolation -/

/-- Every insertion is made under a scope which some call returned before. -/
def InsertsObtained (hash : ℕ → String → UInt64) (ops : List ProcessOp) :
    Prop :=
  ∀ k identity result now policy earlier,
    .cacheInsert k identity result now policy :: earlier <:+ ops →
      ∃ call ∈ scopeCalls (Process.run hash earlier).1,
        call.scope = identity.credentialScope

/-- The newest call returned the scope of an older one exactly if it was made
on the same connection with the same credential, which no call in between has
replaced. -/
theorem ScopesSound.scope_eq_iff {p : Process}
    {calls between older : List ScopeCall} {a b : ScopeCall}
    (h : ScopesSound hash calls p)
    (hcalls : calls = b :: (between ++ a :: older)) :
    a.scope = b.scope ↔
      a.connection = b.connection ∧ a.credential = b.credential ∧
        Unswitched a.connection a.credential between := by
  have hb : p.currentScope b.connection = some b.scope :=
    (h.call_current [] b (between ++ a :: older) hcalls b.connection).mpr
      ⟨rfl, by simp [Unswitched]⟩
  have ha := h.call_current (b :: between) a older hcalls b.connection
  rw [hb, Option.some.injEq, unswitched_cons] at ha
  rw [eq_comm, ha]
  constructor
  · rintro ⟨hconnection, hcredential, hunswitched⟩
    exact ⟨hconnection.symm, (hcredential hconnection).symm, hunswitched⟩
  · rintro ⟨hconnection, hcredential, hunswitched⟩
    exact ⟨hconnection.symm, fun _ => hcredential.symm, hunswitched⟩

/-- A call of a run is the newest call of some earlier part of the run. -/
theorem Process.run_call_newest (ops : List ProcessOp)
    {newer older : List ScopeCall} {call : ScopeCall}
    (h : scopeCalls (Process.run hash ops).1 = newer ++ call :: older) :
    ∃ earlier, earlier <:+ ops ∧
      scopeCalls (Process.run hash earlier).1 = call :: older := by
  induction ops generalizing newer with
  | nil => simp [Process.run, scopeCalls] at h
  | cons op earlier ih =>
      cases newer with
      | nil => exact ⟨op :: earlier, List.suffix_refl _, h⟩
      | cons first newer =>
          have hearlier : ∃ newer', scopeCalls (Process.run hash earlier).1 =
              newer' ++ call :: older := by
            simp only [Process.run, scopeCalls_cons] at h
            rcases calls_split _ h with ⟨hnil, -⟩ | ⟨newer', -, hcalls⟩
            · cases hnil
            · exact ⟨newer', hcalls⟩
          obtain ⟨newer', hcalls⟩ := hearlier
          obtain ⟨part, hpart, hnewest⟩ := ih hcalls
          exact ⟨part, hpart.trans (List.suffix_cons _ _), hnewest⟩

/-- Credential isolation, for every sequence of operations in which the
counter does not wrap, the hashers do not collide on the credentials used, and
every insertion is made under a scope obtained earlier.

Two successful calls return equal scopes exactly when they are on one
connection, present one credential, and no successful call on that connection
in between presented another.  A call which changes the scope of a connection
leaves its cache empty.  What a lookup under the current scope serves was
inserted on that connection with that result, under a scope obtained before
the insertion, and every call which returned that scope was made on that
connection with a credential that no later call has replaced. -/
theorem credential_scopes_isolate (ops : List ProcessOp)
    (hgrows : CounterGrows hash ops)
    (hcollision : NoCollision hash (scopeCalls (Process.run hash ops).1))
    (hobtained : InsertsObtained hash ops) :
    (∀ newer b between a older,
      scopeCalls (Process.run hash ops).1 =
          newer ++ b :: (between ++ a :: older) →
        (a.scope = b.scope ↔
          a.connection = b.connection ∧ a.credential = b.credential ∧
            Unswitched a.connection a.credential between)) ∧
      (∀ k scope credential answer earlier,
        .credentialScope k scope credential :: earlier <:+ ops →
        ((Process.run hash earlier).2.apply hash
            (.credentialScope k scope credential)).1 = .scope (.ok answer) →
        (Process.run hash earlier).2.currentScope k ≠ some answer →
        ∀ c ∈ ((Process.run hash earlier).2.apply hash
            (.credentialScope k scope credential)).2.connections[k]?,
          c.cache.entries = ∅ ∧ c.cache.lru = [] ∧
            c.cache.estimatedBytes = 0) ∧
      ∀ k identity now policy result earlier,
        .cacheLookup k identity now policy :: earlier <:+ ops →
        ((Process.run hash earlier).2.apply hash
            (.cacheLookup k identity now policy)).1 = .served (some result) →
        (Process.run hash earlier).2.currentScope k =
            some identity.credentialScope →
        (∃ t policy' older,
          .cacheInsert k identity result t policy' :: older <:+ earlier ∧
            ∃ call ∈ scopeCalls (Process.run hash older).1,
              call.scope = identity.credentialScope) ∧
          ∀ newer call older,
            scopeCalls (Process.run hash earlier).1 = newer ++ call :: older →
            call.scope = identity.credentialScope →
              call.connection = k ∧ Unswitched k call.credential newer := by
  have hsound : ∀ earlier, earlier <:+ ops →
      ScopesSound hash (scopeCalls (Process.run hash earlier).1)
        (Process.run hash earlier).2 := by
    intro earlier hsuffix
    exact Process.run_sound earlier (hgrows.suffix hsuffix)
      (hcollision.mono
        (scopeCalls_suffix (Process.run_suffix hsuffix)).subset)
  refine ⟨?_, ?_, ?_⟩
  · intro newer b between a older hcalls
    obtain ⟨earlier, hsuffix, hnewest⟩ :=
      Process.run_call_newest ops hcalls
    exact (hsound earlier hsuffix).scope_eq_iff hnewest
  · intro k scope credential answer earlier hsuffix hanswer hswitch
    have hstep := Process.apply_scopeStep hash
      (Process.run hash earlier).2 (.credentialScope k scope credential)
    have hcall : ProcessEvent.call? (.credentialScope k scope credential,
        ((Process.run hash earlier).2.apply hash
          (.credentialScope k scope credential)).1) =
        some ⟨k, credential, answer⟩ := by
      rw [hanswer]
      rfl
    rw [hcall] at hstep
    cases hstep with
    | handed hcurrent _ _ _ _ => exact absurd hcurrent hswitch
    | switched _ _ _ _ hempty => exact hempty
  · intro k identity now policy result earlier hsuffix hserved hcurrent
    have hearlier : earlier <:+ ops := (List.suffix_cons _ _).trans hsuffix
    refine ⟨?_, ?_⟩
    · simp only [Process.apply] at hserved
      split at hserved
      · cases hserved
      rename_i c hc
      simp only [ProcessReply.served.injEq] at hserved
      obtain ⟨key, entry, hkey, hentry, rfl, -⟩ :=
        c.cacheLookup_served hserved
      obtain rfl := Option.some.inj hkey
      obtain ⟨t, policy', older, hinsert⟩ :=
        Process.run_cached earlier hc hentry
      exact ⟨t, policy', older, hinsert,
        hobtained k identity entry.result t policy' older
          (hinsert.trans hearlier)⟩
    · intro newer call older hcalls hscope
      have hiff := (hsound earlier hearlier).call_current newer call older
        hcalls k
      rw [hscope] at hiff
      obtain ⟨rfl, hunswitched⟩ := hiff.mp hcurrent
      exact ⟨rfl, hunswitched⟩

/-- A judgment about a text, in the context of a given credential scope. -/
def scopedIdentity (text : String) (scope : ℕ) : JudgmentIdentity :=
  { textIdentity text with credentialScope := scope }

/-- A hasher which tells apart credentials of different lengths. -/
def lengthHash : ℕ → String → UInt64 := fun key credential =>
  UInt64.ofNat (key + credential.length)

/-- Two connections.  The first one switches its credential and back, caches a
result, and gets another one from a worker which still has the scope from
before the switch. -/
def switchedOps : List ProcessOp :=
  [.cacheLookup 0 (scopedIdentity "a" 6) 9 ⟨2, 4096, 10⟩,
    .cacheInsert 0 (scopedIdentity "a" 3) (.noul .zero) 8 ⟨2, 4096, 10⟩,
    .cacheInsert 0 (scopedIdentity "a" 6) (.noul .half) 7 ⟨2, 4096, 10⟩,
    .credentialScope 0 0 (some "key"), .credentialScope 0 0 (some "token"),
    .credentialScope 1 0 (some "key"), .credentialScope 0 0 (some "key"),
    .beginQuery 1 0, .beginQuery 0 0, .connect, .connect]

/-- The scope calls in these operations. -/
def switchedCalls : List ScopeCall :=
  [⟨0, some "key", 6⟩, ⟨0, some "token", 5⟩, ⟨1, some "key", 4⟩,
    ⟨0, some "key", 3⟩]

theorem credential_scopes_isolate_switched :
    scopeCalls (Process.run lengthHash switchedOps).1 = switchedCalls ∧
      ¬ Unswitched 0 (some "key") [⟨0, some "token", 5⟩, ⟨1, some "key", 4⟩] ∧
      (∃ t policy older,
        ProcessOp.cacheInsert 0 (scopedIdentity "a" 6) (.noul .half) t policy ::
            older <:+ switchedOps.tail ∧
          ∃ call ∈ scopeCalls (Process.run lengthHash older).1,
            call.scope = 6) := by
  have hgrows : CounterGrows lengthHash switchedOps := by
    intro op earlier hsuffix
    simp only [switchedOps, List.suffix_cons_iff, List.suffix_nil,
      List.cons.injEq, reduceCtorEq, or_false] at hsuffix
    rcases hsuffix with ⟨rfl, rfl⟩ | ⟨rfl, rfl⟩ | ⟨rfl, rfl⟩ | ⟨rfl, rfl⟩ |
      ⟨rfl, rfl⟩ | ⟨rfl, rfl⟩ | ⟨rfl, rfl⟩ | ⟨rfl, rfl⟩ | ⟨rfl, rfl⟩ |
      ⟨rfl, rfl⟩ | ⟨rfl, rfl⟩ <;> decide
  have hcalls : scopeCalls (Process.run lengthHash switchedOps).1 =
      switchedCalls := by decide
  have hcollision : NoCollision lengthHash
      (scopeCalls (Process.run lengthHash switchedOps).1) := by
    rw [hcalls, NoCollision]
    decide
  have hobtained : InsertsObtained lengthHash switchedOps := by
    intro k identity result now policy earlier hsuffix
    simp only [switchedOps, List.suffix_cons_iff, List.suffix_nil,
      List.cons.injEq, reduceCtorEq, ProcessOp.cacheInsert.injEq, false_and,
      false_or, or_false] at hsuffix
    rcases hsuffix with ⟨⟨-, rfl, -⟩, rfl⟩ | ⟨⟨-, rfl, -⟩, rfl⟩
    · exact ⟨⟨0, some "key", 3⟩, by decide, rfl⟩
    · exact ⟨⟨0, some "key", 6⟩, by decide, rfl⟩
  obtain ⟨hscopes, -, hserved⟩ :=
    credential_scopes_isolate switchedOps hgrows hcollision hobtained
  refine ⟨hcalls, ?_, ?_⟩
  · intro hunswitched
    have hequal := (hscopes [] ⟨0, some "key", 6⟩
      [⟨0, some "token", 5⟩, ⟨1, some "key", 4⟩] ⟨0, some "key", 3⟩ []
      hcalls).mpr ⟨rfl, rfl, hunswitched⟩
    cases hequal
  · exact (hserved 0 (scopedIdentity "a" 6) 9 ⟨2, 4096, 10⟩ (.noul .half)
      switchedOps.tail (List.suffix_refl _) (by rfl) (by decide)).1

end DuckJeu
