import DuckJeu.Core.CacheInvariant

/-!
# Where cached entries come from

Every entry in the cache descends from one successful insertion.  Since then
its result and its time of insertion are unchanged, and its expiry was only
lowered: by each reconciliation, to that policy's lifetime.  These facts need
no invariant, since each helper of the cache only removes entries or lowers
their expiry.
-/

namespace DuckJeu

namespace CacheEntry

/-- `entry'` is `entry` some time later. -/
structure Ages (entry entry' : CacheEntry) : Prop where
  result_eq : entry'.result = entry.result
  insertedAt_eq : entry'.insertedAt = entry.insertedAt
  expiresAt_le : entry'.expiresAt ≤ entry.expiresAt

theorem Ages.refl (entry : CacheEntry) : Ages entry entry :=
  ⟨rfl, rfl, le_rfl⟩

theorem ages_tighten (entry : CacheEntry) (ttl : ℕ) :
    Ages entry (entry.tighten ttl) := by
  unfold CacheEntry.tighten
  split
  · exact ⟨rfl, rfl, min_le_left _ _⟩
  · exact Ages.refl entry

/-- A representable lifetime bounds the tightened expiry. -/
theorem tighten_expiresAt_le (entry : CacheEntry) {ttl : ℕ}
    (h : entry.insertedAt + ttl ≤ instantMax) :
    (entry.tighten ttl).expiresAt ≤ entry.insertedAt + ttl := by
  rw [CacheEntry.tighten, checkedAdd, if_pos h]
  exact min_le_right _ _

end CacheEntry

namespace JudgmentCache

variable {A : Accounting}

/-! ## Operations which only remove entries -/

/-- Every entry of `c'` is an entry of `c`. -/
def Retains (c c' : JudgmentCache) : Prop :=
  ∀ identity entry, c'.entries.lookup identity = some entry →
    c.entries.lookup identity = some entry

theorem Retains.refl (c : JudgmentCache) : Retains c c := fun _ _ h => h

theorem Retains.trans {c₁ c₂ c₃ : JudgmentCache} (h : Retains c₁ c₂)
    (h' : Retains c₂ c₃) : Retains c₁ c₃ :=
  fun identity entry hentry => h identity entry (h' identity entry hentry)

theorem retains_removeEntry (c : JudgmentCache) (identity : JudgmentIdentity) :
    Retains c (c.removeEntry A identity) := by
  intro key entry h
  unfold removeEntry at h
  split at h
  · exact h
  · by_cases hkey : key = identity
    · subst hkey
      simp at h
    · simpa [AList.lookup_erase_ne hkey] using h

theorem retains_remove (c : JudgmentCache) (identity : JudgmentIdentity) :
    Retains c (c.remove A identity) :=
  retains_removeEntry c identity

theorem retains_pruneExpired (c : JudgmentCache) (now : ℕ) :
    Retains c (c.pruneExpired A now) := by
  unfold pruneExpired
  generalize c.expiredKeys now = keys
  induction keys generalizing c with
  | nil => exact Retains.refl c
  | cons key keys ih =>
      exact (retains_remove c key).trans (ih (c.remove A key).expired)

theorem retains_evictWhile (c : JudgmentCache) (exceeds : ℕ → ℕ → Bool)
    (queue : List JudgmentIdentity) :
    Retains c (c.evictWhile A exceeds queue).2 := by
  induction queue generalizing c with
  | nil => exact Retains.refl c
  | cons oldest rest ih =>
      rw [evictWhile]
      split
      · have hpop : Retains c
            (({ c with lru := rest } : JudgmentCache).removeEntry A oldest) :=
          retains_removeEntry (A := A) { c with lru := rest } oldest
        exact hpop.trans (ih _)
      · exact Retains.refl c

theorem retains_makeRoom (c : JudgmentCache) (policy : CachePolicy)
    (size : ℕ) : Retains c (c.makeRoom A policy size).2 :=
  retains_evictWhile _ _ _

theorem retains_lookup (c : JudgmentCache) (identity : JudgmentIdentity)
    (now : ℕ) : Retains c (c.lookup A identity now).2 := by
  unfold lookup
  split
  · exact Retains.refl c
  split
  · exact retains_remove c identity
  · exact Retains.refl c

theorem retains_clear (c : JudgmentCache) : Retains c c.clear.2 := by
  intro identity entry h
  simp [clear] at h

/-- A served result belongs to an entry which has not expired. -/
theorem lookup_served {c : JudgmentCache} {identity : JudgmentIdentity}
    {now : ℕ} {result : JudgmentResult}
    (h : (c.lookup A identity now).1 = some result) :
    ∃ entry, c.entries.lookup identity = some entry ∧
      entry.result = result ∧ now < entry.expiresAt := by
  unfold lookup at h
  split at h
  · cases h
  rename_i entry hentry
  split at h
  · cases h
  · rename_i hfresh
    exact ⟨entry, hentry, Option.some.inj h, not_le.mp hfresh⟩

/-! ## Reconciliation and insertion -/

/-- Under a valid policy, the remaining entries are the earlier ones,
tightened to its lifetime. -/
theorem reconcile_entries {c : JudgmentCache} {now : ℕ} {policy : CachePolicy}
    {identity : JudgmentIdentity} {entry' : CacheEntry}
    (hvalid : policy.validate = .ok ())
    (h : (c.reconcilePolicy A now policy).2.entries.lookup identity =
      some entry') :
    ∃ entry, c.entries.lookup identity = some entry ∧
      entry' = entry.tighten policy.ttl := by
  unfold reconcilePolicy at h
  rw [hvalid] at h
  have htight := retains_pruneExpired (A := A) (c.tighten policy.ttl) now
    identity entry' (retains_evictWhile _ _ _ identity entry' h)
  simp only [JudgmentCache.tighten, Table.lookup_mapValues,
    Option.map_eq_some_iff] at htight
  obtain ⟨entry, hentry, rfl⟩ := htight
  exact ⟨entry, hentry, rfl⟩

theorem reconcile_invalid {c : JudgmentCache} {now : ℕ} {policy : CachePolicy}
    (hvalid : policy.validate ≠ .ok ()) :
    c.reconcilePolicy A now policy = (false, c) := by
  unfold reconcilePolicy
  split
  · rfl
  · contradiction

theorem checkedAdd_eq_none {now ttl : ℕ} :
    checkedAdd now ttl = none ↔ ¬ now + ttl ≤ instantMax := by
  simp [checkedAdd]

theorem checkedAdd_eq_some {now ttl expiresAt : ℕ} :
    checkedAdd now ttl = some expiresAt ↔
      now + ttl ≤ instantMax ∧ expiresAt = now + ttl := by
  simp [checkedAdd, eq_comm]

/-- What an insertion can do: nothing, reconcile and remove, or reconcile,
remove and store its entry. -/
theorem insert_cases (c : JudgmentCache) (identity : JudgmentIdentity)
    (result : JudgmentResult) (now : ℕ) (policy : CachePolicy) :
    (¬ (policy.validate = .ok () ∧ now + policy.ttl ≤ instantMax) ∧
        c.insertSuccess A identity result now policy = (false, c)) ∨
      (policy.validate = .ok () ∧ now + policy.ttl ≤ instantMax) ∧
        ∃ c', Retains (c.reconcilePolicy A now policy).2 c' ∧
          (c.insertSuccess A identity result now policy = (false, c') ∨
            c.insertSuccess A identity result now policy =
              (true, c'.store A identity
                ⟨result, now, now + policy.ttl,
                  estimatedEntryBytes identity result⟩)) := by
  unfold insertSuccess
  split
  · rename_i hinvalid
    exact Or.inl ⟨by simp [hinvalid], rfl⟩
  rename_i hvalid
  split
  · rename_i hexpiry
    exact Or.inl ⟨fun h => checkedAdd_eq_none.mp hexpiry h.2, rfl⟩
  rename_i expiresAt hexpiry
  obtain ⟨hrange, rfl⟩ := checkedAdd_eq_some.mp hexpiry
  refine Or.inr ⟨⟨hvalid, hrange⟩, ?_⟩
  dsimp only
  split
  · exact ⟨_, retains_remove _ _, Or.inl rfl⟩
  have hretains : Retains (c.reconcilePolicy A now policy).2
      (((c.reconcilePolicy A now policy).2.remove A identity).makeRoom A policy
        (estimatedEntryBytes identity result)).2 :=
    (retains_remove _ identity).trans (retains_makeRoom _ _ _)
  split
  · rename_i made hmade
    rw [hmade] at hretains
    exact ⟨made, hretains, Or.inl rfl⟩
  · rename_i made hmade
    rw [hmade] at hretains
    exact ⟨made, hretains, Or.inr rfl⟩

end JudgmentCache

/-! ## Histories -/

/-- The entry which a performed operation has stored. -/
def CacheEvent.stores :
    CacheEvent → Option (JudgmentIdentity × JudgmentResult × ℕ × CachePolicy)
  | (.insertSuccess identity result now policy, .accepted true) =>
      some (identity, result, now, policy)
  | (.insertOutcome identity (.ok result) now policy, .accepted true) =>
      some (identity, result, now, policy)
  | _ => none

/-- The policy under which an operation reconciles the stored entries. -/
def CacheOp.reconciles : CacheOp → Option CachePolicy
  | .lookupWithPolicy _ _ policy | .reconcilePolicy _ policy =>
      if policy.validate = .ok () then some policy else none
  | .insertSuccess _ _ now policy | .insertOutcome _ (.ok _) now policy =>
      if policy.validate = .ok () ∧ now + policy.ttl ≤ instantMax then
        some policy
      else none
  | _ => none

/-- `entry'` is `entry` after an operation which reconciles under `policy`, if
it does reconcile. -/
def AgesUnder (reconciled : Option CachePolicy) (entry entry' : CacheEntry) :
    Prop :=
  entry.Ages entry' ∧ ∀ policy ∈ reconciled,
    entry.insertedAt + policy.ttl ≤ instantMax →
      entry'.expiresAt ≤ entry.insertedAt + policy.ttl

theorem agesUnder_none (entry : CacheEntry) : AgesUnder none entry entry :=
  ⟨CacheEntry.Ages.refl entry, by simp⟩

theorem agesUnder_tighten (entry : CacheEntry) (policy : CachePolicy) :
    AgesUnder (some policy) entry (entry.tighten policy.ttl) := by
  refine ⟨entry.ages_tighten policy.ttl, ?_⟩
  rintro _ ⟨⟩ hrange
  exact entry.tighten_expiresAt_le hrange

section Step

variable {A : Accounting} {c : JudgmentCache} {key : JudgmentIdentity}
  {entry' : CacheEntry}

theorem reconcile_ages {now : ℕ} {policy : CachePolicy}
    (h : (c.reconcilePolicy A now policy).2.entries.lookup key =
      some entry') :
    ∃ entry, c.entries.lookup key = some entry ∧
      AgesUnder (if policy.validate = .ok () then some policy else none)
        entry entry' := by
  by_cases hvalid : policy.validate = .ok ()
  · obtain ⟨entry, hentry, rfl⟩ := JudgmentCache.reconcile_entries hvalid h
    rw [if_pos hvalid]
    exact ⟨entry, hentry, agesUnder_tighten entry policy⟩
  · rw [JudgmentCache.reconcile_invalid hvalid] at h
    rw [if_neg hvalid]
    exact ⟨entry', h, agesUnder_none entry'⟩

/-- An entry after an insertion is the stored one or an aged earlier one. -/
theorem insert_ages {identity : JudgmentIdentity} {result : JudgmentResult}
    {now : ℕ} {policy : CachePolicy}
    (h : (c.insertSuccess A identity result now policy).2.entries.lookup key =
      some entry') :
    ((c.insertSuccess A identity result now policy).1 = true ∧
        key = identity ∧ entry'.result = result ∧ entry'.insertedAt = now ∧
          entry'.expiresAt = now + policy.ttl) ∨
      (((c.insertSuccess A identity result now policy).1 = true →
          key ≠ identity) ∧
        ∃ entry, c.entries.lookup key = some entry ∧
          AgesUnder
            (if policy.validate = .ok () ∧ now + policy.ttl ≤ instantMax then
              some policy else none)
            entry entry') := by
  rcases JudgmentCache.insert_cases (A := A) c identity result now policy with
    ⟨hinvalid, hsame⟩ | ⟨hvalid, c', hretains, hsame⟩
  · rw [hsame] at h ⊢
    rw [if_neg hinvalid]
    exact Or.inr ⟨by simp, entry', h, agesUnder_none entry'⟩
  rw [if_pos hvalid]
  have hearlier : c'.entries.lookup key = some entry' →
      ∃ entry, c.entries.lookup key = some entry ∧
        AgesUnder (some policy) entry entry' := by
    intro hlookup
    obtain ⟨entry, hentry, rfl⟩ := JudgmentCache.reconcile_entries hvalid.1
      (hretains key entry' hlookup)
    exact ⟨entry, hentry, agesUnder_tighten entry policy⟩
  rcases hsame with hsame | hsame
  · rw [hsame] at h ⊢
    exact Or.inr ⟨by simp, hearlier h⟩
  · rw [hsame] at h ⊢
    by_cases hkey : key = identity
    · subst hkey
      simp only [JudgmentCache.store, AList.lookup_insert,
        Option.some.injEq] at h
      subst h
      exact Or.inl ⟨rfl, rfl, rfl, rfl, rfl⟩
    · simp only [JudgmentCache.store, AList.lookup_insert_ne hkey] at h
      exact Or.inr ⟨fun _ => hkey, hearlier h⟩

/-- An entry after an insertion, where `s` says what an insertion with this
answer stores. -/
theorem insert_entries {identity : JudgmentIdentity} {result : JudgmentResult}
    {now : ℕ} {policy : CachePolicy}
    {s : Bool →
      Option (JudgmentIdentity × JudgmentResult × ℕ × CachePolicy)}
    (htrue : s true = some (identity, result, now, policy))
    (hfalse : s false = none)
    (h : (c.insertSuccess A identity result now policy).2.entries.lookup key =
      some entry') :
    (∃ policy', s (c.insertSuccess A identity result now policy).1 =
          some (key, entry'.result, entry'.insertedAt, policy') ∧
        entry'.expiresAt = entry'.insertedAt + policy'.ttl) ∨
      (∀ stored ∈ s (c.insertSuccess A identity result now policy).1,
          stored.1 ≠ key) ∧
        ∃ entry, c.entries.lookup key = some entry ∧
          AgesUnder
            (if policy.validate = .ok () ∧ now + policy.ttl ≤ instantMax then
              some policy else none)
            entry entry' := by
  rcases insert_ages h with ⟨hok, rfl, rfl, rfl, hexpiry⟩ | ⟨hkey, hages⟩
  · exact Or.inl ⟨policy, by rw [hok, htrue], hexpiry⟩
  · refine Or.inr ⟨fun stored hstored => ?_, hages⟩
    cases hok : (c.insertSuccess A identity result now policy).1 with
    | false => simp [hok, hfalse] at hstored
    | true =>
        rw [hok, htrue, Option.mem_def, Option.some.injEq] at hstored
        subst hstored
        exact (hkey hok).symm

/-- An entry after one operation is the one it stored or an aged earlier
one. -/
theorem CacheOp.apply_entries (op : CacheOp)
    (h : (op.apply A c).2.entries.lookup key = some entry') :
    (∃ policy, CacheEvent.stores (op, (op.apply A c).1) =
          some (key, entry'.result, entry'.insertedAt, policy) ∧
        entry'.expiresAt = entry'.insertedAt + policy.ttl) ∨
      (∀ stored ∈ CacheEvent.stores (op, (op.apply A c).1),
          stored.1 ≠ key) ∧
        ∃ entry, c.entries.lookup key = some entry ∧
          AgesUnder op.reconciles entry entry' := by
  cases op with
  | lookup identity now =>
      exact Or.inr ⟨by simp [CacheEvent.stores], entry',
        JudgmentCache.retains_lookup c identity now key entry' h,
        agesUnder_none entry'⟩
  | lookupWithPolicy identity now policy =>
      refine Or.inr ⟨by simp [CacheEvent.stores], ?_⟩
      have hrec : (c.reconcilePolicy A now policy).2.entries.lookup key =
          some entry' := by
        simp only [CacheOp.apply, JudgmentCache.lookupWithPolicy] at h
        cases hreconcile : c.reconcilePolicy A now policy with
        | mk ok c' =>
            rw [hreconcile] at h
            cases ok with
            | false => exact h
            | true =>
                exact JudgmentCache.retains_lookup c' identity now key entry' h
      exact reconcile_ages hrec
  | reconcilePolicy now policy =>
      exact Or.inr ⟨by simp [CacheEvent.stores], reconcile_ages h⟩
  | insertSuccess identity result now policy =>
      exact insert_entries (s := fun stored => CacheEvent.stores
        (.insertSuccess identity result now policy, .accepted stored))
        rfl rfl h
  | insertOutcome identity outcome now policy =>
      cases outcome with
      | error e =>
          exact Or.inr ⟨by simp [CacheEvent.stores], entry', h,
            agesUnder_none entry'⟩
      | ok result =>
          exact insert_entries (s := fun stored => CacheEvent.stores
            (.insertOutcome identity (.ok result) now policy, .accepted stored))
            rfl rfl h
  | len now =>
      exact Or.inr ⟨by simp [CacheEvent.stores], entry',
        JudgmentCache.retains_pruneExpired c now key entry' h,
        agesUnder_none entry'⟩
  | clear =>
      exact Or.inr ⟨by simp [CacheEvent.stores], entry',
        JudgmentCache.retains_clear c key entry' h, agesUnder_none entry'⟩

end Step

/-- The entry was stored in this history, was not stored again since, and has
been lowered to the lifetime of every later reconciliation. -/
def StoredIn (events : List CacheEvent) (key : JudgmentIdentity)
    (entry : CacheEntry) : Prop :=
  ∃ later event earlier policy,
    events = later ++ event :: earlier ∧
      event.stores = some (key, entry.result, entry.insertedAt, policy) ∧
      entry.expiresAt ≤ entry.insertedAt + policy.ttl ∧
      ∀ event' ∈ later,
        (∀ stored ∈ CacheEvent.stores event', stored.1 ≠ key) ∧
          ∀ policy' ∈ event'.1.reconciles,
            entry.insertedAt + policy'.ttl ≤ instantMax →
              entry.expiresAt ≤ entry.insertedAt + policy'.ttl

theorem StoredIn.cons {events : List CacheEvent} {key : JudgmentIdentity}
    {entry entry' : CacheEntry} (h : StoredIn events key entry)
    {event : CacheEvent}
    (hstores : ∀ stored ∈ event.stores, stored.1 ≠ key)
    (hages : AgesUnder event.1.reconciles entry entry') :
    StoredIn (event :: events) key entry' := by
  obtain ⟨later, stored, earlier, policy, rfl, hstored, hexpiry, hlater⟩ := h
  obtain ⟨⟨hresult, hinserted, hlower⟩, hreconciled⟩ := hages
  refine ⟨event :: later, stored, earlier, policy, rfl, ?_, ?_, ?_⟩
  · rw [hresult, hinserted]
    exact hstored
  · rw [hinserted]
    exact hlower.trans hexpiry
  · intro event' hevent'
    rcases List.mem_cons.mp hevent' with rfl | hmem
    · refine ⟨hstores, fun policy' hpolicy' hrange => ?_⟩
      rw [hinserted] at hrange ⊢
      exact hreconciled policy' hpolicy' hrange
    · refine ⟨(hlater event' hmem).1, fun policy' hpolicy' hrange => ?_⟩
      rw [hinserted] at hrange ⊢
      exact hlower.trans ((hlater event' hmem).2 policy' hpolicy' hrange)

/-- Every entry held after a sequence of operations was stored in it. -/
theorem CacheOp.run_storedIn (A : Accounting) (ops : List CacheOp)
    {key : JudgmentIdentity} {entry : CacheEntry}
    (h : (CacheOp.run A ops).2.entries.lookup key = some entry) :
    StoredIn (CacheOp.run A ops).1 key entry := by
  induction ops generalizing entry with
  | nil => simp [CacheOp.run] at h
  | cons op earlier ih =>
      rcases CacheOp.apply_entries op h with
        ⟨policy, hstores, hexpiry⟩ | ⟨hstores, entry₀, hentry₀, hages⟩
      · exact ⟨[], _, _, policy, rfl, hstores, hexpiry.le, by simp⟩
      · exact (ih hentry₀).cons hstores hages

/-! ## Freshness -/

/-- A result served under a policy was stored for its key by a successful
insertion, and its age is below the lifetime of the inserting policy, of the
serving policy, and of every policy under which the cache was reconciled in
between. -/
theorem served_result_fresh (ops : List CacheOp)
    (identity : JudgmentIdentity) (now : ℕ) (policy : CachePolicy)
    (result : JudgmentResult)
    (hserved : ((CacheOp.run saturating ops).2.lookupWithPolicy saturating
      identity now policy).1 = some result) :
    ∃ later event earlier t policy₀,
      (CacheOp.run saturating ops).1 = later ++ event :: earlier ∧
        event.stores = some (identity, result, t, policy₀) ∧
        now < t + policy₀.ttl ∧
        (t + policy.ttl ≤ instantMax → now < t + policy.ttl) ∧
        ∀ event' ∈ later,
          (∀ stored ∈ CacheEvent.stores event', stored.1 ≠ identity) ∧
            ∀ policy' ∈ event'.1.reconciles,
              t + policy'.ttl ≤ instantMax → now < t + policy'.ttl := by
  unfold JudgmentCache.lookupWithPolicy at hserved
  split at hserved
  · cases hserved
  rename_i c' hreconcile
  have hvalid : policy.validate = .ok () := by
    by_contra hinvalid
    rw [JudgmentCache.reconcile_invalid hinvalid] at hreconcile
    cases hreconcile
  obtain ⟨entry', hentry', rfl, hfresh⟩ :=
    JudgmentCache.lookup_served hserved
  have hentries : ((CacheOp.run saturating ops).2.reconcilePolicy saturating
      now policy).2.entries.lookup identity = some entry' := by
    rw [hreconcile]
    exact hentry'
  obtain ⟨entry, hentry, hages, hserving⟩ := reconcile_ages hentries
  rw [if_pos hvalid] at hserving
  obtain ⟨later, event, earlier, policy₀, hevents, hstores, hexpiry, hlater⟩ :=
    CacheOp.run_storedIn saturating ops hentry
  refine ⟨later, event, earlier, entry.insertedAt, policy₀, hevents, ?_,
    ?_, ?_, ?_⟩
  · rw [hages.result_eq]
    exact hstores
  · exact hfresh.trans_le (hages.expiresAt_le.trans hexpiry)
  · exact fun hrange => hfresh.trans_le (hserving policy rfl hrange)
  · intro event' hevent'
    refine ⟨(hlater event' hevent').1, fun policy' hpolicy' hrange => ?_⟩
    exact hfresh.trans_le (hages.expiresAt_le.trans
      ((hlater event' hevent').2 policy' hpolicy' hrange))

/-- A lookup under a longer lifetime than that of the insertion. -/
theorem served_result_fresh_before_expiry :
    ∃ later event earlier t policy₀,
      (CacheOp.run saturating
        [.insertSuccess (textIdentity "a") (.noul .half) 3 ⟨2, 4096, 10⟩]).1 =
          later ++ event :: earlier ∧
        event.stores = some (textIdentity "a", .noul .half, t, policy₀) ∧
        12 < t + policy₀.ttl := by
  obtain ⟨later, event, earlier, t, policy₀, hevents, hstores, hfresh, -⟩ :=
    served_result_fresh
      [.insertSuccess (textIdentity "a") (.noul .half) 3 ⟨2, 4096, 10⟩]
      (textIdentity "a") 12 ⟨2, 4096, 20⟩ (.noul .half) (by decide)
  exact ⟨later, event, earlier, t, policy₀, hevents, hstores, hfresh⟩

end DuckJeu
