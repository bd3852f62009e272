import DuckJeu.Core.Cache

/-!
# The representation invariant of the cache

Entries, recency queue and byte account are three views of one set of keys.
Each helper of the cache touches a different subset of them; this module says
for each helper when it restores the agreement.  Whatever the accounting does
out of range, no operation ever gets there.
-/

namespace DuckJeu

namespace JudgmentCache

/-- The queue lists every stored key once, and the account is exact. -/
structure Represents (c : JudgmentCache) : Prop where
  lru_perm : c.lru.Perm c.entries.keys
  bytes_eq : c.estimatedBytes =
    Table.total CacheEntry.estimatedBytes c.entries

/-- The cache is within the limits of a policy. -/
def Within (c : JudgmentCache) (policy : CachePolicy) : Prop :=
  c.entries.keys.length ≤ policy.maxEntries ∧
    c.estimatedBytes ≤ policy.maxBytes

theorem represents_empty : Represents {} where
  lru_perm := List.Perm.refl _
  bytes_eq := rfl

namespace Represents

variable {c : JudgmentCache}

theorem lru_nodup (hc : c.Represents) : c.lru.Nodup :=
  hc.lru_perm.nodup_iff.mpr c.entries.keys_nodup

theorem mem_lru (hc : c.Represents) (identity : JudgmentIdentity) :
    identity ∈ c.lru ↔ identity ∈ c.entries :=
  hc.lru_perm.mem_iff.trans AList.mem_keys.symm

theorem bytes_ge (hc : c.Represents) {identity : JudgmentIdentity}
    {entry : CacheEntry} (h : c.entries.lookup identity = some entry) :
    entry.estimatedBytes ≤ c.estimatedBytes := by
  rw [hc.bytes_eq]
  exact Table.weight_le_total h

/-- An empty queue leaves nothing stored and nothing accounted for. -/
theorem of_lru_nil (hc : c.Represents) (h : c.lru = []) :
    c.entries.keys.length = 0 ∧ c.estimatedBytes = 0 := by
  have hkeys : c.entries.keys = [] := by
    have hperm := hc.lru_perm
    rw [h] at hperm
    exact hperm.nil_eq.symm
  have hentries : c.entries.entries = [] := by
    simpa [AList.keys, List.keys] using hkeys
  refine ⟨by rw [hkeys]; rfl, ?_⟩
  rw [hc.bytes_eq, Table.total, hentries]
  rfl

end Represents

variable {A : Accounting} {c : JudgmentCache}

/-! ## Removing entries -/

/-- `remove` does not depend on the accounting out of range. -/
theorem remove_spec (hA : A.Faithful) (hc : c.Represents)
    (identity : JudgmentIdentity) :
    (c.remove A identity).Represents ∧
      c.remove A identity = c.remove saturating identity ∧
      (c.remove A identity).entries = c.entries.erase identity := by
  cases hlookup : c.entries.lookup identity with
  | none =>
      have hnot : identity ∉ c.entries := AList.lookup_eq_none.mp hlookup
      have hkeys : identity ∉ c.entries.keys := hnot
      have herase : c.entries.erase identity = c.entries := by
        apply AList.ext
        exact List.kerase_of_notMem_keys hkeys
      have hlru : identity ∉ c.lru := by rwa [hc.mem_lru]
      have hremove : ∀ B : Accounting, c.remove B identity = c := by
        intro B
        simp [remove, removeEntry, hlookup, List.erase_of_not_mem hlru]
      rw [hremove, hremove, herase]
      exact ⟨hc, rfl, rfl⟩
  | some entry =>
      have hle := hc.bytes_ge hlookup
      have htotal := Table.total_erase CacheEntry.estimatedBytes hlookup
      refine ⟨⟨?_, ?_⟩, ?_, ?_⟩
      · simpa [remove, removeEntry, hlookup] using hc.lru_perm.erase identity
      · simp only [remove, removeEntry, hlookup, hA.sub_eq _ _ hle]
        have hbytes := hc.bytes_eq
        omega
      · simp [remove, removeEntry, hlookup, hA.sub_eq _ _ hle, saturating]
      · simp [remove, removeEntry, hlookup]

/-- Popping the oldest key and removing its entry is removing that entry. -/
theorem pop_eq_remove {oldest : JudgmentIdentity}
    {rest : List JudgmentIdentity} (hlru : c.lru = oldest :: rest) :
    ({ c with lru := rest } : JudgmentCache).removeEntry A oldest =
      c.remove A oldest := by
  cases hlookup : c.entries.lookup oldest <;>
    simp [remove, removeEntry, hlookup, hlru]

theorem Represents.expired (hc : c.Represents) : c.expired.Represents :=
  ⟨hc.lru_perm, hc.bytes_eq⟩

theorem Represents.evicted (hc : c.Represents) : c.evicted.Represents :=
  ⟨hc.lru_perm, hc.bytes_eq⟩

theorem Represents.touch (hc : c.Represents) {identity : JudgmentIdentity}
    (h : identity ∈ c.entries) : (c.touch identity).Represents where
  lru_perm := by
    have hmem : identity ∈ c.lru := (hc.mem_lru identity).mpr h
    have hback : (c.lru.erase identity ++ [identity]).Perm c.lru :=
      (List.perm_append_singleton _ _).trans
        (List.perm_cons_erase hmem).symm
    exact hback.trans hc.lru_perm
  bytes_eq := hc.bytes_eq

theorem CacheEntry.tighten_estimatedBytes (entry : CacheEntry) (ttl : ℕ) :
    (entry.tighten ttl).estimatedBytes = entry.estimatedBytes := by
  unfold CacheEntry.tighten
  split <;> rfl

theorem Represents.tighten (hc : c.Represents) (ttl : ℕ) :
    (c.tighten ttl).Represents where
  lru_perm := by simpa [JudgmentCache.tighten] using hc.lru_perm
  bytes_eq := by
    simpa [JudgmentCache.tighten,
      Table.total_mapValues (CacheEntry.tighten_estimatedBytes · ttl)]
      using hc.bytes_eq

theorem prune_spec (hA : A.Faithful) (hc : c.Represents)
    (keys : List JudgmentIdentity) :
    (keys.foldl (fun c identity => (c.remove A identity).expired) c).Represents
      ∧ keys.foldl (fun c identity => (c.remove A identity).expired) c =
        keys.foldl
          (fun c identity => (c.remove saturating identity).expired) c := by
  induction keys generalizing c with
  | nil => exact ⟨hc, rfl⟩
  | cons key keys ih =>
      obtain ⟨hremove, hsame, -⟩ := remove_spec hA hc key
      simp only [List.foldl_cons, ← hsame]
      exact ih hremove.expired

theorem pruneExpired_spec (hA : A.Faithful) (hc : c.Represents) (now : ℕ) :
    (c.pruneExpired A now).Represents ∧
      c.pruneExpired A now = c.pruneExpired saturating now :=
  prune_spec hA hc _

/-! ## Eviction loops -/

theorem remove_bytes_le (hA : A.Faithful) (hc : c.Represents)
    (identity : JudgmentIdentity) :
    (c.remove A identity).estimatedBytes ≤ c.estimatedBytes := by
  cases hlookup : c.entries.lookup identity with
  | none => simp [remove, removeEntry, hlookup]
  | some entry =>
      simp [remove, removeEntry, hlookup,
        hA.sub_eq _ _ (hc.bytes_ge hlookup)]

theorem lru_remove (identity : JudgmentIdentity) :
    (c.remove A identity).lru = c.lru.erase identity := by
  cases hlookup : c.entries.lookup identity <;>
    simp [remove, removeEntry, hlookup]

/-- An eviction loop whose condition fails on an empty cache ends by its
condition, and its result is represented. -/
theorem evictWhile_spec (hA : A.Faithful) {exceeds : ℕ → ℕ → Bool}
    (hempty : exceeds 0 0 = false) {queue : List JudgmentIdentity}
    (hc : c.Represents) (hlru : c.lru = queue) :
    (c.evictWhile A exceeds queue).1 = true ∧
      (c.evictWhile A exceeds queue).2.Represents ∧
      exceeds (c.evictWhile A exceeds queue).2.entries.keys.length
        (c.evictWhile A exceeds queue).2.estimatedBytes = false ∧
      (c.evictWhile A exceeds queue).2.estimatedBytes ≤ c.estimatedBytes := by
  induction queue generalizing c with
  | nil =>
      obtain ⟨hcount, hbytes⟩ := hc.of_lru_nil hlru
      have hsame : ({ c with lru := [] } : JudgmentCache) = c := by rw [← hlru]
      rw [evictWhile, hsame]
      exact ⟨by rw [hcount, hbytes, hempty]; rfl, hc,
        by rw [hcount, hbytes, hempty], le_rfl⟩
  | cons oldest rest ih =>
      rw [evictWhile]
      split
      · rw [pop_eq_remove hlru]
        obtain ⟨hremove, -, -⟩ := remove_spec hA hc oldest
        have hrest : (c.remove A oldest).evicted.lru = rest := by
          simp [JudgmentCache.evicted, lru_remove, hlru]
        obtain ⟨hends, hrep, hover, hbytes⟩ := ih hremove.evicted hrest
        exact ⟨hends, hrep, hover,
          hbytes.trans (remove_bytes_le hA hc oldest)⟩
      · rename_i hover
        have hsame :
            ({ c with lru := oldest :: rest } : JudgmentCache) = c := by
          rw [← hlru]
        rw [hsame]
        exact ⟨rfl, hc, by simpa using hover, le_rfl⟩

/-- Two accountings evict alike, if the loop conditions agree on all accounts
up to the current one. -/
theorem evictWhile_congr (hA : A.Faithful) {exceeds exceeds' : ℕ → ℕ → Bool}
    {queue : List JudgmentIdentity}
    (hover : ∀ entries bytes, bytes ≤ c.estimatedBytes →
      exceeds entries bytes = exceeds' entries bytes)
    (hc : c.Represents) (hlru : c.lru = queue) :
    c.evictWhile A exceeds queue = c.evictWhile saturating exceeds' queue := by
  induction queue generalizing c with
  | nil => simp [evictWhile, hover _ _ le_rfl]
  | cons oldest rest ih =>
      obtain ⟨hremove, hsame, -⟩ := remove_spec hA hc oldest
      rw [evictWhile, evictWhile, ← hover _ _ le_rfl, pop_eq_remove hlru,
        pop_eq_remove hlru, ← hsame]
      split
      · refine ih ?_ hremove.evicted ?_
        · intro entries bytes hbytes
          exact hover _ _ (hbytes.trans (remove_bytes_le hA hc oldest))
        · simp [JudgmentCache.evicted, lru_remove, hlru]
      · rfl

theorem overLimits_empty (policy : CachePolicy) :
    overLimits policy 0 0 = false := by
  simp [overLimits]

theorem within_of_not_overLimits {policy : CachePolicy}
    (h : overLimits policy c.entries.keys.length c.estimatedBytes = false) :
    c.Within policy := by
  simpa [overLimits, Within] using h

theorem evictOver_spec (hA : A.Faithful) (hc : c.Represents)
    (policy : CachePolicy) :
    (c.evictOver A policy).1 = true ∧
      (c.evictOver A policy).2.Represents ∧
      (c.evictOver A policy).2.Within policy ∧
      c.evictOver A policy = c.evictOver saturating policy := by
  obtain ⟨hends, hrep, hover, -⟩ :=
    evictWhile_spec hA (overLimits_empty policy) hc rfl
  exact ⟨hends, hrep, within_of_not_overLimits hover,
    evictWhile_congr hA (fun _ _ _ => rfl) hc rfl⟩

/-! ## Reconciliation -/

theorem reconcile_spec (hA : A.Faithful) (hc : c.Represents) (now : ℕ)
    (policy : CachePolicy) :
    (c.reconcilePolicy A now policy).2.Represents ∧
      ((c.reconcilePolicy A now policy).1 = true →
        (c.reconcilePolicy A now policy).2.Within policy) ∧
      c.reconcilePolicy A now policy =
        c.reconcilePolicy saturating now policy := by
  unfold reconcilePolicy
  split
  · exact ⟨hc, by simp, rfl⟩
  · obtain ⟨hprune, hsame⟩ := pruneExpired_spec hA (hc.tighten policy.ttl) now
    obtain ⟨-, hrep, hwithin, hevict⟩ := evictOver_spec hA hprune policy
    refine ⟨hrep, fun _ => hwithin, ?_⟩
    rw [hsame] at hevict
    simp only [hsame, hevict]

theorem reconcile_true {policy : CachePolicy} (h : policy.validate = .ok ())
    (now : ℕ) : (c.reconcilePolicy A now policy).1 = true := by
  simp [reconcilePolicy, h]

/-! ## Insertion -/

theorem valid_limits {policy : CachePolicy} (h : policy.validate = .ok ()) :
    policy.maxEntries ≠ 0 ∧ policy.maxBytes ≠ 0 ∧ policy.ttl ≠ 0 := by
  unfold CachePolicy.validate at h
  split at h
  · cases h
  · rename_i hpos
    simpa only [not_or] using hpos

/-- Within byte limits of at most `i64::MAX`, no account overflows. -/
theorem account_in_range {policy : CachePolicy} {bytes size : ℕ}
    (hmax : policy.maxBytes ≤ i64Max) (hbytes : bytes ≤ policy.maxBytes)
    (hsize : size ≤ policy.maxBytes) : bytes + size ≤ usizeMax := by
  unfold i64Max at hmax
  unfold usizeMax
  omega

theorem makeRoom_spec (hA : A.Faithful) (hc : c.Represents)
    {policy : CachePolicy} {size : ℕ} (hvalid : policy.validate = .ok ())
    (hmax : policy.maxBytes ≤ i64Max)
    (hbytes : c.estimatedBytes ≤ policy.maxBytes)
    (hsize : size ≤ policy.maxBytes) :
    (c.makeRoom A policy size).1 = true ∧
      (c.makeRoom A policy size).2.Represents ∧
      (c.makeRoom A policy size).2.entries.keys.length < policy.maxEntries ∧
      (c.makeRoom A policy size).2.estimatedBytes + size ≤ policy.maxBytes ∧
      c.makeRoom A policy size = c.makeRoom saturating policy size := by
  have hempty : lacksRoom A policy size 0 0 = false := by
    have hadd : A.add 0 size = 0 + size :=
      hA.add_eq _ _ (account_in_range hmax (Nat.zero_le _) hsize)
    have hentries := (valid_limits hvalid).1
    simp [lacksRoom, hadd, hsize, hentries]
  have hcongr : c.makeRoom A policy size =
      c.makeRoom saturating policy size := by
    refine evictWhile_congr hA ?_ hc rfl
    intro entries bytes hle
    have hrange := account_in_range hmax (hle.trans hbytes) hsize
    simp only [lacksRoom, hA.add_eq _ _ hrange,
      saturating_faithful.add_eq _ _ hrange]
  obtain ⟨hends, hrep, hroom, hshrinks⟩ := evictWhile_spec hA hempty hc rfl
  have hrange : (c.makeRoom A policy size).2.estimatedBytes + size ≤ usizeMax :=
    account_in_range hmax (hshrinks.trans hbytes) hsize
  change lacksRoom A policy size
    (c.makeRoom A policy size).2.entries.keys.length
    (c.makeRoom A policy size).2.estimatedBytes = false at hroom
  simp only [lacksRoom, hA.add_eq _ _ hrange, Bool.or_eq_false_iff,
    decide_eq_false_iff_not, not_le, not_lt] at hroom
  exact ⟨hends, hrep, hroom.1, hroom.2, hcongr⟩

/-- Storing a fresh key which fits. -/
theorem store_spec (hA : A.Faithful) (hc : c.Represents)
    {identity : JudgmentIdentity} (entry : CacheEntry)
    (hfresh : identity ∉ c.entries)
    (hrange : c.estimatedBytes + entry.estimatedBytes ≤ usizeMax) :
    (c.store A identity entry).Represents ∧
      (c.store A identity entry).estimatedBytes =
        c.estimatedBytes + entry.estimatedBytes ∧
      (c.store A identity entry).entries.keys.length =
        c.entries.keys.length + 1 ∧
      c.store A identity entry = c.store saturating identity entry := by
  have hkeys : (c.entries.insert identity entry).keys =
      identity :: c.entries.keys := by
    have hnot : identity ∉ c.entries.keys := hfresh
    rw [AList.keys_insert, List.erase_of_not_mem hnot]
  refine ⟨⟨?_, ?_⟩, hA.add_eq _ _ hrange, by simp [store, hkeys], ?_⟩
  · simp only [store, hkeys]
    exact (List.perm_append_singleton _ _).trans (hc.lru_perm.cons _)
  · simp only [store, hA.add_eq _ _ hrange]
    rw [Table.total_insert _ hfresh, hc.bytes_eq]
  · simp only [store, hA.add_eq _ _ hrange,
      saturating_faithful.add_eq _ _ hrange]

/-- Evictions only remove keys. -/
theorem evictWhile_mem {exceeds : ℕ → ℕ → Bool} {queue : List JudgmentIdentity}
    {identity : JudgmentIdentity}
    (h : identity ∈ (c.evictWhile A exceeds queue).2.entries) :
    identity ∈ c.entries := by
  induction queue generalizing c with
  | nil => exact h
  | cons oldest rest ih =>
      rw [evictWhile] at h
      split at h
      · have hmem := ih h
        unfold JudgmentCache.evicted removeEntry at hmem
        split at hmem
        · exact hmem
        · exact (AList.mem_erase.mp hmem).2
      · exact h

/-- Making room for a fresh entry and storing it. -/
theorem makeRoom_store_spec (hA : A.Faithful) (hc : c.Represents)
    {policy : CachePolicy} (hvalid : policy.validate = .ok ())
    (hmax : policy.maxBytes ≤ i64Max)
    (hbytes : c.estimatedBytes ≤ policy.maxBytes)
    {identity : JudgmentIdentity} (hfresh : identity ∉ c.entries)
    (entry : CacheEntry) (hsize : entry.estimatedBytes ≤ policy.maxBytes) :
    ∃ made, c.makeRoom A policy entry.estimatedBytes = (true, made) ∧
      c.makeRoom saturating policy entry.estimatedBytes = (true, made) ∧
      (made.store A identity entry).Represents ∧
      (made.store A identity entry).Within policy ∧
      made.store A identity entry = made.store saturating identity entry := by
  obtain ⟨hends, hrep, hcount, hroom, hsame⟩ :=
    makeRoom_spec hA hc hvalid hmax hbytes hsize
  have hmade : c.makeRoom A policy entry.estimatedBytes =
      (true, (c.makeRoom A policy entry.estimatedBytes).2) :=
    Prod.ext hends rfl
  have hnew : identity ∉
      (c.makeRoom A policy entry.estimatedBytes).2.entries :=
    fun hmem => hfresh (evictWhile_mem hmem)
  obtain ⟨hstored, hstoredBytes, hstoredCount, hstore⟩ :=
    store_spec hA hrep entry hnew
      (account_in_range hmax (Nat.le_of_add_right_le hroom) hsize)
  refine ⟨_, hmade, hsame.symm.trans hmade, hstored, ⟨?_, ?_⟩, hstore⟩
  · rw [hstoredCount]
    exact hcount
  · rw [hstoredBytes]
    exact hroom

theorem insert_spec (hA : A.Faithful) (hc : c.Represents)
    (identity : JudgmentIdentity) (result : JudgmentResult) (now : ℕ)
    {policy : CachePolicy} (hmax : policy.maxBytes ≤ i64Max) :
    (c.insertSuccess A identity result now policy).2.Represents ∧
      ((c.insertSuccess A identity result now policy).1 = true →
        (c.insertSuccess A identity result now policy).2.Within policy) ∧
      c.insertSuccess A identity result now policy =
        c.insertSuccess saturating identity result now policy := by
  unfold insertSuccess
  split
  · exact ⟨hc, by simp, rfl⟩
  rename_i hvalid
  split
  · exact ⟨hc, by simp, rfl⟩
  rename_i expiresAt _
  obtain ⟨hrec, hwithin, hsame⟩ := reconcile_spec hA hc now policy
  have hlimits := hwithin (reconcile_true hvalid now)
  obtain ⟨hremove, hremoved, hentries⟩ := remove_spec hA hrec identity
  simp only [← hsame, ← hremoved]
  split
  · exact ⟨hremove, by simp, rfl⟩
  rename_i hsize
  have hfresh : identity ∉
      ((c.reconcilePolicy A now policy).2.remove A identity).entries := by
    rw [hentries]
    exact fun hmem => (AList.mem_erase.mp hmem).1 rfl
  obtain ⟨made, hmade, hmade', hstored, hfits, hstore⟩ :=
    makeRoom_store_spec hA hremove hvalid hmax
      ((remove_bytes_le hA hrec identity).trans hlimits.2) hfresh
      ⟨result, now, expiresAt, estimatedEntryBytes identity result⟩
      (not_lt.mp hsize)
  simp only at hmade hmade'
  simp only [hmade, hmade']
  exact ⟨hstored, fun _ => hfits, by rw [hstore]⟩

theorem lookup_spec (hA : A.Faithful) (hc : c.Represents)
    (identity : JudgmentIdentity) (now : ℕ) :
    (c.lookup A identity now).2.Represents ∧
      c.lookup A identity now = c.lookup saturating identity now := by
  unfold lookup
  split
  · exact ⟨hc, rfl⟩
  rename_i entry hlookup
  split
  · obtain ⟨hremove, hsame, -⟩ := remove_spec hA hc identity
    exact ⟨hremove.expired, by rw [hsame]⟩
  · refine ⟨hc.touch ?_, rfl⟩
    rw [← AList.lookup_isSome, hlookup]
    rfl

theorem lookupWithPolicy_spec (hA : A.Faithful) (hc : c.Represents)
    (identity : JudgmentIdentity) (now : ℕ) (policy : CachePolicy) :
    (c.lookupWithPolicy A identity now policy).2.Represents ∧
      c.lookupWithPolicy A identity now policy =
        c.lookupWithPolicy saturating identity now policy := by
  obtain ⟨hrec, -, hsame⟩ := reconcile_spec hA hc now policy
  unfold lookupWithPolicy
  rw [← hsame]
  split
  · rename_i c' hreconcile
    rw [hreconcile] at hrec
    exact ⟨hrec, rfl⟩
  · rename_i c' hreconcile
    rw [hreconcile] at hrec
    exact lookup_spec hA hrec identity now

theorem insertOutcome_spec (hA : A.Faithful) (hc : c.Represents)
    (identity : JudgmentIdentity)
    (outcome : Except JudgmentError JudgmentResult) (now : ℕ)
    {policy : CachePolicy} (hmax : policy.maxBytes ≤ i64Max) :
    (c.insertOutcome A identity outcome now policy).2.Represents ∧
      ((c.insertOutcome A identity outcome now policy).1 = true →
        (c.insertOutcome A identity outcome now policy).2.Within policy) ∧
      c.insertOutcome A identity outcome now policy =
        c.insertOutcome saturating identity outcome now policy := by
  cases outcome with
  | error e => exact ⟨hc, by simp [insertOutcome], rfl⟩
  | ok result => exact insert_spec hA hc identity result now hmax

theorem represents_clear : (c.clear).2.Represents where
  lru_perm := List.Perm.refl _
  bytes_eq := rfl

end JudgmentCache

/-! ## Runs of operations -/

/-- The policy under which an operation works, if any. -/
def CacheOp.policy? : CacheOp → Option CachePolicy
  | .lookup _ _ => none
  | .lookupWithPolicy _ _ policy => some policy
  | .reconcilePolicy _ policy => some policy
  | .insertSuccess _ _ _ policy => some policy
  | .insertOutcome _ _ _ policy => some policy
  | .len _ => none
  | .clear => none

/-- The byte limit is one which the settings admit. -/
def CacheOp.ByteLimited (op : CacheOp) : Prop :=
  ∀ policy ∈ op.policy?, policy.maxBytes ≤ i64Max

/-- One operation keeps the representation, does not see how the accounting
clips, and establishes its limits if it is accepted. -/
theorem CacheOp.apply_spec {A : Accounting} (hA : A.Faithful)
    {c : JudgmentCache} (hc : c.Represents) (op : CacheOp)
    (hop : op.ByteLimited) :
    (op.apply A c).2.Represents ∧
      op.apply A c = op.apply saturating c ∧
      ∀ policy ∈ op.policy?, (op.apply A c).1 = .accepted true →
        (op.apply A c).2.Within policy := by
  cases op with
  | lookup identity now =>
      obtain ⟨hrep, hsame⟩ := JudgmentCache.lookup_spec hA hc identity now
      exact ⟨hrep, by simp only [apply, hsame], by simp [policy?]⟩
  | lookupWithPolicy identity now policy =>
      obtain ⟨hrep, hsame⟩ :=
        JudgmentCache.lookupWithPolicy_spec hA hc identity now policy
      exact ⟨hrep, by simp only [apply, hsame], by simp [apply]⟩
  | reconcilePolicy now policy =>
      obtain ⟨hrep, hwithin, hsame⟩ :=
        JudgmentCache.reconcile_spec hA hc now policy
      exact ⟨hrep, by simp only [apply, hsame],
        by simpa [policy?, apply] using hwithin⟩
  | insertSuccess identity result now policy =>
      obtain ⟨hrep, hwithin, hsame⟩ :=
        JudgmentCache.insert_spec hA hc identity result now (hop policy rfl)
      exact ⟨hrep, by simp only [apply, hsame],
        by simpa [policy?, apply] using hwithin⟩
  | insertOutcome identity outcome now policy =>
      obtain ⟨hrep, hwithin, hsame⟩ :=
        JudgmentCache.insertOutcome_spec hA hc identity outcome now
          (hop policy rfl)
      exact ⟨hrep, by simp only [apply, hsame],
        by simpa [policy?, apply] using hwithin⟩
  | len now =>
      obtain ⟨hrep, hsame⟩ := JudgmentCache.pruneExpired_spec hA hc now
      exact ⟨hrep, by simp only [apply, JudgmentCache.len, hsame],
        by simp [policy?]⟩
  | clear => exact ⟨JudgmentCache.represents_clear, rfl, by simp [policy?]⟩

theorem CacheOp.run_spec {A : Accounting} (hA : A.Faithful)
    (ops : List CacheOp) (hops : ∀ op ∈ ops, op.ByteLimited) :
    (CacheOp.run A ops).2.Represents ∧
      CacheOp.run A ops = CacheOp.run saturating ops := by
  induction ops with
  | nil => exact ⟨JudgmentCache.represents_empty, rfl⟩
  | cons op earlier ih =>
      obtain ⟨hrep, hsame⟩ :=
        ih fun op' hop' => hops op' (List.mem_cons_of_mem _ hop')
      obtain ⟨hrep', hsame', -⟩ :=
        CacheOp.apply_spec hA hrep op (hops op (List.mem_cons_self ..))
      refine ⟨hrep', ?_⟩
      simp only [CacheOp.run, ← hsame, hsame']

/-- After any sequence of operations within the admitted byte limits, queue,
entries and account agree, no saturating operation has clipped, the eviction
loops end by their conditions, and an accepted operation leaves the cache
within its limits. -/
theorem cacheRun_represents (ops : List CacheOp)
    (hops : ∀ op ∈ ops, op.ByteLimited) :
    let c := (CacheOp.run saturating ops).2
    (c.lru.Nodup ∧ (∀ identity, identity ∈ c.lru ↔ identity ∈ c.entries) ∧
        c.estimatedBytes = Table.total CacheEntry.estimatedBytes c.entries) ∧
      (∀ A : Accounting, A.Faithful →
        CacheOp.run A ops = CacheOp.run saturating ops) ∧
      (∀ (policy : CachePolicy) (now : ℕ), policy.validate = .ok () →
        policy.maxBytes ≤ i64Max →
        (((c.tighten policy.ttl).pruneExpired saturating now).evictOver
            saturating policy).1 = true ∧
          ∀ identity size, size ≤ policy.maxBytes →
            (((c.reconcilePolicy saturating now policy).2.remove saturating
              identity).makeRoom saturating policy size).1 = true) ∧
      ∀ op : CacheOp, op.ByteLimited → ∀ policy ∈ op.policy?,
        (op.apply saturating c).1 = .accepted true →
          (op.apply saturating c).2.entries.keys.length ≤ policy.maxEntries ∧
            (op.apply saturating c).2.estimatedBytes ≤ policy.maxBytes := by
  intro c
  obtain ⟨hc, -⟩ := CacheOp.run_spec saturating_faithful ops hops
  refine ⟨⟨hc.lru_nodup, hc.mem_lru, hc.bytes_eq⟩,
    fun A hA => (CacheOp.run_spec hA ops hops).2, ?_, ?_⟩
  · intro policy now hvalid hmax
    obtain ⟨hprune, -⟩ := JudgmentCache.pruneExpired_spec saturating_faithful
      (hc.tighten policy.ttl) now
    refine ⟨(JudgmentCache.evictOver_spec saturating_faithful hprune
      policy).1, ?_⟩
    intro identity size hsize
    obtain ⟨hrec, hwithin, -⟩ :=
      JudgmentCache.reconcile_spec saturating_faithful hc now policy
    obtain ⟨hremove, -, -⟩ :=
      JudgmentCache.remove_spec saturating_faithful hrec identity
    have hbytes := (JudgmentCache.remove_bytes_le saturating_faithful hrec
      identity).trans (hwithin (JudgmentCache.reconcile_true hvalid now)).2
    exact (JudgmentCache.makeRoom_spec saturating_faithful hremove hvalid hmax
      hbytes hsize).1
  · intro op hop policy hpolicy haccepted
    exact (CacheOp.apply_spec saturating_faithful hc op hop).2.2 policy
      hpolicy haccepted

/-- The second insertion has to evict the first entry. -/
theorem cacheRun_represents_evicting :
    let c := (CacheOp.run saturating
      [.insertSuccess (textIdentity "b") (.noul .one) 4 ⟨1, 4096, 10⟩,
        .insertSuccess (textIdentity "a") (.noul .half) 3 ⟨1, 4096, 10⟩]).2
    c.lru = [textIdentity "b"] ∧ c.lru.Nodup ∧
      c.estimatedBytes = Table.total CacheEntry.estimatedBytes c.entries := by
  have h := cacheRun_represents
    [.insertSuccess (textIdentity "b") (.noul .one) 4 ⟨1, 4096, 10⟩,
      .insertSuccess (textIdentity "a") (.noul .half) 3 ⟨1, 4096, 10⟩]
    (by simp [CacheOp.ByteLimited, CacheOp.policy?, i64Max])
  exact ⟨by decide, h.1.1, h.1.2.2⟩

end DuckJeu
