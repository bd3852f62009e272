import DuckJeu.Core.CacheHistory
import DuckJeu.Support.Lru

/-!
# The cache as an LRU list

The plain LRU list is what the cache is meant to be.  The listing of a cache
reads its entries in queue order, and every operation of the cache does to the
listing what the corresponding operation does to the list.  No lemma mentions
the order of the map: the listing follows the queue, and pruning may visit the
expired keys in any order.
-/

namespace DuckJeu

/-! ## The reference list -/

/-- An entry with its key. -/
abbrev CachedItem := Lru.Item JudgmentIdentity JudgmentResult

def CacheEntry.item (entry : CacheEntry) (identity : JudgmentIdentity) :
    CachedItem where
  key := identity
  value := entry.result
  insertedAt := entry.insertedAt
  expiresAt := entry.expiresAt
  size := entry.estimatedBytes

def CachePolicy.limits (policy : CachePolicy) : Lru.Limits where
  count := policy.maxEntries
  bytes := policy.maxBytes

/-- Every limit is positive. -/
def CachePolicy.Valid (policy : CachePolicy) : Prop :=
  policy.maxEntries ≠ 0 ∧ policy.maxBytes ≠ 0 ∧ policy.ttl ≠ 0

instance (policy : CachePolicy) : Decidable policy.Valid :=
  inferInstanceAs (Decidable (_ ∧ _))

theorem CachePolicy.valid_iff {policy : CachePolicy} :
    policy.Valid ↔ policy.validate = .ok () := by
  constructor
  · intro h
    obtain ⟨hentries, hbytes, httl⟩ := h
    simp [validate, hentries, hbytes, httl]
  · intro h
    exact JudgmentCache.valid_limits h

namespace LruList

/-- Let an item expire no later than under the given lifetime, as far as that
instant is representable. -/
def tightenItem (ttl : ℕ) (item : CachedItem) : CachedItem :=
  if item.insertedAt + ttl ≤ instantMax then
    { item with expiresAt := min item.expiresAt (item.insertedAt + ttl) }
  else item

/-- The items which the lifetime of a policy leaves unexpired. -/
def survivors (now : ℕ) (policy : CachePolicy) (items : List CachedItem) :
    List CachedItem :=
  Lru.live now (items.map (tightenItem policy.ttl))

/-- Drop what has expired, then evict down to both limits. -/
def reconcile (now : ℕ) (policy : CachePolicy) (items : List CachedItem) :
    List CachedItem :=
  Lru.longestSuffix policy.limits.allow (survivors now policy items)

/-- The item which an insertion stores. -/
def newItem (identity : JudgmentIdentity) (result : JudgmentResult) (now : ℕ)
    (policy : CachePolicy) : CachedItem where
  key := identity
  value := result
  insertedAt := now
  expiresAt := now + policy.ttl
  size := estimatedEntryBytes identity result

def insert (identity : JudgmentIdentity) (result : JudgmentResult) (now : ℕ)
    (policy : CachePolicy) (items : List CachedItem) :
    Bool × List CachedItem :=
  if policy.Valid ∧ now + policy.ttl ≤ instantMax then
    Lru.put policy.limits (newItem identity result now policy)
      (reconcile now policy items)
  else (false, items)

/-- What an operation of the cache does to the list. -/
def apply (items : List CachedItem) : CacheOp → CacheReply × List CachedItem
  | .lookup identity now => (Lru.lookup identity now items).map .served id
  | .lookupWithPolicy identity now policy =>
      if policy.Valid then
        (Lru.lookup identity now (reconcile now policy items)).map .served id
      else (.served none, items)
  | .reconcilePolicy now policy =>
      if policy.Valid then (.accepted true, reconcile now policy items)
      else (.accepted false, items)
  | .insertSuccess identity result now policy =>
      (insert identity result now policy items).map .accepted id
  | .insertOutcome identity (.ok result) now policy =>
      (insert identity result now policy items).map .accepted id
  | .insertOutcome _ (.error _) _ _ => (.accepted false, items)
  | .len now => (.count (Lru.live now items).length, Lru.live now items)
  | .clear => (.count items.length, [])

/-- A sequence of operations, newest first, on the empty list. -/
def run : List CacheOp → List CacheEvent × List CachedItem
  | [] => ([], [])
  | op :: earlier =>
      let (events, items) := run earlier
      let (reply, items') := apply items op
      ((op, reply) :: events, items')

end LruList

/-! ## The listing of a cache -/

namespace JudgmentCache

def item? (c : JudgmentCache) (identity : JudgmentIdentity) :
    Option CachedItem :=
  (c.entries.lookup identity).map fun entry => entry.item identity

/-- The entries in queue order. -/
def listed (c : JudgmentCache) : List CachedItem := c.lru.filterMap c.item?

theorem item?_key {c : JudgmentCache} {identity : JudgmentIdentity}
    {item : CachedItem} (h : c.item? identity = some item) :
    item.key = identity := by
  obtain ⟨entry, -, rfl⟩ := Option.map_eq_some_iff.mp h
  rfl

theorem mem_listed {c : JudgmentCache} {item : CachedItem} :
    item ∈ c.listed ↔ item.key ∈ c.lru ∧ c.item? item.key = some item := by
  unfold listed
  rw [List.mem_filterMap]
  constructor
  · intro h
    obtain ⟨identity, hmem, hitem⟩ := h
    rw [item?_key hitem]
    exact ⟨hmem, hitem⟩
  · intro h
    exact ⟨item.key, h⟩

namespace Represents

variable {c : JudgmentCache}

theorem item?_isSome (hc : c.Represents) {identity : JudgmentIdentity}
    (h : identity ∈ c.lru) : ∃ item, c.item? identity = some item := by
  have hmem : identity ∈ c.entries := (hc.mem_lru identity).mp h
  obtain ⟨entry, hentry⟩ :=
    Option.isSome_iff_exists.mp (AList.lookup_isSome.mpr hmem)
  exact ⟨entry.item identity, by simp [item?, hentry]⟩

/-- The listing lists the queue. -/
theorem listed_keys (hc : c.Represents) :
    c.listed.map Lru.Item.key = c.lru := by
  have hkeys : ∀ queue : List JudgmentIdentity, (∀ k ∈ queue, k ∈ c.lru) →
      (queue.filterMap c.item?).map Lru.Item.key = queue := by
    intro queue hqueue
    induction queue with
    | nil => rfl
    | cons identity queue ih =>
        obtain ⟨item, hitem⟩ :=
          hc.item?_isSome (hqueue identity (List.mem_cons_self ..))
        have hrest := ih fun k hk => hqueue k (List.mem_cons_of_mem _ hk)
        rw [List.filterMap_cons_some hitem, List.map_cons, hrest,
          item?_key hitem]
  exact hkeys c.lru fun k hk => hk

theorem listed_length (hc : c.Represents) :
    c.listed.length = c.entries.keys.length := by
  rw [← hc.lru_perm.length_eq, ← hc.listed_keys, List.length_map]

/-- The account of the cache is the size of the listing. -/
theorem listed_bytes (hc : c.Represents) :
    Lru.bytes c.listed = c.estimatedBytes := by
  have hlisted : c.listed.Perm (c.entries.keys.filterMap c.item?) :=
    hc.lru_perm.filterMap c.item?
  have hrows : c.entries.keys.filterMap c.item? =
      c.entries.entries.map fun row => row.2.item row.1 := by
    have hread : ∀ rows : List (Σ _ : JudgmentIdentity, CacheEntry),
        (∀ row ∈ rows, row ∈ c.entries.entries) →
        rows.keys.filterMap c.item? = rows.map fun row => row.2.item row.1 := by
      intro rows hrows
      induction rows with
      | nil => rfl
      | cons row rows ih =>
          have hlookup : c.entries.lookup row.1 = some row.2 :=
            AList.mem_lookup_iff.mpr (hrows row (List.mem_cons_self ..))
          have hitem : c.item? row.1 = some (row.2.item row.1) := by
            simp [item?, hlookup]
          have hrest := ih fun r hr => hrows r (List.mem_cons_of_mem _ hr)
          rw [List.keys_cons, List.filterMap_cons_some hitem, hrest,
            List.map_cons]
    exact hread c.entries.entries fun row hrow => hrow
  calc
    Lru.bytes c.listed =
        ((c.entries.keys.filterMap c.item?).map Lru.Item.size).sum :=
      (hlisted.map Lru.Item.size).sum_eq
    _ = Table.total CacheEntry.estimatedBytes c.entries := by
      rw [hrows, List.map_map]
      rfl
    _ = c.estimatedBytes := hc.bytes_eq.symm

/-- Looking a key up in the listing is looking it up in the map. -/
theorem listed_find (hc : c.Represents) (identity : JudgmentIdentity) :
    (c.listed.find? fun item => item.key = identity) = c.item? identity := by
  cases hitem : c.item? identity with
  | none =>
      rw [List.find?_eq_none]
      intro item hmem hkey
      have hsame : item.key = identity := by simpa using hkey
      rw [mem_listed, hsame, hitem] at hmem
      exact absurd hmem.2 (by simp)
  | some item =>
      have hsome : (c.entries.lookup identity).isSome := by
        obtain ⟨entry, hentry, -⟩ := Option.map_eq_some_iff.mp hitem
        rw [hentry]
        rfl
      have hlru : identity ∈ c.lru :=
        (hc.mem_lru identity).mpr (AList.lookup_isSome.mp hsome)
      have hkey : item.key = identity := item?_key hitem
      have hmem : item ∈ c.listed :=
        mem_listed.mpr ⟨by rwa [hkey], by rwa [hkey]⟩
      obtain ⟨found, hfound⟩ : ∃ found, c.listed.find?
          (fun item => item.key = identity) = some found := by
        rw [← Option.isSome_iff_exists, List.find?_isSome]
        exact ⟨item, hmem, by simpa using hkey⟩
      have hsame : found.key = identity := by
        simpa using List.find?_some hfound
      have hfirst := (mem_listed.mp (List.mem_of_find?_eq_some hfound)).2
      rw [hsame, hitem] at hfirst
      rw [hfound, hfirst]

end Represents

/-! ## What the helpers do to the listing -/

section Helpers

variable {c : JudgmentCache}

theorem item?_remove (identity key : JudgmentIdentity) :
    (c.remove saturating identity).item? key =
      if key = identity then none else c.item? key := by
  have hentries : (c.remove saturating identity).entries.lookup key =
      if key = identity then none else c.entries.lookup key := by
    cases hlookup : c.entries.lookup identity with
    | none =>
        by_cases hkey : key = identity
        · subst hkey
          simp [remove, removeEntry, hlookup]
        · simp [remove, removeEntry, hlookup, hkey]
    | some entry =>
        by_cases hkey : key = identity
        · subst hkey
          simp [remove, removeEntry, hlookup]
        · simp [remove, removeEntry, hlookup, hkey, AList.lookup_erase_ne]
  unfold item?
  rw [hentries]
  by_cases hkey : key = identity
  · simp [hkey]
  · simp [hkey]

/-- Listing the queue without a key. -/
theorem filterMap_erase (hc : c.Represents) (identity : JudgmentIdentity) :
    (c.lru.erase identity).filterMap c.item? =
      Lru.without identity c.listed := by
  rw [hc.lru_nodup.erase_eq_filter, List.filterMap_filter, Lru.without,
    listed, List.filter_filterMap]
  refine List.filterMap_congr fun key _ => ?_
  cases hitem : c.item? key with
  | none => simp
  | some item =>
      have hkey : item.key = key := item?_key hitem
      by_cases hsame : key = identity
      · simp [Option.filter, hsame, hkey]
      · simp [Option.filter, hsame, hkey]

theorem listed_remove (hc : c.Represents) (identity : JudgmentIdentity) :
    (c.remove saturating identity).listed =
      Lru.without identity c.listed := by
  have hnot : ∀ key ∈ c.lru.erase identity, key ≠ identity := by
    intro key hkey hsame
    rw [hsame] at hkey
    exact hc.lru_nodup.not_mem_erase hkey
  rw [← filterMap_erase hc, listed, lru_remove]
  refine List.filterMap_congr fun key hkey => ?_
  rw [item?_remove, if_neg (hnot key hkey)]

theorem listed_touch (hc : c.Represents) {identity : JudgmentIdentity}
    {item : CachedItem} (hitem : c.item? identity = some item) :
    (c.touch identity).listed = Lru.without identity c.listed ++ [item] := by
  have hsame : (c.touch identity).item? = c.item? := rfl
  rw [listed, touch]
  change (c.lru.erase identity ++ [identity]).filterMap c.item? = _
  rw [List.filterMap_append, filterMap_erase hc]
  simp [hitem]

theorem listed_tighten (ttl : ℕ) :
    (c.tighten ttl).listed = c.listed.map (LruList.tightenItem ttl) := by
  have hitem : ∀ key, (c.tighten ttl).item? key =
      (c.item? key).map (LruList.tightenItem ttl) := by
    intro key
    cases hlookup : c.entries.lookup key with
    | none => simp [item?, tighten, hlookup]
    | some entry =>
        by_cases hrange : entry.insertedAt + ttl ≤ instantMax
        · simp [item?, tighten, hlookup, CacheEntry.tighten, CacheEntry.item,
            LruList.tightenItem, checkedAdd, hrange]
        · simp [item?, tighten, hlookup, CacheEntry.tighten, CacheEntry.item,
            LruList.tightenItem, checkedAdd, hrange]
  unfold listed
  rw [List.map_filterMap]
  exact List.filterMap_congr fun key _ => hitem key

/-- Removing keys one by one. -/
theorem listed_removeAll (hc : c.Represents) (keys : List JudgmentIdentity) :
    (keys.foldl (fun c key => (c.remove saturating key).expired) c).listed =
      c.listed.filter fun item => item.key ∉ keys := by
  induction keys generalizing c with
  | nil => simp
  | cons key keys ih =>
      obtain ⟨hremove, -, -⟩ := remove_spec saturating_faithful hc key
      have hfirst : (c.remove saturating key).expired.listed =
          Lru.without key c.listed := listed_remove hc key
      rw [List.foldl_cons, ih hremove.expired, hfirst, Lru.without,
        List.filter_filter]
      refine List.filter_congr fun item _ => ?_
      simp [not_or, Bool.and_comm]

theorem mem_expiredKeys {now : ℕ} {item : CachedItem}
    (h : item ∈ c.listed) :
    item.key ∈ c.expiredKeys now ↔ item.expiresAt ≤ now := by
  obtain ⟨entry, hentry, hitem⟩ :=
    Option.map_eq_some_iff.mp (mem_listed.mp h).2
  have hexpiry : item.expiresAt = entry.expiresAt := by rw [← hitem]; rfl
  have hrow : ∀ entry', (⟨item.key, entry'⟩ : Σ _ : JudgmentIdentity,
      CacheEntry) ∈ c.entries.entries → entry' = entry := by
    intro entry' hrow
    have hlookup : c.entries.lookup item.key = some entry' :=
      AList.mem_lookup_iff.mpr hrow
    exact Option.some.inj (hlookup.symm.trans hentry)
  rw [expiredKeys, List.mem_map, hexpiry]
  constructor
  · intro h
    obtain ⟨row, hmem, hkey⟩ := h
    obtain ⟨hrows, hle⟩ := List.mem_filter.mp hmem
    have hsame : row.2 = entry := hrow row.2 (by rw [← hkey]; exact hrows)
    rw [← hsame]
    simpa using hle
  · intro hle
    have hmem : (⟨item.key, entry⟩ : Σ _ : JudgmentIdentity, CacheEntry) ∈
        c.entries.entries := AList.mem_lookup_iff.mp hentry
    exact ⟨_, List.mem_filter.mpr ⟨hmem, by simpa using hle⟩, rfl⟩

theorem listed_pruneExpired (hc : c.Represents) (now : ℕ) :
    (c.pruneExpired saturating now).listed = Lru.live now c.listed := by
  rw [pruneExpired, listed_removeAll hc]
  refine List.filter_congr fun item hitem => ?_
  simp only [mem_expiredKeys hitem, not_le]

theorem remove_remove (c : JudgmentCache) (key key' : JudgmentIdentity) :
    (c.remove saturating key).remove saturating key' =
      (c.remove saturating key').remove saturating key := by
  by_cases hsame : key = key'
  · rw [hsame]
  · have hother : key' ≠ key := fun hkey => hsame hkey.symm
    have hlru : (c.lru.erase key).erase key' = (c.lru.erase key').erase key :=
      List.erase_comm key key'
    cases hkey : c.entries.lookup key with
    | none =>
        cases hkey' : c.entries.lookup key' with
        | none => simp [remove, removeEntry, hkey, hkey', hlru]
        | some entry' =>
            simp [remove, removeEntry, hkey, hkey', hlru,
              AList.lookup_erase_ne hsame]
    | some entry =>
        cases hkey' : c.entries.lookup key' with
        | none =>
            simp [remove, removeEntry, hkey, hkey', hlru,
              AList.lookup_erase_ne hother]
        | some entry' =>
            simp [remove, removeEntry, hkey, hkey', hlru,
              AList.lookup_erase_ne hsame, AList.lookup_erase_ne hother,
              AList.erase_erase key key', saturating, Nat.sub_right_comm]

theorem expired_remove (c : JudgmentCache) (key : JudgmentIdentity) :
    c.expired.remove saturating key = (c.remove saturating key).expired := by
  cases hkey : c.entries.lookup key with
  | none => simp [remove, removeEntry, JudgmentCache.expired, hkey]
  | some entry => simp [remove, removeEntry, JudgmentCache.expired, hkey]

/-- The expired keys may be visited in any order. -/
theorem removeAll_perm {keys keys' : List JudgmentIdentity}
    (h : keys.Perm keys') :
    keys.foldl (fun c key => (c.remove saturating key).expired) c =
      keys'.foldl (fun c key => (c.remove saturating key).expired) c := by
  refine h.foldl_eq' (fun key _ key' _ c => ?_) c
  rw [expired_remove, expired_remove, remove_remove]

/-- An eviction loop leaves the longest suffix which stops it. -/
theorem listed_evictWhile {exceeds : ℕ → ℕ → Bool}
    {fits : List CachedItem → Bool}
    (hover : ∀ items : List CachedItem,
      exceeds items.length (Lru.bytes items) = !fits items)
    {queue : List JudgmentIdentity} (hc : c.Represents) (hlru : c.lru = queue) :
    (c.evictWhile saturating exceeds queue).2.listed =
      Lru.longestSuffix fits c.listed := by
  induction queue generalizing c with
  | nil =>
      have hnone : c.listed = [] := by rw [listed, hlru]; rfl
      rw [hnone, Lru.longestSuffix_nil]
      rfl
  | cons oldest rest ih =>
      have hcond : exceeds c.entries.keys.length c.estimatedBytes =
          !fits c.listed := by
        rw [← hc.listed_length, ← hc.listed_bytes]
        exact hover c.listed
      rw [evictWhile, hcond]
      cases hfits : fits c.listed with
      | true =>
          have hsame :
              ({ c with lru := oldest :: rest } : JudgmentCache) = c := by
            rw [← hlru]
          rw [Lru.longestSuffix_of_fits hfits, ← hsame]
          rfl
      | false =>
          obtain ⟨hremove, -, -⟩ := remove_spec saturating_faithful hc oldest
          have hrest : (c.remove saturating oldest).evicted.lru = rest := by
            simp [JudgmentCache.evicted, lru_remove, hlru]
          have hmem : oldest ∈ c.lru := by simp [hlru]
          obtain ⟨item, hitem⟩ := hc.item?_isSome hmem
          have hlisted : c.listed = item :: rest.filterMap c.item? := by
            rw [listed, hlru, List.filterMap_cons_some hitem]
          have htail : (c.remove saturating oldest).evicted.listed =
              rest.filterMap c.item? := by
            have hwithout := filterMap_erase hc oldest
            rw [hlru, List.erase_cons_head] at hwithout
            rw [hwithout]
            exact listed_remove hc oldest
          rw [hlisted] at hfits
          rw [hlisted, Lru.longestSuffix_cons_of_not hfits, ← htail,
            ← ih hremove.evicted hrest, ← pop_eq_remove hlru]
          rfl

/-- Storing a fresh key appends its item. -/
theorem listed_store {identity : JudgmentIdentity} (entry : CacheEntry)
    (hfresh : identity ∉ c.lru) :
    (c.store saturating identity entry).listed =
      c.listed ++ [entry.item identity] := by
  have hnew : (c.store saturating identity entry).item? identity =
      some (entry.item identity) := by
    simp [item?, store]
  have hold : ∀ key ∈ c.lru,
      (c.store saturating identity entry).item? key = c.item? key := by
    intro key hkey
    have hne : key ≠ identity := fun hsame => hfresh (by rwa [← hsame])
    simp [item?, store, AList.lookup_insert_ne hne]
  unfold listed
  change (c.lru ++ [identity]).filterMap _ = _
  rw [List.filterMap_append, List.filterMap_congr hold,
    List.filterMap_cons_some hnew, List.filterMap_nil]

end Helpers

/-! ## What the operations do to the listing -/

section Operations

variable {c : JudgmentCache}

theorem lookup_listed (hc : c.Represents) (identity : JudgmentIdentity)
    (now : ℕ) :
    ((c.lookup saturating identity now).1,
        (c.lookup saturating identity now).2.listed) =
      Lru.lookup identity now c.listed := by
  unfold Lru.lookup
  rw [hc.listed_find]
  cases hlookup : c.entries.lookup identity with
  | none =>
      have hitem : c.item? identity = none := by simp [item?, hlookup]
      simp [lookup, hlookup, hitem]
  | some entry =>
      have hitem : c.item? identity = some (entry.item identity) := by
        simp [item?, hlookup]
      rw [hitem]
      by_cases hexpired : entry.expiresAt ≤ now
      · have hlisted : (c.remove saturating identity).expired.listed =
            Lru.without identity c.listed := listed_remove hc identity
        simp [lookup, hlookup, hexpired, CacheEntry.item, hlisted]
      · have hlisted := listed_touch hc hitem
        simp [lookup, hlookup, hexpired, CacheEntry.item, hlisted]

theorem overLimits_eq (policy : CachePolicy) (items : List CachedItem) :
    overLimits policy items.length (Lru.bytes items) =
      !policy.limits.allow items := by
  have hallow : policy.limits.allow items = true ↔
      items.length ≤ policy.maxEntries ∧
        Lru.bytes items ≤ policy.maxBytes := Lru.Limits.allow_iff
  rw [Bool.eq_iff_iff, Bool.not_eq_true', ← Bool.not_eq_true, hallow]
  simp only [overLimits, Bool.or_eq_true, decide_eq_true_eq]
  omega

theorem reconcile_listed (hc : c.Represents) (now : ℕ) {policy : CachePolicy}
    (hvalid : policy.validate = .ok ()) :
    (c.reconcilePolicy saturating now policy).2.listed =
      LruList.reconcile now policy c.listed := by
  obtain ⟨hprune, -⟩ :=
    pruneExpired_spec saturating_faithful (hc.tighten policy.ttl) now
  unfold reconcilePolicy
  rw [hvalid]
  change (evictOver saturating _ policy).2.listed = _
  rw [evictOver, listed_evictWhile (overLimits_eq policy) hprune rfl,
    listed_pruneExpired (hc.tighten policy.ttl), listed_tighten]
  rfl

/-- Below the admitted limits, the saturating sum is the sum. -/
theorem lacksRoom_eq {policy : CachePolicy} (hmax : policy.maxBytes ≤ i64Max)
    (item : CachedItem) (items : List CachedItem) :
    lacksRoom saturating policy item.size items.length (Lru.bytes items) =
      !policy.limits.allowWith item items := by
  have hallow : policy.limits.allowWith item items = true ↔
      items.length + 1 ≤ policy.maxEntries ∧
        Lru.bytes items + item.size ≤ policy.maxBytes :=
    Lru.Limits.allowWith_iff
  have hrange : policy.maxBytes < usizeMax := by
    unfold i64Max at hmax
    unfold usizeMax
    omega
  have hbytes : policy.maxBytes <
      saturating.add (Lru.bytes items) item.size ↔
        policy.maxBytes < Lru.bytes items + item.size := by
    change policy.maxBytes < min _ usizeMax ↔ _
    omega
  rw [Bool.eq_iff_iff, Bool.not_eq_true', ← Bool.not_eq_true, hallow]
  simp only [lacksRoom, Bool.or_eq_true, decide_eq_true_eq, hbytes]
  omega

theorem insert_listed (hc : c.Represents) (identity : JudgmentIdentity)
    (result : JudgmentResult) (now : ℕ) {policy : CachePolicy}
    (hmax : policy.maxBytes ≤ i64Max) :
    ((c.insertSuccess saturating identity result now policy).1,
        (c.insertSuccess saturating identity result now policy).2.listed) =
      LruList.insert identity result now policy c.listed := by
  unfold LruList.insert
  by_cases hdo : policy.Valid ∧ now + policy.ttl ≤ instantMax
  · obtain ⟨hpolicy, hrange⟩ := hdo
    have hvalid := CachePolicy.valid_iff.mp hpolicy
    have hexpiry : checkedAdd now policy.ttl = some (now + policy.ttl) :=
      if_pos hrange
    obtain ⟨hrec, hwithin, -⟩ :=
      reconcile_spec saturating_faithful hc now policy
    have hlimits := hwithin (reconcile_true hvalid now)
    obtain ⟨hremove, -, hentries⟩ :=
      remove_spec saturating_faithful hrec identity
    have hrest : ((c.reconcilePolicy saturating now policy).2.remove saturating
        identity).listed = Lru.without identity
          (LruList.reconcile now policy c.listed) := by
      rw [listed_remove hrec, reconcile_listed hc now hvalid]
    rw [if_pos ⟨hpolicy, hrange⟩, insertSuccess, hvalid, hexpiry]
    by_cases hsize : policy.maxBytes < estimatedEntryBytes identity result
    · simp only [Lru.put, LruList.newItem, CachePolicy.limits, hsize, if_true,
        hrest]
    · have hfresh : identity ∉ ((c.reconcilePolicy saturating now
          policy).2.remove saturating identity).entries := by
        rw [hentries]
        exact fun hmem => (AList.mem_erase.mp hmem).1 rfl
      obtain ⟨made, hmade, -, -, -, -⟩ :=
        makeRoom_store_spec saturating_faithful hremove hvalid hmax
          ((remove_bytes_le saturating_faithful hrec identity).trans
            hlimits.2) hfresh
          ⟨result, now, now + policy.ttl, estimatedEntryBytes identity result⟩
          (not_lt.mp hsize)
      obtain ⟨-, hmadeRep, -⟩ := makeRoom_spec saturating_faithful hremove
        hvalid hmax ((remove_bytes_le saturating_faithful hrec identity).trans
          hlimits.2) (not_lt.mp hsize)
      have hkept : made.listed = Lru.longestSuffix
          (policy.limits.allowWith
            (LruList.newItem identity result now policy))
          (Lru.without identity (LruList.reconcile now policy c.listed)) := by
        have hloop := listed_evictWhile (lacksRoom_eq hmax
          (LruList.newItem identity result now policy)) hremove rfl
        rw [hrest] at hloop
        rw [← hloop]
        exact congrArg (fun out => listed out.2) hmade.symm
      simp only at hmade
      have hnew : identity ∉ made.lru := by
        intro hmem
        rw [hmade] at hmadeRep
        have hstored : identity ∈ made.entries :=
          (hmadeRep.mem_lru identity).mp hmem
        have hmadeCache := congrArg Prod.snd hmade
        simp only at hmadeCache
        rw [← hmadeCache] at hstored
        exact hfresh (evictWhile_mem hstored)
      simp only [hmade, hsize, if_false, Lru.put, LruList.newItem,
        CachePolicy.limits, listed_store _ hnew, hkept, CacheEntry.item]
  · rw [if_neg hdo]
    have hnone : ¬ (policy.validate = .ok () ∧
        now + policy.ttl ≤ instantMax) := by
      rw [← CachePolicy.valid_iff]
      exact hdo
    obtain ⟨-, hsame⟩ | ⟨hdoes, -⟩ :=
      insert_cases (A := saturating) c identity result now policy
    · rw [hsame]
    · exact absurd hdoes hnone

end Operations

end JudgmentCache

/-! ## Runs of operations -/

/-- One operation does to the listing what it does to the list. -/
theorem CacheOp.apply_listed {c : JudgmentCache} (hc : c.Represents)
    (op : CacheOp) (hop : op.ByteLimited) :
    ((op.apply saturating c).1, (op.apply saturating c).2.listed) =
      LruList.apply c.listed op := by
  cases op with
  | lookup identity now =>
      have hlookup := JudgmentCache.lookup_listed hc identity now
      simp only [apply, LruList.apply, ← hlookup, Prod.map]
      rfl
  | lookupWithPolicy identity now policy =>
      by_cases hvalid : policy.Valid
      · have hpolicy := CachePolicy.valid_iff.mp hvalid
        obtain ⟨hrec, -, -⟩ :=
          JudgmentCache.reconcile_spec saturating_faithful hc now policy
        have hlookup := JudgmentCache.lookup_listed hrec identity now
        rw [JudgmentCache.reconcile_listed hc now hpolicy] at hlookup
        have htrue : c.reconcilePolicy saturating now policy =
            (true, (c.reconcilePolicy saturating now policy).2) :=
          Prod.ext (JudgmentCache.reconcile_true hpolicy now) rfl
        simp only [apply, LruList.apply, hvalid, if_true, ← hlookup, Prod.map]
        rw [JudgmentCache.lookupWithPolicy, htrue]
        rfl
      · have hpolicy : policy.validate ≠ .ok () :=
          fun h => hvalid (CachePolicy.valid_iff.mpr h)
        simp [apply, LruList.apply, hvalid, JudgmentCache.lookupWithPolicy,
          JudgmentCache.reconcile_invalid hpolicy]
  | reconcilePolicy now policy =>
      by_cases hvalid : policy.Valid
      · have hpolicy := CachePolicy.valid_iff.mp hvalid
        simp [apply, LruList.apply, hvalid,
          JudgmentCache.reconcile_listed hc now hpolicy,
          JudgmentCache.reconcile_true hpolicy now]
      · have hpolicy : policy.validate ≠ .ok () :=
          fun h => hvalid (CachePolicy.valid_iff.mpr h)
        simp [apply, LruList.apply, hvalid,
          JudgmentCache.reconcile_invalid hpolicy]
  | insertSuccess identity result now policy =>
      have hinsert := JudgmentCache.insert_listed hc identity result now
        (hop policy rfl)
      simp only [apply, LruList.apply, ← hinsert, Prod.map]
      rfl
  | insertOutcome identity outcome now policy =>
      cases outcome with
      | error e => simp [apply, LruList.apply, JudgmentCache.insertOutcome]
      | ok result =>
          have hinsert := JudgmentCache.insert_listed hc identity result now
            (hop policy rfl)
          simp only [apply, LruList.apply, JudgmentCache.insertOutcome,
            ← hinsert, Prod.map]
          rfl
  | len now =>
      obtain ⟨hprune, -⟩ :=
        JudgmentCache.pruneExpired_spec saturating_faithful hc now
      have hlisted := JudgmentCache.listed_pruneExpired hc now
      simp only [apply, LruList.apply, JudgmentCache.len, Prod.map, id,
        ← hlisted, hprune.listed_length]
  | clear =>
      simp only [apply, LruList.apply, JudgmentCache.clear, Prod.map, id,
        hc.listed_length]
      rfl

theorem CacheOp.run_listed (ops : List CacheOp)
    (hops : ∀ op ∈ ops, op.ByteLimited) :
    LruList.run ops = ((CacheOp.run saturating ops).1,
      (CacheOp.run saturating ops).2.listed) := by
  induction ops with
  | nil => rfl
  | cons op earlier ih =>
      have hearlier : ∀ op' ∈ earlier, op'.ByteLimited :=
        fun op' hop' => hops op' (List.mem_cons_of_mem _ hop')
      obtain ⟨hrep, -⟩ := CacheOp.run_spec saturating_faithful earlier hearlier
      have hstep :=
        CacheOp.apply_listed hrep op (hops op (List.mem_cons_self ..))
      simp only [LruList.run, CacheOp.run, ih hearlier, ← hstep]

/-- The result last stored under an identity; events are listed newest
first. -/
def lastStored (events : List CacheEvent) (identity : JudgmentIdentity) :
    Option JudgmentResult :=
  ((events.filterMap CacheEvent.stores).find? fun stored =>
    stored.1 = identity).map fun stored => stored.2.1

theorem StoredIn.lastStored {events : List CacheEvent}
    {identity : JudgmentIdentity} {entry : CacheEntry}
    (h : StoredIn events identity entry) :
    lastStored events identity = some entry.result := by
  obtain ⟨later, event, earlier, policy, rfl, hstores, -, hlater⟩ := h
  have hnone : (later.filterMap CacheEvent.stores).find?
      (fun stored => stored.1 = identity) = none := by
    rw [List.find?_eq_none]
    intro stored hstored
    obtain ⟨event', hevent, hstored⟩ := List.mem_filterMap.mp hstored
    simpa using (hlater event' hevent).1 stored hstored
  simp [DuckJeu.lastStored, hnone, hstores]

section Refinement

variable {c : JudgmentCache}

theorem JudgmentCache.reconcile_shortest (hc : c.Represents) (now : ℕ)
    {policy : CachePolicy} (hvalid : policy.Valid) :
    Lru.ShortestEviction policy.limits.allow
      (LruList.survivors now policy c.listed)
      (c.reconcilePolicy saturating now policy).2.listed := by
  rw [JudgmentCache.reconcile_listed hc now (CachePolicy.valid_iff.mp hvalid)]
  exact Lru.longestSuffix_shortest (Lru.Limits.allow_nil policy.limits) _

theorem JudgmentCache.insert_shortest (hc : c.Represents)
    (identity : JudgmentIdentity) (result : JudgmentResult) {now : ℕ}
    {policy : CachePolicy} (hvalid : policy.Valid)
    (hrange : now + policy.ttl ≤ instantMax)
    (hmax : policy.maxBytes ≤ i64Max)
    (hsize : estimatedEntryBytes identity result ≤ policy.maxBytes) :
    ∃ kept,
      (c.insertSuccess saturating identity result now policy).2.listed =
          kept ++ [LruList.newItem identity result now policy] ∧
        Lru.ShortestEviction
          (policy.limits.allowWith
            (LruList.newItem identity result now policy))
          (Lru.without identity
            (c.reconcilePolicy saturating now policy).2.listed) kept := by
  have hpolicy := CachePolicy.valid_iff.mp hvalid
  have hempty : policy.limits.allowWith
      (LruList.newItem identity result now policy) [] = true := by
    rw [Lru.Limits.allowWith_iff]
    have hcount := hvalid.1
    simp only [LruList.newItem, CachePolicy.limits, List.length_nil,
      Lru.bytes_nil]
    omega
  have hfits : ¬ policy.limits.bytes <
      (LruList.newItem identity result now policy).size := not_lt.mpr hsize
  have hinsert := JudgmentCache.insert_listed hc identity result now hmax
  rw [LruList.insert, if_pos ⟨hvalid, hrange⟩, Lru.put, if_neg hfits]
    at hinsert
  refine ⟨_, congrArg Prod.snd hinsert, ?_⟩
  rw [JudgmentCache.reconcile_listed hc now hpolicy]
  exact Lru.longestSuffix_shortest hempty _

end Refinement

/-- After any sequence of operations within the admitted byte limits, the
replies and the entries are those of the plain LRU list: the queue lists every
entry once, and count and account are those of the list.  A served result is
the one last stored.  Reconciling and inserting evict the shortest front
prefix which restores the limits, or which makes the new entry fit; and it
does not matter in which order the expired keys are visited. -/
theorem cacheRun_refines_lru (ops : List CacheOp)
    (hops : ∀ op ∈ ops, op.ByteLimited) :
    let c := (CacheOp.run saturating ops).2
    LruList.run ops = ((CacheOp.run saturating ops).1, c.listed) ∧
      (c.listed.map Lru.Item.key).Nodup ∧
      (∀ identity, (c.listed.find? fun item => item.key = identity) =
        (c.entries.lookup identity).map fun entry => entry.item identity) ∧
      c.listed.length = c.entries.keys.length ∧
      Lru.bytes c.listed = c.estimatedBytes ∧
      (∀ identity now result,
        (c.lookup saturating identity now).1 = some result →
          lastStored (CacheOp.run saturating ops).1 identity =
            some result) ∧
      (∀ (policy : CachePolicy) (now : ℕ), policy.Valid →
        Lru.ShortestEviction policy.limits.allow
          (LruList.survivors now policy c.listed)
          (c.reconcilePolicy saturating now policy).2.listed) ∧
      (∀ (identity : JudgmentIdentity) (result : JudgmentResult) (now : ℕ)
          (policy : CachePolicy),
        policy.Valid → now + policy.ttl ≤ instantMax →
        policy.maxBytes ≤ i64Max →
        estimatedEntryBytes identity result ≤ policy.maxBytes →
        ∃ kept,
          (c.insertSuccess saturating identity result now policy).2.listed =
              kept ++ [LruList.newItem identity result now policy] ∧
            Lru.ShortestEviction
              (policy.limits.allowWith
                (LruList.newItem identity result now policy))
              (Lru.without identity
                (c.reconcilePolicy saturating now policy).2.listed) kept) ∧
      ∀ (now : ℕ) (keys : List JudgmentIdentity),
        keys.Perm (c.expiredKeys now) →
          keys.foldl (fun c key => (c.remove saturating key).expired) c =
            c.pruneExpired saturating now := by
  intro c
  obtain ⟨hc, -⟩ := CacheOp.run_spec saturating_faithful ops hops
  refine ⟨CacheOp.run_listed ops hops, ?_, hc.listed_find, hc.listed_length,
    hc.listed_bytes, ?_, ?_, ?_, ?_⟩
  · rw [hc.listed_keys]
    exact hc.lru_nodup
  · intro identity now result hserved
    obtain ⟨entry, hentry, hresult, -⟩ := JudgmentCache.lookup_served hserved
    rw [← hresult]
    exact (CacheOp.run_storedIn saturating ops hentry).lastStored
  · intro policy now hvalid
    exact JudgmentCache.reconcile_shortest hc now hvalid
  · intro identity result now policy hvalid hrange hmax hsize
    exact JudgmentCache.insert_shortest hc identity result hvalid hrange hmax
      hsize
  · intro now keys hkeys
    exact JudgmentCache.removeAll_perm hkeys

/-- Two entries, the older one looked up last, and a third insertion into a
cache of two. -/
theorem cacheRun_refines_lru_evicting :
    let ops : List CacheOp :=
      [.insertSuccess (textIdentity "c") (.noul .one) 6 ⟨2, 4096, 10⟩,
        .lookup (textIdentity "a") 5,
        .insertSuccess (textIdentity "b") (.noul .one) 4 ⟨2, 4096, 10⟩,
        .insertSuccess (textIdentity "a") (.noul .half) 3 ⟨2, 4096, 10⟩]
    (CacheOp.run saturating ops).2.lru =
        [textIdentity "a", textIdentity "c"] ∧
      LruList.run ops = ((CacheOp.run saturating ops).1,
        (CacheOp.run saturating ops).2.listed) := by
  intro ops
  have hops : ∀ op ∈ ops, op.ByteLimited := by
    simp [ops, CacheOp.ByteLimited, CacheOp.policy?, i64Max]
  exact ⟨by decide, (cacheRun_refines_lru ops hops).1⟩

end DuckJeu
