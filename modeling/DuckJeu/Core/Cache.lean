import DuckJeu.Core.Judgment
import DuckJeu.Support.Table

/-!
# The judgment cache

This module follows `cache.rs`: a bounded cache with expiry, LRU eviction and
byte accounting.  Instants and durations are numbers of nanoseconds, and
`usize` values are natural numbers below `2 ^ 64`.

The two saturating operations on the byte account are a parameter, so that
their clipping can be talked about: `saturating` is what the source uses, and
an accounting is `Faithful` if it agrees with the plain operations wherever
these stay in range, and does anything elsewhere.
-/

namespace DuckJeu

/-! ## Machine arithmetic -/

def usizeMax : ℕ := 2 ^ 64 - 1

def i64Max : ℕ := 2 ^ 63 - 1

/-- `usize::saturating_add`. -/
def satAdd (a b : ℕ) : ℕ := min (a + b) usizeMax

/-- `usize::saturating_mul`. -/
def satMul (a b : ℕ) : ℕ := min (a * b) usizeMax

/-- The saturating operations on the byte account. -/
structure Accounting where
  add : ℕ → ℕ → ℕ
  sub : ℕ → ℕ → ℕ

def saturating : Accounting where
  add := satAdd
  sub := fun a b => a - b

/-- Agreement with the plain operations wherever nothing clips. -/
structure Accounting.Faithful (A : Accounting) : Prop where
  add_eq : ∀ a b, a + b ≤ usizeMax → A.add a b = a + b
  sub_eq : ∀ a b, b ≤ a → A.sub a b = a - b

theorem saturating_faithful : saturating.Faithful where
  add_eq := fun _ _ h => Nat.min_eq_left h
  sub_eq := fun _ _ _ => rfl

/-- The last representable instant: a signed 64-bit count of seconds. -/
def instantMax : ℕ := 2 ^ 63 * 10 ^ 9 - 1

/-- `Instant::checked_add`. -/
def checkedAdd (now ttl : ℕ) : Option ℕ :=
  if now + ttl ≤ instantMax then some (now + ttl) else none

/-! ## Policies and entries -/

structure CachePolicy where
  maxEntries : ℕ
  maxBytes : ℕ
  ttl : ℕ
  deriving DecidableEq

def CachePolicy.validate (policy : CachePolicy) : Except JudgmentError Unit :=
  if policy.maxEntries = 0 ∨ policy.maxBytes = 0 ∨ policy.ttl = 0 then
    .error (.configuration
      "cache entry, byte, and TTL limits must be positive")
  else .ok ()

structure CacheCounters where
  expirations : ℕ := 0
  evictions : ℕ := 0
  deriving DecidableEq

structure CacheEntry where
  result : JudgmentResult
  insertedAt : ℕ
  expiresAt : ℕ
  estimatedBytes : ℕ
  deriving DecidableEq

/-- Let the entry expire no later than under the given lifetime. -/
def CacheEntry.tighten (entry : CacheEntry) (ttl : ℕ) : CacheEntry :=
  match checkedAdd entry.insertedAt ttl with
  | some policyExpiry =>
      { entry with expiresAt := min entry.expiresAt policyExpiry }
  | none => entry

structure JudgmentCache where
  entries : Table.Map JudgmentIdentity CacheEntry := ∅
  lru : List JudgmentIdentity := []
  estimatedBytes : ℕ := 0
  counters : CacheCounters := {}

/-- Conservative accounting for key data, result payload and bookkeeping. -/
def estimatedEntryBytes (identity : JudgmentIdentity)
    (result : JudgmentResult) : ℕ :=
  let textBytes :=
    satAdd
      (satAdd
        (satAdd
          (satAdd
            (satAdd
              (satAdd (identity.criterion.elim 0 String.utf8ByteSize)
                (identity.question.elim 0 String.utf8ByteSize))
              (identity.choices.foldl
                (fun sum value => satAdd sum value.utf8ByteSize) 0))
            identity.providerNamespace.utf8ByteSize)
          identity.endpoint.utf8ByteSize)
        identity.requestedModel.utf8ByteSize)
      (identity.effectiveModel.elim 0 String.utf8ByteSize)
  let resultBytes :=
    match result with
    | .noul _ => 8
    | .choice label => label.utf8ByteSize
  satAdd
    (satAdd (satAdd 512 (satMul identity.canonicalBytes.length 6))
      (satMul textBytes 6))
    resultBytes

namespace JudgmentCache

variable (A : Accounting)

/-! ## Removal, recency and expiry -/

def expired (c : JudgmentCache) : JudgmentCache :=
  { c with counters :=
      { c.counters with expirations := satAdd c.counters.expirations 1 } }

def evicted (c : JudgmentCache) : JudgmentCache :=
  { c with counters :=
      { c.counters with evictions := satAdd c.counters.evictions 1 } }

def removeEntry (c : JudgmentCache) (identity : JudgmentIdentity) :
    JudgmentCache :=
  match c.entries.lookup identity with
  | none => c
  | some entry =>
      { c with
        entries := c.entries.erase identity
        estimatedBytes := A.sub c.estimatedBytes entry.estimatedBytes }

def remove (c : JudgmentCache) (identity : JudgmentIdentity) :
    JudgmentCache :=
  let c := c.removeEntry A identity
  { c with lru := c.lru.erase identity }

def touch (c : JudgmentCache) (identity : JudgmentIdentity) :
    JudgmentCache :=
  { c with lru := c.lru.erase identity ++ [identity] }

/-- The keys of the entries which have expired. -/
def expiredKeys (c : JudgmentCache) (now : ℕ) : List JudgmentIdentity :=
  (c.entries.entries.filter fun row => row.2.expiresAt ≤ now).map (·.1)

def pruneExpired (c : JudgmentCache) (now : ℕ) : JudgmentCache :=
  (c.expiredKeys now).foldl
    (fun c identity => (c.remove A identity).expired) c

def tighten (c : JudgmentCache) (ttl : ℕ) : JudgmentCache :=
  { c with
    entries := Table.mapValues (fun entry => entry.tighten ttl) c.entries }

/-! ## Eviction -/

/-- An eviction loop: while `exceeds` holds of the entry count and the byte
account, take the oldest key off the queue and remove its entry.  The second
argument is the queue, along which the loop runs.  The flag is false when the
queue ran empty while `exceeds` still held. -/
def evictWhile (exceeds : ℕ → ℕ → Bool) (c : JudgmentCache) :
    List JudgmentIdentity → Bool × JudgmentCache
  | [] =>
      (!exceeds c.entries.keys.length c.estimatedBytes, { c with lru := [] })
  | oldest :: rest =>
      if exceeds c.entries.keys.length c.estimatedBytes then
        evictWhile exceeds
          (({ c with lru := rest } : JudgmentCache).removeEntry A
            oldest).evicted
          rest
      else (true, { c with lru := oldest :: rest })

def overLimits (policy : CachePolicy) (entries bytes : ℕ) : Bool :=
  policy.maxEntries < entries || policy.maxBytes < bytes

def lacksRoom (policy : CachePolicy) (size entries bytes : ℕ) : Bool :=
  policy.maxEntries ≤ entries || policy.maxBytes < A.add bytes size

/-- The eviction loop of `reconcile_policy`. -/
def evictOver (c : JudgmentCache) (policy : CachePolicy) :
    Bool × JudgmentCache :=
  c.evictWhile A (overLimits policy) c.lru

/-- The eviction loop of `insert_success`. -/
def makeRoom (c : JudgmentCache) (policy : CachePolicy) (size : ℕ) :
    Bool × JudgmentCache :=
  c.evictWhile A (lacksRoom A policy size) c.lru

/-! ## Operations -/

def lookup (c : JudgmentCache) (identity : JudgmentIdentity) (now : ℕ) :
    Option JudgmentResult × JudgmentCache :=
  match c.entries.lookup identity with
  | none => (none, c)
  | some entry =>
      if entry.expiresAt ≤ now then (none, (c.remove A identity).expired)
      else (some entry.result, c.touch identity)

/-- Expire under the given lifetime and evict down to the limits.  The answer
is false for an invalid policy. -/
def reconcilePolicy (c : JudgmentCache) (now : ℕ) (policy : CachePolicy) :
    Bool × JudgmentCache :=
  match policy.validate with
  | .error _ => (false, c)
  | .ok () =>
      let c := (c.tighten policy.ttl).pruneExpired A now
      (true, (c.evictOver A policy).2)

def lookupWithPolicy (c : JudgmentCache) (identity : JudgmentIdentity)
    (now : ℕ) (policy : CachePolicy) :
    Option JudgmentResult × JudgmentCache :=
  match c.reconcilePolicy A now policy with
  | (false, c) => (none, c)
  | (true, c) => c.lookup A identity now

/-- Append a new entry at the recent end of the queue. -/
def store (c : JudgmentCache) (identity : JudgmentIdentity)
    (entry : CacheEntry) : JudgmentCache :=
  { c with
    estimatedBytes := A.add c.estimatedBytes entry.estimatedBytes
    lru := c.lru ++ [identity]
    entries := c.entries.insert identity entry }

def insertSuccess (c : JudgmentCache) (identity : JudgmentIdentity)
    (result : JudgmentResult) (now : ℕ) (policy : CachePolicy) :
    Bool × JudgmentCache :=
  match policy.validate with
  | .error _ => (false, c)
  | .ok () =>
      match checkedAdd now policy.ttl with
      | none => (false, c)
      | some expiresAt =>
          let c := (c.reconcilePolicy A now policy).2
          let size := estimatedEntryBytes identity result
          if policy.maxBytes < size then (false, c.remove A identity)
          else
            match (c.remove A identity).makeRoom A policy size with
            | (false, c) => (false, c)
            | (true, c) => (true, c.store A identity
                { result := result
                  insertedAt := now
                  expiresAt := expiresAt
                  estimatedBytes := size })

/-- Failures are not stored. -/
def insertOutcome (c : JudgmentCache) (identity : JudgmentIdentity)
    (outcome : Except JudgmentError JudgmentResult) (now : ℕ)
    (policy : CachePolicy) : Bool × JudgmentCache :=
  match outcome with
  | .error _ => (false, c)
  | .ok result => c.insertSuccess A identity result now policy

def clear (c : JudgmentCache) : ℕ × JudgmentCache :=
  (c.entries.keys.length,
    { c with entries := ∅, lru := [], estimatedBytes := 0 })

def len (c : JudgmentCache) (now : ℕ) : ℕ × JudgmentCache :=
  let c := c.pruneExpired A now
  (c.entries.keys.length, c)

end JudgmentCache

/-! ## Sequences of operations -/

inductive CacheOp where
  | lookup (identity : JudgmentIdentity) (now : ℕ)
  | lookupWithPolicy (identity : JudgmentIdentity) (now : ℕ)
      (policy : CachePolicy)
  | reconcilePolicy (now : ℕ) (policy : CachePolicy)
  | insertSuccess (identity : JudgmentIdentity) (result : JudgmentResult)
      (now : ℕ) (policy : CachePolicy)
  | insertOutcome (identity : JudgmentIdentity)
      (outcome : Except JudgmentError JudgmentResult) (now : ℕ)
      (policy : CachePolicy)
  | len (now : ℕ)
  | clear

inductive CacheReply where
  | served (result : Option JudgmentResult)
  | accepted (ok : Bool)
  | count (n : ℕ)
  deriving DecidableEq

/-- Perform one operation. -/
def CacheOp.apply (A : Accounting) (c : JudgmentCache) :
    CacheOp → CacheReply × JudgmentCache
  | .lookup identity now =>
      (c.lookup A identity now).map .served id
  | .lookupWithPolicy identity now policy =>
      (c.lookupWithPolicy A identity now policy).map .served id
  | .reconcilePolicy now policy =>
      (c.reconcilePolicy A now policy).map .accepted id
  | .insertSuccess identity result now policy =>
      (c.insertSuccess A identity result now policy).map .accepted id
  | .insertOutcome identity outcome now policy =>
      (c.insertOutcome A identity outcome now policy).map .accepted id
  | .len now => (c.len A now).map .count id
  | .clear => c.clear.map .count id

/-- A performed operation and its reply. -/
abbrev CacheEvent := CacheOp × CacheReply

/-- Perform a sequence of operations on an empty cache.  Sequences are listed
newest first, and so are the performed events. -/
def CacheOp.run (A : Accounting) :
    List CacheOp → List CacheEvent × JudgmentCache
  | [] => ([], {})
  | op :: earlier =>
      let (events, c) := CacheOp.run A earlier
      let (reply, c') := op.apply A c
      ((op, reply) :: events, c')

end DuckJeu
