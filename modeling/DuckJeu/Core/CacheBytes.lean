import DuckJeu.Core.LruCache
import Mathlib.Algebra.Order.BigOperators.Group.List
import Mathlib.Algebra.Order.Group.Nat

/-!
# The byte estimate

The cache accounts for an entry by six times its text, which leaves four times
the text and a constant for everything but the two copies of the texts
themselves.  Each copy of a label costs a string header, however short the
label is, so that the estimate covers an entry as long as its labels are not
too many for their length.
-/

namespace DuckJeu

/-- The size of a `String` without its contents. -/
def stringHeader : ℕ := 24

def JudgmentIdentity.textBytes (identity : JudgmentIdentity) : ℕ :=
  identity.criterion.elim 0 String.utf8ByteSize +
    identity.question.elim 0 String.utf8ByteSize +
    (identity.choices.map String.utf8ByteSize).sum +
    identity.providerNamespace.utf8ByteSize +
    identity.endpoint.utf8ByteSize + identity.requestedModel.utf8ByteSize +
    identity.effectiveModel.elim 0 String.utf8ByteSize

def JudgmentResult.payloadBytes : JudgmentResult → ℕ
  | .noul _ => 8
  | .choice label => label.utf8ByteSize

/-- What an entry necessarily occupies: its identity twice, as key of the map
and in the queue, and the result. -/
def occupiedBytes (identity : JudgmentIdentity) (result : JudgmentResult) :
    ℕ :=
  2 * (identity.canonicalBytes.length + identity.textBytes +
      stringHeader * identity.choices.length) + result.payloadBytes

/-- The headers of the labels are within what the estimate leaves for them. -/
def JudgmentIdentity.Roomy (identity : JudgmentIdentity) : Prop :=
  2 * stringHeader * identity.choices.length ≤
    512 + 4 * (identity.canonicalBytes.length + identity.textBytes)

instance (identity : JudgmentIdentity) : Decidable identity.Roomy :=
  inferInstanceAs (Decidable (_ ≤ _))

/-! ## The estimate in closed form -/

/-- What a saturating computation of this value yields. -/
def clipped (value : ℕ) : ℕ := min value usizeMax

theorem satAdd_eq (a b : ℕ) : satAdd a b = clipped (a + b) := rfl

theorem satMul_eq (a b : ℕ) : satMul a b = clipped (a * b) := rfl

/-- Only the last cap of a sum or a product matters. -/
theorem clipped_clipped_add (a b : ℕ) :
    clipped (clipped a + b) = clipped (a + b) := by
  unfold clipped
  omega

theorem clipped_add_clipped (a b : ℕ) :
    clipped (a + clipped b) = clipped (a + b) := by
  unfold clipped
  omega

theorem clipped_clipped_mul {a b : ℕ} (hb : 0 < b) :
    clipped (clipped a * b) = clipped (a * b) := by
  unfold clipped
  by_cases ha : a ≤ usizeMax
  · rw [Nat.min_eq_left ha]
  · have hlarge : usizeMax ≤ usizeMax * b := Nat.le_mul_of_pos_right _ hb
    have hlarger : usizeMax * b ≤ a * b :=
      Nat.mul_le_mul_right b (Nat.le_of_not_le ha)
    rw [Nat.min_eq_right (Nat.le_of_not_le ha), Nat.min_eq_right hlarge,
      Nat.min_eq_right (hlarge.trans hlarger)]

theorem foldl_satAdd (values : List String) (total : ℕ) :
    values.foldl (fun sum value => satAdd sum value.utf8ByteSize)
        (clipped total) =
      clipped (total + (values.map String.utf8ByteSize).sum) := by
  induction values generalizing total with
  | nil => simp
  | cons value values ih =>
      rw [List.foldl_cons, satAdd_eq, clipped_clipped_add, ih, List.map_cons,
        List.sum_cons, Nat.add_assoc]

/-- Saturation only caps the plain sum. -/
theorem estimatedEntryBytes_eq (identity : JudgmentIdentity)
    (result : JudgmentResult) :
    estimatedEntryBytes identity result =
      clipped (512 + identity.canonicalBytes.length * 6 +
        identity.textBytes * 6 + result.payloadBytes) := by
  have hchoices : identity.choices.foldl
      (fun sum value => satAdd sum value.utf8ByteSize) 0 =
        clipped (0 + (identity.choices.map String.utf8ByteSize).sum) :=
    foldl_satAdd identity.choices 0
  unfold estimatedEntryBytes
  rw [hchoices]
  cases result with
  | noul p =>
      simp only [satAdd_eq, satMul_eq, clipped_clipped_add, clipped_add_clipped,
        clipped_clipped_mul (Nat.zero_lt_succ 5), Nat.zero_add,
        JudgmentIdentity.textBytes, JudgmentResult.payloadBytes]
  | choice label =>
      simp only [satAdd_eq, satMul_eq, clipped_clipped_add, clipped_add_clipped,
        clipped_clipped_mul (Nat.zero_lt_succ 5), Nat.zero_add,
        JudgmentIdentity.textBytes, JudgmentResult.payloadBytes]

theorem occupiedBytes_le_iff {identity : JudgmentIdentity}
    {result : JudgmentResult} :
    occupiedBytes identity result ≤ estimatedEntryBytes identity result ↔
      identity.Roomy ∧ occupiedBytes identity result ≤ usizeMax := by
  rw [estimatedEntryBytes_eq]
  unfold clipped occupiedBytes JudgmentIdentity.Roomy stringHeader
  omega

/-! ## The entries of a run -/

/-- The identity which an operation may store. -/
def CacheOp.inserted? : CacheOp → Option JudgmentIdentity
  | .insertSuccess identity _ _ _ | .insertOutcome identity (.ok _) _ _ =>
      some identity
  | _ => none

namespace LruList

variable {P : CachedItem → Prop}

theorem reconcile_forall (hP : ∀ ttl item, P item → P (tightenItem ttl item))
    {items : List CachedItem} (h : ∀ item ∈ items, P item) (now : ℕ)
    (policy : CachePolicy) : ∀ item ∈ reconcile now policy items, P item := by
  intro item hitem
  have hlive := (Lru.longestSuffix_suffix _).subset hitem
  obtain ⟨old, hold, rfl⟩ := List.mem_map.mp (List.mem_of_mem_filter hlive)
  exact hP policy.ttl old (h old hold)

theorem insert_forall (hP : ∀ ttl item, P item → P (tightenItem ttl item))
    {identity : JudgmentIdentity}
    (hnew : ∀ result now policy, P (newItem identity result now policy))
    {items : List CachedItem} (h : ∀ item ∈ items, P item)
    (result : JudgmentResult) (now : ℕ) (policy : CachePolicy) :
    ∀ item ∈ (insert identity result now policy items).2, P item := by
  unfold insert
  split
  · exact Lru.put_forall (reconcile_forall hP h now policy) _ (hnew _ _ _)
  · exact h

/-- An invariant of single items which a tightened lifetime keeps holds of the
items after an operation, if it holds of what the operation stores. -/
theorem apply_forall (hP : ∀ ttl item, P item → P (tightenItem ttl item))
    {op : CacheOp}
    (hnew : ∀ identity ∈ op.inserted?, ∀ result now policy,
      P (newItem identity result now policy))
    {items : List CachedItem} (h : ∀ item ∈ items, P item) :
    ∀ item ∈ (apply items op).2, P item := by
  cases op with
  | lookup identity now => exact Lru.lookup_forall h identity now
  | lookupWithPolicy identity now policy =>
      by_cases hvalid : policy.Valid
      · rw [apply, if_pos hvalid]
        exact Lru.lookup_forall (reconcile_forall hP h now policy) identity now
      · rw [apply, if_neg hvalid]
        exact h
  | reconcilePolicy now policy =>
      by_cases hvalid : policy.Valid
      · rw [apply, if_pos hvalid]
        exact reconcile_forall hP h now policy
      · rw [apply, if_neg hvalid]
        exact h
  | insertSuccess identity result now policy =>
      exact insert_forall hP (hnew identity rfl) h result now policy
  | insertOutcome identity outcome now policy =>
      cases outcome with
      | error e => exact h
      | ok result =>
          exact insert_forall hP (hnew identity rfl) h result now policy
  | len now => exact fun item hitem => h item (List.mem_of_mem_filter hitem)
  | clear => simp [apply]

theorem run_forall (hP : ∀ ttl item, P item → P (tightenItem ttl item))
    {ops : List CacheOp}
    (hnew : ∀ op ∈ ops, ∀ identity ∈ op.inserted?, ∀ result now policy,
      P (newItem identity result now policy)) :
    ∀ item ∈ (run ops).2, P item := by
  induction ops with
  | nil => simp [run]
  | cons op earlier ih =>
      have hearlier := ih fun op' hop' => hnew op' (List.mem_cons_of_mem _ hop')
      exact apply_forall hP (hnew op (List.mem_cons_self ..)) hearlier

end LruList

/-- The size of an item is its estimate, and its labels have room. -/
def CachedItem.Covered (item : CachedItem) : Prop :=
  item.size = estimatedEntryBytes item.key item.value ∧ item.key.Roomy

theorem covered_tightenItem (ttl : ℕ) (item : CachedItem)
    (h : CachedItem.Covered item) :
    CachedItem.Covered (LruList.tightenItem ttl item) := by
  unfold LruList.tightenItem
  split
  · exact h
  · exact h

theorem CachedItem.Covered.occupied_le {item : CachedItem}
    (h : CachedItem.Covered item) (hsize : item.size ≤ i64Max) :
    occupiedBytes item.key item.value ≤ item.size := by
  obtain ⟨hestimate, hroomy⟩ := h
  rw [estimatedEntryBytes_eq] at hestimate
  unfold JudgmentIdentity.Roomy stringHeader at hroomy
  unfold i64Max at hsize
  unfold clipped usizeMax at hestimate
  unfold occupiedBytes stringHeader
  omega

theorem occupied_le_bytes {items : List CachedItem}
    (h : ∀ item ∈ items, CachedItem.Covered item)
    (hbytes : Lru.bytes items ≤ i64Max) :
    (items.map fun item => occupiedBytes item.key item.value).sum ≤
      Lru.bytes items := by
  refine List.sum_le_sum fun item hitem => ?_
  have hsize : item.size ≤ Lru.bytes items :=
    List.single_le_sum (by simp) _ (List.mem_map_of_mem hitem)
  exact (h item hitem).occupied_le (hsize.trans hbytes)

theorem CacheOp.run_covered {ops : List CacheOp}
    (hops : ∀ op ∈ ops, op.ByteLimited)
    (hroomy : ∀ op ∈ ops, ∀ identity ∈ op.inserted?, identity.Roomy) :
    ∀ item ∈ (CacheOp.run saturating ops).2.listed,
      CachedItem.Covered item := by
  have hitems := LruList.run_forall covered_tightenItem
    fun op hop identity hidentity result now policy =>
      ⟨rfl, hroomy op hop identity hidentity⟩
  rw [CacheOp.run_listed ops hops] at hitems
  exact hitems

/-- The estimate covers what an entry occupies exactly if the string headers
of the labels take no more than what four times the text and the constant
leave, and the entry fits the address space.  If this holds of every identity
inserted in a run, then after an accepted operation the entries occupy no more
than the byte limit. -/
theorem estimatedEntryBytes_conservative (identity : JudgmentIdentity)
    (result : JudgmentResult) (op : CacheOp) (earlier : List CacheOp) :
    (occupiedBytes identity result ≤ estimatedEntryBytes identity result ↔
      identity.Roomy ∧ occupiedBytes identity result ≤ usizeMax) ∧
      ((∀ op' ∈ op :: earlier, op'.ByteLimited) →
        (∀ op' ∈ op :: earlier, ∀ identity ∈ op'.inserted?,
          identity.Roomy) →
        ∀ policy ∈ op.policy?,
          (op.apply saturating (CacheOp.run saturating earlier).2).1 =
            .accepted true →
          ((CacheOp.run saturating (op :: earlier)).2.listed.map fun item =>
            occupiedBytes item.key item.value).sum ≤ policy.maxBytes) := by
  refine ⟨occupiedBytes_le_iff, ?_⟩
  intro hops hroomy policy hpolicy haccepted
  have hop := hops op (List.mem_cons_self ..)
  obtain ⟨hrep, -⟩ := CacheOp.run_spec saturating_faithful earlier
    fun op' hop' => hops op' (List.mem_cons_of_mem _ hop')
  obtain ⟨hc, -, hlimits⟩ := CacheOp.apply_spec saturating_faithful hrep op hop
  have hbytes : Lru.bytes (CacheOp.run saturating (op :: earlier)).2.listed ≤
      policy.maxBytes := by
    have hlisted := hc.listed_bytes
    have hwithin := (hlimits policy hpolicy haccepted).2
    simp only [CacheOp.run]
    omega
  have hcovered := occupied_le_bytes (CacheOp.run_covered hops hroomy)
    (hbytes.trans (hop policy hpolicy))
  exact hcovered.trans hbytes

/-- A choice between labels about a text. -/
def labelledIdentity (labels : List String) : JudgmentIdentity :=
  { textIdentity "a" with
    questionKind := .choice
    question := some "which side"
    choices := labels }

/-- A text and two choices, one after the other. -/
def labelledOps : List CacheOp :=
  [.insertSuccess (labelledIdentity ["x", "y"]) (.choice "y") 5 ⟨3, 4096, 10⟩,
    .insertSuccess (labelledIdentity ["left", "middle", "right"])
      (.choice "left") 4 ⟨3, 4096, 10⟩,
    .insertSuccess (textIdentity "a") (.noul .half) 3 ⟨3, 4096, 10⟩]

/-- All three entries are kept, and have room. -/
theorem estimatedEntryBytes_conservative_labels :
    (CacheOp.run saturating labelledOps).2.listed.length = 3 ∧
      ((CacheOp.run saturating labelledOps).2.listed.map fun item =>
        occupiedBytes item.key item.value).sum ≤ 4096 := by
  refine ⟨by decide +kernel, ?_⟩
  refine (estimatedEntryBytes_conservative (labelledIdentity ["x", "y"])
    (.choice "y") (.insertSuccess (labelledIdentity ["x", "y"]) (.choice "y") 5
      ⟨3, 4096, 10⟩) labelledOps.tail).2 ?_ ?_ ⟨3, 4096, 10⟩ rfl
      (by decide +kernel)
  · simp [labelledOps, CacheOp.ByteLimited, CacheOp.policy?, i64Max]
  · simp only [labelledOps, List.tail_cons, List.forall_mem_cons,
      CacheOp.inserted?, Option.mem_some_iff, forall_eq']
    decide

/-! ## Many short labels -/

def alphabet : List String :=
  ["a", "b", "c", "d", "e", "f", "g", "h", "i", "j", "k", "l", "m", "n", "o",
    "p", "q", "r", "s", "t", "u", "v", "w", "x", "y", "z"]

/-- A choice between the letters of the alphabet. -/
def letterRequest : JudgmentRequest where
  kind := .choice
  state := encodeText "x"
  criterion := none
  question := some "which letter"
  choices := alphabet
  requestKey := defaultRequestKey

def serviceContext : JudgmentIdentityContext where
  providerNamespace := "typesafe"
  endpoint := "https://api.typesafe.ai/v1/systemone"
  requestedModel := "jev-latest"
  effectiveModel := none
  credentialScope := 1
  modelBindingScope := 0

def letterIdentity : JudgmentIdentity := .new letterRequest serviceContext

/-- The labels have one byte each, and two headers.  The entry is admitted
under a limit which it exceeds. -/
theorem estimatedEntryBytes_letters :
    JudgmentRequest.choice (encodeText "x") "which letter" alphabet =
        .ok letterRequest ∧
      estimatedEntryBytes letterIdentity (.choice "a") <
        occupiedBytes letterIdentity (.choice "a") ∧
      (({} : JudgmentCache).insertSuccess saturating letterIdentity
          (.choice "a") 0 ⟨1, 1200, 10⟩).1 = true ∧
      1200 < occupiedBytes letterIdentity (.choice "a") := by
  refine ⟨?_, by decide +kernel, by decide +kernel, by decide +kernel⟩
  have hlabels : JudgmentRequest.checkLabels [] alphabet = .ok () := by decide
  rw [JudgmentRequest.choice, if_neg (by decide), if_neg (by decide), hlabels]
  rfl

end DuckJeu
