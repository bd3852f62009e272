import DuckJeu.Effects.Totals
import DuckJeu.Executor.Packing
import Mathlib.Algebra.BigOperators.Group.Multiset.Basic
import Mathlib.Algebra.Group.Pi.Basic
import Mathlib.Algebra.Group.Prod

/-!
# The account of a query

What is counted about the rows and judgments of a query adds up over the
events of all its calls.  A call of the executor draws on its groups: each is
either claimed anew or has an owner already, and what is claimed anew is found
in the cache or sent.  When the call succeeds nothing is left open.
-/

namespace DuckJeu

open Effects

/-! ## Accounts -/

/-- What is counted about rows, judgments and requests. -/
inductive CountItem where
  | input
  | nulls
  | valid
  | unique
  | deduplicated
  | hits
  | invocations
  | external
  | batched

/-- An account of a query, with the sizes of its external requests. -/
abbrev Account := (CountItem → ℕ) × Multiset ℕ

/-- A claim of an entry, which is owned or not. -/
def claimAccount (owned : Bool) : Account :=
  (fun item =>
    match item with
    | .unique => owned.toNat
    | .deduplicated => (!owned).toNat
    | _ => 0, 0)

def hitAccount : Account :=
  (fun item =>
    match item with
    | .hits => 1
    | _ => 0, 0)

def attemptAccount (size : ℕ) (external : Bool) : Account :=
  (fun item =>
    match item with
    | .invocations => 1
    | .external => if external then 1 else 0
    | .batched => if external ∧ 1 < size then 1 else 0
    | _ => 0, if external then {size} else 0)

/-- What an event adds to the account of a query. -/
def ExecEvent.account (scope : ℕ) : ExecEvent → Account
  | ⟨.claimQueryEntry reported _, .ok (_, owned)⟩ =>
      if reported = scope then claimAccount owned else 0
  | ⟨.recordCacheHit reported, _⟩ => if reported = scope then hitAccount else 0
  | ⟨.recordProviderAttempt reported requests external, _⟩ =>
      if reported = scope then attemptAccount requests.length external else 0
  | _ => 0

namespace Account

/-- What has been sent was owned, and the requests agree with their sizes. -/
structure Requests (a : Account) : Prop where
  sent : a.1 .hits + a.2.sum ≤ a.1 .unique
  invocations : a.1 .invocations = a.2.card
  external : a.1 .external = a.2.card
  batched : a.1 .batched = (a.2.filter (1 < ·)).card
  positive : ∀ size ∈ a.2, 0 < size

/-- Of the groups, `claimed` have been claimed, and `left` of those which are
owned have neither been found in the cache nor sent. -/
structure Open (claimed left : ℕ) (a : Account) : Prop where
  claimed_eq : a.1 .unique + a.1 .deduplicated = claimed
  left_eq : a.1 .hits + a.2.sum + left = a.1 .unique

/-- The account of a call about so many groups. -/
structure Drawn (groups : ℕ) (a : Account) : Prop where
  requests : a.Requests
  claims : a.1 .unique + a.1 .deduplicated ≤ groups

section Requests

variable {a b : Account}

theorem requests_zero : Requests 0 := by
  constructor <;> simp

theorem Requests.add (ha : a.Requests) (hb : b.Requests) :
    (a + b).Requests where
  sent := by
    have hsent := ha.sent
    have hsent' := hb.sent
    simp only [Prod.fst_add, Prod.snd_add, Pi.add_apply, Multiset.sum_add]
    omega
  invocations := by simp [ha.invocations, hb.invocations]
  external := by simp [ha.external, hb.external]
  batched := by simp [ha.batched, hb.batched]
  positive := by
    intro size hsize
    rcases Multiset.mem_add.mp hsize with h | h
    · exact ha.positive size h
    · exact hb.positive size h

/-- An entry without requests changes nothing about them. -/
theorem Requests.quiet (h : a.Requests)
    (hb : b.2 = 0 ∧ b.1 .invocations = 0 ∧ b.1 .external = 0 ∧
      b.1 .batched = 0)
    (hsent : (b + a).1 .hits + a.2.sum ≤ (b + a).1 .unique) :
    (b + a).Requests := by
  obtain ⟨hnone, hinvocations, hexternal, hbatched⟩ := hb
  have hsizes : (b + a).2 = a.2 := by rw [Prod.snd_add, hnone, zero_add]
  constructor
  · rwa [hsizes]
  · rw [hsizes, ← h.invocations, Prod.fst_add, Pi.add_apply, hinvocations,
      zero_add]
  · rw [hsizes, ← h.external, Prod.fst_add, Pi.add_apply, hexternal, zero_add]
  · rw [hsizes, ← h.batched, Prod.fst_add, Pi.add_apply, hbatched, zero_add]
  · rw [hsizes]
    exact h.positive

end Requests

/-! ### Open groups -/

theorem toNat_add_not (b : Bool) : b.toNat + (!b).toNat = 1 := by
  cases b with
  | false => rfl
  | true => rfl

section Open

variable {a : Account} {claimed left : ℕ}

theorem open_zero : Open 0 0 0 := ⟨rfl, rfl⟩

/-- An owned group is open at first. -/
theorem Open.claim (h : a.Open claimed left) (owned : Bool) :
    Open (claimed + 1) (left + owned.toNat) (claimAccount owned + a) := by
  obtain ⟨hclaimed, hleft⟩ := h
  have hone : owned.toNat + (!owned).toNat = 1 := toNat_add_not owned
  have hunique : (claimAccount owned + a).1 .unique =
      owned.toNat + a.1 .unique := rfl
  have hdeduplicated : (claimAccount owned + a).1 .deduplicated =
      (!owned).toNat + a.1 .deduplicated := rfl
  have hhits : (claimAccount owned + a).1 .hits = a.1 .hits := Nat.zero_add _
  have hsizes : (claimAccount owned + a).2 = a.2 := zero_add _
  constructor
  · omega
  · rw [hsizes]
    omega

theorem Open.hit (h : a.Open claimed (left + 1)) :
    Open claimed left (hitAccount + a) := by
  obtain ⟨hclaimed, hleft⟩ := h
  have hunique : (hitAccount + a).1 .unique = a.1 .unique := Nat.zero_add _
  have hdeduplicated : (hitAccount + a).1 .deduplicated = a.1 .deduplicated :=
    Nat.zero_add _
  have hhits : (hitAccount + a).1 .hits = 1 + a.1 .hits := rfl
  have hsizes : (hitAccount + a).2 = a.2 := zero_add _
  constructor
  · omega
  · rw [hsizes]
    omega

theorem Open.attempt {size : ℕ} (h : a.Open claimed (left + size)) :
    Open claimed left (attemptAccount size true + a) := by
  obtain ⟨hclaimed, hleft⟩ := h
  have hunique : (attemptAccount size true + a).1 .unique = a.1 .unique :=
    Nat.zero_add _
  have hdeduplicated : (attemptAccount size true + a).1 .deduplicated =
      a.1 .deduplicated := Nat.zero_add _
  have hhits : (attemptAccount size true + a).1 .hits = a.1 .hits :=
    Nat.zero_add _
  have hsizes : (attemptAccount size true + a).2.sum = size + a.2.sum := by
    rw [Prod.snd_add, Multiset.sum_add]
    rfl
  constructor
  · omega
  · omega

end Open

/-! ### Accounts of calls -/

section Drawn

variable {a : Account} {groups : ℕ}

theorem drawn_zero : Drawn groups 0 := ⟨requests_zero, Nat.zero_le _⟩

theorem Drawn.claim (h : a.Drawn groups)
    (hroom : a.1 .unique + a.1 .deduplicated < groups) (owned : Bool) :
    Drawn groups (claimAccount owned + a) := by
  have hone : owned.toNat + (!owned).toNat = 1 := toNat_add_not owned
  have hsent := h.requests.sent
  have hunique : (claimAccount owned + a).1 .unique =
      owned.toNat + a.1 .unique := rfl
  have hdeduplicated : (claimAccount owned + a).1 .deduplicated =
      (!owned).toNat + a.1 .deduplicated := rfl
  have hhits : (claimAccount owned + a).1 .hits = a.1 .hits := Nat.zero_add _
  exact ⟨h.requests.quiet ⟨rfl, rfl, rfl, rfl⟩ (by omega), by omega⟩

theorem Drawn.hit (h : a.Drawn groups)
    (hleft : a.1 .hits + a.2.sum < a.1 .unique) :
    Drawn groups (hitAccount + a) := by
  have hclaims := h.claims
  have hunique : (hitAccount + a).1 .unique = a.1 .unique := Nat.zero_add _
  have hdeduplicated : (hitAccount + a).1 .deduplicated = a.1 .deduplicated :=
    Nat.zero_add _
  have hhits : (hitAccount + a).1 .hits = 1 + a.1 .hits := rfl
  exact ⟨h.requests.quiet ⟨rfl, rfl, rfl, rfl⟩ (by omega), by omega⟩

theorem Drawn.attempt {size : ℕ} (h : a.Drawn groups) (hsize : 0 < size)
    (hleft : a.1 .hits + a.2.sum + size ≤ a.1 .unique) :
    Drawn groups (attemptAccount size true + a) := by
  obtain ⟨⟨-, hinvocations, hexternal, hbatched, hpositive⟩, hclaims⟩ := h
  have hunique : (attemptAccount size true + a).1 .unique = a.1 .unique :=
    Nat.zero_add _
  have hdeduplicated : (attemptAccount size true + a).1 .deduplicated =
      a.1 .deduplicated := Nat.zero_add _
  have hhits : (attemptAccount size true + a).1 .hits = a.1 .hits :=
    Nat.zero_add _
  have hsizes : (attemptAccount size true + a).2 = size ::ₘ a.2 := rfl
  refine ⟨⟨?_, ?_, ?_, ?_, ?_⟩, by omega⟩
  · rw [hsizes, Multiset.sum_cons]
    omega
  · rw [hsizes, Multiset.card_cons, ← hinvocations]
    exact Nat.add_comm _ _
  · rw [hsizes, Multiset.card_cons, ← hexternal]
    exact Nat.add_comm _ _
  · rw [hsizes]
    by_cases hbatch : 1 < size
    · rw [Multiset.filter_cons_of_pos _ hbatch, Multiset.card_cons, ← hbatched]
      simp [attemptAccount, hbatch, Nat.add_comm]
    · rw [Multiset.filter_cons_of_neg _ hbatch, ← hbatched]
      simp [attemptAccount, hbatch]
  · rw [hsizes]
    intro other hother
    rcases Multiset.mem_cons.mp hother with rfl | hother
    · exact hsize
    · exact hpositive other hother

end Drawn

end Account

/-! ## The protocol -/

/-- The operations which the account tells about. -/
def Op.Accounts : Op → Bool
  | .claimQueryEntry _ _ => true
  | .recordCacheHit _ => true
  | .recordProviderAttempt _ _ _ => true
  | _ => false

/-- A call claims its groups in turn, and serves no more than it owns. -/
def balancing (call : Call) : Protocol Op Res Account where
  note := fun g op r =>
    ExecEvent.account call.limits.queryScope ⟨op, r⟩ + g
  Allowed := fun g op =>
    match op with
    | .claimQueryEntry scope identity =>
        scope = call.limits.queryScope ∧
          (call.groups[g.1 .unique + g.1 .deduplicated]?).map
            JudgmentGroup.identity = some identity
    | .recordCacheHit scope =>
        scope = call.limits.queryScope ∧ g.1 .hits + g.2.sum < g.1 .unique
    | .recordProviderAttempt scope requests external =>
        scope = call.limits.queryScope ∧ external = true ∧
          0 < requests.length ∧
          g.1 .hits + g.2.sum + requests.length ≤ g.1 .unique
    | _ => True
  Admits := fun _ _ _ => True

theorem balancing_replay (call : Call) (h : History) :
    (balancing call).replay 0 h =
      weigh (ExecEvent.account call.limits.queryScope) h := by
  induction h with
  | nil => rfl
  | cons event h ih =>
      rw [Protocol.replay_cons, ih]
      rfl

section Protocol

variable {call : Call}

theorem balancing_ignores {op : Op} (hop : op.Accounts = false) :
    (balancing call).Ignores op := by
  intro g
  cases op with
  | claimQueryEntry => cases hop
  | recordCacheHit => cases hop
  | recordProviderAttempt => cases hop
  | _ => exact ⟨trivial, fun r => zero_add g⟩

theorem balancing_unrecorded (op : Op) (hop : op.Unrecorded = true) :
    (balancing call).Ignores op := by
  refine balancing_ignores ?_
  cases op with
  | claimQueryEntry => cases hop
  | recordCacheHit => cases hop
  | recordProviderAttempt => cases hop
  | _ => rfl

/-- What is allowed keeps the account of the call. -/
theorem balancing_drawn {g : Account} {op : Op}
    (h : g.Drawn call.groups.length)
    (hallowed : (balancing call).Allowed g op) (r : Res op) :
    ((balancing call).note g op r).Drawn call.groups.length := by
  have hnothing : (0 + g).Drawn call.groups.length := by rwa [zero_add]
  cases op with
  | claimQueryEntry scope identity =>
      obtain ⟨rfl, hturn⟩ := hallowed
      obtain ⟨group, hgroup, -⟩ := Option.map_eq_some_iff.mp hturn
      obtain ⟨hroom, -⟩ := List.getElem?_eq_some_iff.mp hgroup
      cases r with
      | error error => exact hnothing
      | ok claim =>
          have hclaim := h.claim hroom claim.2
          simpa [balancing, ExecEvent.account] using hclaim
  | recordCacheHit scope =>
      obtain ⟨rfl, hleft⟩ := hallowed
      simpa [balancing, ExecEvent.account] using h.hit hleft
  | recordProviderAttempt scope requests external =>
      obtain ⟨rfl, rfl, hsize, hleft⟩ := hallowed
      simpa [balancing, ExecEvent.account] using h.attempt hsize hleft
  | _ => exact hnothing

end Protocol

/-! ## What is left open -/

section Walk

variable {call : Call} {g : Account} {claimed left : ℕ}

/-- An attempt which succeeds has served its requests. -/
theorem attemptRecorded_serves {α : Type} {method : ProviderCall}
    {carried : List JudgmentIdentity} {requests : List JudgmentRequest}
    {finish : ProviderBatchResult → Exec α}
    (hexternal : call.provider.makesExternalRequest = true)
    (hsize : 0 < requests.length)
    (hopen : g.Open claimed (left + requests.length))
    (hfinish : ∀ response g, Secures (balancing call) (finish response)
      (fun _ g' => g' = g ∧ True) (fun _ g' => g' = g ∧ True) g) :
    Follows (balancing call)
      (attemptRecorded call.limits call.provider.makesExternalRequest method
        carried requests finish)
      (fun outcome g' => ∀ a, outcome = .ok a → g'.Open claimed left) g := by
  have hsurrounds : ∀ op : Op, op.Surrounds = true →
      (balancing call).Ignores op := by
    intro op hop
    refine balancing_ignores ?_
    cases op with
    | claimQueryEntry => cases hop
    | recordCacheHit => cases hop
    | recordProviderAttempt => cases hop
    | _ => rfl
  have hleft := hopen.left_eq
  have hallowed : (balancing call).Allowed g (.recordProviderAttempt
      call.limits.queryScope requests call.provider.makesExternalRequest) :=
    ⟨rfl, hexternal, hsize, by omega⟩
  have hnoted : ∀ r, (balancing call).note g (.recordProviderAttempt
      call.limits.queryScope requests call.provider.makesExternalRequest) r =
        attemptAccount requests.length true + g := by
    intro r
    simp [balancing, ExecEvent.account, hexternal]
  refine (attemptRecorded_sends hsurrounds hallowed hnoted trivial
    hfinish).mono ?_
  rintro (error | a) g' houtcome b hb
  · cases hb
  · obtain ⟨response, -, rfl⟩ := houtcome
    have hsame : ∀ r, (balancing call).note
        (attemptAccount requests.length true + g)
        (.judge method carried requests) r =
          attemptAccount requests.length true + g := fun _ => zero_add _
    rw [hsame]
    exact hopen.attempt

theorem consultCache_serves {entry : ℕ}
    {cacheIdentity : Option JudgmentIdentity}
    (hopen : g.Open claimed (left + 1)) :
    Secures (balancing call)
      (consultCache call.limits.queryScope entry cacheIdentity
        call.cachePolicy)
      (fun found g' =>
        match found with
        | none => g'.Open claimed (left + 1)
        | some _ => g'.Open claimed left)
      (fun _ _ => True) g := by
  have hquiet : ∀ {op : Op} {g : Account}, op.Accounts = false →
      Secures (balancing call) (perform op) (fun _ g' => g' = g)
        (fun _ _ => True) g := by
    intro op g hop
    rw [secures_lift]
    exact (balancing_ignores hop).follows rfl
  unfold consultCache
  cases call.cachePolicy with
  | none => exact hopen
  | some policy =>
      dsimp only
      split
      · rw [secures_bind]
        exact (hquiet rfl).mono (fun _ _ _ => trivial) fun _ _ h => h
      · rw [secures_bind]
        refine (hquiet rfl).mono ?_ fun _ _ h => h
        rintro now g₁ rfl
        rw [secures_bind]
        refine (hquiet rfl).mono ?_ fun _ _ h => h
        rintro cached g₂ rfl
        cases cached with
        | none => exact hopen
        | some result =>
            have hleft := hopen.left_eq
            have hhit : ∀ r, (balancing call).note g₂
                (.recordCacheHit call.limits.queryScope) r =
                  hitAccount + g₂ := by
              intro r
              simp [balancing, ExecEvent.account]
            dsimp only
            rw [secures_bind, secures_lift, follows_perform]
            refine ⟨⟨rfl, by omega⟩, fun r _ => ?_⟩
            rw [hhit, secures_bind]
            refine (hquiet rfl).mono ?_ fun _ _ h => h
            rintro _ _ rfl
            exact hopen.hit

/-- The next of the groups, and those after it. -/
theorem turn_of_drop {groups rest : List JudgmentGroup} {group : JudgmentGroup}
    (h : groups.drop claimed = group :: rest) :
    groups[claimed]? = some group ∧ groups.drop (claimed + 1) = rest ∧
      claimed + 1 ≤ groups.length := by
  have hfirst : groups[claimed]? = some group := by
    rw [← List.head?_drop, h]
    rfl
  refine ⟨hfirst, ?_, (List.getElem?_eq_some_iff.mp hfirst).1⟩
  rw [← List.tail_drop, h]
  rfl

/-- Claiming a group opens it, if it is owned. -/
theorem claimQueryEntry_serves {group : JudgmentGroup}
    (hopen : g.Open claimed left) (hturn : call.groups[claimed]? = some group) :
    Secures (balancing call)
      (claimQueryEntry call.limits.queryScope group.identity)
      (fun claim g' => g'.Open (claimed + 1) (left + claim.2.toNat))
      (fun _ _ => True) g := by
  have hnext : (call.groups[g.1 .unique + g.1 .deduplicated]?).map
      JudgmentGroup.identity = some group.identity := by
    rw [hopen.claimed_eq, hturn]
    rfl
  unfold claimQueryEntry
  rw [secures_mk, follows_perform]
  refine ⟨⟨rfl, hnext⟩, fun claim _ => ?_⟩
  cases claim with
  | error error => trivial
  | ok claim =>
      have hnoted : (balancing call).note g
          (.claimQueryEntry call.limits.queryScope group.identity)
          (.ok claim) = claimAccount claim.2 + g := by
        simp [balancing, ExecEvent.account]
      dsimp only
      rw [hnoted]
      exact hopen.claim claim.2

/-! ### One group at a time -/

theorem executeOwned_serves
    (hexternal : call.provider.makesExternalRequest = true)
    {group : JudgmentGroup} {cacheIdentity : Option JudgmentIdentity}
    {entry : ℕ} (hopen : g.Open claimed (left + 1)) :
    Secures (balancing call)
      (executeOwned group call.provider call.limits call.cachePolicy
        cacheIdentity entry)
      (fun _ g' => g'.Open claimed left) (fun _ _ => True) g := by
  unfold executeOwned
  rw [secures_bind]
  refine (consultCache_serves hopen).mono ?_ fun _ _ h => h
  rintro (_ | result) g₁ hfound
  · dsimp only
    split
    · rw [secures_bind, secures_lift]
      exact ⟨trivial, fun _ _ => trivial⟩
    · rw [secures_bind, secures_lift]
      have hone : 0 < [group.request].length := Nat.one_pos
      refine (attemptRecorded_serves hexternal hone hfound
        (finishSingle_ignored balancing_unrecorded _ _ _ _)).mono ?_
      intro outcome g₂ hserved
      rw [secures_bind, secures_lift, follows_perform]
      refine ⟨trivial, fun _ _ => ?_⟩
      cases outcome with
      | error error => trivial
      | ok result =>
          have hopen₂ := hserved result rfl
          have hsame : ∀ r, (balancing call).note g₂
              (.complete entry (.ok result)) r = g₂ := fun _ => zero_add _
          rw [hsame, secures_mk]
          exact hopen₂
  · exact hfound

theorem executeOneGroup_serves
    (hexternal : call.provider.makesExternalRequest = true)
    {group : JudgmentGroup} (hopen : g.Open claimed 0)
    (hturn : call.groups[claimed]? = some group) :
    Secures (balancing call)
      (executeOneGroup group call.provider call.limits call.cachePolicy)
      (fun _ g' => g'.Open (claimed + 1) 0) (fun _ _ => True) g := by
  unfold executeOneGroup
  dsimp only
  rw [secures_bind]
  refine (claimQueryEntry_serves hopen hturn).mono ?_ fun _ _ h => h
  rintro ⟨entry, owned⟩ g₁ hopen₁
  rw [secures_bind]
  refine (queryCancellation_ignored balancing_unrecorded g₁ hopen₁).mono ?_
    fun _ _ _ => trivial
  intro flag g₂ hopen₂
  cases owned with
  | true => exact executeOwned_serves hexternal hopen₂
  | false =>
      exact (waitEntry_ignored balancing_unrecorded g₂ hopen₂).mono
        (fun _ _ h => h) fun _ _ _ => trivial

theorem executeEach_serves
    (hexternal : call.provider.makesExternalRequest = true)
    {output : List (RowTarget × JudgmentResult)} {rest : List JudgmentGroup}
    (hopen : g.Open claimed 0)
    (hrest : call.groups.drop claimed = rest)
    (hclaimed : claimed ≤ call.groups.length) :
    Secures (balancing call)
      (executeEach call.provider call.limits call.cachePolicy output rest)
      (fun _ g' => g'.Open call.groups.length 0) (fun _ _ => True) g := by
  induction rest generalizing output claimed g with
  | nil =>
      have hall : claimed = call.groups.length :=
        hclaimed.antisymm (List.drop_eq_nil_iff.mp hrest)
      exact hall ▸ hopen
  | cons group rest ih =>
      obtain ⟨hturn, hnext, hmore⟩ := turn_of_drop hrest
      rw [executeEach, secures_bind]
      refine (executeOneGroup_serves hexternal hopen hturn).mono ?_
        fun _ _ h => h
      intro result g' hopen'
      exact ih hopen' hnext hmore

/-! ### Batches -/

/-- The groups in the partitions are those left open. -/
theorem length_place (leader : Leader) (partitions : List (List Leader)) :
    (place leader partitions).flatten.length =
      partitions.flatten.length + 1 := by
  rw [place_eq_insert]
  simpa using
    (Batches.insert_flatten Leader.batchClass leader partitions).length_eq

theorem claimGroup_serves {gathered : Claimed} {group : JudgmentGroup}
    (hopen : g.Open claimed gathered.partitions.flatten.length)
    (hturn : call.groups[claimed]? = some group) :
    Secures (balancing call)
      (claimGroup call.provider call.limits call.cachePolicy gathered group)
      (fun gathered' g' =>
        g'.Open (claimed + 1) gathered'.partitions.flatten.length)
      (fun _ _ => True) g := by
  unfold claimGroup
  split
  · trivial
  split
  · trivial
  dsimp only
  rw [secures_bind]
  refine (claimQueryEntry_serves hopen hturn).mono ?_ fun _ _ h => h
  rintro ⟨entry, owned⟩ g₁ hopen₁
  rw [secures_bind]
  refine (queryCancellation_ignored balancing_unrecorded g₁ hopen₁).mono ?_
    fun _ _ _ => trivial
  intro flag g₂ hopen₂
  cases owned with
  | false => exact hopen₂
  | true =>
      rw [if_pos rfl, secures_bind]
      refine (consultCache_serves hopen₂).mono ?_ fun _ _ h => h
      rintro (_ | result) g₃ hopen₃
      · dsimp only
        rw [secures_pure, length_place]
        exact hopen₃
      · exact hopen₃

theorem claimGroups_serves {gathered : Claimed} {rest : List JudgmentGroup}
    (hopen : g.Open claimed gathered.partitions.flatten.length)
    (hrest : call.groups.drop claimed = rest)
    (hclaimed : claimed ≤ call.groups.length) :
    Secures (balancing call)
      (claimGroups call.provider call.limits call.cachePolicy gathered rest)
      (fun gathered' g' =>
        g'.Open call.groups.length gathered'.partitions.flatten.length)
      (fun _ _ => True) g := by
  induction rest generalizing gathered claimed g with
  | nil =>
      have hall : claimed = call.groups.length :=
        hclaimed.antisymm (List.drop_eq_nil_iff.mp hrest)
      exact hall ▸ hopen
  | cons group rest ih =>
      obtain ⟨hturn, hnext, hmore⟩ := turn_of_drop hrest
      rw [claimGroups, secures_bind]
      refine (claimGroup_serves hopen hturn).mono ?_ fun _ _ h => h
      intro gathered' g' hopen'
      exact ih hopen' hnext hmore

/-- Failed leaders leave nothing to show. -/
theorem failEntries_serves {α : Type} {failed : List Leader}
    {error : JudgmentError} {Q : α → Account → Prop} :
    Secures (balancing call)
      (do
        failEntries error failed
        throw error : Exec α) Q (fun _ _ => True) g := by
  have hfailed : Keeps (balancing call) (fun _ => True)
      (failEntries error failed) := failEntries_ignored balancing_unrecorded
  rw [secures_bind]
  exact (hfailed g trivial).mono (fun _ _ _ => trivial) fun _ _ h => h

theorem dispatchOrFail_serves
    (hexternal : call.provider.makesExternalRequest = true)
    {order : LeaderOrder} {leaders batch : List Leader}
    {output : List (RowTarget × JudgmentResult)} (hbatch : batch ≠ [])
    (hopen : g.Open claimed (left + batch.length)) :
    Secures (balancing call)
      (dispatchOrFail call.provider call.limits call.cachePolicy order leaders
        batch output)
      (fun _ g' => g'.Open claimed left) (fun _ _ => True) g := by
  have hdispatch : Secures (balancing call)
      (dispatch call.provider call.limits call.cachePolicy batch output)
      (fun _ g' => g'.Open claimed left) (fun _ _ => True) g := by
    have hlength := requestsForGroups_length batch
    have hsize : 0 < (requestsForGroups batch).length := by
      rw [hlength]
      exact List.length_pos_iff.mpr hbatch
    unfold dispatch
    dsimp only
    rw [secures_bind, secures_lift]
    rw [← hlength] at hopen
    refine (attemptRecorded_serves hexternal hsize hopen
      (finishBatch_ignored _ _)).mono ?_
    rintro (error | ⟨results, effectiveModel⟩) g' hserved
    · exact failEntries_serves
    · exact (publish_ignored balancing_unrecorded g' (hserved _ rfl)).mono
        (fun _ _ h => h) fun _ _ _ => trivial
  unfold dispatchOrFail
  rw [secures_bind, secures_lift]
  refine Follows.mono hdispatch ?_
  rintro (error | output') g' hpost
  · exact failEntries_serves
  · exact hpost

/-- The loop over a partition serves the batch being filled and the rest. -/
theorem executePartition_serves
    (hexternal : call.provider.makesExternalRequest = true)
    {order : LeaderOrder} {leaders : List Leader} {maxJudgments : ℕ}
    {current : List Leader} {output : List (RowTarget × JudgmentResult)}
    {rest : List Leader}
    (hopen : g.Open claimed (left + (current ++ rest).length)) :
    Secures (balancing call)
      (executePartition call.provider call.limits call.cachePolicy order
        leaders maxJudgments current output rest)
      (fun _ g' => g'.Open claimed left) (fun _ _ => True) g := by
  induction rest generalizing current output g with
  | nil =>
      rw [List.append_nil] at hopen
      rw [executePartition]
      by_cases hempty : current = []
      · subst hempty
        exact hopen
      · rw [List.isEmpty_eq_false_iff.mpr hempty, if_neg Bool.false_ne_true]
        exact dispatchOrFail_serves hexternal hempty hopen
  | cons leader rest ih =>
      rw [executePartition]
      split
      · by_cases hempty : current = []
        · subst hempty
          exact failEntries_serves
        · rw [List.isEmpty_eq_false_iff.mpr hempty, if_neg Bool.false_ne_true,
            secures_bind]
          have hsplit : left + (current ++ leader :: rest).length =
              (left + (leader :: rest).length) + current.length := by
            rw [List.length_append]
            omega
          rw [hsplit] at hopen
          refine (dispatchOrFail_serves hexternal hempty hopen).mono ?_
            fun _ _ h => h
          intro output' g' hopen'
          split
          · exact failEntries_serves
          · exact ih hopen'
      · refine ih ?_
        rwa [List.append_assoc]

theorem executePartitions_serves
    (hexternal : call.provider.makesExternalRequest = true)
    {order : LeaderOrder} {leaders : List Leader} {maxJudgments : ℕ}
    {output : List (RowTarget × JudgmentResult)}
    {partitions : List (List Leader)}
    (hopen : g.Open claimed partitions.flatten.length) :
    Secures (balancing call)
      (executePartitions call.provider call.limits call.cachePolicy order
        leaders maxJudgments output partitions)
      (fun _ g' => g'.Open claimed 0) (fun _ _ => True) g := by
  induction partitions generalizing output g with
  | nil => exact hopen
  | cons partition rest ih =>
      rw [executePartitions, secures_bind]
      have hsplit : (partition :: rest).flatten.length =
          rest.flatten.length + ([] ++ partition).length := by
        rw [List.flatten_cons, List.length_append, Nat.add_comm]
        rfl
      rw [hsplit] at hopen
      refine (executePartition_serves hexternal hopen).mono ?_ fun _ _ h => h
      intro output' g' hopen'
      exact ih hopen'

/-! ### The whole call -/

theorem Call.serves (hexternal : call.provider.makesExternalRequest = true) :
    Follows (balancing call) call.program
      (fun answer g => ∀ output, answer = .ok output →
        g.Open call.groups.length 0) 0 := by
  have hsecures : Secures (balancing call) call.exec
      (fun _ g => g.Open call.groups.length 0) (fun _ _ => True) 0 := by
    unfold Call.exec
    cases call.mode with
    | single =>
        dsimp only [executeGroups]
        split
        · trivial
        · exact executeEach_serves hexternal Account.open_zero rfl
            (Nat.zero_le _)
    | batched maxJudgments order =>
        dsimp only [executeBatchGroups]
        split
        · trivial
        split
        · trivial
        split
        · trivial
        rw [secures_bind]
        refine (claimGroups_serves Account.open_zero rfl
          (Nat.zero_le _)).mono ?_ fun _ _ h => h
        intro gathered g hopen
        rw [secures_bind]
        refine (executePartitions_serves hexternal hopen).mono ?_
          fun _ _ h => h
        intro output g' hopen'
        exact (awaitFollowers_ignored balancing_unrecorded g' hopen').mono
          (fun _ _ h => h) fun _ _ _ => trivial
  refine Follows.mono hsecures ?_
  rintro (error | output) g hpost
  · intro output hok
    cases hok
  · exact fun _ _ => hpost

end Walk

/-! ## Claims of a call -/

/-- A call has claimed this many of its groups, and nothing else. -/
structure Call.ClaimsFirst (call : Call) (h : History) (n : ℕ) : Prop where
  mem : ∀ scope identity claim,
    (⟨.claimQueryEntry scope identity, .ok claim⟩ : ExecEvent) ∈ h →
      scope = call.limits.queryScope ∧
        ∃ group ∈ call.groups, group.identity = identity
  claimed : ∀ group ∈ call.groups.take n, ∃ claim,
    (⟨.claimQueryEntry call.limits.queryScope group.identity,
      .ok claim⟩ : ExecEvent) ∈ h

section Claims

variable {call : Call} {h : History} {n : ℕ}

theorem claimsFirst_nil (call : Call) : call.ClaimsFirst [] 0 where
  mem := by simp
  claimed := by simp

theorem Call.ClaimsFirst.quiet (hclaims : call.ClaimsFirst h n)
    {event : ExecEvent} (hevent : ∀ scope identity claim,
      event ≠ ⟨.claimQueryEntry scope identity, .ok claim⟩) :
    call.ClaimsFirst (event :: h) n where
  mem := by
    intro scope identity claim hmem
    rcases List.mem_cons.mp hmem with hnew | hold
    · exact absurd hnew.symm (hevent scope identity claim)
    · exact hclaims.mem scope identity claim hold
  claimed := by
    intro group hgroup
    obtain ⟨claim, hmem⟩ := hclaims.claimed group hgroup
    exact ⟨claim, List.mem_cons_of_mem _ hmem⟩

theorem Call.ClaimsFirst.claim (hclaims : call.ClaimsFirst h n)
    {identity : JudgmentIdentity} {claim : ℕ × Bool}
    (hturn : (call.groups[n]?).map JudgmentGroup.identity = some identity) :
    call.ClaimsFirst (⟨.claimQueryEntry call.limits.queryScope identity,
      .ok claim⟩ :: h) (n + 1) := by
  obtain ⟨next, hnext, rfl⟩ := Option.map_eq_some_iff.mp hturn
  constructor
  · intro scope other claim' hmem
    rcases List.mem_cons.mp hmem with hnew | hold
    · cases hnew
      exact ⟨rfl, next, List.mem_of_getElem? hnext, rfl⟩
    · exact hclaims.mem scope other claim' hold
  · intro group hgroup
    rw [List.take_add_one, hnext] at hgroup
    rcases List.mem_append.mp hgroup with hold | hlast
    · obtain ⟨claim', hmem⟩ := hclaims.claimed group hold
      exact ⟨claim', List.mem_cons_of_mem _ hmem⟩
    · obtain rfl : group = next := by simpa using hlast
      exact ⟨claim, List.mem_cons_self ..⟩

/-- What is allowed claims the next group or nothing. -/
theorem Call.ClaimsFirst.step {g : Account}
    (hclaims : call.ClaimsFirst h (g.1 .unique + g.1 .deduplicated)) {op : Op}
    (hallowed : (balancing call).Allowed g op) (r : Res op) :
    call.ClaimsFirst (⟨op, r⟩ :: h)
      (((balancing call).note g op r).1 .unique +
        ((balancing call).note g op r).1 .deduplicated) := by
  -- what adds no claims to the account is no claim
  have hquiet : ∀ b : Account, b.1 .unique = 0 → b.1 .deduplicated = 0 →
      ExecEvent.account call.limits.queryScope ⟨op, r⟩ = b →
      (∀ scope identity claim, (⟨op, r⟩ : ExecEvent) ≠
        ⟨.claimQueryEntry scope identity, .ok claim⟩) →
      call.ClaimsFirst (⟨op, r⟩ :: h)
        (((balancing call).note g op r).1 .unique +
          ((balancing call).note g op r).1 .deduplicated) := by
    intro b hunique hdeduplicated hb hevent
    have hsame : ((balancing call).note g op r).1 .unique +
        ((balancing call).note g op r).1 .deduplicated =
          g.1 .unique + g.1 .deduplicated := by
      simp [balancing, hb, hunique, hdeduplicated]
    rw [hsame]
    exact hclaims.quiet hevent
  cases op with
  | claimQueryEntry scope identity =>
      obtain ⟨rfl, hturn⟩ := hallowed
      cases r with
      | error error =>
          refine hquiet 0 rfl rfl rfl ?_
          intro scope other claim hevent
          cases hevent
      | ok claim =>
          have hone : claim.2.toNat + (!claim.2).toNat = 1 :=
            Account.toNat_add_not claim.2
          have hnoted : (balancing call).note g
              (.claimQueryEntry call.limits.queryScope identity)
              (.ok claim) = claimAccount claim.2 + g := by
            simp [balancing, ExecEvent.account]
          have hmore : ((claimAccount claim.2 + g).1 .unique +
              (claimAccount claim.2 + g).1 .deduplicated) =
                g.1 .unique + g.1 .deduplicated + 1 := by
            simp only [claimAccount, Prod.fst_add, Pi.add_apply]
            omega
          rw [hnoted, hmore]
          exact hclaims.claim hturn
  | recordCacheHit scope =>
      obtain ⟨rfl, -⟩ := hallowed
      exact hquiet hitAccount rfl rfl (if_pos rfl) (by simp)
  | recordProviderAttempt scope requests external =>
      obtain ⟨rfl, -⟩ := hallowed
      exact hquiet (attemptAccount requests.length external) rfl rfl
        (if_pos rfl) (by simp)
  | _ => exact hquiet 0 rfl rfl rfl (by simp)

end Claims

/-- The account of a call draws on its groups, and is closed once the call has
succeeded. -/
theorem Call.account {call : Call}
    (hexternal : call.provider.makesExternalRequest = true) {h : History}
    {p : Prog Op Res Answer} (hafter : call.program.After h p) :
    (weigh (ExecEvent.account call.limits.queryScope) h).Drawn
        call.groups.length ∧
      ∀ output, p = .ret (.ok output) →
        (weigh (ExecEvent.account call.limits.queryScope) h).Open
          call.groups.length 0 := by
  have hfollows := hafter.follows
    (I := fun _ g => Account.Drawn call.groups.length g)
    (fun _ _ _ => trivial) Account.drawn_zero
    (fun _ g op r hdrawn hallowed => balancing_drawn hdrawn hallowed r)
    (Call.serves hexternal)
  rw [balancing_replay] at hfollows
  obtain ⟨hdrawn, hleft⟩ := hfollows
  refine ⟨hdrawn, ?_⟩
  rintro output rfl
  exact hleft output rfl

/-- A call claims no others than its groups, and has claimed all of them once
it has succeeded. -/
theorem Call.claims_groups {call : Call}
    (hexternal : call.provider.makesExternalRequest = true) {h : History}
    {p : Prog Op Res Answer} (hafter : call.program.After h p) :
    ∃ n, call.ClaimsFirst h n ∧
      ∀ output, p = .ret (.ok output) → n = call.groups.length := by
  have hfollows := hafter.follows
    (I := fun h g => call.ClaimsFirst h (g.1 .unique + g.1 .deduplicated))
    (fun _ _ _ => trivial) (claimsFirst_nil call)
    (fun _ _ _ r hclaims hallowed => hclaims.step hallowed r)
    (Call.serves hexternal)
  obtain ⟨hclaims, hleft⟩ := hfollows
  refine ⟨_, hclaims, ?_⟩
  rintro output rfl
  exact (hleft output rfl).claimed_eq

end DuckJeu
