import DuckJeu.Executor.Balance
import DuckJeu.Functions.Output

/-!
# The account of optimized calls

A call of an optimized function records its rows, and its judgments are drawn
on the rows with a value.  Duplicates within a chunk are counted when the
groups are recorded, and all others when the groups are claimed; both together
are the rows which need no judgment of their own.
-/

namespace DuckJeu

open Effects

/-! ## Rows -/

def rowsAccount (inputRows nullRows validRows groups : ℕ) : Account :=
  (fun item =>
    match item with
    | .input => inputRows
    | .nulls => nullRows
    | .valid => validRows
    | .deduplicated => validRows - groups
    | _ => 0, 0)

/-- What an operation outside the executor adds to the account of a query. -/
def FunctionOp.account (scope : ℕ) : FunctionOp → Account
  | .recordOptimizedRows reported inputRows nullRows validRows groups =>
      if reported = scope then
        rowsAccount inputRows nullRows validRows groups.length
      else 0
  | _ => 0

/-- What an event of a call adds to the account of a query. -/
def functionAccount (scope : ℕ) : SumEvent Res FunctionRes → Account :=
  weighBoth (ExecEvent.account scope) fun event => event.1.account scope

namespace Account

/-- What is counted later is covered by what was counted before. -/
structure Within (a : Account) : Prop where
  rows : a.1 .nulls + a.1 .valid ≤ a.1 .input
  judgments : a.1 .unique + a.1 .deduplicated ≤ a.1 .valid
  requests : a.Requests

/-- All rows and judgments are accounted for. -/
structure Settled (a : Account) : Prop where
  within : a.Within
  rows_eq : a.1 .nulls + a.1 .valid = a.1 .input
  judgments_eq : a.1 .unique + a.1 .deduplicated = a.1 .valid
  sent_eq : a.1 .hits + a.2.sum = a.1 .unique

/-- Nothing is counted about rows. -/
structure Rowless (a : Account) : Prop where
  input_eq : a.1 .input = 0
  nulls_eq : a.1 .nulls = 0
  valid_eq : a.1 .valid = 0

section Sums

variable {a b : Account}

theorem within_zero : Within 0 := ⟨Nat.le_refl 0, Nat.le_refl 0, requests_zero⟩

theorem Within.add (ha : a.Within) (hb : b.Within) : (a + b).Within where
  rows := by
    have hrows := ha.rows
    have hrows' := hb.rows
    simp only [Prod.fst_add, Pi.add_apply]
    omega
  judgments := by
    have hjudgments := ha.judgments
    have hjudgments' := hb.judgments
    simp only [Prod.fst_add, Pi.add_apply]
    omega
  requests := ha.requests.add hb.requests

theorem settled_zero : Settled 0 := ⟨within_zero, rfl, rfl, rfl⟩

theorem Settled.add (ha : a.Settled) (hb : b.Settled) : (a + b).Settled where
  within := ha.within.add hb.within
  rows_eq := by
    have hrows := ha.rows_eq
    have hrows' := hb.rows_eq
    simp only [Prod.fst_add, Pi.add_apply]
    omega
  judgments_eq := by
    have hjudgments := ha.judgments_eq
    have hjudgments' := hb.judgments_eq
    simp only [Prod.fst_add, Pi.add_apply]
    omega
  sent_eq := by
    have hsent := ha.sent_eq
    have hsent' := hb.sent_eq
    simp only [Prod.fst_add, Prod.snd_add, Pi.add_apply, Multiset.sum_add]
    omega

theorem Rowless.add (ha : a.Rowless) (hb : b.Rowless) : (a + b).Rowless where
  input_eq := by simp [ha.input_eq, hb.input_eq]
  nulls_eq := by simp [ha.nulls_eq, hb.nulls_eq]
  valid_eq := by simp [ha.valid_eq, hb.valid_eq]

end Sums

/-! ### A chunk and its groups -/

/-- The rows of a chunk, all of them and then those which were collected. -/
def chunk (rowCount nullRows work groups : ℕ) : Account :=
  rowsAccount 0 nullRows work groups + rowsAccount rowCount 0 0 0

section Chunk

variable {a : Account} {rowCount nullRows work groups : ℕ}

/-- The items of a chunk with what has been added to it. -/
theorem chunk_add (rowCount nullRows work groups : ℕ) (a : Account) :
    (chunk rowCount nullRows work groups + a).1 .input =
        rowCount + a.1 .input ∧
      (chunk rowCount nullRows work groups + a).1 .nulls =
        nullRows + a.1 .nulls ∧
      (chunk rowCount nullRows work groups + a).1 .valid =
        work + a.1 .valid ∧
      (chunk rowCount nullRows work groups + a).1 .unique = a.1 .unique ∧
      (chunk rowCount nullRows work groups + a).1 .deduplicated =
        work - groups + a.1 .deduplicated ∧
      (chunk rowCount nullRows work groups + a).1 .hits = a.1 .hits := by
  simp [chunk, rowsAccount]

/-- What the executor has drawn on the groups of a chunk. -/
theorem Drawn.within (h : a.Drawn groups) (hrowless : a.Rowless)
    (hrows : work + nullRows = rowCount) (hgroups : groups ≤ work) :
    (chunk rowCount nullRows work groups + a).Within := by
  obtain ⟨hinput, hnulls, hvalid⟩ := hrowless
  obtain ⟨hinputs, hnullRows, hvalids, hunique, hdeduplicated, hhits⟩ :=
    chunk_add rowCount nullRows work groups a
  have hclaims := h.claims
  have hsent := h.requests.sent
  refine ⟨by omega, by omega, h.requests.quiet ⟨rfl, rfl, rfl, rfl⟩ ?_⟩
  omega

/-- A chunk is settled when nothing of it is open. -/
theorem Open.settled (h : a.Open groups 0) (hdrawn : a.Drawn groups)
    (hrowless : a.Rowless) (hrows : work + nullRows = rowCount)
    (hgroups : groups ≤ work) :
    (chunk rowCount nullRows work groups + a).Settled := by
  have hwithin := hdrawn.within hrowless hrows hgroups
  obtain ⟨hinput, hnulls, hvalid⟩ := hrowless
  obtain ⟨hinputs, hnullRows, hvalids, hunique, hdeduplicated, hhits⟩ :=
    chunk_add rowCount nullRows work groups a
  obtain ⟨hclaimed, hleft⟩ := h
  have hsizes : (chunk rowCount nullRows work groups + a).2 = a.2 :=
    zero_add _
  refine ⟨hwithin, by omega, by omega, ?_⟩
  rw [hsizes]
  omega

/-- Rows of which nothing has been collected. -/
theorem rows_within : (rowsAccount rowCount 0 0 0).Within := by
  refine ⟨?_, ?_, ?_⟩
  · exact Nat.zero_le _
  · exact Nat.le_refl 0
  · constructor
    · exact Nat.le_refl 0
    · rfl
    · rfl
    · rfl
    · simp [rowsAccount]

end Chunk

end Account

/-! ## Histories -/

section Histories

variable {scope : ℕ}

/-- The executor counts no rows. -/
theorem account_rowless (h : History) :
    (weigh (ExecEvent.account scope) h).Rowless := by
  have hevent : ∀ event : ExecEvent, (event.account scope).Rowless := by
    rintro ⟨op, r⟩
    have hif : ∀ {reported : ℕ} {a : Account}, a.Rowless →
        (if reported = scope then a else 0).Rowless := by
      intro reported a ha
      split
      · exact ha
      · exact ⟨rfl, rfl, rfl⟩
    cases op with
    | claimQueryEntry reported identity =>
        cases r with
        | error error => exact ⟨rfl, rfl, rfl⟩
        | ok claim => exact hif ⟨rfl, rfl, rfl⟩
    | recordCacheHit reported => exact hif ⟨rfl, rfl, rfl⟩
    | recordProviderAttempt reported requests external =>
        exact hif ⟨rfl, rfl, rfl⟩
    | _ => exact ⟨rfl, rfl, rfl⟩
  induction h with
  | nil => exact ⟨rfl, rfl, rfl⟩
  | cons event h ih =>
      rw [weigh_cons]
      exact (hevent event).add ih

/-- Outside the executor only the records count. -/
theorem weigh_records (h : OuterHistory) :
    weigh (fun event => event.1.account scope) h =
      ((records h).map (FunctionOp.account scope)).sum := by
  induction h with
  | nil => rfl
  | cons event h ih =>
      obtain ⟨op, r⟩ := event
      rw [weigh_cons, ih]
      cases op with
      | recordOptimizedRows reported inputRows nullRows validRows groups => rfl
      | _ => exact zero_add _

/-- A call of the executor counts for its own query only. -/
theorem account_elsewhere {call : Call}
    (hexternal : call.provider.makesExternalRequest = true)
    (hscope : call.limits.queryScope ≠ scope) {h : History}
    {p : Prog Op Res Answer} (hafter : call.program.After h p) :
    weigh (ExecEvent.account scope) h = 0 := by
  have hperformed := hafter.performed
    (A := fun op => ∀ r, ExecEvent.account scope ⟨op, r⟩ = 0)
    (fun _ _ _ => trivial) ?_ (Call.serves hexternal)
  · clear hafter
    induction h with
    | nil => rfl
    | cons event h ih =>
        rw [weigh_cons, hperformed event (List.mem_cons_self ..) event.2,
          ih fun other hother =>
            hperformed other (List.mem_cons_of_mem _ hother),
          add_zero]
  · intro g op hallowed r
    cases op with
    | claimQueryEntry reported identity =>
        obtain ⟨rfl, -⟩ := hallowed
        cases r with
        | error error => rfl
        | ok claim => exact if_neg hscope
    | recordCacheHit reported =>
        obtain ⟨rfl, -⟩ := hallowed
        exact if_neg hscope
    | recordProviderAttempt reported requests external =>
        obtain ⟨rfl, -⟩ := hallowed
        exact if_neg hscope
    | _ => rfl

/-- The records of a call add its chunk to the account of their query. -/
theorem weigh_chunk {call : FunctionCall} {h : OuterHistory}
    {nullRows : ℕ} {work : List JudgmentWork}
    (hrecords : records h =
      [FunctionCall.workRecord scope nullRows work, call.inputRecord scope]) :
    weigh (fun event => event.1.account scope) h =
      Account.chunk call.rowCount nullRows work.length
        (groupByIdentity work).length := by
  rw [weigh_records, hrecords]
  simp [FunctionOp.account, FunctionCall.workRecord, FunctionCall.inputRecord,
    Account.chunk]

end Histories

/-! ## Threads -/

theorem length_groupByIdentity (work : List JudgmentWork) :
    (groupByIdentity work).length ≤ work.length := by
  have hadd : ∀ (work : List JudgmentWork) (grouping : Grouping),
      (work.foldl Grouping.add grouping).groups.length ≤
        grouping.groups.length + work.length := by
    intro work
    induction work with
    | nil => exact fun _ => Nat.le_refl _
    | cons item rest ih =>
        intro grouping
        have hitem : (grouping.add item).groups.length ≤
            grouping.groups.length + 1 := by
          unfold Grouping.add
          split
          · simp
          · simp
        have hrest := ih (grouping.add item)
        rw [List.foldl_cons, List.length_cons]
        omega
  have hall := hadd work {}
  rwa [List.length_nil, Nat.zero_add] at hall

/-- What has begun is executed by the provider of the call. -/
theorem FunctionCall.begunCall_provider {call : FunctionCall}
    {h : OuterHistory} {inner : Call} (hbegun : call.begunCall h = some inner) :
    call.state.provider = .ok inner.provider := by
  unfold FunctionCall.begunCall at hbegun
  obtain ⟨recorded, -, hinner⟩ := Option.bind_eq_some_iff.mp hbegun
  split at hinner
  · rename_i hprovider
    obtain rfl := Option.some.inj hinner
    exact hprovider
  · cases hinner

/-- What has begun is about the groups of the record, in its query. -/
theorem FunctionCall.begunCall_work {call : FunctionCall} {h : OuterHistory}
    {inner : Call} (hbegun : call.begunCall h = some inner)
    {scope nullRows : ℕ} {work : List JudgmentWork}
    (hrecords : records h =
      [FunctionCall.workRecord scope nullRows work, call.inputRecord scope]) :
    inner.limits.queryScope = scope ∧ inner.groups = groupByIdentity work := by
  obtain ⟨recorded, inputRows, nulls, validRows, hmem, hne, rfl⟩ :=
    FunctionCall.begunCall_recorded hbegun
  have hrecord : FunctionOp.recordOptimizedRows inner.limits.queryScope
      inputRows nulls validRows inner.groups ∈ records h :=
    mem_records.mpr ⟨⟨_, hmem⟩, rfl⟩
  rw [hrecords] at hrecord
  rcases List.mem_pair.mp hrecord with hwork | hinput
  · obtain ⟨hscope, -, -, -, hgroups⟩ :=
      FunctionOp.recordOptimizedRows.inj hwork
    exact ⟨hscope, hgroups⟩
  · obtain ⟨-, -, -, -, hnil⟩ := FunctionOp.recordOptimizedRows.inj hinput
    exact absurd hnil hne

/-- The providers of all calls make external requests. -/
def AllExternal {ι : Type} (calls : ι → FunctionCall) : Prop :=
  ∀ i provider, (calls i).state.provider = .ok provider →
    provider.makesExternalRequest = true

section Threads

variable {ι : Type} [DecidableEq ι]
  {host : ConnectionRuntime → ConnectionRuntime → Prop} {s₀ : Surroundings}
  {calls : ι → FunctionCall} {p : FunctionPool ι}

/-- Where the host may do anything, it may do what it does. -/
theorem FunctionPool.reach_any
    (hreach : FunctionPool.Reach host (FunctionPool.start s₀ calls) p) :
    FunctionPool.Reach (fun _ _ => True) (FunctionPool.start s₀ calls) p := by
  refine hreach.mono_host ?_
  intro s s' hstep
  cases hstep with
  | connection h => exact .connection s trivial
  | process => exact .process s _ _ _

/-- What a call has done in the executor, it has done for what has begun. -/
theorem FunctionPool.inner_after
    (hreach : FunctionPool.Reach host (FunctionPool.start s₀ calls) p) (i : ι) :
    ((calls i).begunCall (outerOf (p.log.of i)) = none →
      innerOf (p.log.of i) = []) ∧
    ∀ inner, (calls i).begunCall (outerOf (p.log.of i)) = some inner →
      ∃ q, inner.program.After (innerOf (p.log.of i)) q := by
  obtain ⟨⟨thread, hthreads, -⟩, hnone, -⟩ :=
    FunctionPool.inner (fun _ _ _ => trivial) (FunctionPool.reach_any hreach)
  refine ⟨hnone i, fun inner hbegun => ⟨thread i, ?_⟩⟩
  have hi := hthreads i
  rwa [innerCall, hbegun] at hi

/-- What a call of the executor has drawn on the groups of a chunk. -/
theorem FunctionPool.drawn (hexternal : AllExternal calls)
    (hreach : FunctionPool.Reach host (FunctionPool.start s₀ calls) p) {i : ι}
    {scope nullRows : ℕ} {work : List JudgmentWork}
    (hrecords : records (outerOf (p.log.of i)) =
      [FunctionCall.workRecord scope nullRows work,
        (calls i).inputRecord scope]) :
    (weigh (ExecEvent.account scope) (innerOf (p.log.of i))).Drawn
        (groupByIdentity work).length ∧
      ∀ other, other ≠ scope →
        weigh (ExecEvent.account other) (innerOf (p.log.of i)) = 0 := by
  obtain ⟨hnone, hafter⟩ := FunctionPool.inner_after hreach i
  cases hbegun : (calls i).begunCall (outerOf (p.log.of i)) with
  | none =>
      rw [hnone hbegun]
      exact ⟨Account.drawn_zero, fun _ _ => rfl⟩
  | some inner =>
      obtain ⟨q, hq⟩ := hafter inner hbegun
      have hprovider := hexternal i _ (FunctionCall.begunCall_provider hbegun)
      obtain ⟨rfl, hgroups⟩ := FunctionCall.begunCall_work hbegun hrecords
      rw [← hgroups]
      refine ⟨(Call.account hprovider hq).1, fun other hother => ?_⟩
      exact account_elsewhere hprovider (Ne.symm hother) hq

/-- Without a record of groups nothing has been executed. -/
theorem FunctionPool.inner_nil
    (hreach : FunctionPool.Reach host (FunctionPool.start s₀ calls) p) {i : ι}
    (hrecords : ∀ op ∈ records (outerOf (p.log.of i)),
      ∃ scope inputRows nullRows validRows,
        op = .recordOptimizedRows scope inputRows nullRows validRows []) :
    innerOf (p.log.of i) = [] := by
  obtain ⟨hnone, -⟩ := FunctionPool.inner_after hreach i
  cases hbegun : (calls i).begunCall (outerOf (p.log.of i)) with
  | none => exact hnone hbegun
  | some inner =>
      obtain ⟨recorded, inputRows, nulls, validRows, hmem, hne, -⟩ :=
        FunctionCall.begunCall_recorded hbegun
      obtain ⟨_, _, _, _, hrecord⟩ :=
        hrecords _ (mem_records.mpr ⟨⟨_, hmem⟩, rfl⟩)
      obtain ⟨-, -, -, -, hnil⟩ := FunctionOp.recordOptimizedRows.inj hrecord
      exact absurd hnil hne

theorem weigh_inputRecord {call : FunctionCall} {h : OuterHistory}
    {scope recorded : ℕ} (hrecords : records h = [call.inputRecord recorded]) :
    (weigh (fun event : Event FunctionOp FunctionRes =>
      event.1.account scope) h).Within := by
  rw [weigh_records, hrecords, List.map_singleton, List.sum_singleton]
  simp only [FunctionCall.inputRecord, FunctionOp.account, List.length_nil]
  split
  · exact Account.rows_within
  · exact Account.within_zero

/-- Whatever a call has done, its account is within its rows. -/
theorem FunctionPool.thread_within (hexternal : AllExternal calls)
    (hreach : FunctionPool.Reach host (FunctionPool.start s₀ calls) p)
    (scope : ℕ) (i : ι) :
    (weigh (functionAccount scope) (p.log.of i)).Within := by
  have hrecorded := FunctionPool.recorded hreach i
  rw [functionAccount, weigh_both, add_comm]
  generalize hrecords : records (outerOf (p.log.of i)) = made at hrecorded
  cases hrecorded with
  | none =>
      have hinner : innerOf (p.log.of i) = [] :=
        FunctionPool.inner_nil hreach (by simp [hrecords])
      rw [hinner, weigh_records,
        hrecords]
      exact Account.within_zero
  | input hentered =>
      have hinner : innerOf (p.log.of i) = [] := by
        refine FunctionPool.inner_nil hreach ?_
        rw [hrecords]
        simp [FunctionCall.inputRecord]
      rw [hinner, weigh_nil, add_zero]
      exact weigh_inputRecord hrecords
  | @collected recorded nullRows _ _ context work hentered hcollect =>
      obtain ⟨hdrawn, hother⟩ := FunctionPool.drawn hexternal hreach hrecords
      have hlength := (FunctionCall.collected hcollect).length
      rw [List.length_range] at hlength
      by_cases hscope : recorded = scope
      · subst hscope
        rw [weigh_chunk hrecords]
        exact hdrawn.within (account_rowless _) hlength
          (length_groupByIdentity work)
      · rw [hother scope (Ne.symm hscope), weigh_records, hrecords]
        simp [FunctionOp.account, FunctionCall.workRecord,
          FunctionCall.inputRecord, hscope, Account.within_zero]

/-- How a call which has returned well leaves its history. -/
theorem FunctionPool.post
    (hreach : FunctionPool.Reach host (FunctionPool.start s₀ calls) p) {i : ι}
    (hreturned : p.thread i = .ret (.ok ())) :
    (calls i).Post (.ok ()) (p.log.of i) := by
  obtain ⟨-, -, hfollows⟩ :=
    FunctionPool.inner (fun _ _ _ => trivial) (FunctionPool.reach_any hreach)
  have hpost := hfollows i
  rwa [hreturned] at hpost

/-- A call which has returned well is settled. -/
theorem FunctionPool.thread_settled (hexternal : AllExternal calls)
    (hreach : FunctionPool.Reach host (FunctionPool.start s₀ calls) p)
    (scope : ℕ) {i : ι} (hreturned : p.thread i = .ret (.ok ())) :
    (weigh (functionAccount scope) (p.log.of i)).Settled := by
  obtain ⟨context, invocation, chunk, work, nullRows, executed, recorded,
    hcollect, hrecords, hexecuted, -⟩ := FunctionPool.post hreach hreturned
  obtain ⟨hdrawn, hother⟩ := FunctionPool.drawn hexternal hreach hrecords
  have hlength := (FunctionCall.collected hcollect).length
  rw [List.length_range] at hlength
  rw [functionAccount, weigh_both, add_comm]
  by_cases hscope : recorded = scope
  · subst hscope
    rw [weigh_chunk hrecords]
    refine Account.Open.settled ?_ hdrawn (account_rowless _) hlength
      (length_groupByIdentity work)
    rcases hexecuted with ⟨hnone, -⟩ | ⟨inner, hbegun, hgroups, hafter⟩
    · have hinner : innerOf (p.log.of i) = [] := by
        refine FunctionPool.inner_nil hreach ?_
        rw [hrecords, FunctionCall.workRecord, hnone]
        simp [FunctionCall.inputRecord]
      rw [hinner, hnone]
      exact Account.open_zero
    · have hprovider := hexternal i _ (FunctionCall.begunCall_provider hbegun)
      obtain ⟨hscope, -⟩ := FunctionCall.begunCall_work hbegun hrecords
      have hopen := (Call.account hprovider hafter).2 executed rfl
      rwa [hscope, hgroups] at hopen
  · rw [hother scope (Ne.symm hscope), weigh_records, hrecords]
    simp [FunctionOp.account, FunctionCall.workRecord,
      FunctionCall.inputRecord, hscope, Account.settled_zero]

/-! ## All calls -/

theorem FunctionPool.total_within (hexternal : AllExternal calls)
    (hreach : FunctionPool.Reach host (FunctionPool.start s₀ calls) p)
    (scope : ℕ) : (Log.weigh (functionAccount scope) p.log).Within :=
  Log.weigh_induction _ _ Account.within_zero (fun _ _ ha hb => ha.add hb)
    (FunctionPool.thread_within hexternal hreach scope)

/-- Nothing is left open when each call either has done nothing yet or has
returned well. -/
theorem FunctionPool.total_settled (hexternal : AllExternal calls)
    (hreach : FunctionPool.Reach host (FunctionPool.start s₀ calls) p)
    (scope : ℕ)
    (hdone : ∀ i, p.log.of i = [] ∨ p.thread i = .ret (.ok ())) :
    (Log.weigh (functionAccount scope) p.log).Settled := by
  refine Log.weigh_induction _ _ Account.settled_zero
    (fun _ _ ha hb => ha.add hb) fun i => ?_
  rcases hdone i with hnone | hreturned
  · rw [hnone]
    exact Account.settled_zero
  · exact FunctionPool.thread_settled hexternal hreach scope hreturned

end Threads

end DuckJeu
