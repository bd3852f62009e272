import DuckJeu.Executor.Completion
import DuckJeu.Executor.Undisturbed
import DuckJeu.Functions.Row

/-!
# The capability gate

Three paths lead to the provider, and each checks the capabilities by itself,
if at all.  The row evaluator and the batched execution let no judgment past
which the provider does not declare.  The execution of one group at a time
does not look.
-/

namespace DuckJeu

open Effects ConnectionRuntime

/-- The requests with which an operation turns to the provider, or says so. -/
def Op.asked : Op → List JudgmentRequest
  | .recordProviderAttempt _ requests _ => requests
  | .judge _ _ requests => requests
  | _ => []

/-- All that was asked was within the capabilities; and a program with some
judgment outside of them has not returned results. -/
structure GateKept {α : Type} (provider : Provider)
    (judgments : List JudgmentRequest) (h : History)
    (p : Run (Except JudgmentError α)) : Prop where
  asked : ∀ event ∈ h, ∀ request ∈ Op.asked event.1,
    provider.gate request = true
  fails : (∃ request ∈ judgments, provider.gate request = false) →
    ∀ a, p ≠ .ret (.ok a)

/-! ## The row evaluator -/

/-- One row for the evaluator. -/
structure RowCall where
  kind : FunctionKind
  row : InputRow
  provider : Provider
  config : RuntimeConfig
  scope : Option ℕ

namespace RowCall

variable (W : WireText) (call : RowCall)

def program : Run (Except JudgmentError (Option JudgmentResult)) :=
  (evaluateRow (.ok call.provider) (.ok call.config) call.scope
    (readRequest W call.kind call.row)).run

/-- The judgment of the row, if it has one. -/
def judgments : List JudgmentRequest :=
  match readRequest W call.kind call.row with
  | .ok (some request) => [request]
  | _ => []

/-- Whatever happens on the connection, and whatever other rows do, the row
keeps the gate. -/
def Gated : Prop :=
  ∀ (ι : Type) [DecidableEq ι] (calls : ι → RowCall) (i : ι),
    calls i = call → ∀ (c : ConnectionRuntime) p,
      Pool.Reachable step HostStep ⟨c, fun i => (calls i).program W, []⟩ p →
        GateKept call.provider (call.judgments W) (p.log.of i) (p.thread i)

end RowCall

/-- Programs which ask within the capabilities only, whatever they are told. -/
def gateProtocol (provider : Provider) : Protocol Op Res Unit where
  note := fun _ _ _ => ()
  Allowed := fun _ op => ∀ request ∈ op.asked, provider.gate request = true
  Admits := fun _ _ _ => True

section Row

variable {provider : Provider}

theorem onConnection_gate {scope : Option ℕ} {act : ℕ → Exec Unit}
    (hact : ∀ queryScope, Secures (gateProtocol provider) (act queryScope)
      (fun _ _ => True) (fun _ _ => True) ()) :
    Secures (gateProtocol provider) (onConnection scope act)
      (fun _ _ => True) (fun _ _ => True) () := by
  cases scope with
  | none => trivial
  | some queryScope => exact hact queryScope

/-- An operation which asks nothing. -/
theorem perform_gate {op : Op} (hop : op.asked = []) :
    Secures (gateProtocol provider) (perform op) (fun _ _ => True)
      (fun _ _ => True) () := by
  rw [secures_lift, follows_perform]
  exact ⟨by simp [gateProtocol, hop], fun _ _ => trivial⟩

theorem judgeRow_gate {maxInflight : ℕ} {scope : Option ℕ}
    {request : JudgmentRequest} (hgate : provider.gate request = true) :
    Secures (gateProtocol provider)
      (judgeRow provider maxInflight scope request) (fun _ _ => True)
      (fun _ _ => True) () := by
  have hasks : ∀ other ∈ [request], provider.gate other = true := by
    simpa using hgate
  unfold judgeRow
  dsimp only
  rw [secures_bind]
  refine (onConnection_gate fun queryScope => ?_).mono ?_ fun _ _ _ => trivial
  · unfold acquireRequestPermit queryCancellation
    simp only [secures_bind, secures_mk, follows_perform]
    refine ⟨by simp [gateProtocol, Op.asked], ?_⟩
    rintro (error | flag) -
    · trivial
    · refine ⟨by simp [gateProtocol, Op.asked], ?_⟩
      rintro (error | granted) -
      · trivial
      · trivial
  rintro _ _ -
  rw [secures_bind]
  refine (onConnection_gate fun queryScope => ?_).mono ?_ fun _ _ _ => trivial
  · rw [secures_lift, follows_perform]
    exact ⟨hasks, fun _ _ => trivial⟩
  rintro _ _ -
  simp only [secures_bind, secures_lift, follows_perform]
  refine ⟨by simp [gateProtocol, Op.asked], fun started _ => ?_⟩
  refine ⟨hasks, fun response _ => ?_⟩
  refine ⟨by simp [gateProtocol, Op.asked], fun ended _ => ?_⟩
  cases response with
  | ok response =>
      dsimp only
      rw [secures_bind]
      refine (onConnection_gate fun queryScope => perform_gate rfl).mono ?_
        fun _ _ _ => trivial
      rintro _ _ -
      rw [secures_bind]
      refine (onConnection_gate fun queryScope => perform_gate rfl).mono ?_
        fun _ _ _ => trivial
      rintro _ _ -
      rw [secures_mk]
      cases rowAnswer request response with
      | error error => trivial
      | ok result => trivial
  | error error =>
      have hdrop : Secures (gateProtocol provider) (do
          onConnection scope fun _ => perform .dropPermit
          throw error : Exec JudgmentResult) (fun _ _ => True)
          (fun _ _ => True) () := by
        rw [secures_bind]
        exact (onConnection_gate fun queryScope => perform_gate rfl).mono
          (fun _ _ _ => trivial) fun _ _ _ => trivial
      dsimp only
      split
      · rw [secures_bind]
        refine (onConnection_gate fun queryScope => ?_).mono
          (fun _ _ _ => hdrop) fun _ _ _ => trivial
        rw [secures_bind]
        exact (perform_gate rfl).mono (fun _ _ _ => perform_gate rfl)
          fun _ _ _ => trivial
      · exact hdrop

/-- A noul request has no choices to count. -/
theorem WellFormed.choices_nil {W : WireText} {request : JudgmentRequest}
    (h : WellFormed W request) (hkind : request.kind ≠ .choice) :
    request.choices = [] := by
  obtain ⟨state, -, ⟨criterion, hnoul⟩ | ⟨question, choices, hchoice⟩⟩ := h
  · rw [noul_ok hnoul]
  · rw [choice_ok hchoice] at hkind
    exact absurd rfl hkind

/-- A row keeps the gate whatever it is told, and has a value only if its
judgment is within the capabilities. -/
theorem RowCall.follows (W : WireText) (call : RowCall) :
    Follows (gateProtocol call.provider) (call.program W)
      (fun answer _ => ∀ value, answer = .ok value →
        ∀ request ∈ call.judgments W, call.provider.gate request = true)
      () := by
  unfold RowCall.program evaluateRow RowCall.judgments
  cases hread : readRequest W call.kind call.row with
  | error error => exact fun _ heq => by cases heq
  | ok read =>
      cases read with
      | none => exact fun _ _ _ hmem => by cases hmem
      | some request =>
          dsimp only
          split
          · exact fun _ heq => by cases heq
          split
          · exact fun _ heq => by cases heq
          rename_i hverified
          split
          · exact fun _ heq => by cases heq
          rename_i hchoices
          have hgate : call.provider.gate request = true := by
            have hlimit : call.provider.withinChoiceLimit
                request.choices.length = true := by
              by_cases hkind : request.kind = .choice
              · simpa [hkind] using hchoices
              · rw [(readRequest_wellFormed hread).1.choices_nil hkind]
                unfold Provider.withinChoiceLimit
                cases call.provider.capabilities.maxChoices with
                | none => rfl
                | some limit => simp
            unfold Provider.gate
            rw [not_not.mp hverified, hlimit]
            rfl
          have hsecures : Secures (gateProtocol call.provider) (do
              let result ← judgeRow call.provider call.config.maxInflight
                call.scope request
              pure (some result)) (fun _ _ => True) (fun _ _ => True) () := by
            rw [secures_bind]
            exact (judgeRow_gate hgate).mono (fun _ _ _ => trivial)
              fun _ _ _ => trivial
          refine Follows.mono hsecures fun _ _ _ _ _ other hmem => ?_
          rw [List.mem_singleton.mp hmem]
          exact hgate

theorem RowCall.gated (W : WireText) (call : RowCall) : call.Gated W := by
  rintro ι _ calls i rfl c p hreach
  have hinv : (∀ j, ∀ event ∈ p.log.of j, ∀ request ∈ Op.asked event.1,
      (calls j).provider.gate request = true) ∧ ∀ j,
      Follows (gateProtocol (calls j).provider) (p.thread j)
        (fun answer _ => ∀ value, answer = .ok value →
          ∀ request ∈ (calls j).judgments W,
            (calls j).provider.gate request = true)
        ((gateProtocol (calls j).provider).replay () (p.log.of j)) := by
    refine hreach.follows (g := fun _ => ()) (fun _ log => ∀ j,
      ∀ event ∈ Log.of log j, ∀ request ∈ Op.asked event.1,
        (calls j).provider.gate request = true) ?_ (fun _ _ _ hinv _ => hinv)
      (by simp) fun j => (calls j).follows W
    intro c log j op r c' hinv hallowed hstep
    refine ⟨trivial, fun k event hmem => ?_⟩
    rw [Log.mem_of, List.mem_cons, Prod.mk.injEq] at hmem
    rcases hmem with ⟨rfl, rfl⟩ | hmem
    · exact hallowed
    · exact hinv k event (Log.mem_of.mpr hmem)
  refine ⟨hinv.1 i, ?_⟩
  rintro ⟨request, hmem, hgate⟩ value hreturned
  have hpost := hinv.2 i
  rw [hreturned] at hpost
  rw [hpost value rfl request hmem] at hgate
  cases hgate

end Row

/-! ## The executor -/

/-- Whatever happens on the connection, and whatever other calls do, the call
keeps the gate. -/
def Call.Gated (call : Call) : Prop :=
  ∀ (ι : Type) [DecidableEq ι] (calls : ι → Call) (i : ι), calls i = call →
    ∀ (c : ConnectionRuntime) p,
      Workers.Reach HostStep (Workers.start c calls) p →
        GateKept call.provider (call.groups.map JudgmentGroup.request)
          (p.log.of i) (p.thread i)

/-- A call without batches which may send requests stays within the
capabilities. -/
def Call.WithinGate (call : Call) : Prop :=
  call.mode = .single → 0 < call.limits.maxRequestBytes →
    ∀ group ∈ call.groups, call.provider.gate group.request = true

/-- An admissible call within the gate has all its groups within it. -/
theorem Call.Admissible.gate {call : Call} (h : call.Admissible)
    (hwithin : call.WithinGate) : ∀ group ∈ call.groups,
      call.provider.gate group.request = true := by
  cases hmode : call.mode with
  | single =>
      have hbytes : call.limits.maxRequestBytes ≠ 0 := by
        have hnot := h.accepted
        rwa [Call.Rejected, hmode] at hnot
      exact hwithin hmode (Nat.pos_of_ne_zero hbytes)
  | batched maxJudgments order => exact h.cleared maxJudgments order hmode

theorem Call.Carries.gate {call : Call} {carried : List JudgmentIdentity}
    {requests : List JudgmentRequest} (h : call.Carries carried requests)
    (hgates : ∀ group ∈ call.groups,
      call.provider.gate group.request = true) :
    ∀ request ∈ requests, call.provider.gate request = true := by
  induction h with
  | nil => simp
  | cons hhead hrest ih =>
      obtain ⟨group, hgroup, -, key, rfl⟩ := hhead
      exact List.forall_mem_cons.mpr ⟨hgates group hgroup, ih⟩

theorem Call.WithinGate.asked {call : Call} (hwithin : call.WithinGate)
    {h : History} {op : Op} (hallowed : call.Allowed h op) :
    ∀ request ∈ op.asked, call.provider.gate request = true := by
  cases op with
  | recordProviderAttempt scope requests external =>
      obtain ⟨-, hadmissible, carried, hcarries⟩ := hallowed
      exact hcarries.gate (hadmissible.gate hwithin)
  | judge method carried requests =>
      exact hallowed.carries.gate (hallowed.admissible.gate hwithin)
  | _ => simp [Op.asked]

theorem Call.WithinGate.gated {call : Call} (hwithin : call.WithinGate) :
    call.Gated := by
  rintro ι _ calls i rfl c p hreach
  have hinv : (∀ event ∈ p.log.of i, ∀ request ∈ Op.asked event.1,
      (calls i).provider.gate request = true) ∧ Bookkept p.shared p.log ∧
      ∀ j, Follows (calls j).protocol (p.thread j) (calls j).Post
        (p.log.of j) := by
    refine Workers.invariant (fun _ log => ∀ event ∈ Log.of log i,
      ∀ request ∈ Op.asked event.1, (calls i).provider.gate request = true)
      hreach (fun _ _ h => h.slots.1) (by simp) ?_ (fun _ _ _ hinv _ => hinv)
    intro c c' log j op r _ hinv hallowed _ event hmem
    rw [Log.mem_of, List.mem_cons, Prod.mk.injEq] at hmem
    rcases hmem with ⟨rfl, rfl⟩ | hmem
    · exact hwithin.asked hallowed
    · exact hinv event (Log.mem_of.mpr hmem)
  obtain ⟨hasked, -, hfollows⟩ := hinv
  refine ⟨hasked, ?_⟩
  rintro ⟨request, hmem, hgate⟩ output hreturned
  have hpost := hfollows i
  rw [hreturned] at hpost
  obtain ⟨group, hgroup, rfl⟩ := List.mem_map.mp hmem
  rw [hpost.2.2.2.gate hwithin group hgroup] at hgate
  cases hgate

/-! ## A query which knows all results

Another call of the query may have got results under the same identities.
Then a call without batches has nothing to ask, and returns what it finds. -/

section Settled

/-- The query runs and has entries for these identities, with a result in each
of them. -/
structure Settled (scope : ℕ) (identities : List JudgmentIdentity)
    (done : ℕ → Prop) (c : ConnectionRuntime) : Prop where
  running : c.Running scope
  known : ∀ identity ∈ identities, ∃ entry,
    c.queryEntries.lookup identity = some entry ∧ done entry
  result : ∀ entry, done entry → ∃ result, c.slot entry = some (.ok result)

/-- The operations of a call in such a query, and their results. -/
def settledProtocol (scope : ℕ) (identities : List JudgmentIdentity)
    (done : ℕ → Prop) : Protocol Op Res Unit where
  note := fun _ _ _ => ()
  Allowed := fun _ op =>
    match op with
    | .claimQueryEntry claimed identity =>
        claimed = scope ∧ identity ∈ identities
    | .queryCancellation claimed => claimed = scope
    | .wait entry _ => done entry
    | _ => False
  Admits := fun _ op =>
    match op with
    | .claimQueryEntry _ _ => fun r =>
        ∃ entry, r = .ok (entry, false) ∧ done entry
    | .queryCancellation _ => fun r => ∃ flag, r = .ok flag
    | .wait _ _ => fun r => ∃ result, r = .ok result
    | _ => fun _ => True

variable {scope : ℕ} {identities : List JudgmentIdentity} {done : ℕ → Prop}

theorem executeEach_settled {provider : Provider} {limits : ExecutionLimits}
    {cachePolicy : Option CachePolicy}
    (output : List (RowTarget × JudgmentResult)) {groups : List JudgmentGroup}
    (hgroups : ∀ group ∈ groups, group.identity ∈ identities) :
    Secures (settledProtocol limits.queryScope identities done)
      (executeEach provider limits cachePolicy output groups)
      (fun _ _ => True) (fun _ _ => False) () := by
  induction groups generalizing output with
  | nil => trivial
  | cons group rest ih =>
      have hgroup := hgroups group (List.mem_cons_self ..)
      unfold executeEach executeOneGroup claimQueryEntry queryCancellation
      simp only [secures_bind, secures_mk, follows_perform]
      refine ⟨⟨rfl, hgroup⟩, ?_⟩
      rintro _ ⟨entry, rfl, hdone⟩
      refine ⟨rfl, ?_⟩
      rintro _ ⟨flag, rfl⟩
      dsimp only
      rw [if_neg (by simp), waitEntry, secures_mk, follows_perform]
      refine ⟨hdone, ?_⟩
      rintro _ ⟨result, rfl⟩
      exact ih _ fun other hother =>
        hgroups other (List.mem_cons_of_mem _ hother)

theorem Settled.step {s : Alone} {op : Op}
    (hsettled : Settled scope identities done s.1)
    (hallowed : (settledProtocol scope identities done).Allowed () op) :
    ∃ r s', halfEnvironment.handle s op = some (r, s') ∧
      (settledProtocol scope identities done).Admits () op r ∧
        Settled scope identities done s'.1 := by
  obtain ⟨c, t⟩ := s
  obtain ⟨hrunning, hknown, hresult⟩ := hsettled
  cases op with
  | claimQueryEntry claimed identity =>
      obtain ⟨rfl, hmem⟩ := hallowed
      obtain ⟨known, hlookup, hdone⟩ := hknown identity hmem
      cases hclaim : c.claimQueryEntry claimed identity with
      | mk r c' =>
          refine ⟨r, (c', t), by simp [Environment.handle, hclaim], ?_⟩
          rcases claimQueryEntry_cases hclaim with ⟨error, -, -, hclosed⟩ |
            ⟨entry, rfl, -, hfound, hframe⟩ | ⟨-, -, hnone, -⟩
          · exact absurd hrunning hclosed
          · obtain rfl : known = entry :=
              Option.some.inj (hlookup.symm.trans hfound)
            refine ⟨⟨known, rfl, hdone⟩, hframe.running.mpr hrunning, ?_, ?_⟩
            · intro other hother
              rw [hframe.entries]
              exact hknown other hother
            · intro other hother
              rw [hframe.slot]
              exact hresult other hother
          · rw [hlookup] at hnone
            cases hnone
  | queryCancellation claimed =>
      obtain rfl : claimed = scope := hallowed
      obtain ⟨flag, hflag, hdown⟩ := hrunning
      exact ⟨.ok flag, (c, t), by simp [Environment.handle, hflag],
        ⟨flag, rfl⟩, ⟨flag, hflag, hdown⟩, hknown, hresult⟩
  | wait entry flag =>
      obtain ⟨result, hslot⟩ := hresult entry hallowed
      exact ⟨.ok result, (c, t), by
        simp [Environment.handle, ConnectionRuntime.wait, hslot],
        ⟨result, rfl⟩, hrunning, hknown, hresult⟩
  | _ => exact hallowed.elim

/-- A call without batches returns what it finds. -/
theorem Settled.returns {call : Call} (hmode : call.mode = .single)
    (hbytes : 0 < call.limits.maxRequestBytes) {c : ConnectionRuntime}
    (hsettled : Settled call.limits.queryScope
      (call.groups.map JudgmentGroup.identity) done c) :
    ∃ output s h, halfEnvironment.run call.program c =
      some (.ok output, s, h) := by
  have hsecures : Secures (settledProtocol call.limits.queryScope
      (call.groups.map JudgmentGroup.identity) done) call.exec
      (fun _ _ => True) (fun _ _ => False) () := by
    unfold Call.exec executeGroups
    rw [hmode]
    dsimp only
    rw [if_neg hbytes.ne']
    exact executeEach_settled [] fun group hgroup =>
      List.mem_map_of_mem hgroup
  obtain ⟨answer, s, h, hrun, hpost, -⟩ :=
    Prog.run_of_follows halfEnvironment.handle
      (I := fun s _ => Settled call.limits.queryScope
        (call.groups.map JudgmentGroup.identity) done s.1)
      (fun _ _ _ hsettled hallowed => hsettled.step hallowed) (s := (c, 0))
      hsecures hsettled
  cases answer with
  | ok output => exact ⟨output, s, h, hrun⟩
  | error error => exact hpost.elim

end Settled

/-! ### Another call gets the results -/

/-- A question about a text under the identity of the group. -/
def JudgmentGroup.substitute (group : JudgmentGroup) : JudgmentGroup where
  identity := group.identity
  request := textRequest "a"
  targets := []

/-- A call of the same query with substitutes for all groups. -/
def Call.substitute (call : Call) : Call where
  groups := call.groups.map JudgmentGroup.substitute
  provider := plainProvider
  limits :=
    { queryScope := call.limits.queryScope
      maxInflight := 1
      maxRequestBytes := 1000 }
  cachePolicy := none
  mode := .single

/-- One half for every question. -/
def evenJudge : Judge where
  value := fun _ _ _ _ _ => .noul .half

theorem halfEnvironment_judges : halfEnvironment.Judges evenJudge :=
  fun _ _ requests => ⟨halfAnswers requests, rfl, List.Perm.refl _⟩

theorem Call.substitute_suits (call : Call) :
    evenJudge.Suits call.substitute where
  valid := by
    intro group hgroup
    obtain ⟨original, -, rfl⟩ := List.mem_map.mp hgroup
    exact (by decide : ValidFor (textRequest "a") (.noul .half))
  key := fun _ _ _ _ _ _ _ => rfl
  identity := fun _ _ _ _ _ => rfl

theorem Call.substitute_sound (call : Call) : call.substitute.Sound where
  accepted := by simp [Call.Rejected, Call.substitute]
  cleared := by
    intro maxJudgments order hmode
    cases hmode
  policy := by simp [Call.PolicyValid, Call.substitute]
  fits := by
    intro group _
    simp [Call.TooLarge, Call.aloneRequest, Call.substitute, plainProvider]

/-- The first query of a connection which counts its queries from `scope`. -/
def queryAt (scope : ℕ) : ConnectionRuntime :=
  { ConnectionRuntime.init 0 with nextQueryId := scope }.beginQuery 0

/-- The call beside its substitute. -/
def Call.besideSubstitute (call : Call) : Bool → Call :=
  fun i => if i then call else call.substitute

/-- After the substitute has returned, the query knows all results of the
call. -/
theorem Call.settled_reachable (call : Call) :
    ∃ p : Workers Bool, Workers.Reach (fun _ _ => False)
        (Workers.start (queryAt call.limits.queryScope) call.besideSubstitute)
        p ∧ p.thread true = call.program ∧
      Settled call.limits.queryScope (call.groups.map JudgmentGroup.identity)
        (fun entry => ∃ result, p.shared.slot entry = some (.ok result))
        p.shared := by
  have hstart : (queryAt call.limits.queryScope).Running
      call.limits.queryScope := beginQuery_running _ 0
  obtain ⟨output, s, h, hrun, -⟩ := call.substitute_sound.judged
    halfEnvironment_judges call.substitute_suits
    (c := queryAt call.limits.queryScope) hstart rfl
    (fun _ _ _ _ hkey => by cases hkey) Nat.one_pos
  have hreach := Workers.reach_of_run (fun _ _ => False) halfEnvironment
    (p := Workers.start (queryAt call.limits.queryScope)
      call.besideSubstitute) (i := false) hrun
  have hrunning : s.1.Running call.limits.queryScope := by
    refine hreach.invariant
      (fun q => q.shared.Running call.limits.queryScope) hstart ?_
    rintro q q' hq (⟨-, hs⟩ | hs)
    · exact (step_running hs _).mpr hq
    · exact hs.elim
  obtain ⟨⟨hagreed, -⟩, hbooks, hfollows⟩ := Workers.agreed
    (show ∀ i, (call.besideSubstitute i).limits.queryScope =
      call.limits.queryScope from fun i => by cases i <;> rfl)
    (hreach.mono_host fun _ _ hfalse => hfalse.elim)
  refine ⟨_, hreach, rfl, hrunning, ?_, fun _ hdone => hdone⟩
  intro identity hidentity
  obtain ⟨group, hgroup, rfl⟩ := List.mem_map.mp hidentity
  obtain ⟨assigned, -, hperm, hanswered⟩ := (hfollows false).2.2.1
  have hmem : group.substitute ∈ assigned.map Prod.fst :=
    hperm.mem_iff.mpr (List.mem_map_of_mem hgroup)
  obtain ⟨a, ha, hsame⟩ := List.mem_map.mp hmem
  obtain ⟨claim, hclaim, hclaimed, hslot⟩ :=
    hbooks.answered (hanswered a ha)
  have hidentity : claim.identity = group.identity := by
    rw [hclaimed, hsame]
    rfl
  refine ⟨claim.entry, ?_, a.2, hslot⟩
  rw [← hidentity]
  exact hagreed.known hrunning false claim hclaim

/-! ## Which calls keep the gate -/

theorem Call.gated_iff (call : Call) : call.Gated ↔ call.WithinGate := by
  refine ⟨?_, Call.WithinGate.gated⟩
  intro hgated hmode hbytes group hgroup
  by_contra hgate
  obtain ⟨p, hreach, hthread, hsettled⟩ := call.settled_reachable
  obtain ⟨output, s, h, hrun⟩ := hsettled.returns hmode hbytes
  rw [← hthread] at hrun
  have hreturns := Workers.reach_of_run HostStep halfEnvironment hrun
  refine (hgated Bool call.besideSubstitute true rfl _ _
    ((hreach.mono_host fun _ _ hfalse => hfalse.elim).trans hreturns)).fails
      ?_ output (by simp)
  exact ⟨group.request, List.mem_map_of_mem hgroup,
    Bool.eq_false_iff.mpr hgate⟩

/-- The row evaluator always keeps the gate.  A call of the executor does so
exactly if it is batched, or sends nothing at all, or has no judgment outside
of the capabilities. -/
theorem gate_kept_iff (W : WireText) :
    (∀ row : RowCall, row.Gated W) ∧
      ∀ call : Call, call.Gated ↔ call.WithinGate :=
  ⟨RowCall.gated W, Call.gated_iff⟩

/-- A call about a choice, to a provider without choices. -/
def ungatedCall : Call :=
  { abandoningCall with groups := [labelGroup "a" [0]], mode := .single }

/-- A provider which answers every request with the label "x". -/
def labelEnvironment : Environment where
  now := id
  judge := fun _ _ requests => .ok
    { answers := requests.map fun request => ⟨request.requestKey, .choice "x"⟩
      metadata := {} }

/-- A provider is asked for a choice which it does not support, and the
attempt is recorded as an external request. -/
theorem unsupported_choice_asked :
    noulProvider.gate (labelRequest "a") = false ∧
      ¬ ungatedCall.Gated ∧
      ((labelEnvironment.run ungatedCall.program firstQuery).map fun last =>
        (last.1, (last.2.1.1.activeFor 0).map fun query =>
          query.counts.externalRequests)) =
        some (.ok [(⟨0, 0, 0⟩, .choice "x")], some 1) ∧
      ((labelEnvironment.run ungatedCall.program firstQuery).map fun last =>
        (dispatches last.2.2).map fun d =>
          d.requests.map fun request => request.choices) =
        some [[["x", "y"]]] := by
  refine ⟨by decide, ?_, by decide, by decide⟩
  intro hgated
  have hgate := ungatedCall.gated_iff.mp hgated rfl (by decide)
    (labelGroup "a" [0]) (List.mem_cons_self ..)
  revert hgate
  decide

end DuckJeu
