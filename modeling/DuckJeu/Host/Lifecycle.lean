import DuckJeu.Host.Permits

/-!
# Queries of a session are isolated

A query which has ended, or was replaced by the next one, is refused or
ignored by every operation from then on.  Query ids are drawn from a 64-bit
counter, so this is about sessions with at most `2 ^ 64` queries.  The entries
of a query come from its own claims.
-/

namespace DuckJeu

open ConnectionRuntime

variable {hash : String → UInt64} {scope : ℕ}

/-! ## Queries which are over -/

/-- Every operation which carries this query scope is refused, or does
nothing. -/
structure Refuses (hash : String → UInt64) (s : Session) (scope : ℕ) :
    Prop where
  claim : ∀ identity, s.apply hash (.claimQueryEntry scope identity) =
    (.claimed (.error inactiveError), s)
  cancellation : s.apply hash (.queryCancellation scope) =
    (.flag (.error inactiveError), s)
  credential : ∀ credential, s.apply hash (.credentialScope scope credential) =
    (.scope (.error inactiveError), s)
  permit : ∀ maxInflight,
    s.apply hash (.acquireRequestPermit scope maxInflight) =
      (.permit (.error inactiveError), s)
  record : ∀ recording,
    s.apply hash (.record scope recording) = (.done, s)

theorem record_of_inactive {c : ConnectionRuntime}
    (h : c.activeFor scope = none) (recording : Recording) :
    c.record scope recording = c := by
  have hcount : ∀ f, c.count scope f = c := by
    intro f
    simp only [ConnectionRuntime.count, h]
  cases recording with
  | profileContext =>
      simp only [ConnectionRuntime.record,
        ConnectionRuntime.recordProfileContext, h]
  | providerResponse =>
      simp only [ConnectionRuntime.record,
        ConnectionRuntime.recordProviderResponse, h]
  | providerFailure =>
      simp only [ConnectionRuntime.record,
        ConnectionRuntime.recordProviderFailure, h]
  | _ =>
      dsimp only [ConnectionRuntime.record]
      exact hcount _

theorem refuses_of_inactive {s : Session}
    (h : s.runtime.activeFor scope = none) : Refuses hash s scope := by
  have hcancellation :
      s.runtime.queryCancellation scope = .error inactiveError := by
    simp only [ConnectionRuntime.queryCancellation, h]
  constructor
  · intro identity
    simp only [Session.apply, ConnectionRuntime.claimQueryEntry, h]
  · simp only [Session.apply, hcancellation]
  · intro credential
    simp only [Session.apply, ConnectionRuntime.credentialScopeFor, h]
  · intro maxInflight
    simp only [Session.apply, hcancellation]
  · intro recording
    simp only [Session.apply, record_of_inactive h]

theorem activeFor_eq_none {c : ConnectionRuntime}
    (h : ∀ flag, c.queryCancellation scope ≠ .ok flag) :
    c.activeFor scope = none := by
  cases hactive : c.activeFor scope with
  | none => rfl
  | some query =>
      have hok : c.queryCancellation scope = .ok query.cancelled := by
        simp only [ConnectionRuntime.queryCancellation, hactive]
      exact absurd hok (h query.cancelled)

theorem SessionStep.begun_le {s s' : Session} {event : SessionEvent}
    (hstep : SessionStep s s' event) : s.begun ≤ s'.begun := by
  cases hstep <;> omega

/-- No query becomes active but by beginning. -/
theorem SessionStep.cancellation {s s' : Session} {event : SessionEvent}
    (hstep : SessionStep s s' event) (hbegun : s'.begun = s.begun)
    {query flag : ℕ} (hok : s'.runtime.queryCancellation query = .ok flag) :
    s.runtime.queryCancellation query = .ok flag := by
  cases hstep with
  | beginQuery now hruntime hmore hwaiting hheld => omega
  | endQuery now interrupt errorType hruntime hsame hwaiting hheld =>
      obtain ⟨active, hactive, -⟩ := queryCancellation_ok_iff.mp hok
      rw [hruntime, endQuery_activeQuery] at hactive
      cases hactive
  | newEntry hrunning hnew hframe hnext hsame hwaiting hheld =>
      exact (hframe.cancellation query).symm.trans hok
  | granted hattempt hgrant hsame hwaiting hheld =>
      rcases acquirePermit_cases hgrant with ⟨error, herror, -⟩ | ⟨-, hruntime⟩
      · cases herror
      · rw [hruntime] at hok
        exact hok
  | dropped hattempt hruntime hsame hwaiting hheld =>
      rw [hruntime] at hok
      exact hok
  | enter hflag hruntime hsame hwaiting hheld =>
      rw [hruntime] at hok
      exact hok
  | refused hruntime hsame hwaiting hheld =>
      rw [hruntime] at hok
      exact hok
  | quiet hop hgranted hdropped hframe hnext hsame hwaiting hheld =>
      exact (hframe.cancellation query).symm.trans hok

theorem run_begun_le (hash : String → UInt64) (scope : ℕ)
    (earlier later : List SessionOp) :
    (Session.run hash scope earlier).2.begun ≤
      (Session.run hash scope (later ++ earlier)).2.begun := by
  induction later with
  | nil => exact le_refl _
  | cons op later ih =>
      exact ih.trans (Session.apply_step hash _ op).begun_le

/-- While no query begins, none becomes active. -/
theorem run_cancellation (hash : String → UInt64) (scope : ℕ)
    (earlier later : List SessionOp)
    (hbegun : (Session.run hash scope (later ++ earlier)).2.begun =
      (Session.run hash scope earlier).2.begun) {query flag : ℕ}
    (hok : (Session.run hash scope
      (later ++ earlier)).2.runtime.queryCancellation query = .ok flag) :
    (Session.run hash scope earlier).2.runtime.queryCancellation query =
      .ok flag := by
  induction later with
  | nil => exact hok
  | cons op later ih =>
      have hstep := Session.apply_step hash
        (Session.run hash scope (later ++ earlier)).2 op
      have hle := run_begun_le hash scope earlier later
      have hle' := hstep.begun_le
      have hnow : (Session.run hash scope (later ++ earlier)).2.begun =
          (Session.run hash scope earlier).2.begun :=
        le_antisymm (hle'.trans hbegun.le) hle
      exact ih hnow (hstep.cancellation (hbegun.trans hnow.symm) hok)

/-- A query which was active before it ended or was replaced is refused from
then on. -/
theorem run_refuses (hash : String → UInt64) (scope : ℕ)
    (earlier later : List SessionOp) {op : SessionOp}
    (hop : op.Lifecycle) {query : ActiveQuery}
    (hactive : (Session.run hash scope earlier).2.runtime.activeQuery =
      some query)
    (hbound : (Session.run hash scope (later ++ op :: earlier)).2.begun ≤
      2 ^ 64) :
    Refuses hash (Session.run hash scope (later ++ op :: earlier)).2
      query.queryId := by
  refine refuses_of_inactive (activeFor_eq_none fun flag hok => ?_)
  have hthen : (Session.run hash scope earlier).2.runtime.queryCancellation
      query.queryId = .ok query.cancelled :=
    queryCancellation_ok_iff.mpr ⟨query, hactive, rfl, rfl⟩
  obtain ⟨hflag, hid, -⟩ :=
    (Session.run_sound hash scope earlier).current _ _ hthen
  obtain ⟨hflag', hid', -⟩ :=
    (Session.run_sound hash scope (later ++ op :: earlier)).current _ _ hok
  have hstep := Session.apply_step hash (Session.run hash scope earlier).2 op
  have hmore := hstep.begun_le
  have hlater := run_begun_le hash scope (op :: earlier) later
  -- without a wrap the two ids are the two positions in the order of queries
  have hsame : (Session.run hash scope (later ++ op :: earlier)).2.begun =
      (Session.run hash scope earlier).2.begun := by
    have hle := hmore.trans hlater
    omega
  have hnow : (Session.run hash scope (op :: earlier)).2.begun =
      (Session.run hash scope earlier).2.begun :=
    le_antisymm (hlater.trans hsame.le) hmore
  have hafter := run_cancellation hash scope (op :: earlier) later
    (hsame.trans hnow.symm) hok
  cases op with
  | beginQuery now =>
      have hbegun :
          (Session.run hash scope (.beginQuery now :: earlier)).2.begun =
            (Session.run hash scope earlier).2.begun + 1 := rfl
      omega
  | endQuery now interrupt errorType =>
      obtain ⟨active, hstill, -⟩ := queryCancellation_ok_iff.mp hafter
      have hnone : (Session.run hash scope (.endQuery now interrupt errorType ::
          earlier)).2.runtime.activeQuery = none :=
        endQuery_activeQuery now interrupt errorType
      rw [hnone] at hstill
      cases hstill
  | _ => exact hop.elim

/-! ## Entries of a query -/

/-- The entry was made by an earlier claim of this identity, since which no
query began or ended. -/
def MadeBy (events : List SessionEvent) (query : ℕ)
    (identity : JudgmentIdentity) (entry : ℕ) : Prop :=
  ∃ newer older, events = newer ++
      (.claimQueryEntry query identity, .claimed (.ok (entry, true))) :: older ∧
    (∀ event ∈ newer, ¬ event.1.Lifecycle) ∧
    ∀ event ∈ older, ∀ owned, event.2 ≠ .claimed (.ok (entry, owned))

theorem MadeBy.cons {events : List SessionEvent} {query : ℕ}
    {identity : JudgmentIdentity} {entry : ℕ} {event : SessionEvent}
    (h : MadeBy events query identity entry) (hop : ¬ event.1.Lifecycle) :
    MadeBy (event :: events) query identity entry := by
  obtain ⟨newer, older, hevents, hnewer, holder⟩ := h
  refine ⟨event :: newer, older, by rw [hevents]; rfl, ?_, holder⟩
  rw [List.forall_mem_cons]
  exact ⟨hop, hnewer⟩

/-- The entries of the active query were made by its own claims, and every
entry ever claimed is among the slots. -/
structure EntriesSound (events : List SessionEvent) (s : Session) : Prop where
  made : ∀ identity entry, s.runtime.queryEntries.lookup identity = some entry →
    ∃ query flag, s.runtime.queryCancellation query = .ok flag ∧
      MadeBy events query identity entry
  claimed : ∀ event ∈ events, ∀ entry owned,
    event.2 = .claimed (.ok (entry, owned)) → entry < s.runtime.slots.length

theorem apply_claimed {s : Session} {op : SessionOp} {entry : ℕ} {owned : Bool}
    (h : (s.apply hash op).1 = .claimed (.ok (entry, owned))) :
    ∃ query identity, op = .claimQueryEntry query identity ∧
      (s.runtime.claimQueryEntry query identity).1 = .ok (entry, owned) := by
  cases op with
  | claimQueryEntry query identity =>
      exact ⟨query, identity, rfl, SessionReply.claimed.inj h⟩
  | beginQuery now => cases h
  | endQuery now interrupt errorType => cases h
  | queryCancellation query => cases h
  | credentialScope query credential => cases h
  | record query recording => cases h
  | acquireRequestPermit query maxInflight =>
      simp only [Session.apply] at h
      split at h <;> cases h
  | checkPermit i =>
      simp only [Session.apply] at h
      split at h
      · cases h
      · split at h <;> cases h
  | dropPermit i =>
      simp only [Session.apply] at h
      split at h <;> cases h

/-- A claim which succeeds finds an entry of the query or makes a new one. -/
theorem claimed_entry {c : ConnectionRuntime} {query : ℕ}
    {identity : JudgmentIdentity} {entry : ℕ} {owned : Bool}
    (h : (c.claimQueryEntry query identity).1 = .ok (entry, owned)) :
    c.Running query ∧
      ((owned = false ∧ c.queryEntries.lookup identity = some entry) ∨
        (owned = true ∧ entry = c.slots.length ∧
          (c.claimQueryEntry query identity).2.slots.length =
            c.slots.length + 1)) := by
  have hsplit : c.claimQueryEntry query identity =
      (.ok (entry, owned), (c.claimQueryEntry query identity).2) :=
    Prod.ext h rfl
  rcases claimQueryEntry_cases hsplit with
      ⟨error, herror, -⟩ | ⟨found, hfound, hrunning, hlookup, -⟩ |
        ⟨hnew, hrunning, -, hframe⟩
  · cases herror
  · obtain ⟨rfl, rfl⟩ := Prod.mk.inj (Except.ok.inj hfound)
    exact ⟨hrunning, Or.inl ⟨rfl, hlookup⟩⟩
  · obtain ⟨rfl, rfl⟩ := Prod.mk.inj (Except.ok.inj hnew)
    refine ⟨hrunning, Or.inr ⟨rfl, rfl, ?_⟩⟩
    rw [hframe.slots]
    simp [addEntry]

theorem SessionStep.slots_le {s s' : Session} {event : SessionEvent}
    (hstep : SessionStep s s' event) :
    s.runtime.slots.length ≤ s'.runtime.slots.length := by
  cases hstep with
  | beginQuery now hruntime hbegun hwaiting hheld =>
      have hslots := (HostStep.beginQuery s.runtime now).slots.1
      rw [hruntime, hslots]
  | endQuery now interrupt errorType hruntime hbegun hwaiting hheld =>
      have hslots := (endQuery_slots s.runtime now interrupt errorType).1
      rw [hruntime, hslots]
  | newEntry hrunning hnew hframe hnext hbegun hwaiting hheld =>
      rw [hframe.slots]
      simp [addEntry]
  | granted hattempt hgrant hbegun hwaiting hheld =>
      rcases acquirePermit_cases hgrant with ⟨error, herror, -⟩ | ⟨-, hruntime⟩
      · cases herror
      · rw [hruntime]
  | dropped hattempt hruntime hbegun hwaiting hheld => rw [hruntime]; rfl
  | enter hflag hruntime hbegun hwaiting hheld => rw [hruntime]
  | refused hruntime hbegun hwaiting hheld => rw [hruntime]
  | quiet hop hgranted hdropped hframe hnext hbegun hwaiting hheld =>
      rw [hframe.slots]

/-- An operation which leaves queries and entries alone keeps what is said
about them. -/
theorem EntriesSound.keep {events : List SessionEvent} {s s' : Session}
    {event : SessionEvent} (h : EntriesSound events s)
    (hop : ¬ event.1.Lifecycle)
    (hentries : s'.runtime.queryEntries = s.runtime.queryEntries)
    (hcancellation : ∀ query, s'.runtime.queryCancellation query =
      s.runtime.queryCancellation query)
    {identity : JudgmentIdentity} {entry : ℕ}
    (hlookup : s'.runtime.queryEntries.lookup identity = some entry) :
    ∃ query flag, s'.runtime.queryCancellation query = .ok flag ∧
      MadeBy (event :: events) query identity entry := by
  rw [hentries] at hlookup
  obtain ⟨query, flag, hok, hmade⟩ := h.made identity entry hlookup
  exact ⟨query, flag, (hcancellation query).trans hok, hmade.cons hop⟩

theorem EntriesSound.step_made {events : List SessionEvent} {s s' : Session}
    {event : SessionEvent} (h : EntriesSound events s)
    (hstep : SessionStep s s' event) {identity : JudgmentIdentity} {entry : ℕ}
    (hlookup : s'.runtime.queryEntries.lookup identity = some entry) :
    ∃ query flag, s'.runtime.queryCancellation query = .ok flag ∧
      MadeBy (event :: events) query identity entry := by
  cases hstep with
  | beginQuery now hruntime hbegun hwaiting hheld =>
      have hempty : s'.runtime.queryEntries = ∅ := by
        rw [hruntime]
        rfl
      simp [hempty] at hlookup
  | endQuery now interrupt errorType hruntime hbegun hwaiting hheld =>
      rw [hruntime] at hlookup
      unfold ConnectionRuntime.endQuery at hlookup
      split at hlookup
      · rename_i hnone
        obtain ⟨query, flag, hok, -⟩ := h.made identity entry hlookup
        obtain ⟨active, hactive, -⟩ := queryCancellation_ok_iff.mp hok
        rw [hnone] at hactive
        cases hactive
      · simp at hlookup
  | @newEntry query claimed hrunning hnew hframe hnext hbegun hwaiting hheld =>
      have hentries : s'.runtime.queryEntries =
          s.runtime.queryEntries.insert claimed s.runtime.slots.length :=
        hframe.entries
      by_cases hsame : identity = claimed
      · subst hsame
        rw [hentries, AList.lookup_insert] at hlookup
        obtain rfl := Option.some.inj hlookup
        obtain ⟨flag, hok, -⟩ := hrunning
        refine ⟨query, flag, (hframe.cancellation query).trans hok,
          [], events, rfl, fun _ hmem => absurd hmem List.not_mem_nil, ?_⟩
        intro event hevent owned hclaimed
        exact (h.claimed event hevent _ owned hclaimed).false
      · rw [hentries, AList.lookup_insert_ne hsame] at hlookup
        obtain ⟨other, flag, hok, hmade⟩ := h.made identity entry hlookup
        exact ⟨other, flag, (hframe.cancellation other).trans hok,
          hmade.cons id⟩
  | enter hflag hruntime hbegun hwaiting hheld =>
      exact h.keep id (by rw [hruntime]) (fun _ => by rw [hruntime]) hlookup
  | granted hattempt hgrant hbegun hwaiting hheld =>
      rcases acquirePermit_cases hgrant with ⟨error, herror, -⟩ | ⟨-, hruntime⟩
      · cases herror
      · exact h.keep id (by rw [hruntime]) (fun _ => by rw [hruntime]; rfl)
          hlookup
  | refused hruntime hbegun hwaiting hheld =>
      exact h.keep id (by rw [hruntime]) (fun _ => by rw [hruntime]) hlookup
  | dropped hattempt hruntime hbegun hwaiting hheld =>
      exact h.keep id (by rw [hruntime]; rfl) (fun _ => by rw [hruntime]; rfl)
        hlookup
  | quiet hop hgranted hdropped hframe hnext hbegun hwaiting hheld =>
      exact h.keep hop hframe.entries hframe.cancellation hlookup

theorem EntriesSound.step {events : List SessionEvent} {s : Session}
    (h : EntriesSound events s) (op : SessionOp) :
    EntriesSound ((op, (s.apply hash op).1) :: events)
      (s.apply hash op).2 := by
  have hstep := Session.apply_step hash s op
  refine ⟨fun _ _ hlookup => h.step_made hstep hlookup, ?_⟩
  intro event hevent entry owned hclaimed
  rcases List.mem_cons.mp hevent with rfl | hevent
  · obtain ⟨query, identity, rfl, hclaim⟩ := apply_claimed hclaimed
    obtain ⟨-, ⟨-, hlookup⟩ | ⟨-, rfl, hlength⟩⟩ := claimed_entry hclaim
    · exact (s.runtime.entries_lt identity entry hlookup).trans_le
        hstep.slots_le
    · exact hlength ▸ Nat.lt_succ_self _
  · exact (h.claimed event hevent entry owned hclaimed).trans_le hstep.slots_le

theorem Session.run_entries (hash : String → UInt64) (scope : ℕ)
    (ops : List SessionOp) :
    EntriesSound (Session.run hash scope ops).1
      (Session.run hash scope ops).2 := by
  induction ops with
  | nil =>
      refine ⟨fun identity entry hlookup => ?_,
        fun _ hmem => absurd hmem List.not_mem_nil⟩
      simp [Session.run, ConnectionRuntime.init] at hlookup
  | cons op earlier ih => exact ih.step op

/-- An entry which is shared was made in the same query. -/
theorem run_shared (hash : String → UInt64) (scope : ℕ) (ops : List SessionOp)
    {query : ℕ} {identity : JudgmentIdentity} {entry : ℕ}
    (hshared : ((Session.run hash scope ops).2.apply hash
      (.claimQueryEntry query identity)).1 = .claimed (.ok (entry, false))) :
    MadeBy (Session.run hash scope ops).1 query identity entry := by
  obtain ⟨claimant, claimed, hop, hclaim⟩ := apply_claimed hshared
  obtain ⟨rfl, rfl⟩ := SessionOp.claimQueryEntry.inj hop
  obtain ⟨⟨flag, hok, -⟩, ⟨-, hlookup⟩ | ⟨howned, -⟩⟩ := claimed_entry hclaim
  · obtain ⟨maker, flag', hok', hmade⟩ :=
      (Session.run_entries hash scope ops).made _ _ hlookup
    obtain ⟨active, hactive, hid, -⟩ := queryCancellation_ok_iff.mp hok
    obtain ⟨active', hactive', hid', -⟩ := queryCancellation_ok_iff.mp hok'
    rw [hactive] at hactive'
    obtain rfl := Option.some.inj hactive'
    rw [← hid, hid']
    exact hmade
  · cases howned

/-- In every session, a query which is over is refused by all operations and
changes nothing, and an entry is shared only within the query which made
it. -/
theorem session_isolates (hash : String → UInt64) (scope : ℕ)
    (ops : List SessionOp) :
    (∀ (later earlier : List SessionOp) (op : SessionOp) (query : ActiveQuery),
      ops = later ++ op :: earlier → op.Lifecycle →
      (Session.run hash scope earlier).2.runtime.activeQuery = some query →
      (Session.run hash scope ops).2.begun < 2 ^ 64 →
        Refuses hash (Session.run hash scope ops).2 query.queryId) ∧
      ∀ (query : ℕ) (identity : JudgmentIdentity) (entry : ℕ),
        ((Session.run hash scope ops).2.apply hash
          (.claimQueryEntry query identity)).1 = .claimed (.ok (entry, false)) →
        MadeBy (Session.run hash scope ops).1 query identity entry := by
  constructor
  · rintro later earlier op query rfl hop hactive hbound
    exact run_refuses hash scope earlier later hop hactive hbound.le
  · intro query identity entry hshared
    exact run_shared hash scope ops hshared

/-- A query which claims one identity, is replaced, and claims again. -/
def staleOps : List SessionOp :=
  [.claimQueryEntry 1 (textIdentity "a"), .beginQuery 5,
    .claimQueryEntry 0 (textIdentity "a"), .beginQuery 0]

theorem session_isolates_stale :
    Refuses (fun _ => 0) (Session.run (fun _ => 0) 1 staleOps).2 0 ∧
      MadeBy (Session.run (fun _ => 0) 1 staleOps).1 1 (textIdentity "a") 1 :=
  ⟨(session_isolates (fun _ => 0) 1 staleOps).1
      [.claimQueryEntry 1 (textIdentity "a")]
      [.claimQueryEntry 0 (textIdentity "a"), .beginQuery 0] (.beginQuery 5)
      _ rfl trivial rfl (by decide),
    (session_isolates (fun _ => 0) 1 staleOps).2 1 (textIdentity "a") 1
      (by rfl)⟩

end DuckJeu
