import DuckJeu.Executor.Execute

/-!
# What the counters do not see

Some parts of the executor only cache, complete and wait.  A protocol about
the counters ignores their operations, and its ledger stays as it is.
-/

namespace DuckJeu

open Effects

/-- The operations about which no counter is told. -/
def Op.Unrecorded : Op → Bool
  | .queryCancellation _ => true
  | .cacheLookup _ _ _ => true
  | .cacheInsert _ _ _ _ => true
  | .acquirePermit _ _ => true
  | .dropPermit => true
  | .complete _ _ => true
  | .wait _ _ => true
  | .instantNow => true
  | _ => false

/-- The operations of the cache and of entries. -/
def Op.Stores : Op → Bool
  | .cacheLookup _ _ _ => true
  | .cacheInsert _ _ _ _ => true
  | .complete _ _ => true
  | .instantNow => true
  | _ => false

theorem Op.unrecorded_of_stores (op : Op) (hop : op.Stores = true) :
    op.Unrecorded = true := by
  cases op with
  | cacheLookup | cacheInsert | complete | instantNow => rfl
  | _ => cases hop

section Storing

variable {γ : Type} {P : Protocol Op Res γ} {I : γ → Prop}
  (hP : ∀ op : Op, op.Stores = true → P.Ignores op)

include hP

/-- Apart from the hit, looking something up in the cache stores nothing
else. -/
theorem consultCache_stored (hhit : ∀ scope, P.Ignores (.recordCacheHit scope))
    {scope entry : ℕ} {cacheIdentity : Option JudgmentIdentity}
    {cachePolicy : Option CachePolicy} :
    Keeps P I (consultCache scope entry cacheIdentity cachePolicy) := by
  unfold consultCache
  cases cachePolicy with
  | none => exact keeps_pure none
  | some policy =>
      dsimp only
      split
      · exact (hP _ rfl).keeps.bind fun _ => keeps_throw _
      · refine (hP _ rfl).keeps.bind fun now => ?_
        refine (hP _ rfl).keeps.bind fun cached => ?_
        cases cached with
        | none => exact keeps_pure none
        | some result =>
            exact (hhit scope).keeps.bind fun _ =>
              (hP _ rfl).keeps.bind fun _ => keeps_pure _

/-- Caching a result raises no error. -/
theorem cacheValidated_stored_returns {provider : Provider}
    {group : JudgmentGroup} {cacheIdentity : Option JudgmentIdentity}
    {cachePolicy : Option CachePolicy} {effectiveModel : Option String}
    {result : JudgmentResult} {g : γ} (hg : I g) :
    Secures P (cacheValidated provider group cacheIdentity cachePolicy
      effectiveModel result) (fun _ => I) (fun _ _ => False) g := by
  have hperform : ∀ {op : Op}, op.Stores = true → Secures P
      (perform op) (fun _ g' => g' = g) (fun _ _ => False) g := by
    intro op hop
    rw [secures_lift]
    exact (hP op hop).follows rfl
  unfold cacheValidated
  split
  · split
    · simp only [secures_bind, secures_pure]
      refine (hperform rfl).mono ?_ (fun _ _ hfalse => hfalse)
      rintro now _ rfl
      refine (hperform rfl).mono ?_ (fun _ _ hfalse => hfalse)
      rintro stored _ rfl
      exact hg
    · exact hg
  · exact hg

theorem cacheValidated_stored {provider : Provider} {group : JudgmentGroup}
    {cacheIdentity : Option JudgmentIdentity}
    {cachePolicy : Option CachePolicy} {effectiveModel : Option String}
    {result : JudgmentResult} :
    Keeps P I (cacheValidated provider group cacheIdentity cachePolicy
      effectiveModel result) := fun _ hg =>
  (cacheValidated_stored_returns hP hg).mono (fun _ _ h => h)
    fun _ _ hfalse => hfalse.elim

theorem failEntries_stored {error : JudgmentError} {leaders : List Leader} :
    Keeps P I (failEntries error leaders) := by
  induction leaders with
  | nil => exact keeps_pure ()
  | cons leader rest ih => exact (hP _ rfl).keeps.bind fun _ => ih

theorem failLeaders_stored {α : Type} {order : LeaderOrder}
    {leaders : List Leader} {error : JudgmentError} :
    Keeps P I (failLeaders order leaders error : Exec α) :=
  (failEntries_stored hP).bind fun _ => keeps_throw _

theorem publish_stored {provider : Provider} {cachePolicy : Option CachePolicy}
    {effectiveModel : Option String}
    {output : List (RowTarget × JudgmentResult)}
    {results : List (Leader × JudgmentResult)} :
    Keeps P I (publish provider cachePolicy effectiveModel output results) := by
  induction results generalizing output with
  | nil => exact keeps_pure output
  | cons first rest ih =>
      obtain ⟨leader, result⟩ := first
      exact (cacheValidated_stored hP).bind fun _ =>
        (hP _ rfl).keeps.bind fun _ => ih

end Storing

section Unrecorded

variable {γ : Type} {P : Protocol Op Res γ} {I : γ → Prop}
  (hP : ∀ op : Op, op.Unrecorded = true → P.Ignores op)

include hP

theorem queryCancellation_ignored {scope : ℕ} :
    Keeps P I (queryCancellation scope) :=
  keeps_mk fun _ hg => (hP _ rfl).follows hg

theorem waitEntry_ignored {entry flag : ℕ} :
    Keeps P I (waitEntry entry flag) :=
  keeps_mk fun _ hg => (hP _ rfl).follows hg

/-- Of the operations about the cache only the hit is recorded. -/
theorem consultCache_ignored (hhit : ∀ scope, P.Ignores (.recordCacheHit scope))
    {scope entry : ℕ} {cacheIdentity : Option JudgmentIdentity}
    {cachePolicy : Option CachePolicy} :
    Keeps P I (consultCache scope entry cacheIdentity cachePolicy) :=
  consultCache_stored (fun op hop => hP op (op.unrecorded_of_stores hop)) hhit

/-- Caching a result raises no error. -/
theorem cacheValidated_returns {provider : Provider} {group : JudgmentGroup}
    {cacheIdentity : Option JudgmentIdentity}
    {cachePolicy : Option CachePolicy} {effectiveModel : Option String}
    {result : JudgmentResult} {g : γ} (hg : I g) :
    Secures P (cacheValidated provider group cacheIdentity cachePolicy
      effectiveModel result) (fun _ => I) (fun _ _ => False) g :=
  cacheValidated_stored_returns
    (fun op hop => hP op (op.unrecorded_of_stores hop)) hg

theorem failEntries_ignored {error : JudgmentError} {leaders : List Leader} :
    Keeps P I (failEntries error leaders) :=
  failEntries_stored fun op hop => hP op (op.unrecorded_of_stores hop)

theorem failLeaders_ignored {α : Type} {order : LeaderOrder}
    {leaders : List Leader} {error : JudgmentError} :
    Keeps P I (failLeaders order leaders error : Exec α) :=
  failLeaders_stored fun op hop => hP op (op.unrecorded_of_stores hop)

theorem publish_ignored {provider : Provider} {cachePolicy : Option CachePolicy}
    {effectiveModel : Option String}
    {output : List (RowTarget × JudgmentResult)}
    {results : List (Leader × JudgmentResult)} :
    Keeps P I (publish provider cachePolicy effectiveModel output results) :=
  publish_stored fun op hop => hP op (op.unrecorded_of_stores hop)

theorem awaitFollowers_ignored {output : List (RowTarget × JudgmentResult)}
    {followers : List Follower} :
    Keeps P I (awaitFollowers output followers) := by
  induction followers generalizing output with
  | nil => exact keeps_pure output
  | cons follower rest ih => exact (waitEntry_ignored hP).bind fun _ => ih

end Unrecorded

end DuckJeu
