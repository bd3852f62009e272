import DuckJeu.Core.Judgment
import DuckJeu.Json.Value

/-!
# The rows of a function call

This module follows `functions/mod.rs` up to the request of a row: the three
SQL functions, the arguments of one row, and `read_request`.

A row is given by what its vectors hold.  NULL is `none`, and a field of a
STRUCT is already converted, or has a type which is not supported.
-/

namespace DuckJeu

open Json

inductive FunctionKind where
  | prob
  | bool
  | choice
  deriving DecidableEq

/-- The kind of the judgments behind a function. -/
def FunctionKind.questionKind : FunctionKind → QuestionKind
  | .prob => .noul
  | .bool => .noul
  | .choice => .choice

/-- One field of a STRUCT vector at some row. -/
inductive FieldCell where
  | unsupported (typeId : ℕ)
  | null
  | value (v : TypedValue)

/-- A state vector at a row which is not NULL. -/
inductive StateCell where
  | varchar (text : String)
  | struct (fields : List (String × FieldCell))
  | other

/-- The arguments of a function at some row. -/
structure InputRow where
  state : Option StateCell
  text : Option String
  choices : Option (List (Option String))

/-! ## Reading -/

def unsupportedField (typeId : ℕ) : JudgmentError :=
  .invalidInput ("unsupported state field type: duckdb type id " ++
    toString typeId ++ "; v0.1 supports BOOLEAN, integers, finite floats, " ++
    "VARCHAR and NULL")

/-- The loop over the fields; `fields` is the map filled so far. -/
def readStruct (fields : Members TypedValue) :
    List (String × FieldCell) → Except JudgmentError (Members TypedValue)
  | [] => .ok fields
  | (_, .unsupported typeId) :: _ => .error (unsupportedField typeId)
  | (name, .null) :: rest => readStruct (fields.insert name .null) rest
  | (name, .value v) :: rest => readStruct (fields.insert name v) rest

/-- The labels of a list, none of which may be NULL. -/
def readStringList : List (Option String) → Except JudgmentError (List String)
  | [] => .ok []
  | none :: _ =>
      .error (.invalidInput "choices must not contain NULL labels")
  | some label :: rest =>
      match readStringList rest with
      | .error error => .error error
      | .ok labels => .ok (label :: labels)

variable (W : WireText)

def readState : StateCell → Except JudgmentError CanonicalState
  | .varchar text => .ok (encodeText text)
  | .struct fields =>
      match readStruct [] fields with
      | .error error => .error error
      | .ok fields =>
          match encodeStruct W fields with
          | .error error => .error (.invalidInput error.message)
          | .ok state => .ok state
  | .other =>
      .error (.invalidInput
        "unsupported state type: expected STRUCT or VARCHAR")

/-- The request of a row.  A top-level NULL is seen before anything else. -/
def readRequest (kind : FunctionKind) (row : InputRow) :
    Except JudgmentError (Option JudgmentRequest) :=
  match row.state, row.text with
  | some cell, some text =>
      match kind with
      | .choice =>
          match row.choices with
          | none => .ok none
          | some labels => do
              let state ← readState W cell
              let choices ← readStringList labels
              let request ← JudgmentRequest.choice state text choices
              .ok (some request)
      | _ => do
          let state ← readState W cell
          let request ← JudgmentRequest.noul state text
          .ok (some request)
  | _, _ => .ok none

/-! ## What is read -/

/-- Some argument which the function takes is NULL. -/
def InputRow.TopLevelNull (kind : FunctionKind) (row : InputRow) : Prop :=
  row.state = none ∨ row.text = none ∨ (kind = .choice ∧ row.choices = none)

theorem bind_ok {ε α β : Type} {x : Except ε α} {f : α → Except ε β} {b : β}
    (h : (x >>= f) = .ok b) : ∃ a, x = .ok a ∧ f a = .ok b := by
  cases x with
  | error error => cases h
  | ok a => exact ⟨a, rfl, h⟩

variable {W}

theorem readState_encoded {cell : StateCell} {state : CanonicalState}
    (h : readState W cell = .ok state) : Encoded W state := by
  unfold readState at h
  split at h
  · rename_i text
    exact Or.inl ⟨text, (Except.ok.inj h).symm⟩
  · split at h
    · cases h
    rename_i fields _
    split at h
    · cases h
    · rename_i hbuilt
      obtain rfl := Except.ok.inj h
      exact Or.inr ⟨fields, hbuilt⟩
  · cases h

/-- The request of a row is well formed and of the kind of the function. -/
theorem readRequest_wellFormed {kind : FunctionKind} {row : InputRow}
    {request : JudgmentRequest}
    (h : readRequest W kind row = .ok (some request)) :
    WellFormed W request ∧ request.kind = kind.questionKind := by
  have hnoul : ∀ cell text, (do
      let state ← readState W cell
      let request ← JudgmentRequest.noul state text
      .ok (some request) : Except JudgmentError (Option JudgmentRequest)) =
        .ok (some request) → WellFormed W request ∧ request.kind = .noul := by
    intro cell text h
    obtain ⟨state, hstate, h⟩ := bind_ok h
    obtain ⟨request', hrequest, h⟩ := bind_ok h
    obtain rfl := Option.some.inj (Except.ok.inj h)
    refine ⟨⟨state, readState_encoded hstate, Or.inl ⟨text, hrequest⟩⟩, ?_⟩
    rw [noul_ok hrequest]
  unfold readRequest at h
  split at h
  · rename_i cell text _ _
    cases kind with
    | prob => exact hnoul cell text h
    | bool => exact hnoul cell text h
    | choice =>
        dsimp only at h
        split at h
        · cases h
        · rename_i labels _
          obtain ⟨state, hstate, h⟩ := bind_ok h
          obtain ⟨choices, -, h⟩ := bind_ok h
          obtain ⟨request', hrequest, h⟩ := bind_ok h
          obtain rfl := Option.some.inj (Except.ok.inj h)
          refine ⟨⟨state, readState_encoded hstate,
            Or.inr ⟨text, choices, hrequest⟩⟩, ?_⟩
          rw [choice_ok hrequest]
          rfl
  · cases h

/-- A row has no request exactly if one of its arguments is NULL. -/
theorem readRequest_none_iff {kind : FunctionKind} {row : InputRow} :
    readRequest W kind row = .ok none ↔ row.TopLevelNull kind := by
  have hsome : ∀ {ε α β : Type} (x : Except ε α) (y : α → Except ε β),
      (do let a ← x
          let b ← y a
          .ok (some b)) ≠ (.ok none : Except ε (Option β)) := by
    intro ε α β x y h
    obtain ⟨a, -, h⟩ := bind_ok h
    obtain ⟨b, -, h⟩ := bind_ok h
    cases h
  unfold readRequest InputRow.TopLevelNull
  cases hstate : row.state with
  | none => simp
  | some cell =>
      cases htext : row.text with
      | none => simp
      | some text =>
          cases kind with
          | prob => simpa using hsome _ _
          | bool => simpa using hsome _ _
          | choice =>
              cases hchoices : row.choices with
              | none => simp
              | some labels =>
                  have hne : (do
                      let state ← readState W cell
                      let choices ← readStringList labels
                      let request ← JudgmentRequest.choice state text choices
                      .ok (some request)) ≠
                        (.ok none : Except JudgmentError _) := by
                    intro h
                    obtain ⟨state, -, h⟩ := bind_ok h
                    exact hsome _ _ h
                  simpa using hne

end DuckJeu
