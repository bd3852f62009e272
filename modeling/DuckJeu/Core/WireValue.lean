import DuckJeu.Core.Canonical
import DuckJeu.Json.Text

/-!
# The state as a JSON value

This module follows `to_json_value` of `serialize.rs`, the encoding of a
typed value in a request body, which is written independently of the
canonical bytes.  Objects are ordered maps, as `serde_json` builds them
without insertion order.
-/

namespace DuckJeu

open Json (Members Value)

/-! ## Numbers -/

/-- A `serde_json` number. -/
inductive Number where
  | posInt (u : UInt64)
  | negInt (i : Int64)
  | float (f : F64)
  deriving DecidableEq

/-- Bits of the nearest float of a positive integer, ties to even.  A carry
out of the significand moves into the exponent. -/
def roundBits (n : ℕ) : ℕ :=
  if n = 0 then 0
  else
    let exponent := Nat.log2 n
    let significand :=
      if exponent ≤ 52 then n * 2 ^ (52 - exponent)
      else
        let unit := 2 ^ (exponent - 52)
        let kept := n / unit
        let lost := n % unit
        if unit < 2 * lost ∨ (2 * lost = unit ∧ kept % 2 = 1) then kept + 1
        else kept
    (exponent + 1023) * 2 ^ 52 + (significand - 2 ^ 52)

/-- `Number::as_f64`. -/
def Number.asF64 : Number → F64
  | .posInt u => ⟨UInt64.ofNat (roundBits u.toNat)⟩
  | .negInt i =>
      ⟨UInt64.ofNat ((if i.toInt < 0 then 2 ^ 63 else 0) +
        roundBits i.toInt.natAbs)⟩
  | .float f => f

example : (Number.posInt 1).asF64 = .one := by decide

/-- `Number::as_u64`. -/
def Number.asU64 : Number → Option ℕ
  | .posInt u => some u.toNat
  | _ => none

/-- A `serde_json` value. -/
abbrev Wire := Value Number

/-- An object built by inserting the entries in turn. -/
def object (entries : Members Wire) : Wire :=
  .object (Members.ofEntries entries)

/-- `Value::from(f64)`: a non-finite float has no JSON number. -/
def floatValue (f : F64) : Wire :=
  if f.isFinite then .number (.float f) else .null

/-! ## Typed values -/

mutual

/-- The node object of a typed value. -/
def toJsonValue : TypedValue → Wire
  | .null => object [("t", .string "null")]
  | .bool b => object [("t", .string "bool"), ("v", .bool b)]
  | .int i => object [("t", .string "int"), ("v", .string (toString i.toInt))]
  | .uint u =>
      object [("t", .string "uint"), ("v", .string (toString u.toNat))]
  | .float f => object [("t", .string "float"), ("v", floatValue f)]
  | .decimal d => object [("t", .string "decimal"), ("v", .string d)]
  | .bigInt d => object [("t", .string "int128"), ("v", .string d.text)]
  | .uBigInt d => object [("t", .string "uint128"), ("v", .string d.text)]
  | .text s => object [("t", .string "text"), ("v", .string s)]
  | .struct fields =>
      object [("t", .string "struct"), ("f", object (toJsonFields fields))]

def toJsonFields : List (String × TypedValue) → Members Wire
  | [] => []
  | (name, v) :: rest => (name, toJsonValue v) :: toJsonFields rest

end

mutual

/-- The fields of every `BTreeMap` in the tree increase, as its iterator
yields them. -/
def TypedValue.Ordered : TypedValue → Prop
  | .struct fields => Members.Sorted fields ∧ OrderedFields fields
  | _ => True

def OrderedFields : List (String × TypedValue) → Prop
  | [] => True
  | (_, v) :: rest => v.Ordered ∧ OrderedFields rest

end

/-! ## Reading nodes back -/

theorem get_object (entries : Members Wire) (name : String) :
    (object entries).get name = Members.get? name entries.reverse :=
  Members.get?_ofEntries entries name

theorem toJsonValue_get_tag (v : TypedValue) :
    (toJsonValue v).get "t" = some (.string v.tag) := by
  cases v <;>
    simp [toJsonValue, get_object, Members.get?_cons, TypedValue.tag]

theorem tag_eq_of_toJsonValue {v w : TypedValue}
    (h : toJsonValue v = toJsonValue w) : v.tag = w.tag := by
  have htag : some (Value.string v.tag : Wire) =
      some (Value.string w.tag) := by
    rw [← toJsonValue_get_tag v, ← toJsonValue_get_tag w, h]
  exact Value.string.inj (Option.some.inj htag)

theorem names_toJsonFields (fields : List (String × TypedValue)) :
    (toJsonFields fields).names = Members.names fields := by
  induction fields with
  | nil => rfl
  | cons field rest ih =>
      rw [toJsonFields, Members.names_cons, Members.names_cons, ih]

theorem object_toJsonFields {fields : List (String × TypedValue)}
    (h : Members.Sorted fields) :
    object (toJsonFields fields) = .object (toJsonFields fields) := by
  have hsorted : (toJsonFields fields).Sorted := by
    rw [Members.Sorted, names_toJsonFields]
    exact h
  rw [object, Members.ofEntries_of_sorted hsorted]

theorem floatValue_injective {f g : F64} (hf : f.isFinite = true)
    (hg : g.isFinite = true) (h : floatValue f = floatValue g) : f = g := by
  rw [floatValue, floatValue, if_pos hf, if_pos hg] at h
  exact Number.float.inj (Value.number.inj h)

/-- The payload of a node under its member name. -/
theorem payload_eq {name tag : String} {p q : Wire}
    (h : object [("t", .string tag), (name, p)] =
      object [("t", .string tag), (name, q)]) : p = q := by
  have hget := congrArg (Value.get name) h
  rw [get_object, get_object] at hget
  simpa [Members.get?_cons] using hget

mutual

/-- The node object determines the typed value. -/
theorem toJsonValue_injective (v w : TypedValue) (hv : v.Ordered)
    (hw : w.Ordered) (hfinite : validateValue v = .ok ())
    (hfinite' : validateValue w = .ok ())
    (h : toJsonValue v = toJsonValue w) : v = w := by
  have htag := tag_eq_of_toJsonValue h
  match v with
  | .null =>
      cases w <;> simp [TypedValue.tag] at htag
      rfl
  | .bool b =>
      cases w <;> simp [TypedValue.tag] at htag
      rw [Value.bool.inj (payload_eq h)]
  | .int i =>
      cases w <;> simp [TypedValue.tag] at htag
      have htext := Value.string.inj (payload_eq h)
      rw [Int64.toInt_inj.mp (intText_injective htext)]
  | .uint u =>
      cases w <;> simp [TypedValue.tag] at htag
      have htext := Value.string.inj (payload_eq h)
      rw [UInt64.toNat_inj.mp (natText_injective htext)]
  | .float f =>
      cases w <;> simp [TypedValue.tag] at htag
      rw [floatValue_injective (isFinite_of_validateValue hfinite)
        (isFinite_of_validateValue hfinite') (payload_eq h)]
  | .decimal d =>
      cases w <;> simp [TypedValue.tag] at htag
      rw [Value.string.inj (payload_eq h)]
  | .bigInt d =>
      cases w <;> simp [TypedValue.tag] at htag
      have htext := Value.string.inj (payload_eq h)
      rw [DecimalText.text_injective htext]
  | .uBigInt d =>
      cases w <;> simp [TypedValue.tag] at htag
      have htext := Value.string.inj (payload_eq h)
      rw [DecimalText.text_injective htext]
  | .text s =>
      cases w <;> simp [TypedValue.tag] at htag
      rw [Value.string.inj (payload_eq h)]
  | .struct fields =>
      cases w <;> simp [TypedValue.tag] at htag
      rename_i fields'
      have hobject := payload_eq h
      rw [object_toJsonFields hv.1, object_toJsonFields hw.1] at hobject
      rw [toJsonFields_injective fields fields' hv.2 hw.2 hfinite hfinite'
        (Value.object.inj hobject)]

theorem toJsonFields_injective (fields fields' : List (String × TypedValue))
    (hv : OrderedFields fields) (hw : OrderedFields fields')
    (hfinite : validateFields fields = .ok ())
    (hfinite' : validateFields fields' = .ok ())
    (h : toJsonFields fields = toJsonFields fields') : fields = fields' := by
  match fields, fields' with
  | [], [] => rfl
  | [], _ :: _ => cases h
  | _ :: _, [] => cases h
  | (name, v) :: rest, (name', w) :: rest' =>
      obtain ⟨hhead, hrest⟩ := List.cons.inj h
      obtain ⟨rfl, hvalue⟩ := Prod.mk.inj hhead
      obtain ⟨hval, hvals⟩ := validateFields_cons hfinite
      obtain ⟨hval', hvals'⟩ := validateFields_cons hfinite'
      rw [toJsonValue_injective v w hv.1 hw.1 hval hval' hvalue,
        toJsonFields_injective rest rest' hv.2 hw.2 hvals hvals' hrest]

end

end DuckJeu
