import Mathlib.Algebra.GroupWithZero.Nat
import Mathlib.Data.Int.Notation
import Mathlib.Data.List.Basic

/-!
# Canonical state encoding

This module follows `serialize.rs`: typed values, their canonical text, and
the two ways of building a canonical state.

Floating-point values are represented by their IEEE-754 bit patterns, on which
the comparisons of the source are exact.  Two text producers live outside the
repository, the JSON string serializer and the standard shortest float text.
They enter as the parameter `WireText`, whose fields state what the encoding
relies on.
-/

namespace DuckJeu

/-! ## Floating-point bit patterns -/

/-- An `f64`, given by its bit pattern. -/
structure F64 where
  bits : UInt64
  deriving DecidableEq

namespace F64

def magnitude (f : F64) : ℕ := f.bits.toNat % 2 ^ 63

def isNegative (f : F64) : Bool := decide (2 ^ 63 ≤ f.bits.toNat)

def isNaN (f : F64) : Bool := decide (0x7FF0000000000000 < f.magnitude)

/-- `f64::is_finite`: the exponent bits are not all ones. -/
def isFinite (f : F64) : Bool := decide (f.magnitude < 0x7FF0000000000000)

/-- Position in the numeric order; both zeros have position zero. -/
def position (f : F64) : ℤ :=
  if f.isNegative then -(f.magnitude : ℤ) else (f.magnitude : ℤ)

/-- The comparison `a <= b` of the source, false on NaN. -/
def le (a b : F64) : Bool :=
  !a.isNaN && !b.isNaN && decide (a.position ≤ b.position)

def zero : F64 := ⟨0⟩

def half : F64 := ⟨0x3FE0000000000000⟩

def one : F64 := ⟨0x3FF0000000000000⟩

end F64

/-! ## Typed values -/

/-- Encoding version, part of every identity. -/
def canonicalVersion : ℕ := 1

inductive StateKind where
  | text
  | struct
  deriving DecidableEq

/-- The exact decimal text of a 128-bit integer: digits and a minus sign. -/
structure DecimalText where
  text : String
  decimal : ∀ c ∈ text.toList, c.isDigit = true ∨ c = '-'

/-- The typed value tree.  A `BTreeMap` of fields is given by its entries in
iteration order. -/
inductive TypedValue where
  | null
  | bool (b : Bool)
  | int (i : Int64)
  | uint (u : UInt64)
  | float (f : F64)
  | decimal (d : String)
  | bigInt (d : DecimalText)
  | uBigInt (d : DecimalText)
  | text (s : String)
  | struct (fields : List (String × TypedValue))

/-- The normalized state.  The source builds it with `encodeText` and
`encodeStruct` only. -/
structure CanonicalState where
  canonicalVersion : ℕ
  kind : StateKind
  canonical : List UInt8
  value : TypedValue

/-- The bytes of a string. -/
def asBytes (s : String) : List UInt8 := s.toUTF8.data.toList

/-- The text producers outside the repository.  `jsonString` is the JSON
string literal of `serde_json`, `floatText` the shortest round-trip text of a
finite float. -/
structure WireText where
  jsonString : String → String
  floatText : F64 → String
  /-- A JSON string literal opens with a quote. -/
  jsonString_quoted : ∀ s, ∃ rest, (jsonString s).toList = '"' :: rest
  /-- A JSON string literal ends at its closing quote and denotes one string. -/
  jsonString_delimited : ∀ (s t : String) (x y : List Char),
    (jsonString s).toList ++ x = (jsonString t).toList ++ y → s = t ∧ x = y
  floatText_injective : ∀ f g : F64, f.isFinite = true → g.isFinite = true →
    floatText f = floatText g → f = g
  /-- Float text has digits, signs, a point and an exponent mark. -/
  floatText_plain : ∀ f : F64, f.isFinite = true →
    ∀ c ∈ (floatText f).toList, c.isDigit = true ∨ c ∈ ['-', '.', 'e']

/-! ## Encoding -/

structure SerializeError where
  message : String
  deriving DecidableEq

def nonFiniteError : SerializeError :=
  ⟨"state contains a non-finite floating point value"⟩

mutual

/-- Reject non-finite floats anywhere in the tree. -/
def validateValue : TypedValue → Except SerializeError Unit
  | .float f => if f.isFinite then .ok () else .error nonFiniteError
  | .struct fields => validateFields fields
  | _ => .ok ()

def validateFields : List (String × TypedValue) → Except SerializeError Unit
  | [] => .ok ()
  | (_, v) :: rest =>
      match validateValue v with
      | .ok () => validateFields rest
      | .error e => .error e

end

/-- The object of one node: its type tag and the text of its payload. -/
def node (tag payload : String) : String :=
  "\x7b\"t\":\"" ++ tag ++ "\"" ++ payload ++ "\x7d"

variable (W : WireText)

mutual

def writeValue : TypedValue → String
  | .null => node "null" ""
  | .bool b => node "bool" (",\"v\":" ++ if b then "true" else "false")
  | .int i => node "int" (",\"v\":\"" ++ toString i.toInt ++ "\"")
  | .uint u => node "uint" (",\"v\":\"" ++ toString u.toNat ++ "\"")
  | .float f => node "float" (",\"v\":" ++ W.floatText f)
  | .decimal d => node "decimal" (",\"v\":" ++ W.jsonString d)
  | .bigInt d => node "int128" (",\"v\":\"" ++ d.text ++ "\"")
  | .uBigInt d => node "uint128" (",\"v\":\"" ++ d.text ++ "\"")
  | .text s => node "text" (",\"v\":" ++ W.jsonString s)
  | .struct fields =>
      node "struct" (",\"f\":\x7b" ++ writeFields true fields ++ "\x7d")

/-- The fields of a struct in map order, a comma before all but the first. -/
def writeFields (first : Bool) : List (String × TypedValue) → String
  | [] => ""
  | (name, v) :: rest =>
      (if first then "" else ",") ++ W.jsonString name ++ ":" ++
        writeValue v ++ writeFields false rest

end

/-- VARCHAR state: the canonical bytes are the bytes of the text. -/
def encodeText (text : String) : CanonicalState where
  canonicalVersion := canonicalVersion
  kind := .text
  canonical := asBytes text
  value := .text text

/-- The canonical text of a STRUCT state. -/
def structText (fields : List (String × TypedValue)) : String :=
  "\x7b\"canonical_version\":" ++ toString canonicalVersion ++
    ",\"state\":" ++ writeValue W (.struct fields) ++ "\x7d"

/-- STRUCT state: non-finite floats are rejected. -/
def encodeStruct (fields : List (String × TypedValue)) :
    Except SerializeError CanonicalState :=
  match validateValue (.struct fields) with
  | .error e => .error e
  | .ok () => .ok
      { canonicalVersion := canonicalVersion
        kind := .struct
        canonical := asBytes (structText W fields)
        value := .struct fields }

/-- The states which the source can build. -/
def Encoded (state : CanonicalState) : Prop :=
  (∃ text, state = encodeText text) ∨
    ∃ fields, encodeStruct W fields = .ok state

end DuckJeu
