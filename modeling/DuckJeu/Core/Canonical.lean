import DuckJeu.Core.State
import DuckJeu.Support.Delimited
import Mathlib.Tactic.Basic

/-!
# The canonical encoding determines the state

`writeValue` concatenates tags, literals and nested encodings by hand.  The
proof cuts two equal texts apart in the order in which they were written: the
node tag ends at its closing quote, and each payload ends at a mark which the
payload itself cannot contain.  The recursion over nested fields follows the
typed value tree.
-/

namespace DuckJeu

/-! ## Decimal text -/

theorem natText_injective : Function.Injective (fun n : ℕ => toString n) := by
  intro m n h
  have hdigits : Nat.toDigits 10 m = Nat.toDigits 10 n := by
    simpa [String.ext_iff] using h
  calc
    m = Nat.ofDigitChars 10 (Nat.toDigits 10 m) 0 :=
      (Nat.ofDigitChars_toDigits (by decide) (by decide)).symm
    _ = Nat.ofDigitChars 10 (Nat.toDigits 10 n) 0 := by rw [hdigits]
    _ = n := Nat.ofDigitChars_toDigits (by decide) (by decide)

theorem isDigit_of_mem_natText {n : ℕ} {c : Char}
    (hc : c ∈ (toString n).toList) : c.isDigit = true := by
  have hmem : c ∈ Nat.toDigits 10 n := by simpa using hc
  exact Nat.isDigit_of_mem_toDigits (by decide) (by decide) hmem

/-- Integer text is digits, after a minus sign for negative integers. -/
theorem decimal_of_mem_intText {i : ℤ} {c : Char}
    (hc : c ∈ (toString i).toList) : c.isDigit = true ∨ c = '-' := by
  rw [Int.toString_eq_repr, Int.repr_eq_if] at hc
  split at hc
  · exact Or.inl (isDigit_of_mem_natText hc)
  · rw [String.toList_append, List.mem_append] at hc
    rcases hc with hminus | hdigits
    · exact Or.inr (by simpa using hminus)
    · exact Or.inl (isDigit_of_mem_natText hdigits)

theorem natText_ne_minus {m n : ℕ} :
    (toString m : String) ≠ "-" ++ (toString n : String) := by
  intro h
  have hmem : '-' ∈ (toString m).toList := by simp [h]
  have hdigit := isDigit_of_mem_natText hmem
  exact absurd hdigit (by decide)

theorem intText_injective : Function.Injective (fun i : ℤ => toString i) := by
  intro i j h
  simp only [Int.toString_eq_repr, Int.repr_eq_if] at h
  split at h <;> split at h
  · have hnat := natText_injective h
    omega
  · exact absurd h natText_ne_minus
  · exact absurd h.symm natText_ne_minus
  · have hsuffix : (-i).toNat.repr = (-j).toNat.repr := by
      simpa [String.ext_iff] using h
    have hnat := natText_injective hsuffix
    omega

theorem DecimalText.text_injective :
    Function.Injective DecimalText.text := by
  rintro ⟨s, hs⟩ ⟨t, ht⟩ h
  obtain rfl : s = t := h
  rfl

/-! ## Cutting one node -/

/-- The tag of a node. -/
def TypedValue.tag : TypedValue → String
  | .null => "null"
  | .bool _ => "bool"
  | .int _ => "int"
  | .uint _ => "uint"
  | .float _ => "float"
  | .decimal _ => "decimal"
  | .bigInt _ => "int128"
  | .uBigInt _ => "uint128"
  | .text _ => "text"
  | .struct _ => "struct"

theorem quote_notMem_tag (v : TypedValue) : '"' ∉ v.tag.toList := by
  cases v <;> simp [TypedValue.tag]

theorem quote_not_decimal {c : Char}
    (hc : c.isDigit = true ∨ c = '-') : c ≠ '"' := by
  rintro rfl
  revert hc
  decide

theorem node_cut {t t' p p' : String} (ht : '"' ∉ t.toList)
    (ht' : '"' ∉ t'.toList) {x y : List Char}
    (h : (node t p).toList ++ x = (node t' p').toList ++ y) :
    t = t' ∧ p.toList ++ '\x7d' :: x = p'.toList ++ '\x7d' :: y := by
  have hcut : t.toList ++ '"' :: (p.toList ++ '\x7d' :: x) =
      t'.toList ++ '"' :: (p'.toList ++ '\x7d' :: y) := by
    simpa [node] using h
  obtain ⟨htag, hrest⟩ := Delimited.terminator_cut ht ht' hcut
  exact ⟨String.toList_inj.mp htag, hrest⟩

variable (W : WireText)

/-- The text between the tag and the closing brace of a node. -/
def TypedValue.payload : TypedValue → String
  | .null => ""
  | .bool b => ",\"v\":" ++ if b then "true" else "false"
  | .int i => ",\"v\":\"" ++ toString i.toInt ++ "\""
  | .uint u => ",\"v\":\"" ++ toString u.toNat ++ "\""
  | .float f => ",\"v\":" ++ W.floatText f
  | .decimal d => ",\"v\":" ++ W.jsonString d
  | .bigInt d => ",\"v\":\"" ++ d.text ++ "\""
  | .uBigInt d => ",\"v\":\"" ++ d.text ++ "\""
  | .text s => ",\"v\":" ++ W.jsonString s
  | .struct fields => ",\"f\":\x7b" ++ writeFields W true fields ++ "\x7d"

theorem writeValue_eq_node (v : TypedValue) :
    writeValue W v = node v.tag (v.payload W) := by
  cases v <;> simp [writeValue, TypedValue.tag, TypedValue.payload]

variable {W}

theorem payload_cut {v w : TypedValue} {x y : List Char}
    (h : (writeValue W v).toList ++ x = (writeValue W w).toList ++ y) :
    v.tag = w.tag ∧
      (v.payload W).toList ++ '\x7d' :: x =
        (w.payload W).toList ++ '\x7d' :: y := by
  rw [writeValue_eq_node, writeValue_eq_node] at h
  exact node_cut (quote_notMem_tag v) (quote_notMem_tag w) h

/-- Quoted decimal text is cut at its closing quote. -/
theorem quoted_cut {u v : String} {x y : List Char}
    (hu : ∀ c ∈ u.toList, c.isDigit = true ∨ c = '-')
    (hv : ∀ c ∈ v.toList, c.isDigit = true ∨ c = '-')
    (h : (",\"v\":\"" ++ u ++ "\"").toList ++ '\x7d' :: x =
      (",\"v\":\"" ++ v ++ "\"").toList ++ '\x7d' :: y) :
    u = v ∧ x = y := by
  have hcut : u.toList ++ '"' :: '\x7d' :: x =
      v.toList ++ '"' :: '\x7d' :: y := by
    simpa using h
  obtain ⟨huv, hxy⟩ := Delimited.terminator_cut
    (fun hmem => quote_not_decimal (hu _ hmem) rfl)
    (fun hmem => quote_not_decimal (hv _ hmem) rfl) hcut
  exact ⟨String.toList_inj.mp huv, (List.cons.inj hxy).2⟩

/-- A JSON string payload is cut at the end of its literal. -/
theorem literal_cut {s t : String} {x y : List Char}
    (h : (",\"v\":" ++ W.jsonString s).toList ++ '\x7d' :: x =
      (",\"v\":" ++ W.jsonString t).toList ++ '\x7d' :: y) :
    s = t ∧ x = y := by
  have hcut : (W.jsonString s).toList ++ '\x7d' :: x =
      (W.jsonString t).toList ++ '\x7d' :: y := by
    simpa using h
  obtain ⟨hst, hxy⟩ := W.jsonString_delimited s t _ _ hcut
  exact ⟨hst, (List.cons.inj hxy).2⟩

theorem brace_notMem_floatText {f : F64} (hf : f.isFinite = true) :
    '\x7d' ∉ (W.floatText f).toList := by
  intro hmem
  have hplain := W.floatText_plain f hf _ hmem
  revert hplain
  decide

theorem float_cut {f g : F64} {x y : List Char}
    (hf : f.isFinite = true) (hg : g.isFinite = true)
    (h : (",\"v\":" ++ W.floatText f).toList ++ '\x7d' :: x =
      (",\"v\":" ++ W.floatText g).toList ++ '\x7d' :: y) :
    f = g ∧ x = y := by
  have hcut : (W.floatText f).toList ++ '\x7d' :: x =
      (W.floatText g).toList ++ '\x7d' :: y := by
    simpa using h
  obtain ⟨htext, hxy⟩ := Delimited.terminator_cut
    (brace_notMem_floatText hf) (brace_notMem_floatText hg) hcut
  exact ⟨W.floatText_injective f g hf hg (String.toList_inj.mp htext), hxy⟩

theorem bool_cut {b c : Bool} {x y : List Char}
    (h : (",\"v\":" ++ if b then "true" else "false").toList ++
        '\x7d' :: x =
      (",\"v\":" ++ if c then "true" else "false").toList ++ '\x7d' :: y) :
    b = c ∧ x = y := by
  cases b <;> cases c <;> simp_all

theorem isFinite_of_validateValue {f : F64}
    (h : validateValue (.float f) = .ok ()) : f.isFinite = true := by
  by_contra hf
  simp [validateValue, hf] at h

theorem validateFields_cons {field : String × TypedValue}
    {rest : List (String × TypedValue)}
    (h : validateFields (field :: rest) = .ok ()) :
    validateValue field.2 = .ok () ∧ validateFields rest = .ok () := by
  cases hv : validateValue field.2 with
  | error e => simp [validateFields, hv] at h
  | ok u => exact ⟨rfl, by simpa [validateFields, hv] using h⟩

/-! ## Cutting values and fields -/

/-- A further field cannot be read as the end of its struct: it opens with a
comma or, when it is the first one, with a quote. -/
theorem writeFields_cons_ne_nil {field : String × TypedValue}
    {rest : List (String × TypedValue)} {first : Bool} {x y : List Char} :
    (writeFields W first (field :: rest)).toList ++ '\x7d' :: x ≠
      (writeFields W first []).toList ++ '\x7d' :: y := by
  intro h
  obtain ⟨literal, hliteral⟩ := W.jsonString_quoted field.1
  cases first <;> simp [writeFields, hliteral] at h

/-- Two field lists which agree up to their continuations agree on the name of
the first field. -/
theorem writeFields_cons_cut {field field' : String × TypedValue}
    {rest rest' : List (String × TypedValue)} {first : Bool}
    {x y : List Char}
    (h : (writeFields W first (field :: rest)).toList ++ x =
      (writeFields W first (field' :: rest')).toList ++ y) :
    field.1 = field'.1 ∧
      (writeValue W field.2).toList ++
          ((writeFields W false rest).toList ++ x) =
        (writeValue W field'.2).toList ++
          ((writeFields W false rest').toList ++ y) := by
  have hcut :
      (W.jsonString field.1).toList ++ (':' :: ((writeValue W field.2).toList ++
          ((writeFields W false rest).toList ++ x))) =
        (W.jsonString field'.1).toList ++
          (':' :: ((writeValue W field'.2).toList ++
            ((writeFields W false rest').toList ++ y))) := by
    cases first <;> simpa [writeFields] using h
  obtain ⟨hname, htail⟩ := W.jsonString_delimited _ _ _ _ hcut
  exact ⟨hname, (List.cons.inj htail).2⟩

/-- Two encodings which agree up to their continuations encode one value.
The induction is over the value tree; its list part cuts the fields of a
struct, whose text ends at a closing brace. -/
theorem writeValue_cut (v : TypedValue) :
    ∀ (w : TypedValue) (x y : List Char),
      validateValue v = .ok () → validateValue w = .ok () →
      (writeValue W v).toList ++ x = (writeValue W w).toList ++ y →
        v = w ∧ x = y := by
  induction v using TypedValue.rec
    (motive_2 := fun fields =>
      ∀ (fields' : List (String × TypedValue)) (first : Bool)
        (x y : List Char),
        validateFields fields = .ok () → validateFields fields' = .ok () →
        (writeFields W first fields).toList ++ '\x7d' :: x =
          (writeFields W first fields').toList ++ '\x7d' :: y →
        fields = fields' ∧ x = y)
    (motive_3 := fun field =>
      ∀ (w : TypedValue) (x y : List Char),
        validateValue field.2 = .ok () → validateValue w = .ok () →
        (writeValue W field.2).toList ++ x = (writeValue W w).toList ++ y →
          field.2 = w ∧ x = y) with
  | null =>
      intro w x y _ _ h
      obtain ⟨htag, hcut⟩ := payload_cut h
      cases w <;> simp [TypedValue.tag] at htag
      exact ⟨rfl, by simpa [TypedValue.payload] using hcut⟩
  | bool b =>
      intro w x y _ _ h
      obtain ⟨htag, hcut⟩ := payload_cut h
      cases w <;> simp [TypedValue.tag] at htag
      obtain ⟨rfl, hxy⟩ := bool_cut hcut
      exact ⟨rfl, hxy⟩
  | int i =>
      intro w x y _ _ h
      obtain ⟨htag, hcut⟩ := payload_cut h
      cases w <;> simp [TypedValue.tag] at htag
      obtain ⟨htext, hxy⟩ := quoted_cut
        (fun _ => decimal_of_mem_intText) (fun _ => decimal_of_mem_intText)
        hcut
      exact ⟨by rw [Int64.toInt_inj.mp (intText_injective htext)], hxy⟩
  | uint u =>
      intro w x y _ _ h
      obtain ⟨htag, hcut⟩ := payload_cut h
      cases w <;> simp [TypedValue.tag] at htag
      obtain ⟨htext, hxy⟩ := quoted_cut
        (fun _ hc => Or.inl (isDigit_of_mem_natText hc))
        (fun _ hc => Or.inl (isDigit_of_mem_natText hc)) hcut
      exact ⟨by rw [UInt64.toNat_inj.mp (natText_injective htext)], hxy⟩
  | float f =>
      intro w x y hv hw h
      obtain ⟨htag, hcut⟩ := payload_cut h
      cases w <;> simp [TypedValue.tag] at htag
      obtain ⟨rfl, hxy⟩ := float_cut (isFinite_of_validateValue hv)
        (isFinite_of_validateValue hw) hcut
      exact ⟨rfl, hxy⟩
  | decimal d =>
      intro w x y _ _ h
      obtain ⟨htag, hcut⟩ := payload_cut h
      cases w <;> simp [TypedValue.tag] at htag
      obtain ⟨rfl, hxy⟩ := literal_cut hcut
      exact ⟨rfl, hxy⟩
  | bigInt d =>
      intro w x y _ _ h
      obtain ⟨htag, hcut⟩ := payload_cut h
      cases w <;> simp [TypedValue.tag] at htag
      obtain ⟨htext, hxy⟩ := quoted_cut d.decimal (DecimalText.decimal _) hcut
      exact ⟨by rw [DecimalText.text_injective htext], hxy⟩
  | uBigInt d =>
      intro w x y _ _ h
      obtain ⟨htag, hcut⟩ := payload_cut h
      cases w <;> simp [TypedValue.tag] at htag
      obtain ⟨htext, hxy⟩ := quoted_cut d.decimal (DecimalText.decimal _) hcut
      exact ⟨by rw [DecimalText.text_injective htext], hxy⟩
  | text s =>
      intro w x y _ _ h
      obtain ⟨htag, hcut⟩ := payload_cut h
      cases w <;> simp [TypedValue.tag] at htag
      obtain ⟨rfl, hxy⟩ := literal_cut hcut
      exact ⟨rfl, hxy⟩
  | struct fields ih =>
      intro w x y hv hw h
      obtain ⟨htag, hcut⟩ := payload_cut h
      cases w <;> simp [TypedValue.tag] at htag
      rename_i fields'
      have hfields :
          (writeFields W true fields).toList ++ '\x7d' :: '\x7d' :: x =
            (writeFields W true fields').toList ++ '\x7d' :: '\x7d' :: y := by
        simpa [TypedValue.payload] using hcut
      obtain ⟨rfl, hxy⟩ := ih fields' true _ _ hv hw hfields
      exact ⟨rfl, (List.cons.inj hxy).2⟩
  | nil =>
      rename_i fields' first x y _ _ h
      cases fields' with
      | nil => exact ⟨rfl, by simpa [writeFields] using h⟩
      | cons field' rest' => exact absurd h.symm writeFields_cons_ne_nil
  | cons field rest ihfield ihrest =>
      rename_i fields' first x y hv hw h
      cases fields' with
      | nil => exact absurd h writeFields_cons_ne_nil
      | cons field' rest' =>
          obtain ⟨hfield, hrest⟩ := validateFields_cons hv
          obtain ⟨hfield', hrest'⟩ := validateFields_cons hw
          obtain ⟨hname, hvalue⟩ := writeFields_cons_cut h
          obtain ⟨hval, htail⟩ := ihfield _ _ _ hfield hfield' hvalue
          obtain ⟨rfl, hxy⟩ := ihrest _ _ _ _ hrest hrest' htail
          exact ⟨by rw [Prod.ext hname hval], hxy⟩
  | mk name v ih =>
      rename_i w x y hv hw h
      exact ih w x y hv hw h

/-! ## Whole states -/

theorem asBytes_injective : Function.Injective asBytes := by
  intro s t h
  have harray : s.toUTF8.data = t.toUTF8.data := Array.toList_inj.mp h
  have hbytes : s.toUTF8 = t.toUTF8 := ByteArray.ext harray
  simpa [String.toUTF8_eq_toByteArray, String.toByteArray_inj] using hbytes

theorem surrounded_injective (opening closing : String) :
    Function.Injective fun s : String => opening ++ s ++ closing := by
  intro s t h
  have hlist : (opening ++ s ++ closing).toList =
      (opening ++ t ++ closing).toList := congrArg String.toList h
  simp only [String.toList_append, List.append_assoc] at hlist
  have htail := List.append_cancel_left hlist
  exact String.toList_inj.mp (List.append_cancel_right htail)

theorem structText_injective
    {fields fields' : List (String × TypedValue)}
    (hv : validateValue (.struct fields) = .ok ())
    (hw : validateValue (.struct fields') = .ok ())
    (h : structText W fields = structText W fields') : fields = fields' := by
  have hvalue : writeValue W (.struct fields) =
      writeValue W (.struct fields') := surrounded_injective _ _ h
  have hsame := (writeValue_cut _ _ [] [] hv hw (by rw [hvalue])).1
  exact TypedValue.struct.inj hsame

theorem encodeStruct_ok {fields : List (String × TypedValue)}
    {state : CanonicalState} (h : encodeStruct W fields = .ok state) :
    validateValue (.struct fields) = .ok () ∧
      state =
        { canonicalVersion := canonicalVersion
          kind := .struct
          canonical := asBytes (structText W fields)
          value := .struct fields } := by
  unfold encodeStruct at h
  split at h
  · cases h
  · exact ⟨by assumption, (Except.ok.inj h).symm⟩

/-- States which the source can build are told apart by their kind and their
canonical bytes. -/
theorem Encoded.eq_of_canonical {state state' : CanonicalState}
    (hstate : Encoded W state) (hstate' : Encoded W state')
    (hkind : state.kind = state'.kind)
    (hbytes : state.canonical = state'.canonical) : state = state' := by
  rcases hstate with ⟨text, rfl⟩ | ⟨fields, hfields⟩ <;>
    rcases hstate' with ⟨text', rfl⟩ | ⟨fields', hfields'⟩
  · have htext : text = text' := asBytes_injective hbytes
    rw [htext]
  · obtain ⟨-, rfl⟩ := encodeStruct_ok hfields'
    cases hkind
  · obtain ⟨-, rfl⟩ := encodeStruct_ok hfields
    cases hkind
  · obtain ⟨hv, rfl⟩ := encodeStruct_ok hfields
    obtain ⟨hw, rfl⟩ := encodeStruct_ok hfields'
    have htext := asBytes_injective hbytes
    rw [structText_injective hv hw htext]

theorem Encoded.canonicalVersion_eq {state : CanonicalState}
    (h : Encoded W state) : state.canonicalVersion = canonicalVersion := by
  rcases h with ⟨text, rfl⟩ | ⟨fields, hfields⟩
  · rfl
  · obtain ⟨-, rfl⟩ := encodeStruct_ok hfields
    rfl

end DuckJeu
