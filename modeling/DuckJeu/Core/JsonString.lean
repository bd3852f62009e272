import DuckJeu.Core.WireValue

/-!
# JSON string literals

The encoders take the text of strings and floats as parameters.  This module
gives them: the string literals which `serde_json` writes, whose escapes are
undone one at a time, and for floats a text which tells all bit patterns
apart.
-/

namespace DuckJeu

namespace JsonString

def hexDigit (n : ℕ) : Char :=
  if n < 10 then Char.ofNat (48 + n) else Char.ofNat (87 + n)

def hexValue (c : Char) : ℕ :=
  if c.toNat < 58 then c.toNat - 48 else c.toNat - 87

/-- The short escapes, by the letter after the backslash. -/
def letterOf (c : Char) : Option Char :=
  if c = '"' then some '"'
  else if c = '\\' then some '\\'
  else if c.toNat = 8 then some 'b'
  else if c = '\t' then some 't'
  else if c = '\n' then some 'n'
  else if c.toNat = 12 then some 'f'
  else if c = '\r' then some 'r'
  else none

def ofLetter (c : Char) : Char :=
  if c = 'b' then Char.ofNat 8
  else if c = 't' then '\t'
  else if c = 'n' then '\n'
  else if c = 'f' then Char.ofNat 12
  else if c = 'r' then '\r'
  else c

/-- The text of one character inside a literal. -/
def escape (c : Char) : List Char :=
  match letterOf c with
  | some letter => ['\\', letter]
  | none =>
      if c.toNat < 32 then
        ['\\', 'u', '0', '0', hexDigit (c.toNat / 16), hexDigit (c.toNat % 16)]
      else [c]

/-- Read one character off the text inside a literal. -/
def unescape : List Char → Option (Char × List Char)
  | '\\' :: 'u' :: _ :: _ :: high :: low :: rest =>
      some (Char.ofNat (16 * hexValue high + hexValue low), rest)
  | '\\' :: letter :: rest => some (ofLetter letter, rest)
  | c :: rest => some (c, rest)
  | [] => none

theorem ofLetter_letterOf {c letter : Char} (h : letterOf c = some letter) :
    ofLetter letter = c ∧ letter ≠ 'u' := by
  have hchar : ∀ n, c.toNat = n → c = Char.ofNat n := by
    rintro n rfl
    exact (Char.ofNat_toNat c).symm
  unfold letterOf at h
  split_ifs at h with h₁ h₂ h₃ h₄ h₅ h₆ h₇
  · rw [← Option.some.inj h, h₁]
    decide
  · rw [← Option.some.inj h, h₂]
    decide
  · rw [← Option.some.inj h, hchar 8 h₃]
    decide
  · rw [← Option.some.inj h, h₄]
    decide
  · rw [← Option.some.inj h, h₅]
    decide
  · rw [← Option.some.inj h, hchar 12 h₆]
    decide
  · rw [← Option.some.inj h, h₇]
    decide

theorem hex_control : ∀ n < 32,
    16 * hexValue (hexDigit (n / 16)) + hexValue (hexDigit (n % 16)) = n := by
  decide

theorem unescape_letter {letter : Char} (h : letter ≠ 'u') (x : List Char) :
    unescape ('\\' :: letter :: x) = some (ofLetter letter, x) := by
  unfold unescape
  split
  · rename_i heq
    exact absurd (List.cons.inj (List.cons.inj heq).2).1 h
  · rename_i heq
    obtain ⟨hletter, hrest⟩ := List.cons.inj (List.cons.inj heq).2
    rw [hletter, hrest]
  · rename_i hnot heq
    obtain ⟨hslash, hrest⟩ := List.cons.inj heq
    exact absurd hrest.symm (hnot letter x hslash.symm)
  · rename_i heq
    cases heq

theorem unescape_plain {c : Char} (h : c ≠ '\\') (x : List Char) :
    unescape (c :: x) = some (c, x) := by
  unfold unescape
  split
  · rename_i heq
    exact absurd (List.cons.inj heq).1 h
  · rename_i heq
    exact absurd (List.cons.inj heq).1 h
  · rename_i heq
    obtain ⟨hc, hx⟩ := List.cons.inj heq
    rw [hc, hx]
  · rename_i heq
    cases heq

theorem unescape_escape (c : Char) (x : List Char) :
    unescape (escape c ++ x) = some (c, x) := by
  unfold escape
  split
  · rename_i letter hletter
    obtain ⟨hback, hu⟩ := ofLetter_letterOf hletter
    rw [List.cons_append, List.singleton_append, unescape_letter hu, hback]
  · rename_i hplain
    by_cases hcontrol : c.toNat < 32
    · rw [if_pos hcontrol]
      simp only [List.cons_append, List.nil_append, unescape,
        hex_control c.toNat hcontrol, Char.ofNat_toNat]
    · have hslash : c ≠ '\\' := by
        rintro rfl
        cases hplain
      rw [if_neg hcontrol, List.singleton_append, unescape_plain hslash]

theorem escape_cut (c d : Char) (x y : List Char)
    (h : escape c ++ x = escape d ++ y) : c = d ∧ x = y := by
  have hread : some (c, x) = some (d, y) := by
    rw [← unescape_escape c x, h, unescape_escape d y]
  exact Prod.mk.inj (Option.some.inj hread)

theorem escape_not_quote (c : Char) (x y : List Char) :
    escape c ++ x ≠ '"' :: y := by
  intro h
  unfold escape at h
  split at h
  · exact absurd (List.cons.inj h).1 (by decide)
  · rename_i hplain
    by_cases hcontrol : c.toNat < 32
    · rw [if_pos hcontrol] at h
      exact absurd (List.cons.inj h).1 (by decide)
    · rw [if_neg hcontrol] at h
      obtain rfl := (List.cons.inj h).1
      cases hplain

/-- The literal of a string. -/
def literal (s : String) : String :=
  String.ofList ('"' :: (s.toList.flatMap escape ++ ['"']))

theorem literal_quoted (s : String) :
    ∃ rest, (literal s).toList = '"' :: rest :=
  ⟨_, String.toList_ofList⟩

theorem literal_delimited (s t : String) (x y : List Char)
    (h : (literal s).toList ++ x = (literal t).toList ++ y) :
    s = t ∧ x = y := by
  rw [literal, literal, String.toList_ofList, String.toList_ofList] at h
  have hbody : s.toList.flatMap escape ++ '"' :: x =
      t.toList.flatMap escape ++ '"' :: y := by
    simpa using h
  obtain ⟨hst, hxy⟩ := Delimited.code_cut escape_cut escape_not_quote hbody
  exact ⟨String.toList_inj.mp hst, hxy⟩

end JsonString

/-- A text which tells all bit patterns apart. -/
def bitsText (f : F64) : String := toString f.bits.toNat

theorem bitsText_injective {f g : F64} (h : bitsText f = bitsText g) :
    f = g := by
  obtain ⟨bits⟩ := f
  obtain ⟨bits'⟩ := g
  have hbits : bits = bits' := UInt64.toNat_inj.mp (natText_injective h)
  rw [hbits]

theorem bitsText_digits {f : F64} {c : Char} (hc : c ∈ (bitsText f).toList) :
    c.isDigit = true :=
  isDigit_of_mem_natText hc

/-- Texts for the canonical encoding. -/
def literalText : WireText where
  jsonString := JsonString.literal
  floatText := bitsText
  jsonString_quoted := JsonString.literal_quoted
  jsonString_delimited := JsonString.literal_delimited
  floatText_injective := fun _ _ _ _ h => bitsText_injective h
  floatText_plain := fun _ _ _ hc => Or.inl (bitsText_digits hc)

/-- The number is a finite float, the only sort in a request body. -/
def Number.IsFinite : Number → Prop
  | .float f => f.isFinite = true
  | _ => False

def Number.bitsText : Number → String
  | .float f => DuckJeu.bitsText f
  | _ => ""

/-- Texts for request bodies. -/
def literalWriter : Json.Writer Number where
  quote := JsonString.literal
  numberText := Number.bitsText
  Valid := Number.IsFinite
  quote_quoted := JsonString.literal_quoted
  quote_delimited := JsonString.literal_delimited
  numberText_injective := by
    intro m n hm hn h
    cases m <;> cases n <;> first | exact hm.elim | exact hn.elim | skip
    rw [bitsText_injective h]
  numberText_opens := by
    intro n hn
    cases n <;> first | exact hn.elim | skip
    rename_i f
    have hne : (bitsText f).toList ≠ [] := by
      simp [bitsText]
    obtain ⟨c, rest, htext⟩ := List.exists_cons_of_ne_nil hne
    have hmem : c ∈ (bitsText f).toList := by
      rw [htext]
      exact List.mem_cons_self ..
    exact ⟨c, rest, htext, Or.inl (bitsText_digits hmem)⟩
  numberText_plain := by
    intro n hn c hc
    cases n <;> first | exact hn.elim | skip
    exact Or.inl (bitsText_digits hc)

end DuckJeu
