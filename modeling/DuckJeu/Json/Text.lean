import DuckJeu.Json.Value
import DuckJeu.Support.Delimited
import Mathlib.Tactic.Basic

/-!
# Compact JSON text

The text of a value without any blanks.  The text of strings and numbers is a
parameter.  A value can be read off the beginning of its text: its first
character tells what it is, a string ends at its closing quote, and an array
or an object at its bracket.  Only a number has no end of its own, and is cut
where a character follows which no number contains.
-/

namespace Json

/-- The text of strings and of numbers. -/
structure Writer (ν : Type) where
  quote : String → String
  numberText : ν → String
  /-- The numbers which have a text. -/
  Valid : ν → Prop
  /-- A string literal opens with a quote. -/
  quote_quoted : ∀ s, ∃ rest, (quote s).toList = '"' :: rest
  /-- A string literal ends at its closing quote and denotes one string. -/
  quote_delimited : ∀ (s t : String) (x y : List Char),
    (quote s).toList ++ x = (quote t).toList ++ y → s = t ∧ x = y
  numberText_injective : ∀ m n, Valid m → Valid n →
    numberText m = numberText n → m = n
  /-- A number opens with a digit or a minus sign. -/
  numberText_opens : ∀ n, Valid n → ∃ c rest,
    (numberText n).toList = c :: rest ∧ (c.isDigit = true ∨ c = '-')
  /-- A number has digits, signs, a point and an exponent mark. -/
  numberText_plain : ∀ n, Valid n → ∀ c ∈ (numberText n).toList,
    c.isDigit = true ∨ c ∈ ['-', '+', '.', 'e']

variable {ν : Type} (w : Writer ν)

namespace Value

mutual

def text : Value ν → String
  | .null => "null"
  | .bool b => if b then "true" else "false"
  | .number n => w.numberText n
  | .string s => w.quote s
  | .array items => "[" ++ itemsText true items ++ "]"
  | .object members => "\x7b" ++ membersText true members ++ "\x7d"

/-- The items of an array, a comma before all but the first. -/
def itemsText (first : Bool) : List (Value ν) → String
  | [] => ""
  | item :: rest =>
      (if first then "" else ",") ++ text item ++ itemsText false rest

/-- The members of an object, a comma before all but the first. -/
def membersText (first : Bool) : List (String × Value ν) → String
  | [] => ""
  | (name, value) :: rest =>
      (if first then "" else ",") ++ w.quote name ++ ":" ++ text value ++
        membersText false rest

end

mutual

/-- All numbers of the value have a text. -/
def Writable : Value ν → Prop
  | .number n => w.Valid n
  | .array items => WritableItems items
  | .object members => WritableMembers members
  | _ => True

def WritableItems : List (Value ν) → Prop
  | [] => True
  | item :: rest => Writable item ∧ WritableItems rest

def WritableMembers : List (String × Value ν) → Prop
  | [] => True
  | (_, value) :: rest => Writable value ∧ WritableMembers rest

end

variable {w}

theorem writableItems_iff {items : List (Value ν)} :
    WritableItems w items ↔ ∀ item ∈ items, Writable w item := by
  induction items with
  | nil => simp [WritableItems]
  | cons item rest ih => rw [WritableItems, ih, List.forall_mem_cons]

theorem writableMembers_iff {members : List (String × Value ν)} :
    WritableMembers w members ↔ ∀ member ∈ members, Writable w member.2 := by
  induction members with
  | nil => simp [WritableMembers]
  | cons member rest ih =>
      rw [← Prod.mk.eta (p := member), WritableMembers, ih,
        List.forall_mem_cons]

/-- An object of writable entries is writable. -/
theorem writable_ofEntries {entries : Members (Value ν)}
    (h : ∀ entry ∈ entries, Writable w entry.2) :
    Writable w (.object (Members.ofEntries entries)) :=
  writableMembers_iff.mpr fun member hmember =>
    h member (Members.mem_of_mem_ofEntries hmember)

/-! ## The first character -/

/-- What the first character of a text tells. -/
inductive Shape where
  | null
  | bool (b : Bool)
  | number
  | string
  | array
  | object

def shape : Value ν → Shape
  | .null => .null
  | .bool b => .bool b
  | .number _ => .number
  | .string _ => .string
  | .array _ => .array
  | .object _ => .object

/-- What a text with this first character denotes; no value has a text which
opens with another character. -/
def opens (c : Char) : Option Shape :=
  if c = 'n' then some .null
  else if c = 't' then some (.bool true)
  else if c = 'f' then some (.bool false)
  else if c.isDigit = true ∨ c = '-' then some .number
  else if c = '"' then some .string
  else if c = '[' then some .array
  else if c = '\x7b' then some .object
  else none

theorem opens_number {c : Char} (hc : c.isDigit = true ∨ c = '-') :
    opens c = some .number := by
  have hother : ∀ d : Char, d.isDigit = false → d ≠ '-' → c ≠ d := by
    intro d hd hminus heq
    rw [heq] at hc
    rcases hc with hdigit | hsign
    · exact absurd hdigit (by simp [hd])
    · exact hminus hsign
  rw [opens, if_neg (hother 'n' (by decide) (by decide)),
    if_neg (hother 't' (by decide) (by decide)),
    if_neg (hother 'f' (by decide) (by decide)), if_pos hc]

theorem shape_eq_number {v : Value ν} (h : v.shape = .number) :
    ∃ n, v = .number n := by
  cases v with
  | number n => exact ⟨n, rfl⟩
  | _ => cases h

theorem shape_eq_string {v : Value ν} (h : v.shape = .string) :
    ∃ s, v = .string s := by
  cases v with
  | string s => exact ⟨s, rfl⟩
  | _ => cases h

theorem shape_eq_array {v : Value ν} (h : v.shape = .array) :
    ∃ items, v = .array items := by
  cases v with
  | array items => exact ⟨items, rfl⟩
  | _ => cases h

theorem shape_eq_object {v : Value ν} (h : v.shape = .object) :
    ∃ members, v = .object members := by
  cases v with
  | object members => exact ⟨members, rfl⟩
  | _ => cases h

theorem shape_eq_bool {v : Value ν} {b : Bool} (h : v.shape = .bool b) :
    v = .bool b := by
  cases v with
  | bool c => rw [Shape.bool.inj h]
  | _ => cases h

theorem shape_eq_null {v : Value ν} (h : v.shape = .null) : v = .null := by
  cases v with
  | null => rfl
  | _ => cases h

theorem text_opens {v : Value ν} (hv : Writable w v) :
    ∃ c rest, (text w v).toList = c :: rest ∧ opens c = some v.shape := by
  cases v with
  | null => exact ⟨'n', ['u', 'l', 'l'], by simp [text], rfl⟩
  | bool b =>
      cases b with
      | true => exact ⟨'t', ['r', 'u', 'e'], by simp [text], rfl⟩
      | false => exact ⟨'f', ['a', 'l', 's', 'e'], by simp [text], rfl⟩
  | number n =>
      obtain ⟨c, rest, htext, hc⟩ := w.numberText_opens n hv
      exact ⟨c, rest, by rw [text, htext], opens_number hc⟩
  | string s =>
      obtain ⟨rest, hrest⟩ := w.quote_quoted s
      exact ⟨'"', rest, by rw [text, hrest], rfl⟩
  | array items =>
      exact ⟨'[', (itemsText w true items).toList ++ [']'], by simp [text],
        rfl⟩
  | object members =>
      exact ⟨'\x7b', (membersText w true members).toList ++ ['\x7d'],
        by simp [text], rfl⟩

theorem shape_eq {v v' : Value ν} (hv : Writable w v) (hv' : Writable w v')
    {x y : List Char} (h : (text w v).toList ++ x = (text w v').toList ++ y) :
    v.shape = v'.shape := by
  obtain ⟨c, rest, htext, hopens⟩ := text_opens hv
  obtain ⟨c', rest', htext', hopens'⟩ := text_opens hv'
  rw [htext, htext'] at h
  obtain ⟨rfl, -⟩ := List.cons.inj h
  exact Option.some.inj (hopens.symm.trans hopens')

/-- No value opens with this character. -/
theorem text_ne_cons {v : Value ν} (hv : Writable w v) {c : Char}
    (hc : opens c = none) {x y : List Char} :
    (text w v).toList ++ x ≠ c :: y := by
  intro h
  obtain ⟨d, rest, htext, hopens⟩ := text_opens hv
  rw [htext] at h
  obtain ⟨rfl, -⟩ := List.cons.inj h
  rw [hc] at hopens
  cases hopens

/-! ## Cutting values -/

/-- No number goes on with this text. -/
def Ends (x : List Char) : Prop :=
  ∀ c ∈ x.head?, ¬ (c.isDigit = true ∨ c ∈ ['-', '+', '.', 'e'])

theorem ends_nil : Ends [] := by
  intro c hc
  cases hc

theorem ends_cons {c : Char} {x : List Char}
    (hc : ¬ (c.isDigit = true ∨ c ∈ ['-', '+', '.', 'e'])) : Ends (c :: x) := by
  intro d hd
  obtain rfl := Option.some.inj hd
  exact hc

/-- What follows an item of an array is a comma or the closing bracket. -/
theorem ends_itemsText (items : List (Value ν)) (x : List Char) :
    Ends ((itemsText w false items).toList ++ ']' :: x) := by
  cases items with
  | nil =>
      have hbracket : Ends (']' :: x) := ends_cons (by decide)
      simpa [itemsText] using hbracket
  | cons item rest =>
      have hcomma : ∀ z, Ends (',' :: z) := fun z => ends_cons (by decide)
      simpa [itemsText] using hcomma _

theorem ends_membersText (members : List (String × Value ν)) (x : List Char) :
    Ends ((membersText w false members).toList ++ '\x7d' :: x) := by
  cases members with
  | nil =>
      have hbrace : Ends ('\x7d' :: x) := ends_cons (by decide)
      simpa [membersText] using hbrace
  | cons member rest =>
      have hcomma : ∀ z, Ends (',' :: z) := fun z => ends_cons (by decide)
      simpa [membersText] using hcomma _

/-- A further item cannot be read as the end of its array. -/
theorem itemsText_cons_ne_nil {item : Value ν} {rest : List (Value ν)}
    (hitem : Writable w item) {first : Bool} {x y : List Char} :
    (itemsText w first (item :: rest)).toList ++ ']' :: x ≠
      (itemsText w first []).toList ++ ']' :: y := by
  intro h
  cases first with
  | false => simp [itemsText] at h
  | true =>
      have hcut : (text w item).toList ++
          ((itemsText w false rest).toList ++ ']' :: x) = ']' :: y := by
        simpa [itemsText] using h
      exact text_ne_cons hitem (by decide) hcut

theorem membersText_cons_ne_nil {member : String × Value ν}
    {rest : List (String × Value ν)} {first : Bool} {x y : List Char} :
    (membersText w first (member :: rest)).toList ++ '\x7d' :: x ≠
      (membersText w first []).toList ++ '\x7d' :: y := by
  intro h
  obtain ⟨literal, hliteral⟩ := w.quote_quoted member.1
  cases first with
  | false => simp [membersText] at h
  | true => simp [membersText, hliteral] at h

theorem itemsText_cons_cut {item item' : Value ν} {rest rest' : List (Value ν)}
    {first : Bool} {x y : List Char}
    (h : (itemsText w first (item :: rest)).toList ++ x =
      (itemsText w first (item' :: rest')).toList ++ y) :
    (text w item).toList ++ ((itemsText w false rest).toList ++ x) =
      (text w item').toList ++ ((itemsText w false rest').toList ++ y) := by
  cases first with
  | false => simpa [itemsText] using h
  | true => simpa [itemsText] using h

theorem membersText_cons_cut {member member' : String × Value ν}
    {rest rest' : List (String × Value ν)} {first : Bool} {x y : List Char}
    (h : (membersText w first (member :: rest)).toList ++ x =
      (membersText w first (member' :: rest')).toList ++ y) :
    member.1 = member'.1 ∧
      (text w member.2).toList ++ ((membersText w false rest).toList ++ x) =
        (text w member'.2).toList ++
          ((membersText w false rest').toList ++ y) := by
  have hcut : (w.quote member.1).toList ++ (':' :: ((text w member.2).toList ++
        ((membersText w false rest).toList ++ x))) =
      (w.quote member'.1).toList ++ (':' :: ((text w member'.2).toList ++
        ((membersText w false rest').toList ++ y))) := by
    cases first with
    | false => simpa [membersText] using h
    | true => simpa [membersText] using h
  obtain ⟨hname, htail⟩ := w.quote_delimited _ _ _ _ hcut
  exact ⟨hname, (List.cons.inj htail).2⟩

theorem number_cut {m n : ν} (hm : w.Valid m) (hn : w.Valid n)
    {x y : List Char} (hx : Ends x) (hy : Ends y)
    (h : (w.numberText m).toList ++ x = (w.numberText n).toList ++ y) :
    m = n ∧ x = y := by
  obtain ⟨htext, hxy⟩ := Delimited.stretch_cut (w.numberText_plain m hm)
    (w.numberText_plain n hn) hx hy h
  exact ⟨w.numberText_injective m n hm hn (String.toList_inj.mp htext), hxy⟩

mutual

/-- Two texts which agree up to their continuations denote one value.  The
recursion is over the value; the items and the members of a list end at a
bracket. -/
theorem text_cut (v v' : Value ν) {x y : List Char} (hv : Writable w v)
    (hv' : Writable w v') (hx : Ends x) (hy : Ends y)
    (h : (text w v).toList ++ x = (text w v').toList ++ y) :
    v = v' ∧ x = y := by
  have hshape := (shape_eq hv hv' h).symm
  match v with
  | .null =>
      obtain rfl := shape_eq_null hshape
      exact ⟨rfl, List.append_cancel_left h⟩
  | .bool b =>
      obtain rfl := shape_eq_bool hshape
      exact ⟨rfl, List.append_cancel_left h⟩
  | .number n =>
      obtain ⟨n', rfl⟩ := shape_eq_number hshape
      obtain ⟨rfl, hxy⟩ := number_cut hv hv' hx hy h
      exact ⟨rfl, hxy⟩
  | .string s =>
      obtain ⟨s', rfl⟩ := shape_eq_string hshape
      obtain ⟨rfl, hxy⟩ := w.quote_delimited s s' x y h
      exact ⟨rfl, hxy⟩
  | .array items =>
      obtain ⟨items', rfl⟩ := shape_eq_array hshape
      have hitems : (itemsText w true items).toList ++ ']' :: x =
          (itemsText w true items').toList ++ ']' :: y := by
        simpa [text] using h
      obtain ⟨rfl, hxy⟩ := itemsText_cut items items' hv hv' hitems
      exact ⟨rfl, hxy⟩
  | .object members =>
      obtain ⟨members', rfl⟩ := shape_eq_object hshape
      have hmembers : (membersText w true members).toList ++ '\x7d' :: x =
          (membersText w true members').toList ++ '\x7d' :: y := by
        simpa [text] using h
      obtain ⟨rfl, hxy⟩ := membersText_cut members members' hv hv' hmembers
      exact ⟨rfl, hxy⟩

theorem itemsText_cut (items items' : List (Value ν)) {first : Bool}
    {x y : List Char} (hv : WritableItems w items)
    (hv' : WritableItems w items')
    (h : (itemsText w first items).toList ++ ']' :: x =
      (itemsText w first items').toList ++ ']' :: y) :
    items = items' ∧ x = y := by
  match items, items' with
  | [], [] => exact ⟨rfl, by simpa [itemsText] using h⟩
  | [], _ :: _ => exact absurd h.symm (itemsText_cons_ne_nil hv'.1)
  | _ :: _, [] => exact absurd h (itemsText_cons_ne_nil hv.1)
  | item :: rest, item' :: rest' =>
      obtain ⟨rfl, htail⟩ := text_cut item item' hv.1 hv'.1
        (ends_itemsText rest x) (ends_itemsText rest' y)
        (itemsText_cons_cut h)
      obtain ⟨rfl, hxy⟩ := itemsText_cut rest rest' hv.2 hv'.2 htail
      exact ⟨rfl, hxy⟩

theorem membersText_cut (members members' : List (String × Value ν))
    {first : Bool} {x y : List Char} (hv : WritableMembers w members)
    (hv' : WritableMembers w members')
    (h : (membersText w first members).toList ++ '\x7d' :: x =
      (membersText w first members').toList ++ '\x7d' :: y) :
    members = members' ∧ x = y := by
  match members, members' with
  | [], [] => exact ⟨rfl, by simpa [membersText] using h⟩
  | [], _ :: _ => exact absurd h.symm membersText_cons_ne_nil
  | _ :: _, [] => exact absurd h membersText_cons_ne_nil
  | (name, value) :: rest, (name', value') :: rest' =>
      obtain ⟨hname, hvalue⟩ := membersText_cons_cut h
      obtain ⟨rfl, htail⟩ := text_cut value value' hv.1 hv'.1
        (ends_membersText rest x) (ends_membersText rest' y) hvalue
      obtain ⟨rfl, hxy⟩ := membersText_cut rest rest' hv.2 hv'.2 htail
      obtain rfl : name = name' := hname
      exact ⟨rfl, hxy⟩

end

/-- Values are told apart by their texts. -/
theorem text_injective {v v' : Value ν} (hv : Writable w v)
    (hv' : Writable w v') (h : text w v = text w v') : v = v' :=
  (text_cut v v' hv hv' ends_nil ends_nil (by rw [h])).1

end Value

end Json
