import Mathlib.Tactic
import Mathlib.Data.List.Sort

/-!
# JSON values and their text

A JSON value as a script engine holds it: an object is the list of its members in
the order in which the engine enumerates them.  `Json.stringify` writes a value,
and what it writes determines the value (`Json.stringify_injective`), order of
the members included.

A number is kept as the text it is written with.  A text is a list of characters.
-/

namespace Paystream
namespace Library

abbrev Text := List Char

/-! ## Values -/

/-- The characters a number is written with. -/
def isNumberChar (c : Char) : Bool :=
  c.isDigit || c == '+' || c == '-' || c == '.' || c == 'e' || c == 'E'

/-- A number, as it is written. -/
structure NumberText where
  chars : Text
  nonempty : chars ≠ []
  digits : ∀ c ∈ chars, isNumberChar c = true
  deriving DecidableEq

inductive Json
  | null
  | bool (value : Bool)
  | num (text : NumberText)
  | str (text : Text)
  | arr (items : List Json)
  | obj (members : List (Text × Json))

namespace Json

mutual

/-- Induction over the elements of arrays and the members of objects. -/
theorem induction {P : Json → Prop} (null : P .null)
    (bool : ∀ value, P (.bool value)) (num : ∀ text, P (.num text))
    (str : ∀ text, P (.str text))
    (arr : ∀ items, (∀ item ∈ items, P item) → P (.arr items))
    (obj : ∀ members, (∀ member ∈ members, P member.2) → P (.obj members)) :
    ∀ value, P value
  | .null => null
  | .bool value => bool value
  | .num text => num text
  | .str text => str text
  | .arr items => arr items (items_induction null bool num str arr obj items)
  | .obj members =>
      obj members (members_induction null bool num str arr obj members)

theorem items_induction {P : Json → Prop} (null : P .null)
    (bool : ∀ value, P (.bool value)) (num : ∀ text, P (.num text))
    (str : ∀ text, P (.str text))
    (arr : ∀ items, (∀ item ∈ items, P item) → P (.arr items))
    (obj : ∀ members, (∀ member ∈ members, P member.2) → P (.obj members)) :
    ∀ (items : List Json), ∀ item ∈ items, P item
  | [] => by simp
  | item :: items => by
      have hitem := induction null bool num str arr obj item
      have hitems := items_induction null bool num str arr obj items
      simpa using ⟨hitem, hitems⟩

theorem members_induction {P : Json → Prop} (null : P .null)
    (bool : ∀ value, P (.bool value)) (num : ∀ text, P (.num text))
    (str : ∀ text, P (.str text))
    (arr : ∀ items, (∀ item ∈ items, P item) → P (.arr items))
    (obj : ∀ members, (∀ member ∈ members, P member.2) → P (.obj members)) :
    ∀ (members : List (Text × Json)), ∀ member ∈ members, P member.2
  | [] => by simp
  | (key, value) :: members => by
      have hvalue := induction null bool num str arr obj value
      have hmembers := members_induction null bool num str arr obj members
      intro member hmember
      rcases List.mem_cons.mp hmember with rfl | hmember
      · exact hvalue
      · exact hmembers member hmember

end

mutual

/-- The test holds of the value and of every value inside it. -/
def everywhere (test : Json → Bool) : Json → Bool
  | .null => test .null
  | .bool value => test (.bool value)
  | .num text => test (.num text)
  | .str text => test (.str text)
  | .arr items => test (.arr items) && everyItem test items
  | .obj members => test (.obj members) && everyMember test members
termination_by structural value => value

def everyItem (test : Json → Bool) : List Json → Bool
  | [] => true
  | item :: items => item.everywhere test && everyItem test items
termination_by structural items => items

def everyMember (test : Json → Bool) : List (Text × Json) → Bool
  | [] => true
  | (_, value) :: members => value.everywhere test && everyMember test members
termination_by structural members => members

end

theorem everywhere_arr_iff (test : Json → Bool) (items : List Json) :
    (Json.arr items).everywhere test = true ↔
      test (.arr items) = true ∧ ∀ item ∈ items, item.everywhere test = true := by
  have hitems : everyItem test items = true ↔
      ∀ item ∈ items, item.everywhere test = true := by
    induction items with
    | nil => simp [everyItem]
    | cons item items ih => simp [everyItem, ih]
  rw [everywhere, Bool.and_eq_true, hitems]

theorem everywhere_obj_iff (test : Json → Bool) (members : List (Text × Json)) :
    (Json.obj members).everywhere test = true ↔
      test (.obj members) = true ∧
        ∀ member ∈ members, member.2.everywhere test = true := by
  have hmembers : everyMember test members = true ↔
      ∀ member ∈ members, member.2.everywhere test = true := by
    induction members with
    | nil => simp [everyMember]
    | cons member members ih => simp [everyMember, ih]
  rw [everywhere, Bool.and_eq_true, hmembers]

end Json

/-! ## Strings -/

def hexDigit (n : Nat) : Char :=
  ['0', '1', '2', '3', '4', '5', '6', '7', '8', '9', 'a', 'b', 'c', 'd', 'e',
    'f'].getD n '0'

/-- The letter behind the backslash, for the characters that have one. -/
def shortEscape (c : Char) : Option Char :=
  if c = '"' then some '"'
  else if c = '\\' then some '\\'
  else if c = '\x08' then some 'b'
  else if c = '\x0c' then some 'f'
  else if c = '\n' then some 'n'
  else if c = '\r' then some 'r'
  else if c = '\t' then some 't'
  else none

/-- A character inside a quoted string. -/
def escapeChar (c : Char) : Text :=
  match shortEscape c with
  | some letter => ['\\', letter]
  | none =>
      if c.toNat < 32 then
        ['\\', 'u', '0', '0', hexDigit (c.toNat / 16), hexDigit (c.toNat % 16)]
      else
        [c]

def quote (text : Text) : Text := '"' :: (text.flatMap escapeChar ++ ['"'])

/-- The way back from `shortEscape`. -/
def shortUnescape (letter : Char) : Char :=
  if letter = 'b' then '\x08'
  else if letter = 'f' then '\x0c'
  else if letter = 'n' then '\n'
  else if letter = 'r' then '\r'
  else if letter = 't' then '\t'
  else letter

theorem shortEscape_eq_some {c letter : Char} (h : shortEscape c = some letter) :
    shortUnescape letter = c ∧ letter ≠ 'u' := by
  unfold shortEscape at h
  split_ifs at h with h1 h2 h3 h4 h5 h6 h7
  all_goals
    cases h
    subst c
    decide

theorem shortEscape_eq_none {c : Char} (h : shortEscape c = none) :
    c ≠ '"' ∧ c ≠ '\\' := by
  constructor
  · rintro rfl
    revert h
    decide
  · rintro rfl
    revert h
    decide

theorem hexDigit_injective {m n : Nat} (hm : m < 16) (hn : n < 16)
    (h : hexDigit m = hexDigit n) : m = n := by
  have hall : ∀ m < 16, ∀ n < 16, hexDigit m = hexDigit n → m = n := by decide
  exact hall m hm n hn h

theorem toNat_injective_of_hex {c d : Char} (hc : c.toNat < 32) (hd : d.toNat < 32)
    (hhigh : hexDigit (c.toNat / 16) = hexDigit (d.toNat / 16))
    (hlow : hexDigit (c.toNat % 16) = hexDigit (d.toNat % 16)) : c = d := by
  have hdiv := hexDigit_injective (by omega) (by omega) hhigh
  have hmod := hexDigit_injective (by omega) (by omega) hlow
  apply Char.ext
  apply UInt32.toNat_inj.mp
  show c.toNat = d.toNat
  omega

/-- A character with a letter and one without are written differently. -/
theorem escapeChar_short_ne {c d letter : Char} (hc : shortEscape c = some letter)
    (hd : shortEscape d = none) (x y : Text) :
    escapeChar c ++ x ≠ escapeChar d ++ y := by
  obtain ⟨_, hletter⟩ := shortEscape_eq_some hc
  obtain ⟨_, hslash⟩ := shortEscape_eq_none hd
  intro h
  unfold escapeChar at h
  simp only [hc, hd] at h
  split at h
  -- both begin with a backslash, but no letter is the `u` of the hex digits
  · simp only [List.cons_append, List.cons.injEq, true_and] at h
    exact hletter h.1
  · simp only [List.cons_append, List.cons.injEq] at h
    exact hslash h.1.symm

theorem escapeChar_short_inj {c d letter other : Char} {x y : Text}
    (hc : shortEscape c = some letter) (hd : shortEscape d = some other)
    (h : escapeChar c ++ x = escapeChar d ++ y) : c = d ∧ x = y := by
  obtain ⟨hback, _⟩ := shortEscape_eq_some hc
  obtain ⟨hback', _⟩ := shortEscape_eq_some hd
  unfold escapeChar at h
  simp only [hc, hd, List.cons_append, List.nil_append, List.cons.injEq,
    true_and] at h
  exact ⟨by rw [← hback, ← hback', h.1], h.2⟩

theorem escapeChar_long_inj {c d : Char} {x y : Text} (hc : shortEscape c = none)
    (hd : shortEscape d = none) (h : escapeChar c ++ x = escapeChar d ++ y) :
    c = d ∧ x = y := by
  obtain ⟨_, hslash⟩ := shortEscape_eq_none hc
  obtain ⟨_, hslash'⟩ := shortEscape_eq_none hd
  unfold escapeChar at h
  simp only [hc, hd] at h
  by_cases hcontrol : c.toNat < 32
  · by_cases hcontrol' : d.toNat < 32
    · simp only [if_pos hcontrol, if_pos hcontrol', List.cons_append,
        List.nil_append, List.cons.injEq, true_and] at h
      exact ⟨toNat_injective_of_hex hcontrol hcontrol' h.1 h.2.1, h.2.2⟩
    · simp only [if_pos hcontrol, if_neg hcontrol', List.cons_append,
        List.cons.injEq] at h
      exact absurd h.1.symm hslash'
  · by_cases hcontrol' : d.toNat < 32
    · simp only [if_neg hcontrol, if_pos hcontrol', List.cons_append,
        List.cons.injEq] at h
      exact absurd h.1 hslash
    · simp only [if_neg hcontrol, if_neg hcontrol', List.cons_append,
        List.nil_append, List.cons.injEq] at h
      exact h

/-- An escaped character is read back without looking at what follows. -/
theorem escapeChar_append_inj {c d : Char} {x y : Text}
    (h : escapeChar c ++ x = escapeChar d ++ y) : c = d ∧ x = y := by
  cases hc : shortEscape c with
  | some letter =>
      cases hd : shortEscape d with
      | some other => exact escapeChar_short_inj hc hd h
      | none => exact absurd h (escapeChar_short_ne hc hd x y)
  | none =>
      cases hd : shortEscape d with
      | some other => exact absurd h.symm (escapeChar_short_ne hd hc y x)
      | none => exact escapeChar_long_inj hc hd h

/-- No escaped character starts with the closing quote. -/
theorem escapeChar_ne_quote {c : Char} {x y : Text}
    (h : escapeChar c ++ x = '"' :: y) : False := by
  unfold escapeChar at h
  cases hc : shortEscape c with
  | some letter => simp [hc] at h
  | none =>
      obtain ⟨hquote, _⟩ := shortEscape_eq_none hc
      simp only [hc] at h
      split at h
      · simp at h
      · simp [hquote] at h

theorem escaped_append_inj {s t x y : Text}
    (h : s.flatMap escapeChar ++ '"' :: x = t.flatMap escapeChar ++ '"' :: y) :
    s = t ∧ x = y := by
  induction s generalizing t with
  | nil =>
      cases t with
      | nil => simpa using h
      | cons d t =>
          rw [List.flatMap_cons, List.append_assoc] at h
          exact (escapeChar_ne_quote h.symm).elim
  | cons c s ih =>
      cases t with
      | nil =>
          rw [List.flatMap_cons, List.append_assoc] at h
          exact (escapeChar_ne_quote h).elim
      | cons d t =>
          rw [List.flatMap_cons, List.flatMap_cons, List.append_assoc,
            List.append_assoc] at h
          obtain ⟨rfl, hrest⟩ := escapeChar_append_inj h
          obtain ⟨rfl, hxy⟩ := ih hrest
          exact ⟨rfl, hxy⟩

/-- A quoted string ends where it says. -/
theorem quote_append_inj {s t x y : Text} (h : quote s ++ x = quote t ++ y) :
    s = t ∧ x = y := by
  simp only [quote, List.cons_append, List.append_assoc, List.nil_append,
    List.cons.injEq, true_and] at h
  exact escaped_append_inj h

/-! ## Writing a value -/

namespace Json

mutual

/-- `JSON.stringify`. -/
def stringify : Json → Text
  | .null => ['n', 'u', 'l', 'l']
  | .bool true => ['t', 'r', 'u', 'e']
  | .bool false => ['f', 'a', 'l', 's', 'e']
  | .num text => text.chars
  | .str text => quote text
  | .arr [] => ['[', ']']
  | .arr (item :: items) => '[' :: (item.stringify ++ itemsText items)
  | .obj [] => ['\x7b', '\x7d']
  | .obj ((key, value) :: members) =>
      '\x7b' :: (quote key ++ ':' :: (value.stringify ++ membersText members))
termination_by structural value => value

/-- The further items of an array, up to the closing bracket. -/
def itemsText : List Json → Text
  | [] => [']']
  | item :: items => ',' :: (item.stringify ++ itemsText items)
termination_by structural items => items

/-- The further members of an object, up to the closing brace. -/
def membersText : List (Text × Json) → Text
  | [] => ['\x7d']
  | (key, value) :: members =>
      ',' :: (quote key ++ ':' :: (value.stringify ++ membersText members))
termination_by structural members => members

end

/-- The kind of a value. -/
def kind : Json → Nat
  | .null => 0
  | .bool _ => 1
  | .num _ => 2
  | .str _ => 3
  | .arr _ => 4
  | .obj _ => 5

/-- The kind a first character tells. -/
def kindOf (c : Char) : Nat :=
  if isNumberChar c then 2
  else if c = 'n' then 0
  else if c = 't' ∨ c = 'f' then 1
  else if c = '"' then 3
  else if c = '[' then 4
  else if c = '\x7b' then 5
  else 6

theorem kind_lt (value : Json) : value.kind < 6 := by
  cases value <;> simp [kind]

theorem stringify_eq_cons (value : Json) :
    ∃ c rest, value.stringify = c :: rest ∧ kindOf c = value.kind := by
  cases value with
  | null => exact ⟨_, _, rfl, by decide⟩
  | bool value =>
      cases value with
      | true => exact ⟨_, _, rfl, by decide⟩
      | false => exact ⟨_, _, rfl, by decide⟩
  | num text =>
      obtain ⟨chars, hnonempty, hdigits⟩ := text
      cases chars with
      | nil => exact absurd rfl hnonempty
      | cons c rest =>
          refine ⟨c, rest, rfl, ?_⟩
          simp [kindOf, kind, hdigits c (by simp)]
  | str text => exact ⟨_, _, rfl, rfl⟩
  | arr items =>
      cases items with
      | nil => exact ⟨_, _, rfl, rfl⟩
      | cons item items => exact ⟨_, _, rfl, rfl⟩
  | obj members =>
      cases members with
      | nil => exact ⟨_, _, rfl, rfl⟩
      | cons member members => exact ⟨_, _, rfl, rfl⟩

/-- Two values whose texts start a common text are of the same kind. -/
theorem kind_eq_of_append {a b : Json} {x y : Text}
    (h : a.stringify ++ x = b.stringify ++ y) : a.kind = b.kind := by
  obtain ⟨c, rest, ha, hc⟩ := stringify_eq_cons a
  obtain ⟨d, rest', hb, hd⟩ := stringify_eq_cons b
  rw [ha, hb, List.cons_append, List.cons_append, List.cons.injEq] at h
  rw [← hc, ← hd, h.1]

/-- What follows a value is not the rest of a number. -/
def EndsNumber (x : Text) : Prop := ∀ c rest, x = c :: rest → isNumberChar c = false

theorem endsNumber_nil : EndsNumber [] := by
  intro c rest h
  cases h

theorem endsNumber_cons {c : Char} (x : Text) (h : isNumberChar c = false) :
    EndsNumber (c :: x) := by
  intro d rest heq
  cases heq
  exact h

/-- The text of a value determines the value and where it ends. -/
def Delimited (a : Json) : Prop :=
  ∀ (b : Json) (x y : Text), EndsNumber x → EndsNumber y →
    a.stringify ++ x = b.stringify ++ y → a = b ∧ x = y

theorem number_append_inj {s t x y : Text}
    (hs : ∀ c ∈ s, isNumberChar c = true) (ht : ∀ c ∈ t, isNumberChar c = true)
    (hx : EndsNumber x) (hy : EndsNumber y) (h : s ++ x = t ++ y) :
    s = t ∧ x = y := by
  induction s generalizing t with
  | nil =>
      cases t with
      | nil => exact ⟨rfl, h⟩
      | cons d t =>
          have hd := hx d (t ++ y) h
          rw [ht d (by simp)] at hd
          cases hd
  | cons c s ih =>
      cases t with
      | nil =>
          have hc := hy c (s ++ x) h.symm
          rw [hs c (by simp)] at hc
          cases hc
      | cons d t =>
          rw [List.cons_append, List.cons_append, List.cons.injEq] at h
          obtain ⟨rfl, hrest⟩ := h
          obtain ⟨rfl, hxy⟩ := ih (fun e he => hs e (by simp [he]))
            (fun e he => ht e (by simp [he])) hrest
          exact ⟨rfl, hxy⟩

theorem itemsText_endsNumber (items : List Json) (x : Text) :
    EndsNumber (itemsText items ++ x) := by
  cases items with
  | nil => exact endsNumber_cons x (by decide)
  | cons item items => exact endsNumber_cons _ (by decide)

theorem membersText_endsNumber (members : List (Text × Json)) (x : Text) :
    EndsNumber (membersText members ++ x) := by
  cases members with
  | nil => exact endsNumber_cons x (by decide)
  | cons member members => exact endsNumber_cons _ (by decide)

theorem itemsText_append_inj {items : List Json}
    (hitems : ∀ item ∈ items, Delimited item) {others : List Json} {x y : Text}
    (h : itemsText items ++ x = itemsText others ++ y) : items = others ∧ x = y := by
  induction items generalizing others with
  | nil =>
      cases others with
      | nil => simpa [itemsText] using h
      | cons other others => simp [itemsText] at h
  | cons item items ih =>
      cases others with
      | nil => simp [itemsText] at h
      | cons other others =>
          simp only [itemsText, List.cons_append, List.append_assoc,
            List.cons.injEq, true_and] at h
          obtain ⟨rfl, hrest⟩ := hitems item (by simp) other _ _
            (itemsText_endsNumber items x) (itemsText_endsNumber others y) h
          obtain ⟨rfl, hxy⟩ := ih (fun item hitem => hitems item (by simp [hitem]))
            hrest
          exact ⟨rfl, hxy⟩

/-- One member and what follows it. -/
theorem member_append_inj {key key' : Text} {value value' : Json} {x y : Text}
    (hvalue : Delimited value) (hx : EndsNumber x) (hy : EndsNumber y)
    (h : quote key ++ ':' :: (value.stringify ++ x) =
      quote key' ++ ':' :: (value'.stringify ++ y)) :
    (key, value) = (key', value') ∧ x = y := by
  obtain ⟨rfl, hrest⟩ := quote_append_inj h
  rw [List.cons.injEq] at hrest
  obtain ⟨rfl, hxy⟩ := hvalue value' x y hx hy hrest.2
  exact ⟨rfl, hxy⟩

theorem membersText_append_inj {members : List (Text × Json)}
    (hmembers : ∀ member ∈ members, Delimited member.2)
    {others : List (Text × Json)} {x y : Text}
    (h : membersText members ++ x = membersText others ++ y) :
    members = others ∧ x = y := by
  induction members generalizing others with
  | nil =>
      cases others with
      | nil => simpa [membersText] using h
      | cons other others => simp [membersText] at h
  | cons member members ih =>
      cases others with
      | nil => simp [membersText] at h
      | cons other others =>
          simp only [membersText, List.cons_append, List.append_assoc,
            List.cons.injEq, true_and] at h
          obtain ⟨hmember, hrest⟩ := member_append_inj
            (hmembers member (by simp)) (membersText_endsNumber members x)
            (membersText_endsNumber others y) h
          obtain ⟨rfl, hxy⟩ := ih
            (fun member hmember => hmembers member (by simp [hmember])) hrest
          rw [show member = other from hmember]
          exact ⟨rfl, hxy⟩

/-- No value starts like the end of an array. -/
theorem stringify_append_ne_close (item : Json) (rest x : Text) :
    item.stringify ++ rest ≠ ']' :: x := by
  obtain ⟨c, tail, hc, hkind⟩ := stringify_eq_cons item
  have hne : c ≠ ']' := by
    rintro rfl
    have hlt := kind_lt item
    rw [← hkind] at hlt
    exact absurd hlt (by decide)
  simp [hc, hne]

theorem delimited_arr {items : List Json} (ih : ∀ item ∈ items, Delimited item) :
    Delimited (.arr items) := by
  intro b x y _ _ h
  -- the first character tells an array from the other kinds
  have hkind := kind_eq_of_append h
  cases b with
  | arr others =>
      cases items with
      | nil =>
          cases others with
          | nil => exact ⟨rfl, List.append_cancel_left h⟩
          | cons other others =>
              simp only [stringify, List.cons_append, List.nil_append,
                List.append_assoc, List.cons.injEq, true_and] at h
              exact absurd h.symm (stringify_append_ne_close other _ x)
      | cons item items =>
          cases others with
          | nil =>
              simp only [stringify, List.cons_append, List.nil_append,
                List.append_assoc, List.cons.injEq, true_and] at h
              exact absurd h (stringify_append_ne_close item _ y)
          | cons other others =>
              simp only [stringify, List.cons_append, List.append_assoc,
                List.cons.injEq, true_and] at h
              -- with a comma in front, both are the further items of an array
              have htexts : itemsText (item :: items) ++ x =
                  itemsText (other :: others) ++ y := by
                simpa [itemsText] using h
              obtain ⟨hall, hxy⟩ := itemsText_append_inj ih htexts
              rw [hall]
              exact ⟨rfl, hxy⟩
  | _ => cases hkind

theorem delimited_obj {members : List (Text × Json)}
    (ih : ∀ member ∈ members, Delimited member.2) : Delimited (.obj members) := by
  intro b x y _ _ h
  have hkind := kind_eq_of_append h
  cases b with
  | obj others =>
      cases members with
      | nil =>
          cases others with
          | nil => exact ⟨rfl, List.append_cancel_left h⟩
          | cons other others => simp [stringify, quote] at h
      | cons member members =>
          cases others with
          | nil => simp [stringify, quote] at h
          | cons other others =>
              simp only [stringify, List.cons_append, List.append_assoc,
                List.cons.injEq, true_and] at h
              have htexts : membersText (member :: members) ++ x =
                  membersText (other :: others) ++ y := by
                simpa [membersText] using h
              obtain ⟨hall, hxy⟩ := membersText_append_inj ih htexts
              rw [hall]
              exact ⟨rfl, hxy⟩
  | _ => cases hkind

theorem delimited (a : Json) : Delimited a := by
  induction a using Json.induction with
  | null =>
      intro b x y _ _ h
      have hkind := kind_eq_of_append h
      cases b with
      | null => exact ⟨rfl, List.append_cancel_left h⟩
      | _ => cases hkind
  | bool value =>
      intro b x y _ _ h
      have hkind := kind_eq_of_append h
      cases b with
      | bool value' =>
          cases value with
          | true =>
              cases value' with
              | true => exact ⟨rfl, List.append_cancel_left h⟩
              | false => simp [stringify] at h
          | false =>
              cases value' with
              | true => simp [stringify] at h
              | false => exact ⟨rfl, List.append_cancel_left h⟩
      | _ => cases hkind
  | num text =>
      intro b x y hx hy h
      have hkind := kind_eq_of_append h
      cases b with
      | num text' =>
          obtain ⟨chars, hnonempty, hdigits⟩ := text
          obtain ⟨chars', hnonempty', hdigits'⟩ := text'
          obtain ⟨hchars, hxy⟩ := number_append_inj hdigits hdigits' hx hy h
          subst hchars
          exact ⟨rfl, hxy⟩
      | _ => cases hkind
  | str text =>
      intro b x y _ _ h
      have hkind := kind_eq_of_append h
      cases b with
      | str text' =>
          obtain ⟨rfl, hxy⟩ := quote_append_inj h
          exact ⟨rfl, hxy⟩
      | _ => cases hkind
  | arr items ih => exact delimited_arr ih
  | obj members ih => exact delimited_obj ih

/-- The text of a value determines the value, order of members included. -/
theorem stringify_injective {a b : Json} (h : a.stringify = b.stringify) : a = b := by
  refine (delimited a b [] [] endsNumber_nil endsNumber_nil ?_).1
  rw [h]

instance : DecidableEq Json := fun a b =>
  decidable_of_iff (a.stringify = b.stringify)
    ⟨stringify_injective, fun h => congrArg stringify h⟩

end Json

end Library
end Paystream
