import Mathlib.Data.List.Infix
import Mathlib.Tactic
import Paystream.Library.Json

/-!
# Tables as comma-separated text

The grammar of RFC 4180, with the line break as a parameter.  A field that starts with
a quote goes on to the next quote that is not doubled; any other field goes on to a
comma or a line break.  Nothing but these may follow a closing quote, and a line break
at the end of the text starts no further record.

A written cell is read back when it `Reads` as its value whatever follows it.  If every
cell does this or is its value between quotes, then the table is read back exactly when
all of them do (`parse_tableText_iff`): a quote that is not doubled spoils the whole
table.
-/

namespace Paystream
namespace Library
namespace Csv

/-! ## The grammar -/

/-- What ends a record. -/
inductive LineBreak
  | lf
  | crlf
  deriving DecidableEq

def LineBreak.chars : LineBreak → Text
  | .lf => ['\n']
  | .crlf => ['\r', '\n']

/-- What follows the line break the text starts with. -/
def LineBreak.strip : LineBreak → Text → Option Text
  | .lf, '\n' :: rest => some rest
  | .crlf, '\r' :: '\n' :: rest => some rest
  | _, _ => none

/-- The text with every quote doubled. -/
def doubleQuotes (text : Text) : Text :=
  text.flatMap fun c => if c = '"' then ['"', '"'] else [c]

/-- The text between quotes. -/
def wrap (text : Text) : Text := '"' :: (text ++ ['"'])

/-- The rest of a quoted field, and what follows it. -/
def parseQuoted : Text → Option (Text × Text)
  | [] => none
  | c :: rest =>
      if c = '"' then
        match rest with
        | '"' :: more => (parseQuoted more).map fun result => ('"' :: result.1, result.2)
        | _ => some ([], rest)
      else
        (parseQuoted rest).map fun result => (c :: result.1, result.2)

/-- A field without quotes, and what follows it. -/
def parseBare (lineBreak : LineBreak) : Text → Text × Text
  | [] => ([], [])
  | c :: rest =>
      if c = ',' ∨ (lineBreak.strip (c :: rest)).isSome = true then ([], c :: rest)
      else
        let result := parseBare lineBreak rest
        (c :: result.1, result.2)

def parseField (lineBreak : LineBreak) : Text → Option (Text × Text)
  | '"' :: rest => parseQuoted rest
  | text => some (parseBare lineBreak text)

theorem LineBreak.strip_eq_some_iff {lineBreak : LineBreak} {text rest : Text} :
    lineBreak.strip text = some rest ↔ text = lineBreak.chars ++ rest := by
  cases lineBreak with
  | lf =>
      match text with
      | [] => simp [strip, chars]
      | c :: text =>
          by_cases hc : c = '\n'
          · subst hc
            simp [strip, chars]
          · simp [strip, chars, hc]
  | crlf =>
      match text with
      | [] => simp [strip, chars]
      | [c] => simp [strip, chars]
      | c :: d :: text =>
          by_cases hc : c = '\r'
          · by_cases hd : d = '\n'
            · subst hc hd
              simp [strip, chars]
            · simp [strip, chars, hd]
          · simp [strip, chars, hc]

@[simp] theorem doubleQuotes_nil : doubleQuotes [] = [] := rfl

@[simp] theorem doubleQuotes_quote_cons (text : Text) :
    doubleQuotes ('"' :: text) = '"' :: '"' :: doubleQuotes text := rfl

theorem doubleQuotes_cons {c : Char} (hc : c ≠ '"') (text : Text) :
    doubleQuotes (c :: text) = c :: doubleQuotes text := by
  unfold doubleQuotes
  rw [List.flatMap_cons, if_neg hc, List.singleton_append]

theorem doubleQuotes_eq_self {text : Text} (h : '"' ∉ text) : doubleQuotes text = text := by
  induction text with
  | nil => rfl
  | cons c text ih =>
      rw [List.mem_cons, not_or] at h
      rw [doubleQuotes_cons (Ne.symm h.1), ih h.2]

/-- A doubled quote, and any other character, is taken into the value. -/
theorem parseQuoted_quote_quote (rest : Text) :
    parseQuoted ('"' :: '"' :: rest) =
      (parseQuoted rest).map fun result => ('"' :: result.1, result.2) := by
  rw [parseQuoted, if_pos rfl]

theorem parseQuoted_cons {c : Char} (hc : c ≠ '"') (rest : Text) :
    parseQuoted (c :: rest) =
      (parseQuoted rest).map fun result => (c :: result.1, result.2) := by
  conv_lhs => unfold parseQuoted
  exact if_neg hc

theorem parseQuoted_quote {rest : Text} (h : rest.head? ≠ some '"') :
    parseQuoted ('"' :: rest) = some ([], rest) := by
  unfold parseQuoted
  rw [if_pos rfl]
  split
  · simp at h
  · rfl

theorem parseQuoted_doubleQuotes (value : Text) {rest : Text} (h : rest.head? ≠ some '"') :
    parseQuoted (doubleQuotes value ++ '"' :: rest) = some (value, rest) := by
  induction value with
  | nil => exact parseQuoted_quote h
  | cons c value ih =>
      by_cases hc : c = '"'
      · subst hc
        rw [doubleQuotes_quote_cons, List.cons_append, List.cons_append,
          parseQuoted_quote_quote, ih]
        rfl
      · rw [doubleQuotes_cons hc, List.cons_append, parseQuoted_cons hc, ih]
        rfl

/-- What is read as a quoted field is a text with its quotes doubled, and its closing
quote is followed by no other. -/
theorem eq_of_parseQuoted {text value rest : Text}
    (h : parseQuoted text = some (value, rest)) :
    text = doubleQuotes value ++ '"' :: rest ∧ rest.head? ≠ some '"' := by
  induction text using parseQuoted.induct generalizing value with
  | case1 => simp [parseQuoted] at h
  | case2 more ih =>
      rw [parseQuoted_quote_quote, Option.map_eq_some_iff] at h
      obtain ⟨result, hresult, hpair⟩ := h
      obtain ⟨rfl, rfl⟩ := Prod.mk.inj hpair
      obtain ⟨hmore, hhead⟩ := ih hresult
      rw [doubleQuotes_quote_cons, hmore]
      exact ⟨rfl, hhead⟩
  | case3 text hnot =>
      have hhead : text.head? ≠ some '"' := by
        cases text with
        | nil => simp
        | cons c text =>
            rw [List.head?_cons, Ne, Option.some.injEq]
            rintro rfl
            exact hnot text rfl
      rw [parseQuoted_quote hhead] at h
      obtain ⟨rfl, rfl⟩ := Prod.mk.inj (Option.some.inj h)
      exact ⟨rfl, hhead⟩
  | case4 c text hc ih =>
      rw [parseQuoted_cons hc, Option.map_eq_some_iff] at h
      obtain ⟨result, hresult, hpair⟩ := h
      obtain ⟨rfl, rfl⟩ := Prod.mk.inj hpair
      obtain ⟨htext, hhead⟩ := ih hresult
      rw [doubleQuotes_cons hc, List.cons_append, ← htext]
      exact ⟨rfl, hhead⟩

/-! ## Records -/

theorem length_parseBare_le (lineBreak : LineBreak) (text : Text) :
    (parseBare lineBreak text).2.length ≤ text.length := by
  induction text with
  | nil => exact le_rfl
  | cons c text ih =>
      rw [parseBare]
      split
      · exact le_rfl
      · exact ih.trans (Nat.le_succ _)

theorem length_of_parseField {lineBreak : LineBreak} {text value rest : Text}
    (h : parseField lineBreak text = some (value, rest)) : rest.length ≤ text.length := by
  unfold parseField at h
  split at h
  · obtain ⟨htext, _⟩ := eq_of_parseQuoted h
    rw [htext]
    simp only [List.length_cons, List.length_append]
    omega
  · have hle := length_parseBare_le lineBreak text
    rw [Option.some.inj h] at hle
    exact hle

/-- The fields of the record the text starts in, and the records after it. -/
def parseFrom (lineBreak : LineBreak) (text : Text) :
    Option (List Text × List (List Text)) :=
  match _hfield : parseField lineBreak text with
  | none => none
  | some (value, []) => some ([value], [])
  | some (value, c :: more) =>
      if c = ',' then
        (parseFrom lineBreak more).map fun result => (value :: result.1, result.2)
      else
        match _hbreak : lineBreak.strip (c :: more) with
        | none => none
        | some [] => some ([value], [])
        | some (d :: rest) =>
            (parseFrom lineBreak (d :: rest)).map fun result =>
              ([value], result.1 :: result.2)
termination_by text.length
decreasing_by
  · have hle := length_of_parseField _hfield
    exact hle
  · have hle := length_of_parseField _hfield
    have hbreak := LineBreak.strip_eq_some_iff.mp _hbreak
    have hlength := congrArg List.length hbreak
    have hpos : 0 < lineBreak.chars.length := by cases lineBreak <;> decide
    rw [List.length_append] at hlength
    omega

/-- The records of a text. -/
def parse (lineBreak : LineBreak) (text : Text) : Option (List (List Text)) :=
  (parseFrom lineBreak text).map fun result => result.1 :: result.2

section Steps

variable {lineBreak : LineBreak} {text value : Text}

/-- A field at the end of the text. -/
theorem parseFrom_end (h : parseField lineBreak text = some (value, [])) :
    parseFrom lineBreak text = some ([value], []) := by
  rw [parseFrom]
  split
  · rename_i hfield
    rw [h] at hfield
    cases hfield
  · rename_i hfield
    rw [h] at hfield
    cases hfield
    rfl
  · rename_i hfield
    rw [h] at hfield
    cases hfield

/-- A field with another one behind it. -/
theorem parseFrom_comma {rest : Text}
    (h : parseField lineBreak text = some (value, ',' :: rest)) :
    parseFrom lineBreak text =
      (parseFrom lineBreak rest).map fun result => (value :: result.1, result.2) := by
  rw [parseFrom]
  split
  · rename_i hfield
    rw [h] at hfield
    cases hfield
  · rename_i hfield
    rw [h] at hfield
    cases hfield
  · rename_i hfield
    rw [h] at hfield
    cases hfield
    rw [if_pos rfl]

/-- A field with another record behind it. -/
theorem parseFrom_break {rest : Text} (hrest : rest ≠ [])
    (h : parseField lineBreak text = some (value, lineBreak.chars ++ rest)) :
    parseFrom lineBreak text =
      (parseFrom lineBreak rest).map fun result => ([value], result.1 :: result.2) := by
  obtain ⟨first, others, hchars, hcomma⟩ : ∃ first others,
      lineBreak.chars = first :: others ∧ first ≠ ',' := by
    cases lineBreak with
    | lf => exact ⟨_, _, rfl, by decide⟩
    | crlf => exact ⟨_, _, rfl, by decide⟩
  have hstrip : lineBreak.strip (first :: (others ++ rest)) = some rest := by
    rw [LineBreak.strip_eq_some_iff, hchars]
    rfl
  rw [hchars, List.cons_append] at h
  rw [parseFrom]
  split
  · rename_i hfield
    rw [h] at hfield
    cases hfield
  · rename_i hfield
    rw [h] at hfield
    cases hfield
  · rename_i hfield
    rw [h] at hfield
    cases hfield
    rw [if_neg hcomma]
    split
    · rename_i hnone
      rw [hstrip] at hnone
      cases hnone
    · rename_i hnil
      rw [hstrip] at hnil
      exact absurd (Option.some.inj hnil) hrest
    · rename_i hsome
      rw [hstrip] at hsome
      rw [Option.some.inj hsome]

end Steps

/-! ## Tables -/

/-- A cell as it is written, and the value it stands for. -/
structure Cell where
  written : Text
  value : Text

/-- The text of a table, given the texts of its cells. -/
def tableText (lineBreak : LineBreak) (records : List (List Text)) : Text :=
  List.intercalate lineBreak.chars (records.map (List.intercalate [',']))

/-- The text behind a cell that has these cells and records behind it. -/
def restText (lineBreak : LineBreak) : List Text → List (List Text) → Text
  | cell :: cells, records => ',' :: tableText lineBreak ((cell :: cells) :: records)
  | [], record :: records => lineBreak.chars ++ tableText lineBreak (record :: records)
  | [], [] => []

theorem tableText_cons (lineBreak : LineBreak) (cell : Text) (cells : List Text)
    (records : List (List Text)) :
    tableText lineBreak ((cell :: cells) :: records) =
      cell ++ restText lineBreak cells records := by
  unfold tableText
  cases cells with
  | nil =>
      cases records with
      | nil => simp [restText, List.intercalate]
      | cons record records => simp [restText, tableText, List.intercalate]
  | cons next cells =>
      cases records with
      | nil => simp [restText, tableText, List.intercalate]
      | cons record records => simp [restText, tableText, List.intercalate]

/-- A field may end before this text. -/
def Ends (lineBreak : LineBreak) (rest : Text) : Prop :=
  rest = [] ∨ rest.head? = some ',' ∨ ∃ more, rest = lineBreak.chars ++ more

/-- What is written is read as the value, whatever follows the field. -/
def Reads (lineBreak : LineBreak) (written value : Text) : Prop :=
  ∀ rest, Ends lineBreak rest →
    parseField lineBreak (written ++ rest) = some (value, rest)

/-- A field is read in one way only. -/
theorem Reads.value_eq {lineBreak : LineBreak} {written value value' : Text}
    (h : Reads lineBreak written value) (h' : Reads lineBreak written value') :
    value = value' := by
  have hend : Ends lineBreak [] := Or.inl rfl
  have heq := (h [] hend).symm.trans (h' [] hend)
  exact congrArg Prod.fst (Option.some.inj heq)

theorem head_ne_quote_of_ends {lineBreak : LineBreak} {rest : Text}
    (h : Ends lineBreak rest) : rest.head? ≠ some '"' := by
  rcases h with rfl | hcomma | ⟨more, rfl⟩
  · simp
  · rw [hcomma]
    decide
  · cases lineBreak with
    | lf => simp [LineBreak.chars]
    | crlf => simp [LineBreak.chars]

theorem ends_restText (lineBreak : LineBreak) (cells : List Text)
    (records : List (List Text)) : Ends lineBreak (restText lineBreak cells records) := by
  cases cells with
  | cons cell cells => exact Or.inr (Or.inl rfl)
  | nil =>
      cases records with
      | nil => exact Or.inl rfl
      | cons record records => exact Or.inr (Or.inr ⟨_, rfl⟩)

/-- The rest behind a cell that was read is read next: it is the rest of the record,
or the following records, unless the text is at its end. -/
theorem parseFrom_of_reads {lineBreak : LineBreak} {cell : Cell}
    {cells : List Text} {records : List (List Text)}
    (hrecords : ∀ record ∈ records, 2 ≤ record.length)
    (h : parseField lineBreak (cell.written ++ restText lineBreak cells records) =
      some (cell.value, restText lineBreak cells records)) :
    parseFrom lineBreak (tableText lineBreak ((cell.written :: cells) :: records)) =
      match cells, records with
      | next :: cells, records =>
          (parseFrom lineBreak (tableText lineBreak ((next :: cells) :: records))).map
            fun result => (cell.value :: result.1, result.2)
      | [], record :: records =>
          (parseFrom lineBreak (tableText lineBreak (record :: records))).map
            fun result => ([cell.value], result.1 :: result.2)
      | [], [] => some ([cell.value], []) := by
  rw [← tableText_cons] at h
  cases cells with
  | cons next cells => exact parseFrom_comma h
  | nil =>
      cases records with
      | nil => exact parseFrom_end h
      | cons record records =>
          refine parseFrom_break ?_ h
          -- a record of two fields has a comma in it
          obtain ⟨first, second, others, rfl⟩ : ∃ first second others,
              record = first :: second :: others := by
            match record, hrecords record (List.mem_cons_self ..) with
            | first :: second :: others, _ => exact ⟨first, second, others, rfl⟩
          rw [tableText_cons]
          simp [restText]

/-! ## Quoted cells -/

theorem reads_wrap_doubleQuotes (lineBreak : LineBreak) (value : Text) :
    Reads lineBreak (wrap (doubleQuotes value)) value := by
  intro rest hrest
  unfold wrap
  rw [List.cons_append, List.append_assoc]
  exact parseQuoted_doubleQuotes value (head_ne_quote_of_ends hrest)

/-- Once the doubled quotes of a value are ahead of the value's own, they stay ahead,
and the value ends too early. -/
theorem append_quote_ne_replicate {rest : Text} (hrest : rest.head? ≠ some '"')
    (value rest' : Text) (n : Nat) :
    value ++ '"' :: rest ≠
      List.replicate (n + 1) '"' ++ (doubleQuotes value ++ '"' :: rest') := by
  induction value generalizing n with
  | nil =>
      intro heq
      rw [List.nil_append, List.replicate_succ, List.cons_append, List.cons.injEq] at heq
      refine hrest ?_
      rw [heq.2]
      cases n with
      | zero => rfl
      | succ n => rfl
  | cons c value ih =>
      intro heq
      rw [List.cons_append, List.replicate_succ, List.cons_append, List.cons.injEq] at heq
      obtain ⟨rfl, heq⟩ := heq
      refine ih (n + 1) (heq.trans ?_)
      rw [doubleQuotes_quote_cons, List.replicate_succ', List.replicate_succ']
      simp

/-- A value between quotes is the value with its quotes doubled only if it has none. -/
theorem quote_not_mem_of_eq {value rest rest' : Text} (hrest : rest.head? ≠ some '"')
    (h : value ++ '"' :: rest = doubleQuotes value ++ '"' :: rest') : '"' ∉ value := by
  induction value with
  | nil => exact List.not_mem_nil
  | cons c value ih =>
      by_cases hc : c = '"'
      · subst hc
        rw [doubleQuotes_quote_cons, List.cons_append, List.cons_append, List.cons.injEq] at h
        exact absurd h.2 (append_quote_ne_replicate hrest value rest' 0)
      · rw [doubleQuotes_cons hc, List.cons_append, List.cons_append, List.cons.injEq] at h
        rw [List.mem_cons, not_or]
        exact ⟨Ne.symm hc, ih h.2⟩

theorem quote_not_mem_of_parseField {lineBreak : LineBreak} {value rest rest' : Text}
    (hrest : rest.head? ≠ some '"')
    (h : parseField lineBreak (wrap value ++ rest) = some (value, rest')) :
    '"' ∉ value := by
  unfold wrap at h
  rw [List.cons_append, List.append_assoc] at h
  exact quote_not_mem_of_eq hrest (eq_of_parseQuoted h).1

theorem reads_wrap_iff (lineBreak : LineBreak) (value : Text) :
    Reads lineBreak (wrap value) value ↔ '"' ∉ value := by
  constructor
  · intro h
    exact quote_not_mem_of_parseField (by simp) (h [] (Or.inl rfl))
  · intro h
    have hreads := reads_wrap_doubleQuotes lineBreak value
    rwa [doubleQuotes_eq_self h] at hreads

/-! ## Bare cells -/

/-- A field ends where a text begins that may follow one. -/
theorem parseBare_of_ends {lineBreak : LineBreak} {rest : Text} (h : Ends lineBreak rest) :
    parseBare lineBreak rest = ([], rest) := by
  cases rest with
  | nil => rfl
  | cons c rest =>
      rw [parseBare, if_pos]
      rcases h with hnil | hcomma | ⟨more, hmore⟩
      · cases hnil
      · exact Or.inl (Option.some.inj hcomma)
      · exact Or.inr (by rw [LineBreak.strip_eq_some_iff.mpr hmore]; rfl)

/-- No line break starts in a text without line feeds, nor at its end: what may follow a
field does not start with a line feed behind a carriage return. -/
theorem strip_eq_none {lineBreak : LineBreak} {c : Char} {value rest : Text}
    (hvalue : '\n' ∉ c :: value) (hrest : Ends lineBreak rest) :
    lineBreak.strip (c :: (value ++ rest)) = none := by
  rw [List.mem_cons, not_or] at hvalue
  obtain ⟨hc, hvalue⟩ := hvalue
  rw [Option.eq_none_iff_forall_ne_some]
  intro more hmore
  rw [LineBreak.strip_eq_some_iff] at hmore
  cases lineBreak with
  | lf => exact hc (List.cons.inj hmore).1.symm
  | crlf =>
      have htail : value ++ rest = '\n' :: more := (List.cons.inj hmore).2
      cases value with
      | cons d value =>
          rw [List.cons_append, List.cons.injEq] at htail
          rw [htail.1] at hvalue
          exact hvalue (List.mem_cons_self ..)
      | nil =>
          rw [List.nil_append] at htail
          rcases hrest with hnil | hcomma | ⟨other, hbreak⟩
          · rw [hnil] at htail
            cases htail
          · rw [htail] at hcomma
            exact absurd (Option.some.inj hcomma) (by decide)
          · rw [htail] at hbreak
            exact absurd (List.cons.inj hbreak).1 (by decide)

theorem parseBare_append {lineBreak : LineBreak} {value rest : Text} (hcomma : ',' ∉ value)
    (hfeed : '\n' ∉ value) (hrest : Ends lineBreak rest) :
    parseBare lineBreak (value ++ rest) = (value, rest) := by
  induction value with
  | nil => exact parseBare_of_ends hrest
  | cons c value ih =>
      have hnone := strip_eq_none hfeed hrest
      rw [List.mem_cons, not_or] at hcomma hfeed
      rw [List.cons_append, parseBare, if_neg, ih hcomma.2 hfeed.2]
      rw [hnone, not_or]
      exact ⟨Ne.symm hcomma.1, by simp⟩

theorem parseField_of_head {lineBreak : LineBreak} {text : Text}
    (h : text.head? ≠ some '"') : parseField lineBreak text = some (parseBare lineBreak text) := by
  unfold parseField
  split
  · simp at h
  · rfl

/-- A text without commas, quotes and line feeds is read as it stands. -/
theorem reads_bare (lineBreak : LineBreak) {value : Text} (hcomma : ',' ∉ value)
    (hquote : '"' ∉ value) (hfeed : '\n' ∉ value) : Reads lineBreak value value := by
  intro rest hrest
  have hhead : (value ++ rest).head? ≠ some '"' := by
    cases value with
    | nil => exact head_ne_quote_of_ends hrest
    | cons c value =>
        rw [List.mem_cons, not_or] at hquote
        rw [List.cons_append, List.head?_cons, Ne, Option.some.injEq]
        exact Ne.symm hquote.1
  rw [parseField_of_head hhead, parseBare_append hcomma hfeed hrest]

/-! ## Reading a table back -/

/-- The first field of a text that was read. -/
theorem parseField_of_parseFrom {lineBreak : LineBreak} {text : Text}
    {result : List Text × List (List Text)} (h : parseFrom lineBreak text = some result) :
    ∃ value rest, parseField lineBreak text = some (value, rest) ∧
      result.1.head? = some value := by
  rw [parseFrom] at h
  split at h
  · cases h
  · rename_i hfield
    cases h
    exact ⟨_, _, hfield, rfl⟩
  · rename_i hfield
    split at h
    · obtain ⟨_, _, rfl⟩ := Option.map_eq_some_iff.mp h
      exact ⟨_, _, hfield, rfl⟩
    · split at h
      · cases h
      · cases h
        exact ⟨_, _, hfield, rfl⟩
      · obtain ⟨_, _, rfl⟩ := Option.map_eq_some_iff.mp h
        exact ⟨_, _, hfield, rfl⟩

/-- The texts of a record's cells, and their values. -/
def writtenOf (record : List Cell) : List Text := record.map Cell.written

def valuesOf (record : List Cell) : List Text := record.map Cell.value

/-- The cell can be read, if not as its value, or it is its value between quotes. -/
def IsCell (lineBreak : LineBreak) (cell : Cell) : Prop :=
  (∃ value, Reads lineBreak cell.written value) ∨ cell.written = wrap cell.value

theorem reads_of_parseFrom {lineBreak : LineBreak} {cell : Cell}
    (hcell : IsCell lineBreak cell) {cells : List Text} {records : List (List Text)}
    {values : List Text} {others : List (List Text)}
    (h : parseFrom lineBreak (tableText lineBreak ((cell.written :: cells) :: records)) =
      some (cell.value :: values, others)) :
    Reads lineBreak cell.written cell.value := by
  obtain ⟨value, rest, hfield, hvalue⟩ := parseField_of_parseFrom h
  rw [List.head?_cons, Option.some.injEq] at hvalue
  rw [tableText_cons, ← hvalue] at hfield
  have hends := ends_restText lineBreak cells records
  rcases hcell with ⟨other, hreads⟩ | hwrapped
  · rw [hreads _ hends, Option.some.injEq, Prod.mk.injEq] at hfield
    rwa [hfield.1] at hreads
  · rw [hwrapped] at hfield ⊢
    rw [reads_wrap_iff]
    exact quote_not_mem_of_parseField (head_ne_quote_of_ends hends) hfield

theorem map_field_eq_some_iff {x : Option (List Text × List (List Text))} {value : Text}
    {values : List Text} {records : List (List Text)} :
    (x.map fun result => (value :: result.1, result.2)) = some (value :: values, records) ↔
      x = some (values, records) := by
  cases x with
  | none => simp
  | some result => simp [Prod.ext_iff]

theorem map_record_eq_some_iff {x : Option (List Text × List (List Text))} {value : Text}
    {record : List Text} {records : List (List Text)} :
    (x.map fun result => ([value], result.1 :: result.2)) =
        some ([value], record :: records) ↔
      x = some (record, records) := by
  cases x with
  | none => simp
  | some result => simp [Prod.ext_iff]

/-- A record and those after it are read back exactly when all their cells are. -/
theorem parseFrom_tableText_iff {lineBreak : LineBreak} {record : List Cell}
    {records : List (List Cell)} (hrecord : record ≠ [])
    (hrecords : ∀ record ∈ records, 2 ≤ record.length)
    (hcells : ∀ row ∈ record :: records, ∀ cell ∈ row, IsCell lineBreak cell) :
    parseFrom lineBreak (tableText lineBreak ((record :: records).map writtenOf)) =
        some (valuesOf record, records.map valuesOf) ↔
      ∀ row ∈ record :: records, ∀ cell ∈ row, Reads lineBreak cell.written cell.value := by
  -- cell by cell: what is left is the rest of the record, or the next record
  induction hsize : (record :: records).flatten.length generalizing record records with
  | zero =>
      rw [List.flatten_cons, List.length_append] at hsize
      exact absurd (List.length_eq_zero_iff.mp (by omega)) hrecord
  | succ size ih =>
      obtain ⟨cell, cells, rfl⟩ := List.exists_cons_of_ne_nil hrecord
      by_cases hfirst : Reads lineBreak cell.written cell.value
      · have hwritten : ∀ record ∈ records.map writtenOf, 2 ≤ record.length := by
          intro texts htexts
          obtain ⟨record, hmem, rfl⟩ := List.mem_map.mp htexts
          rw [writtenOf, List.length_map]
          exact hrecords record hmem
        have hstep := parseFrom_of_reads hwritten
          (hfirst _ (ends_restText lineBreak (writtenOf cells) _))
        cases cells with
        | cons next cells =>
            have hrest := ih (List.cons_ne_nil next cells) hrecords
              (by simp only [List.forall_mem_cons] at hcells ⊢; exact ⟨hcells.1.2, hcells.2⟩)
              (by simp only [List.flatten_cons, List.length_append, List.length_cons] at *; omega)
            refine (Iff.of_eq (congrArg (· = _) hstep)).trans ?_
            refine (map_field_eq_some_iff.trans hrest).trans ?_
            simp only [List.forall_mem_cons, hfirst, true_and]
        | nil =>
            cases records with
            | nil =>
                refine iff_of_true hstep ?_
                simp only [List.forall_mem_cons, hfirst, true_and]
                simp
            | cons next records =>
                rw [List.forall_mem_cons] at hrecords
                have hrest := ih (List.length_pos_iff.mp (by omega)) hrecords.2
                  (List.forall_mem_cons.mp hcells).2
                  (by simp only [List.flatten_cons, List.length_append, List.length_cons,
                        List.length_nil] at *; omega)
                refine (Iff.of_eq (congrArg (· = _) hstep)).trans ?_
                refine (map_record_eq_some_iff.trans hrest).trans ?_
                simp only [List.forall_mem_cons, hfirst, true_and]
                simp
      · refine iff_of_false ?_ ?_
        · intro h
          exact hfirst (reads_of_parseFrom
            (hcells _ (List.mem_cons_self ..) cell (List.mem_cons_self ..)) h)
        · intro h
          exact hfirst (h _ (List.mem_cons_self ..) cell (List.mem_cons_self ..))

/-- A table is read back exactly when every cell of it is. -/
theorem parse_tableText_iff {lineBreak : LineBreak} {table : List (List Cell)}
    (htable : table ≠ []) (hrecords : ∀ record ∈ table, 2 ≤ record.length)
    (hcells : ∀ record ∈ table, ∀ cell ∈ record, IsCell lineBreak cell) :
    parse lineBreak (tableText lineBreak (table.map writtenOf)) =
        some (table.map valuesOf) ↔
      ∀ record ∈ table, ∀ cell ∈ record, Reads lineBreak cell.written cell.value := by
  obtain ⟨record, records, rfl⟩ := List.exists_cons_of_ne_nil htable
  have hfirst := (List.forall_mem_cons.mp hrecords).1
  rw [← parseFrom_tableText_iff (List.length_pos_iff.mp (by omega))
    (List.forall_mem_cons.mp hrecords).2 hcells]
  unfold parse
  cases parseFrom lineBreak (tableText lineBreak ((record :: records).map writtenOf)) with
  | none => simp
  | some result => simp [Prod.ext_iff]

end Csv
end Library
end Paystream
