import Mathlib.Data.List.Basic

/-!
# Delimited text

Records of fields in one text.  Fields are separated by a delimiter and may be quoted; a record ends
with its line, unless the end of the line stands within quotes.  The reader is the character machine
of a permissive reader: it takes every text whose fields are short enough.

A *layout* is a text together with the structure a writer had in mind: which fields it quoted and how
it ended each line.  What the reader returns depends on the fields alone.
-/

namespace Delimited

/-- The characters that end a line. -/
def IsNewline (c : Char) : Prop := c = '\n' ∨ c = '\r'

instance (c : Char) : Decidable (IsNewline c) :=
  inferInstanceAs (Decidable (c = '\n' ∨ c = '\r'))

/-- The special characters, and the largest number of characters in a field. -/
structure Dialect where
  delimiter : Char
  quote : Char
  fieldLimit : ℕ
  delimiter_ne_quote : delimiter ≠ quote
  delimiter_not_newline : ¬ IsNewline delimiter
  quote_not_newline : ¬ IsNewline quote

/-! ### Lines -/

/-- A character in front of the first line. -/
def push (c : Char) : List (List Char) → List (List Char)
  | [] => [[c]]
  | l :: ls => (c :: l) :: ls

/-- The lines of a text, with their ends: a line ends after a line feed, and after a carriage return
that no line feed follows. -/
def lines : List Char → List (List Char)
  | [] => []
  | c :: t =>
    if c = '\n' ∨ c = '\r' ∧ t.head? ≠ some '\n' then [c] :: lines t else push c (lines t)

/-! ### The reader -/

/-- Where the reader is in a record. -/
inductive State where
  | startRecord
  | startField
  | inField
  | inQuotedField
  | quoteInQuotedField
  | eatNewline
  deriving DecidableEq

/-- A record that is being read: its finished fields and the characters of the current one. -/
structure Parser where
  state : State
  fields : List (List Char)
  field : List Char
  deriving DecidableEq

inductive ReadError where
  | fieldLimit
  | newlineInUnquotedField
  /-- The source of the lines has failed. -/
  | source
  deriving DecidableEq

namespace Parser

/-- The beginning of a record. -/
def reset : Parser := ⟨.startRecord, [], []⟩

/-- The current field is finished. -/
def saveField (p : Parser) (s : State) : Parser := ⟨s, p.fields ++ [p.field], []⟩

/-- The end of a line. -/
def endLine (p : Parser) : Parser :=
  match p.state with
  | .startRecord => p
  | .startField => p.saveField .startRecord
  | .inField => p.saveField .startRecord
  | .inQuotedField => p
  | .quoteInQuotedField => p.saveField .startRecord
  | .eatNewline => { p with state := .startRecord }

end Parser

namespace Dialect

variable (d : Dialect)

/-- One more character of the current field. -/
def addChar (p : Parser) (c : Char) (s : State) : Except ReadError Parser :=
  if d.fieldLimit ≤ p.field.length then .error .fieldLimit
  else .ok ⟨s, p.fields, p.field ++ [c]⟩

/-- The first character of a field. -/
def openField (p : Parser) (c : Char) : Except ReadError Parser :=
  if IsNewline c then .ok (p.saveField .eatNewline)
  else if c = d.quote then .ok { p with state := .inQuotedField }
  else if c = d.delimiter then .ok (p.saveField .startField)
  else d.addChar p c .inField

/-- One character of a line. -/
def process (p : Parser) (c : Char) : Except ReadError Parser :=
  match p.state with
  | .startRecord =>
    if IsNewline c then .ok { p with state := .eatNewline } else d.openField p c
  | .startField => d.openField p c
  | .inField =>
    if IsNewline c then .ok (p.saveField .eatNewline)
    else if c = d.delimiter then .ok (p.saveField .startField)
    else d.addChar p c .inField
  | .inQuotedField =>
    if c = d.quote then .ok { p with state := .quoteInQuotedField }
    else d.addChar p c .inQuotedField
  | .quoteInQuotedField =>
    if c = d.quote then d.addChar p c .inQuotedField
    else if c = d.delimiter then .ok (p.saveField .startField)
    else if IsNewline c then .ok (p.saveField .eatNewline)
    else d.addChar p c .inField
  | .eatNewline => if IsNewline c then .ok p else .error .newlineInUnquotedField

/-- The characters of a line and its end. -/
def readLine (p : Parser) : List Char → Except ReadError Parser
  | [] => .ok p.endLine
  | c :: l => do
    let p ← d.process p c
    readLine p l

/-- The records a reader returns, and the error that ends the iteration if there is one.  A quoted
field that is open at the end of the text is finished there; if the source of the lines is `broken`
behind them, the record that is being read is lost. -/
def read (broken : Bool) (p : Parser) :
    List (List Char) → List (List (List Char)) × Option ReadError
  | [] =>
    if broken then ([], some .source)
    else if p.field ≠ [] ∨ p.state = .inQuotedField then ([p.fields ++ [p.field]], none)
    else ([], none)
  | l :: ls =>
    match d.readLine p l with
    | .error e => ([], some e)
    | .ok p =>
      if p.state = .startRecord then
        let rest := read broken .reset ls
        (p.fields :: rest.1, rest.2)
      else read broken p ls

/-- The records of a text. -/
def readText (t : List Char) : List (List (List Char)) × Option ReadError :=
  d.read false .reset (lines t)

/-- What is left of the text when the beginning of its first line has been read. -/
def readOn (p : Parser) (t : List Char) : List (List (List Char)) × Option ReadError :=
  d.read false p (if t = [] then [[]] else lines t)

end Dialect

/-! ### Reading on -/

variable {d : Dialect} {p q : Parser} {c : Char} {t : List Char}

theorem lines_cons_of_not_newline (hc : ¬ IsNewline c) : lines (c :: t) = push c (lines t) := by
  rw [lines, if_neg]
  rintro (h | ⟨h, -⟩)
  · exact hc (.inl h)
  · exact hc (.inr h)

theorem lines_lf (t : List Char) : lines ('\n' :: t) = ['\n'] :: lines t := by
  rw [lines, if_pos (.inl rfl)]

theorem lines_cr_lf (t : List Char) : lines ('\r' :: '\n' :: t) = ['\r', '\n'] :: lines t := by
  rw [lines, if_neg, lines_lf]
  · rfl
  · rintro (h | ⟨-, h⟩)
    · exact absurd h (by decide)
    · exact h rfl

theorem lines_cr (h : t.head? ≠ some '\n') : lines ('\r' :: t) = ['\r'] :: lines t := by
  rw [lines, if_pos (.inr ⟨rfl, h⟩)]

theorem lines_ne_nil (c : Char) (t : List Char) : lines (c :: t) ≠ [] := by
  rw [lines]
  split
  · exact List.cons_ne_nil _ _
  · cases lines t with
    | nil => exact List.cons_ne_nil _ _
    | cons l ls => exact List.cons_ne_nil _ _

namespace Dialect

theorem readOn_cons (p : Parser) (c : Char) (t : List Char) :
    d.readOn p (c :: t) = d.read false p (lines (c :: t)) := by
  rw [readOn, if_neg (List.cons_ne_nil _ _)]

/-- Reading a line character by character. -/
theorem read_push (h : d.process p c = .ok q) (t : List Char) :
    d.read false p (push c (lines t)) = d.readOn q t := by
  cases t with
  | nil =>
    rw [lines, push, read, readLine, h, readOn, if_pos rfl, read]
    rfl
  | cons b t =>
    obtain ⟨l, ls, hl⟩ := List.exists_cons_of_ne_nil (lines_ne_nil b t)
    rw [readOn_cons, hl, push, read, readLine, h, read]
    rfl

/-- A character that does not end its line. -/
theorem readOn_char (hc : ¬ IsNewline c) (h : d.process p c = .ok q) :
    d.readOn p (c :: t) = d.readOn q t := by
  rw [readOn_cons, lines_cons_of_not_newline hc, read_push h]

theorem endLine_of_inQuotedField (hp : p.state = .inQuotedField) : p.endLine = p := by
  rw [Parser.endLine, hp]

/-- Within quotes the end of a line is nothing special. -/
theorem readOn_of_inQuotedField (hp : p.state = .inQuotedField) (t : List Char) :
    d.readOn p t = d.read false p (lines t) := by
  cases t with
  | nil =>
    rw [readOn, if_pos rfl, read, readLine, endLine_of_inQuotedField hp, lines]
    exact if_neg (by rw [hp]; decide)
  | cons c t => exact readOn_cons p c t

theorem read_line_of_inQuotedField (h : d.process p c = .ok q) (hq : q.state = .inQuotedField)
    (ls : List (List Char)) : d.read false p ([c] :: ls) = d.read false q ls := by
  rw [read, readLine, h]
  show (if q.endLine.state = .startRecord then _ else _) = _
  rw [endLine_of_inQuotedField hq, if_neg (by rw [hq]; decide)]

/-- Within quotes every character is read in the same way. -/
theorem readOn_quoted (h : d.process p c = .ok q) (hq : q.state = .inQuotedField) :
    d.readOn p (c :: t) = d.readOn q t := by
  by_cases hc : IsNewline c
  · rw [readOn_cons]
    rcases hc with rfl | rfl
    · rw [lines_lf, read_line_of_inQuotedField h hq, readOn_of_inQuotedField hq]
    · by_cases ht : t.head? = some '\n'
      · rw [lines, if_neg, read_push h]
        rintro (h | ⟨-, h⟩)
        · exact absurd h (by decide)
        · exact h ht
      · rw [lines_cr ht, read_line_of_inQuotedField h hq, readOn_of_inQuotedField hq]
  · exact readOn_char hc h

end Dialect

/-! ### Layouts -/

/-- The text between quotes: a quote is written twice. -/
def Dialect.double (d : Dialect) : List Char → List Char
  | [] => []
  | c :: s => if c = d.quote then d.quote :: d.quote :: d.double s else c :: d.double s

/-- A field as it stands in the text: a quoted part, if there is one, and what follows it up to the
next delimiter. -/
structure Cell (d : Dialect) where
  quoted : Option (List Char)
  plain : List Char
  plain_char : ∀ c ∈ plain, c ≠ d.delimiter ∧ ¬ IsNewline c
  plain_head : plain.head? ≠ some d.quote

namespace Cell

/-- The field. -/
def value (x : Cell d) : List Char := x.quoted.getD [] ++ x.plain

/-- The text of the quoted part. -/
def quotedText (d : Dialect) (quoted : Option (List Char)) : List Char :=
  quoted.elim [] fun s => d.quote :: (d.double s ++ [d.quote])

/-- The text of the field. -/
def text (x : Cell d) : List Char := quotedText d x.quoted ++ x.plain

end Cell

/-- The fields of a record.  A single field is not empty text, since that is an empty line. -/
structure Fields (d : Dialect) where
  first : Cell d
  others : List (Cell d)
  nonblank : others = [] → first.text ≠ []

namespace Fields

/-- The record. -/
def values (r : Fields d) : List (List Char) := r.first.value :: r.others.map Cell.value

/-- The text of the record. -/
def text (r : Fields d) : List Char :=
  r.first.text ++ r.others.flatMap fun x => d.delimiter :: x.text

theorem values_ne_nil (r : Fields d) : r.values ≠ [] := List.cons_ne_nil _ _

theorem text_ne_nil (r : Fields d) : r.text ≠ [] := by
  intro h
  obtain ⟨hfirst, hothers⟩ := List.append_eq_nil_iff.mp h
  cases hr : r.others with
  | nil => exact r.nonblank hr hfirst
  | cons x xs =>
    rw [hr, List.flatMap_cons] at hothers
    exact List.cons_ne_nil _ _ (List.append_eq_nil_iff.mp hothers).1

end Fields

/-- The three ends of a line. -/
inductive Ending where
  | lf
  | cr
  | crlf

def Ending.text : Ending → List Char
  | .lf => ['\n']
  | .cr => ['\r']
  | .crlf => ['\r', '\n']

theorem Ending.text_ne_nil (e : Ending) : e.text ≠ [] := by
  cases e with
  | lf => exact List.cons_ne_nil _ _
  | cr => exact List.cons_ne_nil _ _
  | crlf => exact List.cons_ne_nil _ _

/-- A text: lines, some of them empty, and perhaps a record behind the last line. -/
structure Layout (d : Dialect) where
  lines : List (Option (Fields d) × Ending)
  last : Option (Fields d)

namespace Layout

/-- The text of one line. -/
def lineText (l : Option (Fields d) × Ending) : List Char :=
  l.1.elim [] Fields.text ++ l.2.text

/-- The text. -/
def text (x : Layout d) : List Char := x.lines.flatMap lineText ++ x.last.elim [] Fields.text

/-- The records. -/
def records (x : Layout d) : List (List (List Char)) :=
  x.lines.filterMap (fun l => l.1.map Fields.values) ++ (x.last.map Fields.values).toList

end Layout

/-! ### Reading a field -/

/-- A field may begin here, or go on behind its quoted part. -/
def Parser.Ready (p : Parser) : Prop :=
  p.state = .startRecord ∨ p.state = .startField ∨ p.state = .quoteInQuotedField

/-- A field may end here. -/
def Parser.Closing (p : Parser) : Prop :=
  p.state = .startField ∨ p.state = .inField ∨ p.state = .quoteInQuotedField

namespace Dialect

theorem addChar_eq_ok (s : State) (h : p.field.length < d.fieldLimit) :
    d.addChar p c s = .ok ⟨s, p.fields, p.field ++ [c]⟩ := by
  rw [addChar, if_neg (Nat.not_le.mpr h)]

theorem process_ready (hp : p.Ready) (hquote : c ≠ d.quote) (hdelim : c ≠ d.delimiter)
    (hc : ¬ IsNewline c) : d.process p c = d.addChar p c .inField := by
  rcases hp with h | h | h
  · rw [process, h]
    simp only [openField, if_neg hc, if_neg hquote, if_neg hdelim]
  · rw [process, h]
    simp only [openField, if_neg hc, if_neg hquote, if_neg hdelim]
  · rw [process, h]
    simp only [if_neg hc, if_neg hquote, if_neg hdelim]

theorem process_inField (hp : p.state = .inField) (hdelim : c ≠ d.delimiter)
    (hc : ¬ IsNewline c) : d.process p c = d.addChar p c .inField := by
  rw [process, hp]
  simp only [if_neg hc, if_neg hdelim]

/-- Between two fields, or in front of the second one. -/
theorem process_delimiter (hp : p.Closing ∨ p.state = .startRecord) :
    d.process p d.delimiter = .ok (p.saveField .startField) := by
  have hd := d.delimiter_not_newline
  have hne := d.delimiter_ne_quote
  rcases hp with (h | h | h) | h
  · rw [process, h]
    simp only [openField, if_neg hd, if_neg hne, if_true]
  · rw [process, h]
    simp only [if_neg hd, if_true]
  · rw [process, h]
    simp only [if_neg hne, if_true]
  · rw [process, h]
    simp only [openField, if_neg hd, if_neg hne, if_true]

theorem process_newline (hp : p.Closing) (hc : IsNewline c) :
    d.process p c = .ok (p.saveField .eatNewline) := by
  rcases hp with h | h | h
  · rw [process, h]
    simp only [openField, if_pos hc]
  · rw [process, h]
    simp only [if_pos hc]
  · have hquote : c ≠ d.quote := fun h => d.quote_not_newline (h ▸ hc)
    have hdelim : c ≠ d.delimiter := fun h => d.delimiter_not_newline (h ▸ hc)
    rw [process, h]
    simp only [if_neg hquote, if_neg hdelim, if_pos hc]

theorem readOn_inField (s : List Char) (t : List Char) (hp : p.state = .inField)
    (hs : ∀ c ∈ s, c ≠ d.delimiter ∧ ¬ IsNewline c)
    (hlimit : p.field.length + s.length ≤ d.fieldLimit) :
    d.readOn p (s ++ t) = d.readOn ⟨.inField, p.fields, p.field ++ s⟩ t := by
  induction s generalizing p with
  | nil =>
    rw [List.nil_append, List.append_nil, ← hp]
  | cons c s ih =>
    obtain ⟨hdelim, hc⟩ := hs c List.mem_cons_self
    rw [List.length_cons] at hlimit
    have hstep := process_inField (d := d) hp hdelim hc
    rw [addChar_eq_ok _ (by omega)] at hstep
    rw [List.cons_append, readOn_char hc hstep, ih rfl fun b hb => hs b (List.mem_cons_of_mem _ hb)]
    · rw [List.append_assoc, List.singleton_append]
    · rw [List.length_append, List.length_singleton]
      omega

/-- The plain part of a field. -/
theorem readOn_plain {s : List Char} (t : List Char) (hp : p.Ready) (hne : s ≠ [])
    (hs : ∀ c ∈ s, c ≠ d.delimiter ∧ ¬ IsNewline c) (hhead : s.head? ≠ some d.quote)
    (hlimit : p.field.length + s.length ≤ d.fieldLimit) :
    d.readOn p (s ++ t) = d.readOn ⟨.inField, p.fields, p.field ++ s⟩ t := by
  obtain ⟨c, s, rfl⟩ := List.exists_cons_of_ne_nil hne
  obtain ⟨hdelim, hc⟩ := hs c List.mem_cons_self
  rw [List.length_cons] at hlimit
  have hstep := process_ready (d := d) hp (fun h => hhead (by rw [h]; rfl)) hdelim hc
  rw [addChar_eq_ok _ (by omega)] at hstep
  rw [List.cons_append, readOn_char hc hstep,
    readOn_inField s t rfl fun b hb => hs b (List.mem_cons_of_mem _ hb)]
  · rw [List.append_assoc, List.singleton_append]
  · rw [List.length_append, List.length_singleton]
    omega

/-- The text between quotes. -/
theorem readOn_double (s : List Char) (t : List Char) (hp : p.state = .inQuotedField)
    (hlimit : p.field.length + s.length ≤ d.fieldLimit) :
    d.readOn p (d.double s ++ t) = d.readOn ⟨.inQuotedField, p.fields, p.field ++ s⟩ t := by
  induction s generalizing p with
  | nil =>
    rw [double, List.nil_append, List.append_nil, ← hp]
  | cons c s ih =>
    rw [List.length_cons] at hlimit
    have hnext : d.readOn ⟨.inQuotedField, p.fields, p.field ++ [c]⟩ (d.double s ++ t) =
        d.readOn ⟨.inQuotedField, p.fields, p.field ++ c :: s⟩ t := by
      rw [ih rfl]
      · rw [List.append_assoc, List.singleton_append]
      · rw [List.length_append, List.length_singleton]
        omega
    by_cases hc : c = d.quote
    · have hfirst : d.process p d.quote = .ok ⟨.quoteInQuotedField, p.fields, p.field⟩ := by
        rw [process, hp]
        exact if_pos rfl
      have hsecond : d.process ⟨.quoteInQuotedField, p.fields, p.field⟩ d.quote =
          .ok ⟨.inQuotedField, p.fields, p.field ++ [d.quote]⟩ := by
        rw [process]
        exact (if_pos rfl).trans (addChar_eq_ok _ (show p.field.length < d.fieldLimit by omega))
      rw [double, if_pos hc, List.cons_append, List.cons_append,
        readOn_char d.quote_not_newline hfirst, readOn_char d.quote_not_newline hsecond, ← hc, hnext]
    · have hstep : d.process p c = .ok ⟨.inQuotedField, p.fields, p.field ++ [c]⟩ := by
        rw [process, hp]
        simp only [if_neg hc]
        exact addChar_eq_ok _ (by omega)
      rw [double, if_neg hc, List.cons_append, readOn_quoted hstep rfl, hnext]

/-- The quoted part of a field. -/
theorem readOn_quotedText (s : List Char) (t : List Char)
    (hp : p.state = .startRecord ∨ p.state = .startField) (hfield : p.field = [])
    (hlimit : s.length ≤ d.fieldLimit) :
    d.readOn p (Cell.quotedText d (some s) ++ t) =
      d.readOn ⟨.quoteInQuotedField, p.fields, s⟩ t := by
  have hopen : d.process p d.quote = .ok ⟨.inQuotedField, p.fields, []⟩ := by
    rcases hp with h | h
    · rw [process, h, ← hfield]
      simp only [openField, if_neg d.quote_not_newline, if_true]
    · rw [process, h, ← hfield]
      simp only [openField, if_neg d.quote_not_newline, if_true]
  have hclose : d.process ⟨.inQuotedField, p.fields, s⟩ d.quote =
      .ok ⟨.quoteInQuotedField, p.fields, s⟩ := by
    rw [process]
    exact if_pos rfl
  rw [Cell.quotedText, Option.elim_some, List.cons_append, List.append_assoc,
    readOn_char d.quote_not_newline hopen,
    readOn_double s _ rfl (by rw [List.length_nil]; omega), List.nil_append, List.singleton_append,
    readOn_char d.quote_not_newline hclose]

/-- A field is read up to the place where it may end. -/
theorem readOn_cell (x : Cell d) (hp : p.state = .startRecord ∨ p.state = .startField)
    (hfield : p.field = []) (hlimit : x.value.length ≤ d.fieldLimit) :
    ∃ q : Parser, (∀ t, d.readOn p (x.text ++ t) = d.readOn q t) ∧ q.fields = p.fields ∧
      q.field = x.value ∧ (q.Closing ∨ x.text = [] ∧ q = p) := by
  obtain ⟨quoted, plain, hchar, hhead⟩ := x
  cases quoted with
  | none =>
    by_cases hne : plain = []
    · subst hne
      exact ⟨p, fun t => rfl, rfl, hfield, .inr ⟨rfl, rfl⟩⟩
    · refine ⟨⟨.inField, p.fields, p.field ++ plain⟩, fun t => ?_, rfl, ?_, .inl (.inr (.inl rfl))⟩
      · refine readOn_plain t ?_ hne hchar hhead ?_
        · rcases hp with h | h
          · exact .inl h
          · exact .inr (.inl h)
        · rw [hfield, List.length_nil, Nat.zero_add]
          exact hlimit
      · rw [hfield]
        rfl
  | some s =>
    have hlen : s.length + plain.length ≤ d.fieldLimit := by
      rw [← List.length_append]
      exact hlimit
    by_cases hne : plain = []
    · subst hne
      refine ⟨⟨.quoteInQuotedField, p.fields, s⟩, fun t => ?_, rfl, (List.append_nil s).symm,
        .inl (.inr (.inr rfl))⟩
      rw [Cell.text, List.append_nil, readOn_quotedText s t hp hfield (by omega)]
    · refine ⟨⟨.inField, p.fields, s ++ plain⟩, fun t => ?_, rfl, rfl, .inl (.inr (.inl rfl))⟩
      rw [Cell.text, List.append_assoc, readOn_quotedText s _ hp hfield (by omega),
        readOn_plain t (.inr (.inr rfl)) hne hchar hhead hlen]

/-! ### Reading a record -/

theorem readOn_others (xs : List (Cell d)) (hp : p.Closing)
    (hlimit : ∀ x ∈ xs, x.value.length ≤ d.fieldLimit) :
    ∃ q : Parser,
      (∀ t, d.readOn p ((xs.flatMap fun x => d.delimiter :: x.text) ++ t) = d.readOn q t) ∧
      q.Closing ∧ q.fields ++ [q.field] = p.fields ++ [p.field] ++ xs.map Cell.value := by
  induction xs generalizing p with
  | nil => exact ⟨p, fun t => rfl, hp, by rw [List.map_nil, List.append_nil]⟩
  | cons x xs ih =>
    obtain ⟨q, hread, hfields, hfield, hq⟩ := readOn_cell (p := p.saveField .startField) x
      (.inr rfl) rfl (hlimit x List.mem_cons_self)
    have hclosing : q.Closing := by
      rcases hq with h | ⟨-, h⟩
      · exact h
      · rw [h]
        exact .inl rfl
    obtain ⟨q', hread', hq', heq⟩ := ih hclosing fun y hy => hlimit y (List.mem_cons_of_mem _ hy)
    refine ⟨q', fun t => ?_, hq', ?_⟩
    · rw [List.flatMap_cons, List.append_assoc, List.cons_append,
        readOn_char d.delimiter_not_newline (process_delimiter (.inl hp)), hread, hread']
    · rw [heq, hfields, hfield, Parser.saveField, List.map_cons]
      exact List.append_assoc _ _ _

/-- A record is read up to its end. -/
theorem readOn_fields (r : Fields d) (hlimit : ∀ v ∈ r.values, v.length ≤ d.fieldLimit) :
    ∃ q : Parser, (∀ t, d.readOn .reset (r.text ++ t) = d.readOn q t) ∧ q.Closing ∧
      q.fields ++ [q.field] = r.values := by
  have hothers : ∀ x ∈ r.others, x.value.length ≤ d.fieldLimit := fun x hx =>
    hlimit _ (List.mem_cons_of_mem _ (List.mem_map_of_mem hx))
  obtain ⟨p, hread, hfields, hfield, hp⟩ := readOn_cell (p := .reset) r.first (.inl rfl) rfl
    (hlimit _ List.mem_cons_self)
  rcases hp with hp | ⟨hnil, rfl⟩
  · obtain ⟨q, hread', hq, heq⟩ := readOn_others r.others hp hothers
    refine ⟨q, fun t => ?_, hq, ?_⟩
    · rw [Fields.text, List.append_assoc, hread, hread']
    · rw [heq, hfields, hfield]
      rfl
  · -- the first field is empty text, and a delimiter follows it
    cases hr : r.others with
    | nil => exact absurd hnil (r.nonblank hr)
    | cons x xs =>
      rw [hr] at hothers
      obtain ⟨p, hread₁, hfields₁, hfield₁, hp⟩ := readOn_cell
        (p := Parser.reset.saveField .startField) x (.inr rfl) rfl (hothers x List.mem_cons_self)
      have hclosing : p.Closing := by
        rcases hp with h | ⟨-, h⟩
        · exact h
        · rw [h]
          exact .inl rfl
      obtain ⟨q, hread', hq, heq⟩ := readOn_others xs hclosing fun y hy =>
        hothers y (List.mem_cons_of_mem _ hy)
      refine ⟨q, fun t => ?_, hq, ?_⟩
      · rw [Fields.text, hr, List.append_assoc, hread, List.flatMap_cons, List.append_assoc,
          List.cons_append, readOn_char d.delimiter_not_newline (process_delimiter (.inr rfl)),
          hread₁, hread']
      · rw [heq, hfields₁, hfield₁, Fields.values, hr, ← hfield]
        rfl

end Dialect

/-! ### Reading a text -/

/-- The records that are not empty lines. -/
def dropBlank (x : List (List (List Char)) × Option ReadError) :
    List (List (List Char)) × Option ReadError :=
  (x.1.filter fun r => decide (r ≠ []), x.2)

/-- One more record in front. -/
def emit (r : List (List Char)) (x : List (List (List Char)) × Option ReadError) :
    List (List (List Char)) × Option ReadError :=
  (r :: x.1, x.2)

theorem dropBlank_emit_nil (x : List (List (List Char)) × Option ReadError) :
    dropBlank (emit [] x) = dropBlank x :=
  rfl

theorem dropBlank_emit {r : List (List Char)} (hr : r ≠ [])
    (x : List (List (List Char)) × Option ReadError) :
    dropBlank (emit r x) = emit r (dropBlank x) := by
  have hfilter : (r :: x.1).filter (fun r => decide (r ≠ [])) =
      r :: x.1.filter fun r => decide (r ≠ []) := List.filter_cons_of_pos (decide_eq_true hr)
  unfold dropBlank emit
  rw [hfilter]

namespace Dialect

theorem read_emit {l : List Char} {r : List (List Char)} (h : d.readLine p l = .ok q)
    (hq : q.state = .startRecord) (hr : q.fields = r) (ls : List (List Char)) :
    d.read false p (l :: ls) = emit r (d.read false .reset ls) := by
  rw [read, h]
  show (if q.state = .startRecord then _ else _) = _
  rw [if_pos hq, hr]
  rfl

/-- The end of a line finishes the record; a carriage return takes a line feed behind it along, which
would be an empty line otherwise. -/
theorem readOn_ending {r : List (List Char)} (e : Ending) (t : List Char)
    (h : ∀ c, IsNewline c → d.process p c = .ok ⟨.eatNewline, r, []⟩) :
    ∃ x, d.readOn p (e.text ++ t) = emit r x ∧ dropBlank x = dropBlank (d.readText t) := by
  have hone : ∀ c, IsNewline c → d.readLine p [c] = .ok ⟨.startRecord, r, []⟩ := by
    intro c hc
    rw [readLine, h c hc]
    rfl
  have htwo : d.readLine p ['\r', '\n'] = .ok ⟨.startRecord, r, []⟩ := by
    rw [readLine, h _ (.inr rfl)]
    rfl
  cases e with
  | lf =>
    refine ⟨d.readText t, ?_, rfl⟩
    rw [Ending.text, List.singleton_append, readOn_cons, lines_lf,
      read_emit (hone _ (.inl rfl)) rfl rfl]
    rfl
  | crlf =>
    refine ⟨d.readText t, ?_, rfl⟩
    rw [Ending.text, List.cons_append, List.singleton_append, readOn_cons, lines_cr_lf,
      read_emit htwo rfl rfl]
    rfl
  | cr =>
    rw [Ending.text, List.singleton_append]
    by_cases ht : t.head? = some '\n'
    · obtain ⟨t, rfl⟩ : ∃ t', t = '\n' :: t' := by
        cases t with
        | nil => cases ht
        | cons b t =>
          cases ht
          exact ⟨t, rfl⟩
      refine ⟨d.readText t, ?_, ?_⟩
      · rw [readOn_cons, lines_cr_lf, read_emit htwo rfl rfl]
        rfl
      · have hblank : d.readLine .reset ['\n'] = .ok .reset := rfl
        rw [readText, readText, lines_lf, read_emit hblank rfl rfl]
        rfl
    · refine ⟨d.readText t, ?_, rfl⟩
      rw [readOn_cons, lines_cr ht, read_emit (hone _ (.inr rfl)) rfl rfl]
      rfl

/-- A record and the end of its line. -/
theorem readText_fields_ending (r : Fields d) (e : Ending) (t : List Char)
    (hlimit : ∀ v ∈ r.values, v.length ≤ d.fieldLimit) :
    ∃ x, d.readText (r.text ++ e.text ++ t) = emit r.values x ∧
      dropBlank x = dropBlank (d.readText t) := by
  obtain ⟨q, hread, hq, hvalues⟩ := readOn_fields r hlimit
  have hnewline : ∀ c, IsNewline c → d.process q c = .ok ⟨.eatNewline, r.values, []⟩ := by
    intro c hc
    rw [process_newline hq hc, Parser.saveField, hvalues]
  obtain ⟨x, hx, hblank⟩ := readOn_ending e t hnewline
  refine ⟨x, ?_, hblank⟩
  rw [← hx, ← hread, readOn, if_neg, List.append_assoc, readText]
  exact fun hnil => e.text_ne_nil (List.append_eq_nil_iff.mp (List.append_eq_nil_iff.mp hnil).2).1

/-- A record at the end of the text. -/
theorem readText_fields (r : Fields d) (hlimit : ∀ v ∈ r.values, v.length ≤ d.fieldLimit) :
    d.readText r.text = ([r.values], none) := by
  obtain ⟨q, hread, hq, hvalues⟩ := readOn_fields r hlimit
  have hend : q.endLine = ⟨.startRecord, r.values, []⟩ := by
    rw [← hvalues, Parser.endLine]
    rcases hq with h | h | h
    · rw [h]
      rfl
    · rw [h]
      rfl
    · rw [h]
      rfl
  have htext : d.readText r.text = d.readOn .reset (r.text ++ []) := by
    rw [List.append_nil, readOn, if_neg r.text_ne_nil, readText]
  rw [htext, hread, readOn, if_pos rfl, read_emit (by rw [readLine, hend]) rfl rfl]
  rfl

/-- An empty line. -/
theorem dropBlank_readText_ending (e : Ending) (t : List Char) :
    dropBlank (d.readText (e.text ++ t)) = dropBlank (d.readText t) := by
  have hnewline : ∀ c, IsNewline c → d.process .reset c = .ok ⟨.eatNewline, [], []⟩ := by
    intro c hc
    rw [process]
    exact if_pos hc
  obtain ⟨x, hx, hblank⟩ := readOn_ending e t hnewline
  rw [readOn, if_neg fun hnil => e.text_ne_nil (List.append_eq_nil_iff.mp hnil).1] at hx
  rw [readText, hx, dropBlank_emit_nil, hblank]

/-- The reader returns the records of a layout, however they are written down. -/
theorem dropBlank_readText (x : Layout d)
    (hlimit : ∀ r ∈ x.records, ∀ v ∈ r, v.length ≤ d.fieldLimit) :
    dropBlank (d.readText x.text) = (x.records, none) := by
  obtain ⟨ls, last⟩ := x
  induction ls with
  | nil =>
    cases last with
    | none => rfl
    | some r =>
      have hvalues : ∀ v ∈ r.values, v.length ≤ d.fieldLimit := hlimit _ List.mem_cons_self
      show dropBlank (d.readText r.text) = _
      rw [readText_fields r hvalues]
      exact dropBlank_emit r.values_ne_nil ([], none)
  | cons l ls ih =>
    obtain ⟨r, e⟩ := l
    cases r with
    | none =>
      have htext : (⟨(none, e) :: ls, last⟩ : Layout d).text =
          e.text ++ (⟨ls, last⟩ : Layout d).text := by
        rw [Layout.text, List.flatMap_cons, List.append_assoc]
        rfl
      rw [htext, dropBlank_readText_ending]
      exact ih hlimit
    | some r =>
      have hvalues : ∀ v ∈ r.values, v.length ≤ d.fieldLimit := hlimit _ List.mem_cons_self
      have htext : (⟨(some r, e) :: ls, last⟩ : Layout d).text =
          r.text ++ e.text ++ (⟨ls, last⟩ : Layout d).text := by
        rw [Layout.text, List.flatMap_cons, List.append_assoc]
        rfl
      obtain ⟨y, hy, hblank⟩ :=
        readText_fields_ending r e (⟨ls, last⟩ : Layout d).text hvalues
      rw [htext, hy, dropBlank_emit r.values_ne_nil, hblank,
        ih fun r' hr' => hlimit r' (List.mem_cons_of_mem _ hr')]
      rfl

/-! ### The writer -/

/-- The field has to be quoted. -/
def Special (d : Dialect) (v : List Char) : Prop := ∃ c ∈ v, c = d.delimiter ∨ c = d.quote ∨ IsNewline c

instance (d : Dialect) (v : List Char) : Decidable (d.Special v) :=
  List.decidableBEx (fun c => c = d.delimiter ∨ c = d.quote ∨ IsNewline c) v

/-- The text of a field that is quoted only if it has to be. -/
def writeField (d : Dialect) (v : List Char) : List Char :=
  if d.Special v then Cell.quotedText d (some v) else v

/-- The fields of a record, with delimiters between them. -/
def joinFields (d : Dialect) : List (List Char) → List Char
  | [] => []
  | v :: vs => d.writeField v ++ vs.flatMap fun v => d.delimiter :: d.writeField v

/-- One line of a writer: a record that would be empty text is written as an empty quoted field. -/
def writeRow (d : Dialect) (r : List (List Char)) : List Char :=
  (if r ≠ [] ∧ d.joinFields r = [] then Cell.quotedText d (some []) else d.joinFields r) ++
    Ending.crlf.text

end Dialect

/-- A quoted field. -/
def Cell.ofQuoted (d : Dialect) (v : List Char) : Cell d :=
  ⟨some v, [], (fun c hc => by cases hc), (fun h => by cases h)⟩

/-- The field as a writer writes it. -/
def Cell.ofValue (d : Dialect) (v : List Char) : Cell d :=
  if h : d.Special v then .ofQuoted d v
  else ⟨none, v, fun c hc => ⟨fun hd => h ⟨c, hc, .inl hd⟩, fun hn => h ⟨c, hc, .inr (.inr hn)⟩⟩,
    fun hq => h ⟨_, List.mem_of_mem_head? hq, .inr (.inl rfl)⟩⟩

theorem Cell.text_ofQuoted (v : List Char) : (ofQuoted d v).text = quotedText d (some v) :=
  List.append_nil _

theorem Cell.text_ofValue (v : List Char) : (ofValue d v).text = d.writeField v := by
  rw [ofValue, Dialect.writeField]
  split
  · exact text_ofQuoted v
  · rfl

theorem Cell.value_ofValue (v : List Char) : (ofValue d v).value = v := by
  rw [ofValue]
  split
  · exact List.append_nil v
  · rfl

theorem Dialect.writeField_eq_nil_iff {v : List Char} : d.writeField v = [] ↔ v = [] := by
  constructor
  · intro h
    rw [writeField] at h
    split at h
    · cases h
    · exact h
  · rintro rfl
    rw [writeField, if_neg]
    rintro ⟨c, hc, -⟩
    cases hc

theorem Dialect.joinFields_eq_nil_iff {v : List Char} {vs : List (List Char)} :
    d.joinFields (v :: vs) = [] ↔ v = [] ∧ vs = [] := by
  rw [joinFields, List.append_eq_nil_iff, writeField_eq_nil_iff, List.flatMap_eq_nil_iff]
  refine and_congr_right fun _ => ⟨fun h => ?_, fun h => ?_⟩
  · cases vs with
    | nil => rfl
    | cons w ws => exact absurd (h w List.mem_cons_self) (List.cons_ne_nil _ _)
  · rw [h]
    exact fun w hw => by cases hw

/-- The record as a writer writes it. -/
def Fields.ofRecord (d : Dialect) (v : List Char) (vs : List (List Char)) : Fields d :=
  if h : v = [] ∧ vs = [] then ⟨.ofQuoted d [], [], fun _ hnil => by cases hnil⟩
  else ⟨.ofValue d v, vs.map (.ofValue d), fun hothers hfirst => h
    ⟨Dialect.writeField_eq_nil_iff.mp ((Cell.text_ofValue v).symm.trans hfirst),
      List.map_eq_nil_iff.mp hothers⟩⟩

theorem Fields.values_ofRecord (v : List Char) (vs : List (List Char)) :
    (ofRecord d v vs).values = v :: vs := by
  rw [ofRecord]
  split
  · next h =>
    rw [h.1, h.2]
    rfl
  · have hvalues : (vs.map (Cell.ofValue d)).map Cell.value = vs := by
      rw [List.map_map]
      exact (List.map_congr_left fun w _ => Cell.value_ofValue w).trans (List.map_id _)
    rw [values, hvalues, Cell.value_ofValue]

theorem Fields.writeRow_eq (v : List Char) (vs : List (List Char)) :
    d.writeRow (v :: vs) = (ofRecord d v vs).text ++ Ending.crlf.text := by
  rw [Dialect.writeRow, ofRecord]
  split
  · next h =>
    rw [dif_pos (Dialect.joinFields_eq_nil_iff.mp h.2), text, Cell.text_ofQuoted]
    rfl
  · next h =>
    have hne : ¬ (v = [] ∧ vs = []) := fun hnil =>
      h ⟨List.cons_ne_nil _ _, Dialect.joinFields_eq_nil_iff.mpr hnil⟩
    have hothers : (vs.flatMap fun w => d.delimiter :: (Cell.ofValue d w).text) =
        vs.flatMap fun w => d.delimiter :: d.writeField w :=
      List.flatMap_congr fun w _ => by rw [Cell.text_ofValue]
    rw [dif_neg hne, text, Dialect.joinFields, Cell.text_ofValue, List.flatMap_map, hothers]

end Delimited
