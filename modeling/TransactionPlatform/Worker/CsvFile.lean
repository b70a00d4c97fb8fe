import Mathlib.Data.Bool.AllAny
import TransactionPlatform.Foundation.Delimited
import TransactionPlatform.Validation

/-!
# The uploaded file

`open(job.storage_path, "r", newline="", encoding="utf-8-sig")` and `csv.DictReader` of
`_run_import`: the bytes of a file become field names and rows.  A table can be written down in many
ways; the worker reads the same rows from all of them.
-/

namespace TransactionPlatform

open Delimited

/-- The default dialect of the `csv` module, with its default field size limit. -/
def excel : Dialect where
  delimiter := ','
  quote := '"'
  fieldLimit := 131072
  delimiter_ne_quote := by decide
  delimiter_not_newline := by decide
  quote_not_newline := by decide

/-- The byte order mark. -/
def byteOrderMark : Char := Char.ofNat 0xFEFF

/-- The bytes of a text. -/
def encodeText (t : List Char) : List UInt8 := t.flatMap String.utf8EncodeChar

/-- The text of a file in the encoding `utf-8-sig`: one byte order mark at the beginning is dropped,
and a file that ends within the mark is empty.  There is no text if the bytes are not UTF-8. -/
def decodeText (content : List UInt8) : Option (List Char) :=
  match content.toByteArray.utf8Decode? with
  | some t => some (if t.toList.head? = some byteOrderMark then t.toList.tail else t.toList)
  | none => if content = [0xEF] ∨ content = [0xEF, 0xBB] then some [] else none

/-- The text in front of the first bytes that are not UTF-8. -/
def decodedPrefix (content : List UInt8) : List Char :=
  ((List.range content.length).reverse.findSome? fun n => decodeText (content.take n)).getD []

/-- The lines that end within the text; a carriage return at its end may be the first half of an end
of line. -/
def completeLines (t : List Char) : List (List Char) :=
  if t.getLast? = some '\n' then lines t else (lines t).dropLast

/-- The lines of the file, and whether the decoder raises behind them. -/
def fileLines (py : Python) (content : List UInt8) : List (List Char) × Bool :=
  match decodeText content with
  | some t => (lines t, false)
  | none => ((completeLines (decodedPrefix content)).take (py.linesDecoded content), true)

/-- `d[key] = value`. -/
def setItem (d : List (String × Option String)) (x : String × Option String) :
    List (String × Option String) :=
  d.filter (fun y => decide (y.1 ≠ x.1)) ++ [x]

/-- The assignments of `DictReader.__next__` for one record: the columns in order, with `None` for
those the record is too short for.  The fields behind the last column go under the key `None`, which
no column has. -/
def assignments (fieldnames record : List String) : List (String × Option String) :=
  fieldnames.zip (record.map some ++ List.replicate (fieldnames.length - record.length) none)

/-- The row of `csv.DictReader` for one record; of two columns of one name the last one counts. -/
def dictRow (fieldnames record : List String) : Row :=
  ((assignments fieldnames record).foldl setItem []).filterMap fun x => x.2.map fun v => (x.1, v)

/-- What `csv.DictReader` gives for lines that may be broken off: the field names of the first
record, the rows of the others without the empty ones, and whether the iteration ends with an
exception. There is nothing if already the first record cannot be read. -/
def dictReader (ls : List (List Char)) (broken : Bool) : Option Csv :=
  let x := excel.read broken .reset ls
  if x.1 = [] ∧ x.2 ≠ none then none
  else
    let fieldnames := (x.1.head?.getD []).map String.ofList
    some ⟨fieldnames, (x.1.tail.filter fun r => decide (r ≠ [])).map fun r =>
      dictRow fieldnames (r.map String.ofList), x.2.isSome⟩

/-- What `open` and `csv.DictReader` give for the bytes of a file. -/
def parseCsv (py : Python) (content : List UInt8) : Option Csv :=
  dictReader (fileLines py content).1 (fileLines py content).2

/-! ### Rows -/

theorem lookup_setItem (d : List (String × Option String)) (x : String × Option String)
    (name : String) :
    (setItem d x).lookup name = if name = x.1 then some x.2 else d.lookup name := by
  induction d with
  | nil =>
    rw [setItem, List.filter_nil, List.nil_append, List.lookup_cons, List.lookup_nil]
    by_cases h : name = x.1
    · rw [if_pos h, beq_iff_eq.mpr h]
    · rw [if_neg h, beq_eq_false_iff_ne.mpr h]
  | cons y d ih =>
    have hrest : (setItem (y :: d) x).lookup name =
        if y.1 ≠ x.1 ∧ name = y.1 then some y.2 else (setItem d x).lookup name := by
      by_cases hy : y.1 = x.1
      · rw [setItem, List.filter_cons_of_neg (by simpa using hy), if_neg fun h => h.1 hy, setItem]
      · rw [setItem, List.filter_cons_of_pos (by simpa using hy), List.cons_append, List.lookup_cons]
        by_cases h : name = y.1
        · rw [if_pos ⟨hy, h⟩, beq_iff_eq.mpr h]
        · rw [if_neg fun h' => h h'.2, beq_eq_false_iff_ne.mpr h, setItem]
    rw [hrest, ih, List.lookup_cons]
    by_cases hx : name = x.1
    · rw [if_pos hx, if_pos hx, if_neg]
      exact fun h => h.1 (h.2.symm.trans hx)
    · rw [if_neg hx, if_neg hx]
      by_cases hy : name = y.1
      · rw [if_pos ⟨fun h => hx (hy.trans h), hy⟩, beq_iff_eq.mpr hy]
      · rw [if_neg fun h => hy h.2, beq_eq_false_iff_ne.mpr hy]

theorem nodup_setItem {d : List (String × Option String)} (h : (d.map Prod.fst).Nodup)
    (x : String × Option String) : ((setItem d x).map Prod.fst).Nodup := by
  rw [setItem, List.map_append, List.map_singleton]
  refine List.nodup_append.mpr ⟨h.sublist (List.filter_sublist.map _), List.pairwise_singleton _ _, ?_⟩
  intro k hk k' hk' heq
  obtain ⟨y, hy, rfl⟩ := List.mem_map.mp hk
  rw [List.mem_singleton.mp hk'] at heq
  exact of_decide_eq_true (List.mem_filter.mp hy).2 heq

/-- Assignments to other keys. -/
theorem lookup_foldl_setItem {xs : List (String × Option String)} {name : String}
    (hxs : name ∉ xs.map Prod.fst) (d : List (String × Option String)) :
    (xs.foldl setItem d).lookup name = d.lookup name := by
  induction xs generalizing d with
  | nil => rfl
  | cons x xs ih =>
    rw [List.map_cons, List.mem_cons, not_or] at hxs
    rw [List.foldl_cons, ih hxs.2, lookup_setItem, if_neg hxs.1]

theorem nodup_foldl_setItem (xs : List (String × Option String))
    {d : List (String × Option String)} (h : (d.map Prod.fst).Nodup) :
    ((xs.foldl setItem d).map Prod.fst).Nodup := by
  induction xs generalizing d with
  | nil => exact h
  | cons x xs ih => exact ih (nodup_setItem h x)

/-- A column whose value is `None` is left out. -/
theorem lookup_filterMap {d : List (String × Option String)} (h : (d.map Prod.fst).Nodup)
    (name : String) :
    (d.filterMap fun x => x.2.map fun v => (x.1, v)).lookup name = (d.lookup name).join := by
  induction d with
  | nil => rfl
  | cons x d ih =>
    obtain ⟨k, v⟩ := x
    rw [List.map_cons, List.nodup_cons] at h
    have hnone : name = k → d.lookup name = none := by
      rintro rfl
      rw [List.lookup_eq_none_iff]
      intro y hy
      refine bne_iff_ne.mpr fun heq => h.1 (List.mem_map.mpr ⟨y, hy, heq.symm⟩)
    rw [List.lookup_cons]
    cases v with
    | none =>
      rw [List.filterMap_cons_none rfl, ih h.2]
      by_cases hk : name = k
      · rw [beq_iff_eq.mpr hk, hnone hk]
        rfl
      · rw [beq_eq_false_iff_ne.mpr hk]
    | some v =>
      show ((k, v) :: d.filterMap fun x => x.2.map fun v => (x.1, v)).lookup name = _
      rw [List.lookup_cons, ih h.2]
      by_cases hk : name = k
      · rw [beq_iff_eq.mpr hk]
        rfl
      · rw [beq_eq_false_iff_ne.mpr hk]

theorem getElem?_assignments {fieldnames : List String} {j : ℕ} {name : String}
    (hj : fieldnames[j]? = some name) (record : List String) :
    (assignments fieldnames record)[j]? = some (name, record[j]?) := by
  obtain ⟨hlt, -⟩ := List.getElem?_eq_some_iff.mp hj
  refine List.getElem?_zip_eq_some.mpr ⟨hj, ?_⟩
  by_cases hr : j < record.length
  · rw [List.getElem?_append_left (by rw [List.length_map]; exact hr), List.getElem?_map,
      List.getElem?_eq_getElem hr]
    rfl
  · rw [List.getElem?_append_right (by rw [List.length_map]; omega), List.getElem?_replicate,
      List.length_map, if_pos (by omega), List.getElem?_eq_none (Nat.le_of_not_lt hr)]

theorem map_fst_assignments (fieldnames record : List String) :
    (assignments fieldnames record).map Prod.fst = fieldnames := by
  refine List.map_fst_zip ?_
  rw [List.length_append, List.length_map, List.length_replicate]
  omega

/-- `row.get(name)` is the field below the last column of that name. -/
theorem lookup_dictRow {fieldnames : List String} {j : ℕ} {name : String}
    (hj : fieldnames[j]? = some name) (hlast : name ∉ fieldnames.drop (j + 1))
    (record : List String) : (dictRow fieldnames record).lookup name = record[j]? := by
  have hnodup := nodup_foldl_setItem (assignments fieldnames record) (d := []) List.nodup_nil
  have hat := getElem?_assignments hj record
  obtain ⟨hlt, hget⟩ := List.getElem?_eq_some_iff.mp hat
  have hsplit : assignments fieldnames record = (assignments fieldnames record).take j ++
      (name, record[j]?) :: (assignments fieldnames record).drop (j + 1) := by
    rw [← hget, List.getElem_cons_drop, List.take_append_drop]
  have hrest : name ∉ ((assignments fieldnames record).drop (j + 1)).map Prod.fst := by
    rw [List.map_drop, map_fst_assignments]
    exact hlast
  rw [dictRow, lookup_filterMap hnodup, hsplit, List.foldl_append, List.foldl_cons,
    lookup_foldl_setItem hrest, lookup_setItem, if_pos rfl]
  rfl

/-! ### Layouts -/

theorem decodeText_encodeText {t : List Char} (h : t.head? ≠ some byteOrderMark) :
    decodeText (encodeText t) = some t := by
  have hdecode : (encodeText t).toByteArray.utf8Decode? = some t.toArray :=
    List.utf8Decode?_utf8Encode
  simp only [decodeText, hdecode, if_neg h]

theorem decodeText_byteOrderMark (t : List Char) :
    decodeText (encodeText (byteOrderMark :: t)) = some t := by
  have hdecode : (encodeText (byteOrderMark :: t)).toByteArray.utf8Decode? =
      some (byteOrderMark :: t).toArray := List.utf8Decode?_utf8Encode
  simp only [decodeText, hdecode, List.head?_cons, if_pos, List.tail_cons]

/-- A table as it is written down: the header, the end of its line, and the records. -/
structure TableText where
  header : Fields excel
  ending : Ending
  body : Layout excel
  /-- No field is larger than the limit of the `csv` module. -/
  header_limit : ∀ v ∈ header.values, v.length ≤ excel.fieldLimit
  body_limit : ∀ r ∈ body.records, ∀ v ∈ r, v.length ≤ excel.fieldLimit

namespace TableText

/-- The text of the table. -/
def text (x : TableText) : List Char := x.header.text ++ x.ending.text ++ x.body.text

/-- The names of the columns. -/
def fieldnames (x : TableText) : List String := x.header.values.map String.ofList

/-- The records below the header. -/
def records (x : TableText) : List (List String) := x.body.records.map fun r => r.map String.ofList

/-- The table as the worker reads it. -/
def csv (x : TableText) : Csv := ⟨x.fieldnames, x.records.map (dictRow x.fieldnames), false⟩

end TableText

theorem dictReader_text (x : TableText) : dictReader (lines x.text) false = some x.csv := by
  obtain ⟨y, hy, hblank⟩ :=
    Dialect.readText_fields_ending x.header x.ending x.body.text x.header_limit
  rw [Dialect.dropBlank_readText x.body x.body_limit] at hblank
  have hread : excel.read false .reset (lines x.text) = emit x.header.values y := hy
  have hrows : (y.1.filter fun r => decide (r ≠ [])) = x.body.records := congrArg Prod.fst hblank
  have herror : y.2 = none := congrArg Prod.snd hblank
  unfold dictReader
  dsimp only
  rw [hread, if_neg fun h => absurd h.1 (List.cons_ne_nil _ _)]
  show some (Csv.mk x.fieldnames ((y.1.filter fun r => decide (r ≠ [])).map fun r =>
    dictRow x.fieldnames (r.map String.ofList)) y.2.isSome) = _
  rw [hrows, herror, TableText.csv, TableText.records, List.map_map]
  rfl

/-- A file with the text of a table, with or without a byte order mark. -/
def TableText.IsFile (x : TableText) (content : List UInt8) : Prop :=
  content = encodeText (byteOrderMark :: x.text) ∨
    content = encodeText x.text ∧ x.text.head? ≠ some byteOrderMark

theorem parseCsv_isFile (py : Python) {x : TableText} {content : List UInt8}
    (h : x.IsFile content) : parseCsv py content = some x.csv := by
  have hdecode : decodeText content = some x.text := by
    rcases h with rfl | ⟨rfl, hhead⟩
    · exact decodeText_byteOrderMark x.text
    · exact decodeText_encodeText hhead
  simp only [parseCsv, fileLines, hdecode]
  exact dictReader_text x

/-- However a table is written down, which fields are quoted, how the lines end, with or without
empty lines, a last end of line or a byte order mark, the worker reads the names of its columns and
one row for each record, up to the end of the file, and `row.get` answers with the field below the
last column of the name, or `None` if the record is too short. -/
theorem table_read_back (py : Python) (x : TableText) (content : List UInt8)
    (hfile : x.IsFile content) :
    ∃ csv, parseCsv py content = some csv ∧ csv.raises = false ∧ csv.fieldnames = x.fieldnames ∧
      csv.rows.length = x.records.length ∧
      ∀ (n j : ℕ) (record : List String) (name : String), x.records[n]? = some record →
        x.fieldnames[j]? = some name → name ∉ x.fieldnames.drop (j + 1) →
        ∃ row, csv.rows[n]? = some row ∧ row.lookup name = record[j]? := by
  refine ⟨x.csv, parseCsv_isFile py hfile, rfl, rfl, List.length_map _, ?_⟩
  intro n j record name hrecord hname hlast
  refine ⟨dictRow x.fieldnames record, ?_, lookup_dictRow hname hlast record⟩
  show (x.records.map (dictRow x.fieldnames))[n]? = _
  rw [List.getElem?_map, hrecord]
  rfl

/-- Two columns and two records, with quotes, an empty line and no end of line at the end. -/
def sampleText : TableText where
  header := ⟨⟨some "transaction_id".toList, [], List.forall_mem_nil _, by decide⟩,
    [⟨none, "amount".toList, List.all_iff_forall_prop.mp (by decide), by decide⟩], fun h => by cases h⟩
  ending := .cr
  body :=
    ⟨[(none, .lf), (some ⟨⟨some "T\n\"1\"".toList, [], List.forall_mem_nil _, by decide⟩,
      [⟨none, "10.50".toList, List.all_iff_forall_prop.mp (by decide), by decide⟩],
      fun h => by cases h⟩, .crlf)],
      some ⟨⟨none, "T2".toList, List.all_iff_forall_prop.mp (by decide), by decide⟩, [],
        fun _ => by decide⟩⟩
  header_limit := by decide
  body_limit := by decide

theorem sample_table_read_back :
    ∃ csv, parseCsv .ascii (encodeText (byteOrderMark :: sampleText.text)) = some csv ∧
      csv.rows.length = 2 ∧
      (∃ row, csv.rows[0]? = some row ∧ row.lookup "transaction_id" = some "T\n\"1\"") ∧
      ∃ row, csv.rows[1]? = some row ∧ row.lookup "amount" = none := by
  obtain ⟨csv, hcsv, -, -, hlen, hrows⟩ := table_read_back .ascii sampleText _ (.inl rfl)
  exact ⟨csv, hcsv, hlen, hrows 0 0 _ "transaction_id" rfl rfl (by decide),
    hrows 1 1 _ "amount" rfl rfl (by decide)⟩

/-- The rows in front of a byte that is not UTF-8. -/
example : (parseCsv { Python.ascii with linesDecoded := fun _ => 2 }
    (encodeText "transaction_id\nT1\nT2".toList ++ [0xFF])).map
      (fun csv => (csv.rows, csv.raises)) = some ([[("transaction_id", "T1")]], true) := by
  decide +kernel

/-! ### Tables of `csv.writer` -/

/-- `writer.writerow(record)`. -/
def writerow (record : List String) : List Char := excel.writeRow (record.map String.toList)

/-- A header and records, all with at least one field, that fit the limit of the reader. -/
structure Table where
  header : String × List String
  records : List (String × List String)
  limit : ∀ r ∈ header :: records, ∀ v ∈ r.1 :: r.2, v.length ≤ excel.fieldLimit

namespace Table

/-- The fields of a record. -/
def fields (r : String × List String) : List String := r.1 :: r.2

/-- What `csv.writer` writes, row by row. -/
def text (t : Table) : List Char :=
  writerow (fields t.header) ++ t.records.flatMap fun r => writerow (fields r)

/-- A record as the writer writes it. -/
def written (r : String × List String) : Fields excel :=
  .ofRecord excel r.1.toList (r.2.map String.toList)

theorem values_written (r : String × List String) :
    (written r).values = (fields r).map String.toList :=
  Fields.values_ofRecord _ _

theorem writerow_eq (r : String × List String) :
    writerow (fields r) = (written r).text ++ Ending.crlf.text :=
  Fields.writeRow_eq _ _

theorem length_le_of_written {t : Table} {r : String × List String} (hr : r ∈ t.header :: t.records)
    {v : List Char} (hv : v ∈ (written r).values) : v.length ≤ excel.fieldLimit := by
  rw [values_written] at hv
  obtain ⟨s, hs, rfl⟩ := List.mem_map.mp hv
  exact t.limit r hr s hs

theorem records_lines (rs : List (String × List String)) :
    (Layout.mk (rs.map fun r => (some (written r), Ending.crlf)) none).records =
      rs.map fun r => (fields r).map String.toList := by
  rw [Layout.records, List.filterMap_map]
  refine (List.append_nil _).trans ?_
  induction rs with
  | nil => rfl
  | cons r rs ih =>
    rw [List.map_cons, ← ih, ← values_written]
    rfl

/-- The layout the writer chooses. -/
def tableText (t : Table) : TableText where
  header := written t.header
  ending := .crlf
  body := ⟨t.records.map fun r => (some (written r), .crlf), none⟩
  header_limit _ hv := length_le_of_written List.mem_cons_self hv
  body_limit r hr v hv := by
    rw [records_lines] at hr
    obtain ⟨r', hr', rfl⟩ := List.mem_map.mp hr
    rw [← values_written] at hv
    exact length_le_of_written (List.mem_cons_of_mem _ hr') hv

theorem text_tableText (t : Table) : t.tableText.text = t.text := by
  have hbody : t.tableText.body.text = t.records.flatMap fun r => writerow (fields r) := by
    show (t.records.map fun r => (some (written r), Ending.crlf)).flatMap Layout.lineText ++ [] = _
    rw [List.append_nil, List.flatMap_map]
    exact List.flatMap_congr fun r _ => (writerow_eq r).symm
  rw [TableText.text, hbody, text, writerow_eq]
  rfl

theorem map_ofList_toList (l : List String) : (l.map String.toList).map String.ofList = l := by
  rw [List.map_map]
  exact (List.map_congr_left fun s _ => String.ofList_toList).trans (List.map_id _)

theorem fieldnames_tableText (t : Table) : t.tableText.fieldnames = fields t.header := by
  show ((written t.header).values).map String.ofList = _
  rw [values_written, map_ofList_toList]

theorem records_tableText (t : Table) : t.tableText.records = t.records.map fields := by
  show ((Layout.mk (t.records.map fun r => (some (written r), Ending.crlf)) none).records).map
    (fun r => r.map String.ofList) = _
  rw [records_lines, List.map_map]
  exact List.map_congr_left fun r _ => map_ofList_toList (fields r)

end Table

end TransactionPlatform
