import Mathlib
import SuperNova.Data.Plans
import SuperNova.Os.ZipNames

/-!
# Tables as comma separated text

`parse_csv_records` reads a table character after character, with the row and the field that are not finished and
whether a quote is open.  `dataset_to_csv` writes one.

* `Rendering`: a text that RFC 4180 allows for a table;
* `parseCsvRecords_rendering` (**main**): a rendering is read back unless it ends with a row of one empty field and
  without a line end;
* `parseCsvRecords_datasetToCsv`: what `dataset_to_csv` writes is read back.
-/

set_option linter.unusedSectionVars false

namespace Data

open FileTree Text

/-! ## the parser -/

/-- the local variables of the loop -/
structure CsvState where
  rows : List (List String)
  row : List String
  field : List Char
  inQuotes : Bool

namespace CsvState

def start : CsvState := ⟨[], [], [], false⟩

def push (s : CsvState) (ch : Char) : CsvState := { s with field := s.field ++ [ch] }

def endField (s : CsvState) : CsvState := { s with row := s.row ++ [String.ofList s.field], field := [] }

def endRow (s : CsvState) : CsvState := { s.endField with rows := s.rows ++ [s.endField.row], row := [] }

/-- a character that is not the first of two quotes inside quotes -/
def step (s : CsvState) (ch : Char) : CsvState :=
  if ch = '"' then { s with inQuotes := !s.inQuotes }
  else if s.inQuotes then s.push ch
  else if ch = ',' then s.endField
  else if ch = '\n' then s.endRow
  else if ch = '\r' then s
  else s.push ch

def loop : List Char → CsvState → CsvState
  | [], s => s
  | [ch], s => s.step ch
  | ch :: next :: rest, s =>
    if ch = '"' ∧ s.inQuotes ∧ next = '"' then loop rest (s.push '"') else loop (next :: rest) (s.step ch)

end CsvState

/-- `parse_csv_records` -/
def parseCsvRecords (text : String) : Except Fault (List (List String)) :=
  let s := CsvState.loop text.toList .start
  if s.inQuotes then .error (.invalidData "unterminated quoted CSV field")
  else if s.field ≠ [] ∨ s.row ≠ [] then .ok (s.rows ++ [s.row ++ [String.ofList s.field]])
  else .ok s.rows

/-! ## renderings -/

/-- a field of a rendering: what it means, and whether it stands in quotes -/
structure CsvField where
  text : String
  quoted : Bool
  bare : quoted = false → ∀ c ∈ text.toList, c ∉ [',', '"', '\n', '\r']

/-- quotes are doubled -/
def escaped (text : List Char) : List Char := text.flatMap fun c => if c = '"' then ['"', '"'] else [c]

def CsvField.chars (field : CsvField) : List Char :=
  if field.quoted then '"' :: (escaped field.text.toList ++ ['"']) else field.text.toList

/-- a row of a rendering, and which line end comes after it -/
structure CsvRow where
  fields : List CsvField
  nonempty : fields ≠ []
  crlf : Bool

def fieldsChars (fields : List CsvField) : List Char := [','].intercalate (fields.map CsvField.chars)

def CsvRow.lineEnd (row : CsvRow) : List Char := if row.crlf then ['\r', '\n'] else ['\n']

def CsvRow.texts (row : CsvRow) : List String := row.fields.map CsvField.text

/-- a text that RFC 4180 allows: rows, and whether the last one has a line end -/
structure Rendering where
  rows : List CsvRow
  finalEnd : Bool

def rowsChars (finalEnd : Bool) : List CsvRow → List Char
  | [] => []
  | [row] => fieldsChars row.fields ++ if finalEnd then row.lineEnd else []
  | row :: next :: rest => fieldsChars row.fields ++ (row.lineEnd ++ rowsChars finalEnd (next :: rest))

namespace Rendering

def text (r : Rendering) : String := String.ofList (rowsChars r.finalEnd r.rows)

/-- the table that the text is a rendering of -/
def table (r : Rendering) : List (List String) := r.rows.map CsvRow.texts

/-- the last row is one empty field, and no line end comes after it -/
def EndsEmpty (r : Rendering) : Prop := r.finalEnd = false ∧ r.table.getLast? = some [""]

instance (r : Rendering) : Decidable r.EndsEmpty := inferInstanceAs (Decidable (_ ∧ _))

end Rendering

/-! ## steps of the parser -/

section
variable {rows : List (List String)} {row : List String} {field rest : List Char} {s : CsvState} {ch : Char}

open CsvState

theorem loop_cons (h : ¬ (ch = '"' ∧ s.inQuotes = true ∧ rest.head? = some '"')) :
    loop (ch :: rest) s = loop rest (s.step ch) := by
  cases rest with
  | nil => rfl
  | cons next rest =>
    rw [loop, if_neg]
    rintro ⟨hch, hquotes, rfl⟩
    exact h ⟨hch, hquotes, rfl⟩

theorem loop_escaped (hrest : rest.head? ≠ some '"') (text : List Char) :
    loop (escaped text ++ '"' :: rest) ⟨rows, row, field, true⟩ = loop rest ⟨rows, row, field ++ text, false⟩ := by
  induction text generalizing field with
  | nil =>
    rw [List.append_nil]
    exact loop_cons fun h => hrest h.2.2
  | cons c text ih =>
    by_cases hc : c = '"'
    · have hescaped : escaped (c :: text) = '"' :: '"' :: escaped text := by
        rw [escaped, List.flatMap_cons, if_pos hc]
        rfl
      rw [hescaped, List.cons_append, List.cons_append, loop, if_pos ⟨rfl, rfl, rfl⟩]
      show loop _ ⟨rows, row, field ++ ['"'], true⟩ = _
      rw [ih, List.append_assoc, List.singleton_append, hc]
    · have hescaped : escaped (c :: text) = c :: escaped text := by
        rw [escaped, List.flatMap_cons, if_neg hc]
        rfl
      have hstep : step ⟨rows, row, field, true⟩ c = ⟨rows, row, field ++ [c], true⟩ := by
        rw [step, if_neg hc]
        rfl
      rw [hescaped, List.cons_append, loop_cons fun h => hc h.1, hstep, ih, List.append_assoc, List.singleton_append]

theorem loop_bare {text : List Char} (htext : ∀ c ∈ text, c ∉ [',', '"', '\n', '\r']) :
    loop (text ++ rest) ⟨rows, row, field, false⟩ = loop rest ⟨rows, row, field ++ text, false⟩ := by
  induction text generalizing field with
  | nil => rw [List.nil_append, List.append_nil]
  | cons c text ih =>
    have hc := htext c List.mem_cons_self
    simp only [List.mem_cons, List.not_mem_nil, or_false, not_or] at hc
    obtain ⟨hcomma, hquote, hnewline, hreturn⟩ := hc
    have hstep : step ⟨rows, row, field, false⟩ c = ⟨rows, row, field ++ [c], false⟩ := by
      rw [step, if_neg hquote, if_neg Bool.false_ne_true, if_neg hcomma, if_neg hnewline, if_neg hreturn]
      rfl
    rw [List.cons_append, loop_cons fun h => hquote h.1, hstep, ih fun d hd => htext d (List.mem_cons_of_mem c hd),
      List.append_assoc, List.singleton_append]

theorem loop_field (hrest : rest.head? ≠ some '"') (f : CsvField) :
    loop (f.chars ++ rest) ⟨rows, row, [], false⟩ = loop rest ⟨rows, row, f.text.toList, false⟩ := by
  unfold CsvField.chars
  cases hquoted : f.quoted with
  | true =>
    rw [if_pos rfl, List.cons_append, List.append_assoc, List.singleton_append,
      loop_cons fun h => Bool.false_ne_true h.2.1]
    exact loop_escaped hrest f.text.toList
  | false => exact loop_bare (f.bare hquoted)

theorem loop_fields (hrest : rest.head? ≠ some '"') (f : CsvField) (fields : List CsvField) :
    ∃ front last, (f :: fields).map CsvField.text = front ++ [last] ∧
      loop (fieldsChars (f :: fields) ++ rest) ⟨rows, row, [], false⟩ =
        loop rest ⟨rows, row ++ front, last.toList, false⟩ := by
  induction fields generalizing f row with
  | nil =>
    refine ⟨[], f.text, rfl, ?_⟩
    rw [List.append_nil, fieldsChars, List.map_singleton, List.intercalate_singleton]
    exact loop_field hrest f
  | cons f' fields ih =>
    obtain ⟨front, last, htexts, hloop⟩ := @ih (row ++ [f.text]) f'
    refine ⟨f.text :: front, last, by rw [List.map_cons, htexts, List.cons_append], ?_⟩
    have hchars : fieldsChars (f :: f' :: fields) ++ rest = f.chars ++ ',' :: (fieldsChars (f' :: fields) ++ rest) := by
      unfold fieldsChars
      rw [List.map_cons, List.intercalate_cons_of_ne_nil (by simp), List.append_assoc, List.append_assoc,
        List.singleton_append]
    have hstep : step ⟨rows, row, f.text.toList, false⟩ ',' = ⟨rows, row ++ [f.text], [], false⟩ := by
      show (⟨rows, row ++ [String.ofList f.text.toList], [], false⟩ : CsvState) = _
      rw [String.ofList_toList]
    rw [hchars, loop_field (by simp) f, loop_cons fun h => absurd h.1 (by decide), hstep, hloop, List.append_assoc,
      List.singleton_append]

theorem loop_row (r : CsvRow) (rest : List Char) :
    loop (fieldsChars r.fields ++ (r.lineEnd ++ rest)) ⟨rows, [], [], false⟩ =
      loop rest ⟨rows ++ [r.texts], [], [], false⟩ := by
  have hhead : (r.lineEnd ++ rest).head? ≠ some '"' := by
    unfold CsvRow.lineEnd
    cases r.crlf <;> simp
  obtain ⟨f, fields, hfields⟩ := List.exists_cons_of_ne_nil r.nonempty
  obtain ⟨front, last, htexts, hloop⟩ := @loop_fields rows [] _ hhead f fields
  have hend : endRow ⟨rows, front, last.toList, false⟩ = ⟨rows ++ [r.texts], [], [], false⟩ := by
    show (⟨rows ++ [front ++ [String.ofList last.toList]], [], [], false⟩ : CsvState) = _
    rw [String.ofList_toList, CsvRow.texts, hfields, htexts]
  rw [hfields, hloop, List.nil_append]
  unfold CsvRow.lineEnd
  cases r.crlf with
  | true =>
    rw [if_pos rfl, List.cons_append, loop_cons fun h => absurd h.1 (by decide), List.cons_append,
      loop_cons fun h => absurd h.1 (by decide)]
    show loop rest (endRow ⟨rows, front, last.toList, false⟩) = _
    rw [hend]
  | false =>
    rw [if_neg Bool.false_ne_true, List.cons_append, loop_cons fun h => absurd h.1 (by decide)]
    show loop rest (endRow ⟨rows, front, last.toList, false⟩) = _
    rw [hend]

theorem loop_ended (rs : List CsvRow) :
    loop (rowsChars true rs) ⟨rows, [], [], false⟩ = ⟨rows ++ rs.map CsvRow.texts, [], [], false⟩ := by
  induction rs generalizing rows with
  | nil => rw [List.map_nil, List.append_nil]; rfl
  | cons r rs ih =>
    have hchars : rowsChars true (r :: rs) = fieldsChars r.fields ++ (r.lineEnd ++ rowsChars true rs) := by
      cases rs with
      | nil => rw [rowsChars, rowsChars, List.append_nil]; rfl
      | cons r' rs => rfl
    rw [hchars, loop_row, ih, List.append_assoc, List.map_cons, List.singleton_append]

theorem loop_open (rs : List CsvRow) (last : CsvRow) : ∃ front text, last.texts = front ++ [text] ∧
    loop (rowsChars false (rs ++ [last])) ⟨rows, [], [], false⟩ =
      ⟨rows ++ rs.map CsvRow.texts, front, text.toList, false⟩ := by
  induction rs generalizing rows with
  | nil =>
    obtain ⟨f, fields, hfields⟩ := List.exists_cons_of_ne_nil last.nonempty
    obtain ⟨front, text, htexts, hloop⟩ :=
      @loop_fields rows [] [] (fun h => nomatch h) f fields
    refine ⟨front, text, by rw [CsvRow.texts, hfields, htexts], ?_⟩
    rw [List.nil_append, rowsChars, if_neg Bool.false_ne_true, hfields, hloop, List.nil_append, List.map_nil,
      List.append_nil]
    rfl
  | cons r rs ih =>
    obtain ⟨front, text, htexts, hloop⟩ := @ih (rows ++ [r.texts])
    refine ⟨front, text, htexts, ?_⟩
    have hchars : rowsChars false (r :: rs ++ [last]) =
        fieldsChars r.fields ++ (r.lineEnd ++ rowsChars false (rs ++ [last])) := by
      cases rs <;> rfl
    rw [hchars, loop_row, hloop, List.append_assoc, List.map_cons, List.singleton_append]

end

/-! ## round trip -/

/-- **a rendering is read back unless it ends with one empty field and no line end** -/
theorem parseCsvRecords_rendering (r : Rendering) :
    parseCsvRecords r.text = .ok r.table ↔ ¬ r.EndsEmpty := by
  obtain ⟨rs, finalEnd⟩ := r
  unfold parseCsvRecords Rendering.EndsEmpty Rendering.table Rendering.text
  rw [String.toList_ofList, CsvState.start]
  cases finalEnd with
  | true =>
    rw [loop_ended, List.nil_append]
    exact iff_of_true rfl fun h => Bool.noConfusion h.1
  | false =>
    rcases List.eq_nil_or_concat rs with rfl | ⟨rs, last, rfl⟩
    · exact iff_of_true rfl fun h => nomatch h.2
    · rw [List.concat_eq_append]
      obtain ⟨front, text, htexts, hloop⟩ := @loop_open [] rs last
      rw [hloop, List.nil_append, List.map_append, List.map_singleton, htexts, List.getLast?_concat]
      dsimp only
      rw [if_neg Bool.false_ne_true, String.ofList_toList]
      by_cases hempty : text = "" ∧ front = []
      · obtain ⟨rfl, rfl⟩ := hempty
        rw [if_neg (by simp)]
        refine iff_of_false (fun h => ?_) (not_not.mpr ⟨rfl, rfl⟩)
        exact absurd (Except.ok.inj h) (by simp)
      · have hopen : text.toList ≠ [] ∨ front ≠ [] := by
          rcases not_and_or.mp hempty with h | h
          · exact .inl fun hnil => h (String.toList_inj.mp hnil)
          · exact .inr h
        rw [if_pos hopen]
        refine iff_of_true rfl fun h => hempty ?_
        have hlast := Option.some.inj h.2
        cases front with
        | nil => exact ⟨List.singleton_inj.mp hlast, rfl⟩
        | cons first front => simp at hlast

/-- one empty field in quotes -/
def quotedEmpty : Rendering where
  rows := [⟨[⟨"", true, fun h => nomatch h⟩], List.cons_ne_nil _ _, false⟩]
  finalEnd := false

theorem quoted_empty_lost : quotedEmpty.text = "\"\"" ∧ quotedEmpty.table = [[""]] ∧
    parseCsvRecords quotedEmpty.text ≠ .ok quotedEmpty.table := by
  refine ⟨by decide, rfl, fun h => ?_⟩
  exact (parseCsvRecords_rendering quotedEmpty).mp h ⟨rfl, rfl⟩

/-! ## datasets -/

structure DataSet where
  datasetId : String
  schema : List String
  rowCount : Nat
  sourceSetRef : Option String
  derivationType : String
  records : List Json
  coverageReport : Json

mutual
def valueToCell (render : Json → String) : Json → String
  | .null => ""
  | .str value => value
  | .num value => toString value
  | .real text => text
  | .bool value => if value then "true" else "false"
  | .arr items => join "; " (itemCells render items)
  | .obj fields => render (.obj fields)

def itemCells (render : Json → String) : List Json → List String
  | [] => []
  | item :: items => valueToCell render item :: itemCells render items
end

/-- the field of a rendering that `csv_escape` makes -/
def csvField (value : String) : CsvField :=
  if h : ∃ c ∈ value.toList, c ∈ [',', '"', '\n', '\r'] then ⟨value, true, fun hq => nomatch hq⟩
  else ⟨value, false, fun _ c hc hmem => h ⟨c, hc, hmem⟩⟩

def csvEscape (value : String) : String :=
  if [",", "\"", "\n", "\r"].any (contains value) then
    "\"" ++ String.ofList (escaped value.toList) ++ "\""
  else value

def DataSet.headers (dataset : DataSet) : List String := if dataset.schema = [] then ["value"] else dataset.schema

/-- the cells of a record, under the headers -/
def DataSet.cells (render : Json → String) (dataset : DataSet) (record : Json) : List String :=
  dataset.headers.map fun key => ((record.get? key).map (valueToCell render)).getD ""

/-- `dataset_to_csv`; `render` is `serde_json::to_string` -/
def datasetToCsv (render : Json → String) (dataset : DataSet) : String :=
  let row (cells : List String) := join "," (cells.map csvEscape) ++ "\n"
  dataset.records.foldl (fun out record => out ++ row (dataset.cells render record)) (row dataset.headers)

section
variable {render : Json → String} {dataset : DataSet}

theorem DataSet.headers_ne_nil (dataset : DataSet) : dataset.headers ≠ [] := by
  unfold headers
  split
  · exact List.cons_ne_nil _ _
  · next h => exact h

theorem DataSet.cells_ne_nil (record : Json) : dataset.cells render record ≠ [] := fun h =>
  dataset.headers_ne_nil (List.map_eq_nil_iff.mp h)

/-- the row that `dataset_to_csv` writes for some cells -/
def csvRow (cells : List String) (h : cells ≠ []) : CsvRow where
  fields := cells.map csvField
  nonempty := fun hnil => h (List.map_eq_nil_iff.mp hnil)
  crlf := false

theorem text_csvField (value : String) : (csvField value).text = value := by
  unfold csvField
  split <;> rfl

theorem texts_csvRow {cells : List String} (h : cells ≠ []) : (csvRow cells h).texts = cells := by
  unfold CsvRow.texts csvRow
  rw [List.map_map]
  exact (List.map_congr_left fun value _ => text_csvField value).trans (List.map_id cells)

theorem contains_singleton {c : Char} {value : String} :
    contains value (String.ofList [c]) = true ↔ c ∈ value.toList := by
  rw [contains, decide_eq_true_eq, String.toList_ofList, List.singleton_infix_iff]

theorem toList_csvEscape (value : String) : (csvEscape value).toList = (csvField value).chars := by
  have hspecial : [",", "\"", "\n", "\r"].any (contains value) = true ↔
      ∃ c ∈ value.toList, c ∈ [',', '"', '\n', '\r'] := by
    have hany : [",", "\"", "\n", "\r"].any (contains value) = true ↔
        ∃ c ∈ [',', '"', '\n', '\r'], contains value (String.ofList [c]) = true := by
      have hlist : [",", "\"", "\n", "\r"] = [',', '"', '\n', '\r'].map fun c => String.ofList [c] := rfl
      rw [hlist, List.any_map, List.any_eq_true]
      rfl
    rw [hany]
    simp only [contains_singleton]
    exact exists_congr fun c => and_comm
  unfold csvEscape csvField
  by_cases h : ∃ c ∈ value.toList, c ∈ [',', '"', '\n', '\r']
  · rw [if_pos (hspecial.mpr h), dif_pos h]
    simp [CsvField.chars]
  · rw [if_neg (mt hspecial.mp h), dif_neg h]
    rfl

theorem toList_join_csvEscape (cells : List String) (h : cells ≠ []) :
    (join "," (cells.map csvEscape)).toList = fieldsChars (csvRow cells h).fields := by
  rw [Os.toList_join, List.map_map, fieldsChars, csvRow, List.map_map]
  refine congrArg _ (List.map_congr_left fun value _ => ?_)
  rw [Function.comp_apply, Function.comp_apply, toList_csvEscape]

/-- the rendering that `dataset_to_csv` writes -/
def csvRendering (render : Json → String) (dataset : DataSet) : Rendering where
  rows := csvRow dataset.headers dataset.headers_ne_nil ::
    dataset.records.map fun record => csvRow (dataset.cells render record) (dataset.cells_ne_nil record)
  finalEnd := true

theorem datasetToCsv_eq (render : Json → String) (dataset : DataSet) :
    datasetToCsv render dataset = (csvRendering render dataset).text := by
  have hended (cells : List String) (h : cells ≠ []) (rest : List CsvRow) : rowsChars true (csvRow cells h :: rest) =
      (join "," (cells.map csvEscape) ++ "\n").toList ++ rowsChars true rest := by
    rw [String.toList_append, toList_join_csvEscape cells h, List.append_assoc]
    cases rest with
    | nil => rw [rowsChars, rowsChars, List.append_nil]; rfl
    | cons next rest => rfl
  apply String.toList_injective
  rw [Rendering.text, String.toList_ofList, csvRendering, hended]
  unfold datasetToCsv
  dsimp only
  generalize join "," (dataset.headers.map csvEscape) ++ "\n" = out
  induction dataset.records generalizing out with
  | nil =>
    rw [List.foldl_nil, List.map_nil, rowsChars, List.append_nil]
  | cons record records ih =>
    rw [List.foldl_cons, ih, List.map_cons, hended, String.toList_append, List.append_assoc]

/-- **what `dataset_to_csv` writes is read back**: its headers, and the cells of its records -/
theorem parseCsvRecords_datasetToCsv (render : Json → String) (dataset : DataSet) :
    parseCsvRecords (datasetToCsv render dataset) =
      .ok (dataset.headers :: dataset.records.map (dataset.cells render)) := by
  have hends : ¬ (csvRendering render dataset).EndsEmpty := fun h => nomatch h.1
  have htable : (csvRendering render dataset).table =
      dataset.headers :: dataset.records.map (dataset.cells render) := by
    unfold Rendering.table csvRendering
    rw [List.map_cons, texts_csvRow, List.map_map]
    exact congrArg _ (List.map_congr_left fun record _ => texts_csvRow _)
  rw [datasetToCsv_eq, (parseCsvRecords_rendering _).mpr hends, htable]

end

/-- **a rendering of a table is read back but for one kind, and what `dataset_to_csv` writes always** -/
theorem csv_round_trip (r : Rendering) : (parseCsvRecords r.text = .ok r.table ↔ ¬ r.EndsEmpty) ∧
    ∀ (render : Json → String) (dataset : DataSet), parseCsvRecords (datasetToCsv render dataset) =
      .ok (dataset.headers :: dataset.records.map (dataset.cells render)) :=
  ⟨parseCsvRecords_rendering r, parseCsvRecords_datasetToCsv⟩

end Data
