import SuperNova.Data.Csv
import SuperNova.Data.Runtime

/-!
# Datasets from comma separated text

`read_csv_dataset` makes a record of each data row, under column names that come from the header.

* `csvDataset`: the dataset of a text, and `readCsvDataset`, which stores it;
* `Faithful`: what such a dataset should hold;
* `csvDataset_faithful_iff` (**main**): it does so exactly when the text has an even number of quotes, no two header
  cells give one name, no row is longer than the first one, and there are not as many rows as asked for.
-/

set_option linter.unusedSectionVars false

namespace Data

open Io FileTree Workspace Os Text

/-! ## the dataset of a text -/

/-- the name of the column with this index -/
def generatedColumn (index : Nat) : String := "column_" ++ toString (index + 1)

/-- the columns, after the first row -/
def csvSchema (hasHeader : Bool) (first : List String) : List String :=
  if hasHeader ∧ first ≠ [] then
    first.mapIdx fun index value => if trim value = "" then generatedColumn index else trim value
  else (List.range first.length).map generatedColumn

/-- the rows that hold data -/
def csvDataRows (hasHeader : Bool) (rows : List (List String)) : List (List String) :=
  if hasHeader ∨ rows.head?.getD [] = [] then rows.tail else rows

/-- `Map::insert`; the keys are in order -/
def insertField (key : String) (value : Json) : List (String × Json) → List (String × Json)
  | [] => [(key, value)]
  | (k, v) :: rest =>
    if key = k then (key, value) :: rest
    else if key < k then (key, value) :: (k, v) :: rest
    else (k, v) :: insertField key value rest

/-- the fields of a row from some column on -/
def rowFields (row : List String) : Nat → List String → List (String × Json) → List (String × Json)
  | _, [], fields => fields
  | index, column :: schema, fields =>
    rowFields row (index + 1) schema (insertField column (.str (row[index]?.getD "")) fields)

def csvRecord (schema row : List String) : Json := .obj (rowFields row 0 schema [])

/-- the keys of an object into the ordered set of keys -/
def insertKey (key : String) : List String → List String
  | [] => [key]
  | k :: rest => if key = k then k :: rest else if key < k then key :: k :: rest else k :: insertKey key rest

def objectKeys : Json → List String
  | .obj fields => fields.map (·.1)
  | _ => []

def schemaFromRecords (records : List Json) : List String :=
  (records.flatMap objectKeys).foldl (fun keys key => insertKey key keys) []

/-- the dataset of `write_dataset` -/
def newDataset (name : String) (sourceSetRef : Option String) (derivationType : String) (records : List Json)
    (coverageReport : Json) (now : Nat) : DataSet where
  datasetId := "dataset_" ++ safeBlobName name ++ "_" ++ toString now
  schema := schemaFromRecords records
  rowCount := records.length
  sourceSetRef
  derivationType
  records
  coverageReport

/-- the dataset that `read_csv_dataset` makes of the rows -/
def rowsDataset (inputPath : String) (hasHeader : Bool) (maxRows : Nat) (rows : List (List String)) (now : Nat) :
    DataSet :=
  let schema := csvSchema hasHeader (rows.head?.getD [])
  let limited := (csvDataRows hasHeader rows).take (max maxRows 1)
  let records := limited.map (csvRecord schema)
  newDataset "csv_read" none "csv" records
    (.obj [("source_path", .str (normalizePath inputPath)), ("has_header", .bool hasHeader), ("max_rows", .num maxRows),
      ("truncated", .bool (decide (max maxRows 1 ≤ records.length)))]) now

/-- and of the text of a file -/
def csvDataset (inputPath : String) (hasHeader : Bool) (maxRows : Nat) (text : String) (now : Nat) :
    Except Fault DataSet := do
  let rows ← parseCsvRecords text
  pure (rowsDataset inputPath hasHeader maxRows rows now)

/-! ## the call -/

def DataSet.toJson (d : DataSet) : Json :=
  .obj [("dataset_id", .str d.datasetId), ("schema", .arr (d.schema.map .str)), ("row_count", .num d.rowCount),
    ("source_set_ref", .ofText? d.sourceSetRef), ("derivation_type", .str d.derivationType),
      ("records", .arr d.records),
    ("coverage_report", d.coverageReport)]

def datasetBlobName (dataset : DataSet) : String := "datasets/" ++ safeBlobName dataset.datasetId ++ ".json"

/-- `fs::read_to_string` -/
def readToString (path : Path) : KernelM String := do
  let bytes ← onDisk (FileTree.read path)
  match String.fromUTF8? ⟨bytes.toArray⟩ with
  | some text => pure text
  | none => throw (.invalidData "stream did not contain valid UTF-8")

def readCsvDataset (rt : Runtime) (inputPath : String) (hasHeader : Bool) (maxRows : Nat) : KernelM Receipt :=
  withCapability rt "data.csv.read_dataset" do
    let path ← resolvePath rt inputPath
    let text ← readToString path
    let k ← get
    match csvDataset inputPath hasHeader maxRows text k.clock with
    | .error e => throw e
    | .ok dataset =>
      let datasetRef ← writeBlob rt (datasetBlobName dataset) dataset.toJson
      let receipt : Receipt := ⟨"data.csv.read_dataset", rt.jobId, rt.pid, "success",
        .obj [("input_path", .str (normalizePath inputPath)), ("dataset_ref", .str datasetRef),
          ("dataset_id", .str dataset.datasetId), ("schema", .arr (dataset.schema.map .str)),
          ("row_count", .num dataset.rowCount), ("derivation_type", .str "raw_table"),
          ("no_workspace_mutation", .bool true)]⟩
      emitReceipt rt receipt
      pure receipt

/-! ## what a dataset should hold -/

/-- every cell of the row stands in the record under the key of its column -/
def Holds (keys row : List String) (record : Json) : Prop :=
  ∀ (j : Nat) (cell : String), row[j]? = some cell → ∃ key, keys[j]? = some key ∧ record.get? key = some (.str cell)

/-- one record for each of the first rows, with all its cells, each under a key of its own, and a true flag -/
structure Faithful (hasHeader : Bool) (maxRows : Nat) (rows : List (List String)) (dataset : DataSet) : Prop where
  keys : (csvSchema hasHeader (rows.head?.getD [])).Nodup
  records : List.Forall₂ (Holds (csvSchema hasHeader (rows.head?.getD [])))
    ((csvDataRows hasHeader rows).take (max maxRows 1)) dataset.records
  truncated : (dataset.coverageReport.get? "truncated").bind Json.asBool? =
    some (decide (max maxRows 1 < (csvDataRows hasHeader rows).length))

/-- no two cells of a header give one name: two that are not blank differ, and none looks like the name that stands
for a blank one -/
def DistinctHeader (cells : List String) : Prop :=
  ∀ (i j : Nat) (a b : String), cells[i]? = some a → cells[j]? = some b → i ≠ j →
    (¬ blank a → ¬ blank b → trim a ≠ trim b) ∧ (blank a → trim b ≠ generatedColumn i)

/-- the rows of a text -/
def csvRows (text : String) : List (List String) := (parseCsvRecords text).toOption.getD []

/-- what a text and the arguments have to be like -/
structure Suits (hasHeader : Bool) (maxRows : Nat) (rows : List (List String)) : Prop where
  header : hasHeader = true → DistinctHeader (rows.head?.getD [])
  widths : ∀ row ∈ (csvDataRows hasHeader rows).take (max maxRows 1), row.length ≤ (rows.head?.getD []).length
  count : (csvDataRows hasHeader rows).length ≠ max maxRows 1

/-! ## quotes -/

theorem inQuotes_step (s : CsvState) (ch : Char) :
    (s.step ch).inQuotes = if ch = '"' then !s.inQuotes else s.inQuotes := by
  unfold CsvState.step
  split
  · rfl
  · split
    · rfl
    · split
      · rfl
      · split
        · rfl
        · split <;> rfl

theorem inQuotes_loop (text : List Char) (s : CsvState) :
    (CsvState.loop text s).inQuotes = true ↔ (s.inQuotes.toNat + text.count '"') % 2 = 1 := by
  induction text, s using CsvState.loop.induct with
  | case1 s => cases hs : s.inQuotes <;> simp [CsvState.loop, hs]
  | case2 ch s =>
    rw [CsvState.loop, inQuotes_step, List.count_singleton]
    by_cases hch : ch = '"'
    · cases hs : s.inQuotes <;> simp [hch]
    · cases hs : s.inQuotes <;> simp [hch]
  | case3 ch next rest s h ih =>
    obtain ⟨rfl, hs, rfl⟩ := h
    rw [CsvState.loop, if_pos ⟨rfl, hs, rfl⟩, ih, List.count_cons_self, List.count_cons_self]
    show (s.inQuotes.toNat + _) % 2 = 1 ↔ _
    omega
  | case4 ch next rest s h ih =>
    rw [CsvState.loop, if_neg h, ih, inQuotes_step, List.count_cons (b := ch)]
    by_cases hch : ch = '"'
    · cases hs : s.inQuotes <;> simp [hch] <;> omega
    · simp [hch]

theorem parseCsvRecords_ok_iff (text : String) :
    parseCsvRecords text = .ok (csvRows text) ↔ text.toList.count '"' % 2 = 0 := by
  have hquotes := inQuotes_loop text.toList .start
  have hstart : CsvState.start.inQuotes.toNat = 0 := rfl
  rw [hstart, Nat.zero_add] at hquotes
  unfold csvRows parseCsvRecords
  dsimp only
  by_cases h : (CsvState.loop text.toList .start).inQuotes = true
  · rw [if_pos h]
    exact iff_of_false (fun hok => nomatch hok) (by have := hquotes.mp h; omega)
  · rw [if_neg h]
    refine iff_of_true ?_ (by have := mt hquotes.mpr h; omega)
    split <;> rfl

/-! ## fields of a record -/

section
variable {key key' k : String} {value v : Json} {fields : List (String × Json)} {row schema : List String}

theorem get?_cons : (Json.obj ((k, v) :: fields)).get? key =
    if k = key then some v else (Json.obj fields).get? key := by
  show Option.map _ (List.find? _ _) = if k = key then some v else Option.map _ (List.find? _ _)
  rw [List.find?_cons]
  by_cases h : k = key
  · rw [if_pos h, beq_iff_eq.mpr h]
    rfl
  · rw [if_neg h, beq_eq_false_iff_ne.mpr h]

theorem get?_insertField (key' : String) : (Json.obj (insertField key value fields)).get? key' =
    if key = key' then some value else (Json.obj fields).get? key' := by
  induction fields with
  | nil => rw [insertField, get?_cons]
  | cons field rest ih =>
    obtain ⟨k, v⟩ := field
    rw [insertField]
    split
    · next hkey =>
      rw [get?_cons, get?_cons, hkey]
      split <;> rfl
    · split
      · rw [get?_cons]
      · next hne _ =>
        rw [get?_cons, get?_cons, ih]
        by_cases hk : k = key'
        · rw [if_pos hk, if_neg fun h => hne (h.trans hk.symm), if_pos hk]
        · rw [if_neg hk, if_neg hk]

theorem get?_rowFields_other (index : Nat) (hkey : key ∉ schema) :
    (Json.obj (rowFields row index schema fields)).get? key = (Json.obj fields).get? key := by
  induction schema generalizing index fields with
  | nil => rfl
  | cons column schema ih =>
    rw [rowFields, ih _ fun h => hkey (List.mem_cons_of_mem column h),
      get?_insertField, if_neg fun h : column = key => hkey (h ▸ List.mem_cons_self)]

theorem get?_rowFields (index : Nat) (hschema : schema.Nodup) {j : Nat} (hj : schema[j]? = some key) :
    (Json.obj (rowFields row index schema fields)).get? key = some (.str (row[index + j]?.getD "")) := by
  induction schema generalizing index fields j with
  | nil => simp at hj
  | cons column schema ih =>
    rw [List.nodup_cons] at hschema
    rw [rowFields]
    cases j with
    | zero =>
      obtain rfl : column = key := by simpa using hj
      rw [get?_rowFields_other _ hschema.1, get?_insertField, if_pos rfl, Nat.add_zero]
    | succ j =>
      rw [List.getElem?_cons_succ] at hj
      rw [ih (index + 1) hschema.2 hj, Nat.add_assoc, Nat.add_comm 1 j]

end

/-! ## columns -/

theorem generatedColumn_inj {i j : Nat} (h : generatedColumn i = generatedColumn j) : i = j :=
  Nat.succ_injective (toString_inj (append_left_inj h))

theorem generatedColumn_ne_empty (i : Nat) : generatedColumn i ≠ "" := by
  intro h
  have hlength := congrArg String.length h
  rw [generatedColumn, String.length_append] at hlength
  have hcolumn : ("column_" : String).length = 7 := rfl
  have hempty : ("" : String).length = 0 := rfl
  omega

theorem nodup_generated (n : Nat) : ((List.range n).map generatedColumn).Nodup :=
  List.nodup_range.map fun _ _ => generatedColumn_inj

/-- the name of the column of a header cell -/
def columnName (index : Nat) (value : String) : String := if trim value = "" then generatedColumn index else trim value

theorem columnName_of_blank {value : String} (h : blank value) (index : Nat) :
    columnName index value = generatedColumn index := if_pos (trim_eq_empty.mpr h)

theorem columnName_of_not_blank {value : String} (h : ¬ blank value) (index : Nat) :
    columnName index value = trim value := if_neg (mt trim_eq_empty.mp h)

theorem nodup_columnNames_iff (cells : List String) : (cells.mapIdx columnName).Nodup ↔ DistinctHeader cells := by
  have hcell {i : Nat} {a : String} (h : cells[i]? = some a) :
      (cells.mapIdx columnName)[i]? = some (columnName i a) := by
    rw [List.getElem?_mapIdx, h, Option.map_some]
  constructor
  · intro hnodup i j a b ha hb hne
    have hnames : columnName i a ≠ columnName j b := fun h => by
      have hindex := (hcell ha).trans ((congrArg some h).trans (hcell hb).symm)
      have hi : i < (cells.mapIdx columnName).length := (List.getElem?_eq_some_iff.mp (hcell ha)).1
      exact hne ((List.getElem?_inj hi hnodup).mp hindex)
    refine ⟨fun hba hbb => ?_, fun hba h => ?_⟩
    · rwa [columnName_of_not_blank hba, columnName_of_not_blank hbb] at hnames
    · have hbb : ¬ blank b := fun hblank =>
        generatedColumn_ne_empty i (h.symm.trans (trim_eq_empty.mpr hblank))
      rw [columnName_of_blank hba, columnName_of_not_blank hbb] at hnames
      exact hnames h.symm
  · intro hdistinct
    rw [List.nodup_iff_getElem?_ne_getElem?]
    intro i j hij hj heq
    rw [List.length_mapIdx] at hj
    obtain ⟨a, ha⟩ : ∃ a, cells[i]? = some a := ⟨_, List.getElem?_eq_getElem (by omega)⟩
    obtain ⟨b, hb⟩ : ∃ b, cells[j]? = some b := ⟨_, List.getElem?_eq_getElem hj⟩
    rw [hcell ha, hcell hb, Option.some.injEq] at heq
    obtain ⟨hdiffer, hgenerated⟩ := hdistinct i j a b ha hb (by omega)
    by_cases hba : blank a
    · by_cases hbb : blank b
      · rw [columnName_of_blank hba, columnName_of_blank hbb] at heq
        exact absurd (generatedColumn_inj heq) (by omega)
      · rw [columnName_of_blank hba, columnName_of_not_blank hbb] at heq
        exact hgenerated hba heq.symm
    · by_cases hbb : blank b
      · rw [columnName_of_not_blank hba, columnName_of_blank hbb] at heq
        exact (hdistinct j i b a hb ha (by omega)).2 hbb heq
      · rw [columnName_of_not_blank hba, columnName_of_not_blank hbb] at heq
        exact hdiffer hba hbb heq

theorem length_csvSchema (hasHeader : Bool) (first : List String) :
    (csvSchema hasHeader first).length = first.length := by
  unfold csvSchema
  split <;> simp

theorem nodup_csvSchema_iff (hasHeader : Bool) (first : List String) :
    (csvSchema hasHeader first).Nodup ↔ (hasHeader = true → DistinctHeader first) := by
  unfold csvSchema
  by_cases h : hasHeader = true ∧ first ≠ []
  · rw [if_pos h]
    exact (nodup_columnNames_iff first).trans ⟨fun hd _ => hd, fun hd => hd h.1⟩
  · rw [if_neg h]
    refine iff_of_true (nodup_generated _) fun hheader => ?_
    have hnil : first = [] := by
      by_contra hne
      exact h ⟨hheader, hne⟩
    rw [hnil]
    exact fun i j a b ha => nomatch ha

theorem holds_csvRecord_iff {schema : List String} (hschema : schema.Nodup) (row : List String) :
    Holds schema row (csvRecord schema row) ↔ row.length ≤ schema.length := by
  constructor
  · intro h
    by_contra hlong
    rw [Nat.not_le] at hlong
    obtain ⟨key, hkey, -⟩ := h schema.length _ (List.getElem?_eq_getElem hlong)
    rw [List.getElem?_eq_none (Nat.le_refl _)] at hkey
    cases hkey
  · intro hlength j cell hcell
    have hj : j < schema.length := Nat.lt_of_lt_of_le (List.getElem?_eq_some_iff.mp hcell).1 hlength
    refine ⟨_, List.getElem?_eq_getElem hj, ?_⟩
    rw [csvRecord, get?_rowFields 0 hschema (List.getElem?_eq_getElem hj), Nat.zero_add, hcell, Option.getD_some]

/-! ## the dataset -/

theorem csvDataset_ok_iff {inputPath text : String} {hasHeader : Bool} {maxRows now : Nat} {dataset : DataSet} :
    csvDataset inputPath hasHeader maxRows text now = .ok dataset ↔
      text.toList.count '"' % 2 = 0 ∧ dataset = rowsDataset inputPath hasHeader maxRows (csvRows text) now := by
  rw [← parseCsvRecords_ok_iff]
  unfold csvDataset csvRows
  cases hparse : parseCsvRecords text with
  | error e => exact iff_of_false (fun h => nomatch h) (fun h => nomatch h.1)
  | ok rows => exact ⟨fun h => ⟨rfl, (Except.ok.inj h).symm⟩, fun h => congrArg Except.ok h.2.symm⟩

theorem faithful_iff (inputPath : String) (hasHeader : Bool) (maxRows : Nat) (rows : List (List String)) (now : Nat) :
    Faithful hasHeader maxRows rows (rowsDataset inputPath hasHeader maxRows rows now) ↔
      Suits hasHeader maxRows rows := by
  have hflag : ((rowsDataset inputPath hasHeader maxRows rows now).coverageReport.get? "truncated").bind Json.asBool? =
      some (decide (max maxRows 1 ≤ min (max maxRows 1) (csvDataRows hasHeader rows).length)) := by
    unfold rowsDataset
    rw [← List.length_take, ← List.length_map (csvRecord (csvSchema hasHeader (rows.head?.getD [])))]
    rfl
  have hcount : decide (max maxRows 1 ≤ min (max maxRows 1) (csvDataRows hasHeader rows).length) =
      decide (max maxRows 1 < (csvDataRows hasHeader rows).length) ↔
        (csvDataRows hasHeader rows).length ≠ max maxRows 1 := by
    rw [decide_eq_decide]
    omega
  have hrecords (hnodup : (csvSchema hasHeader (rows.head?.getD [])).Nodup) :
      List.Forall₂ (Holds (csvSchema hasHeader (rows.head?.getD [])))
        ((csvDataRows hasHeader rows).take (max maxRows 1)) (rowsDataset inputPath hasHeader maxRows rows now).records ↔
      ∀ row ∈ (csvDataRows hasHeader rows).take (max maxRows 1), row.length ≤ (rows.head?.getD []).length := by
    show List.Forall₂ _ _ (List.map _ _) ↔ _
    rw [List.forall₂_map_right_iff, List.forall₂_same]
    simp only [holds_csvRecord_iff hnodup, length_csvSchema]
  constructor
  · intro h
    refine ⟨(nodup_csvSchema_iff _ _).mp h.keys, (hrecords h.keys).mp h.records, ?_⟩
    exact hcount.mp (Option.some.inj (hflag.symm.trans h.truncated))
  · intro h
    have hnodup := (nodup_csvSchema_iff _ _).mpr h.header
    exact ⟨hnodup, (hrecords hnodup).mpr h.widths, hflag.trans (congrArg some (hcount.mpr h.count))⟩

/-- **a dataset holds the rows of its text exactly when** quotes are closed, the header names its columns apart, no
row is longer than the first one, and there are not as many rows as asked for -/
theorem csvDataset_faithful_iff (inputPath : String) (hasHeader : Bool) (maxRows : Nat) (text : String) (now : Nat) :
    (∃ dataset, csvDataset inputPath hasHeader maxRows text now = .ok dataset ∧
      Faithful hasHeader maxRows (csvRows text) dataset) ↔
    text.toList.count '"' % 2 = 0 ∧ Suits hasHeader maxRows (csvRows text) := by
  constructor
  · rintro ⟨dataset, hdataset, hfaithful⟩
    obtain ⟨hquotes, rfl⟩ := csvDataset_ok_iff.mp hdataset
    exact ⟨hquotes, (faithful_iff _ _ _ _ _).mp hfaithful⟩
  · rintro ⟨hquotes, hsuits⟩
    exact ⟨_, csvDataset_ok_iff.mpr ⟨hquotes, rfl⟩, (faithful_iff _ _ _ _ _).mpr hsuits⟩

/-- two columns with one name: the first cell of the row is lost -/
theorem repeated_column_loses : csvRows "a,a\n1,2\n" = [["a", "a"], ["1", "2"]] ∧
    ¬ ∃ dataset, csvDataset "t.csv" true 10 "a,a\n1,2\n" 0 = .ok dataset ∧
      Faithful true 10 (csvRows "a,a\n1,2\n") dataset := by
  have hrows : csvRows "a,a\n1,2\n" = [["a", "a"], ["1", "2"]] := by decide
  refine ⟨hrows, ?_⟩
  rintro ⟨dataset, -, hfaithful⟩
  have hkeys := hfaithful.keys
  rw [hrows, nodup_csvSchema_iff] at hkeys
  exact ((hkeys rfl) 0 1 "a" "a" rfl rfl (by decide)).1 (by decide) (by decide) rfl

end Data
