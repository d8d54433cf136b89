import SuperNova.Data.Moves

/-!
# Plans of the data runtime

A source set, the naming rule of `plan_organize`, the two kinds of plans with their JSON form, and
the parsing of rename mappings.  Plans are stored as blobs and read back by the calls that apply
them (`OrganizePlan.ofJson_toJson`, `RenamePlan.ofJson_toJson`).
-/

namespace Data

open Paths Io FileTree Workspace Os Text

structure SourceSetFile where
  path : String
  extension : String
  sizeBytes : Nat
  modifiedMs : Nat

/-- `WorkspaceMutationOp` -/
structure WorkspaceMutationOp where
  sourcePath : String
  destinationPath : String
  operation : String
  deriving DecidableEq

structure WorkspaceOrganizePlan where
  planId : String
  sourceSetRef : String
  destinationRoot : String
  operations : List WorkspaceMutationOp
  deriving DecidableEq

structure WorkspaceRenamePlan where
  planId : String
  operations : List WorkspaceMutationOp
  deriving DecidableEq

/-! ## names -/

def normalizeRel (value : String) : String :=
  String.ofList (trimStartPair '.' '/'
    (replaceChar '\\' '/' (trimMatches (· == '/') (trim value))).toList)

/-- `Path::file_name` -/
def fileName (path : String) : Option String :=
  (components path).getLast?.filter (· ≠ "..")

/-- what stands before and after the last dot of a file name, unless the name starts with it -/
def splitLastDot (name : String) : Option (String × String) :=
  let reversed := name.toList.reverse
  match reversed.dropWhile (· ≠ '.') with
  | [] | [_] => none
  | _ :: before =>
    some (String.ofList before.reverse, String.ofList (reversed.takeWhile (· ≠ '.')).reverse)

/-- `Path::file_stem` -/
def fileStem (path : String) : Option String :=
  (fileName path).map fun name => ((splitLastDot name).map (·.1)).getD name

/-- `Path::extension` -/
def fileExtension (path : String) : Option String :=
  (fileName path).bind fun name => (splitLastDot name).map (·.2)

def safeComponent (value : String) : String :=
  let cleaned := mapChars (fun c => if c ∈ ['/', '\\', ':', '*', '?', '"', '<', '>', '|'] then '_'
    else c) value
  if blank cleaned then "misc" else cleaned

def organizeGroupForPath (path : String) : String :=
  let stem := (fileStem (normalizePath path)).getD "misc"
  let parts := (stem.toList.splitOnP fun c => c ∈ ['_', '-', ' ', '（', '(', '[']).map String.ofList
  let token := trim ((parts.find? fun item => !blank item).getD "misc")
  safeComponent (if token.toList.length > 24 then String.ofList (token.toList.take 24) else token)

/-- `Components::trim_right`, on a reversed path: empty names and `.` at the end, but not the first character -/
def trimRight : List Char → List Char
  | ['/'] => ['/']
  | '/' :: rest => trimRight rest
  | '.' :: '/' :: rest => trimRight ('/' :: rest)
  | chars => chars

/-- `Path::parent` of a path that ends with a name -/
def parentText (path : String) : String :=
  String.ofList (trimRight (path.toList.reverse.dropWhile (· ≠ '/'))).reverse

/-- `disambiguate_destination`: the first free numbered name, from `index` on -/
def disambiguateFrom (destination : String) (used : List String) : Nat → Nat → String
  | 0, _ => destination
  | fuel + 1, index =>
    let stem := (fileStem destination).getD "file"
    let ext := (fileExtension destination).getD ""
    let candidate := parentText destination ++ "/" ++ stem ++ "_" ++ toString index ++
      (if ext = "" then "" else "." ++ ext)
    if candidate ∈ used then disambiguateFrom destination used fuel (index + 1) else candidate

def disambiguateDestination (destination : String) (used : List String) : String :=
  disambiguateFrom destination used 9998 2

/-- the destination of one file, before names already used are avoided -/
def organizeDestination (destinationRoot : String) (file : SourceSetFile) : String :=
  let ext := if blank file.extension then "no_extension"
    else String.ofList (file.extension.toList.dropWhile (· == '.'))
  destinationRoot ++ "/" ++ organizeGroupForPath file.path ++ "/" ++ ext ++ "/" ++
    (fileName file.path).getD "file"

/-- the loop of `plan_organize` -/
def planLoop (destinationRoot : String) : List String → List SourceSetFile →
    List WorkspaceMutationOp
  | _, [] => []
  | used, file :: rest =>
    let destination := organizeDestination destinationRoot file
    let destination := if destination ∈ used then disambiguateDestination destination used
      else destination
    ⟨file.path, destination, "move"⟩ :: planLoop destinationRoot (destination :: used) rest

/-- the operations `plan_organize` plans for the files of a source set -/
def planOperations (files : List SourceSetFile) (destinationRoot : String) :
    List WorkspaceMutationOp :=
  planLoop (normalizeRel destinationRoot) [] files

/-! ## JSON forms -/

def natAt? (v : Json) (key : String) : Option Nat := (v.get? key).bind Json.asNat?

def SourceSetFile.ofJson (v : Json) : Option SourceSetFile := do
  let path ← v.strAt? "path"
  let extension ← v.strAt? "extension"
  let sizeBytes ← natAt? v "size_bytes"
  let modifiedMs ← natAt? v "modified_ms"
  pure ⟨path, extension, sizeBytes, modifiedMs⟩

/-- the array at a key, each item read by `f` -/
def listAt? {α : Type} (v : Json) (key : String) (f : Json → Option α) : Option (List α) :=
  ((v.get? key).bind Json.asArr?).bind fun items => items.mapM f

def sourceSetFiles (v : Json) : Option (List SourceSetFile) := listAt? v "files" SourceSetFile.ofJson

def WorkspaceMutationOp.toJson (op : WorkspaceMutationOp) : Json :=
  .obj [("source_path", .str op.sourcePath), ("destination_path", .str op.destinationPath),
    ("operation", .str op.operation)]

def WorkspaceMutationOp.ofJson (v : Json) : Option WorkspaceMutationOp := do
  let sourcePath ← v.strAt? "source_path"
  let destinationPath ← v.strAt? "destination_path"
  let operation ← v.strAt? "operation"
  pure ⟨sourcePath, destinationPath, operation⟩

theorem WorkspaceMutationOp.ofJson_toJson (op : WorkspaceMutationOp) :
    ofJson op.toJson = some op := rfl

def WorkspaceOrganizePlan.toJson (plan : WorkspaceOrganizePlan) : Json :=
  .obj [("plan_id", .str plan.planId), ("source_set_ref", .str plan.sourceSetRef),
    ("destination_root", .str plan.destinationRoot),
    ("operations", .arr (plan.operations.map (·.toJson)))]

def WorkspaceOrganizePlan.ofJson (v : Json) : Option WorkspaceOrganizePlan := do
  let planId ← v.strAt? "plan_id"
  let sourceSetRef ← v.strAt? "source_set_ref"
  let destinationRoot ← v.strAt? "destination_root"
  let operations ← listAt? v "operations" WorkspaceMutationOp.ofJson
  pure ⟨planId, sourceSetRef, destinationRoot, operations⟩

def WorkspaceRenamePlan.toJson (plan : WorkspaceRenamePlan) : Json :=
  .obj [("plan_id", .str plan.planId), ("operations", .arr (plan.operations.map (·.toJson)))]

def WorkspaceRenamePlan.ofJson (v : Json) : Option WorkspaceRenamePlan := do
  let planId ← v.strAt? "plan_id"
  let operations ← listAt? v "operations" WorkspaceMutationOp.ofJson
  pure ⟨planId, operations⟩

theorem operations_ofJson_toJson (ops : List WorkspaceMutationOp) :
    (ops.map (·.toJson)).mapM WorkspaceMutationOp.ofJson = some ops := by
  induction ops with
  | nil => rfl
  | cons op ops ih =>
    rw [List.map_cons, List.mapM_cons, WorkspaceMutationOp.ofJson_toJson, ih]
    rfl

theorem WorkspaceOrganizePlan.ofJson_toJson (plan : WorkspaceOrganizePlan) :
    ofJson plan.toJson = some plan := by
  have h : listAt? plan.toJson "operations" WorkspaceMutationOp.ofJson = some plan.operations :=
    operations_ofJson_toJson plan.operations
  rw [ofJson, h]
  rfl

theorem WorkspaceRenamePlan.ofJson_toJson (plan : WorkspaceRenamePlan) :
    ofJson plan.toJson = some plan := by
  have h : listAt? plan.toJson "operations" WorkspaceMutationOp.ofJson = some plan.operations :=
    operations_ofJson_toJson plan.operations
  rw [ofJson, h]
  rfl

/-! ## rename mappings -/

def operationRows (ops : List WorkspaceMutationOp) : String :=
  "| operation | source_path | destination_path |\n|---|---|---|\n" ++
    (ops.map fun op => "| " ++ op.operation ++ " | `" ++ op.sourcePath ++ "` | `" ++
      op.destinationPath ++ "` |\n").foldr (· ++ ·) ""

def organizePlanMarkdown (plan : WorkspaceOrganizePlan) : String :=
  "# ORGANIZE_PREVIEW\n\n- plan_id: `" ++ plan.planId ++ "`\n- source_set_ref: `" ++
    plan.sourceSetRef ++ "`\n- destination_root: `" ++ plan.destinationRoot ++
    "`\n- operation_count: `" ++ toString plan.operations.length ++ "`\n\n" ++
    operationRows plan.operations

end Data
