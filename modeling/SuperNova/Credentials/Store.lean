import SuperNova.Lib.Io
import SuperNova.Lib.Table
import SuperNova.Lib.Text

/-!
# The credentials of the model providers

The profiles of the providers are one file; a profile has a ref to a secret, which is a file of its own, named after
the ref.  A new key is written under a new ref, after the old one was deleted and before the profiles are written.

* `secretFile`: the name of the file of a ref, in which only letters and digits of the ref are left;
* `saveProviderProfile`, `deleteProviderProfile`, `resolveSecret`: the calls; every access to the disk may fail, and
  a write may break off.
-/

set_option linter.unusedSectionVars false

namespace Credentials

open Io

/-! ## names -/

/-- `normalize_provider_id` -/
def normalizeProviderId (value : String) : String :=
  let trimmed := Text.trim value
  if trimmed = "" then "deepseek" else Text.toAsciiLowercase trimmed

/-- `optional_trimmed` -/
def optionalTrimmed (value : String) : Option String :=
  let trimmed := Text.trim value
  if trimmed = "" then none else some trimmed

/-- `sanitize_ref_for_filename` of a character -/
def sanitizeChar (c : Char) : Char := if c.isAlphanum then c else '_'

def sanitizeRefForFilename (value : String) : String := Text.mapChars sanitizeChar value

def refPrefix : String := "kernel_credential://provider/"

def credentialRef (providerId : String) (now : Nat) : String := refPrefix ++ providerId ++ "/" ++ toString now

/-- the file of a ref, below the secrets -/
def secretFile (ref : String) : String := sanitizeRefForFilename ref ++ ".dpapi"

/-! ## the disk -/

structure ProviderProfileRecord where
  providerId : String
  apiBaseUrl : Option String
  credentialRef : Option String
  enabled : Bool
  createdAtUnixMs : Nat
  updatedAtUnixMs : Nat
  validationStatus : Option String
  deriving DecidableEq

/-- the profiles, with `schema_version` left out -/
abbrev ProviderProfileStore := Table String ProviderProfileRecord

/-- a file is whole, or its last write has broken off -/
inductive FileState (α : Type) where
  | whole (content : α)
  | torn

/-- a secret is what the platform protected, which it can only unprotect as a whole -/
structure CredentialDisk where
  profiles : Option (FileState ProviderProfileStore)
  secrets : String → Option (FileState String)

def CredentialDisk.empty : CredentialDisk := ⟨none, fun _ => none⟩

inductive CredentialError where
  | invalidInput (message : String)
  | invalidData
  | notFound
  | io
  deriving DecidableEq

abbrev CredentialM := EStateM CredentialError CredentialDisk

/-- where a call may fail; a write leaves the file as it was, or torn -/
inductive Fault where
  | load
  | removal
  | secretsDir
  | protection
  | secret (torn : Bool)
  | profilesDir
  | profiles (torn : Bool)
  deriving DecidableEq

/-- what the clock says for a default profile, for the record and for a new ref -/
structure Clock where
  defaults : Nat
  record : Nat
  ref : Nat

/-! ## the files -/

variable (fault : Option Fault)

/-- fail where the fault is -/
def failsAt (here : Fault) : CredentialM Unit := if fault = some here then throw .io else pure ()

/-- `fs::write`, which may leave the file torn -/
def writeFile (here : Bool → Fault) (torn done : CredentialDisk → CredentialDisk) : CredentialM Unit := do
  failsAt fault (here false)
  if fault = some (here true) then do
    modify torn
    throw .io
  else modify done

def CredentialDisk.putSecret (disk : CredentialDisk) (name : String) (content : Option (FileState String)) :
    CredentialDisk :=
  { disk with secrets := Function.update disk.secrets name content }

def secretPath (ref : String) : Except CredentialError String :=
  if refPrefix.toList <+: ref.toList then .ok (secretFile ref)
  else .error (.invalidInput "provider credential_ref has unsupported scheme")

def loadStore : CredentialM ProviderProfileStore := do
  let disk ← get
  match disk.profiles with
  | none => pure .empty
  | some file =>
    failsAt fault .load
    match file with
    | .whole store => pure store
    | .torn => throw .invalidData

def saveStore (store : ProviderProfileStore) : CredentialM Unit := do
  failsAt fault .profilesDir
  writeFile fault .profiles (fun disk => { disk with profiles := some .torn })
    fun disk => { disk with profiles := some (.whole store) }

def writeSecret (providerId secret : String) (now : Nat) : CredentialM String := do
  failsAt fault .secretsDir
  let ref := credentialRef providerId now
  failsAt fault .protection
  let name ← lift (secretPath ref)
  writeFile fault .secret (fun disk => disk.putSecret name (some .torn))
    fun disk => disk.putSecret name (some (.whole secret))
  pure ref

def deleteSecret (ref : String) : CredentialM Unit := do
  let name ← lift (secretPath ref)
  let disk ← get
  if (disk.secrets name).isSome then do
    failsAt fault .removal
    modify fun disk => disk.putSecret name none
  else pure ()

/-- `resolve_secret` -/
def resolveSecret (disk : CredentialDisk) (ref : String) : Except CredentialError String :=
  match secretPath ref with
  | .error error => .error error
  | .ok name =>
    match disk.secrets name with
    | some (.whole secret) => .ok secret
    | some .torn => .error .invalidData
    | none => .error .notFound

/-! ## the calls -/

def deepseekBaseUrl : String := "https://api.deepseek.com"

def newRecord (providerId : String) (apiBaseUrl : Option String) (now : Nat) : ProviderProfileRecord :=
  ⟨providerId, apiBaseUrl, none, true, now, now, none⟩

/-- `ensure_default_profiles` -/
def ensureDefaultProfiles (store : ProviderProfileStore) (now : Nat) : ProviderProfileStore :=
  let record := (store.get? "deepseek").getD (newRecord "deepseek" (some deepseekBaseUrl) now)
  store.insert "deepseek" { record with apiBaseUrl := some deepseekBaseUrl }

/-- delete the secret of a record, if it has one -/
def deleteOld (ref : Option String) : CredentialM Unit :=
  match ref with
  | some ref => deleteSecret fault ref
  | none => pure ()

/-- the part of `save_provider_profile` on the key -/
def saveKey (record : ProviderProfileRecord) (providerId : String) (apiKey : Option String) (now : Nat) :
    CredentialM ProviderProfileRecord :=
  match apiKey with
  | none => pure record
  | some key =>
    match optionalTrimmed key with
    | none => do
      deleteOld fault record.credentialRef
      pure { record with credentialRef := none, validationStatus := some "credential_cleared" }
    | some trimmed => do
      deleteOld fault record.credentialRef
      let ref ← writeSecret fault providerId trimmed now
      pure { record with credentialRef := some ref, validationStatus := some "credential_stored" }

/-- the base URL that a save leaves -/
def savedBaseUrl (record : ProviderProfileRecord) (providerId : String) (apiBaseUrl : Option String) : Option String :=
  match apiBaseUrl with
  | some value => optionalTrimmed value
  | none => if providerId = "deepseek" then some deepseekBaseUrl else record.apiBaseUrl

def saveProviderProfile (clock : Clock) (providerId : String) (apiBaseUrl apiKey : Option String) :
    CredentialM ProviderProfileRecord := do
  let providerId := normalizeProviderId providerId
  if providerId = "deepseek" ∧ (apiBaseUrl.bind optionalTrimmed).isSome then
    throw (.invalidInput "DeepSeek API base URL is fixed and cannot be changed.")
  else do
    let store ← loadStore fault
    let store := ensureDefaultProfiles store clock.defaults
    let record := (store.get? providerId).getD (newRecord providerId none clock.record)
    let record := { record with apiBaseUrl := savedBaseUrl record providerId apiBaseUrl }
    let record ← saveKey fault record providerId apiKey clock.ref
    let record := { record with updatedAtUnixMs := clock.record }
    saveStore fault (store.insert providerId record)
    pure record

def deleteProviderProfile (clock : Clock) (providerId : String) : CredentialM Unit := do
  let providerId := normalizeProviderId providerId
  let store ← loadStore fault
  deleteOld fault ((store.get? providerId).bind (·.credentialRef))
  saveStore fault (ensureDefaultProfiles (store.erase providerId) clock.defaults)

/-- `list_profiles` -/
def listProfiles (disk : CredentialDisk) (now : Nat) : Except CredentialError (List ProviderProfileRecord) :=
  match disk.profiles with
  | none => .ok (ensureDefaultProfiles .empty now).values
  | some (.whole store) => .ok (ensureDefaultProfiles store now).values
  | some .torn => .error .invalidData

end Credentials
