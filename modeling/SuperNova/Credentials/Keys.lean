import SuperNova.Credentials.Store
import SuperNova.Lib.Recorded

/-!
# The store as a map from providers to keys

* `CredentialCall.run`: a call with a fault, the disk that it leaves and whether it succeeded;
* `Behaves`: the profiles can be listed, and their refs lead to the keys that were saved last;
* `Plan`, `Stage`: the files that a call deletes and writes, and how far it gets with a fault;
* `keys_kept_iff` (**main**): the store behaves as a map all along a run exactly when no call tears the profiles, or
  takes from a credential that stays listed the file of its secret;
* `same_file`: two providers whose ids differ only in a character that no file name has.
-/

set_option linter.unusedSectionVars false

namespace Credentials

open Io

/-! ## runs -/

inductive CredentialCall where
  | save (clock : Clock) (providerId : String) (apiBaseUrl apiKey : Option String)
  | delete (clock : Clock) (providerId : String)
  | resolve (ref : String)

/-- whether a program succeeds, and the disk that it leaves -/
def ended {α : Type} (m : CredentialM α) (disk : CredentialDisk) : Bool × CredentialDisk :=
  match m disk with
  | .ok _ disk => (true, disk)
  | .error _ disk => (false, disk)

def CredentialCall.run (fault : Option Fault) (disk : CredentialDisk) : CredentialCall → Bool × CredentialDisk
  | .save clock providerId apiBaseUrl apiKey =>
    ended (saveProviderProfile fault clock providerId apiBaseUrl apiKey) disk
  | .delete clock providerId => ended (deleteProviderProfile fault clock providerId) disk
  | .resolve ref => ((resolveSecret disk ref).toOption.isSome, disk)

/-- the keys of the providers -/
abbrev Keys := String → Option String

/-- the keys after a call that succeeded -/
def CredentialCall.credit (keys : Keys) : CredentialCall → Keys
  | .save _ providerId _ (some key) =>
    Function.update keys (normalizeProviderId providerId) (optionalTrimmed key)
  | .delete _ providerId => Function.update keys (normalizeProviderId providerId) none
  | .save _ _ _ none | .resolve _ => keys

/-- the disk, and the keys that the calls have saved -/
structure CredentialRun where
  disk : CredentialDisk
  keys : Keys

def CredentialRun.step (run : CredentialRun) (move : CredentialCall × Option Fault) : CredentialRun :=
  let result := move.1.run move.2 run.disk
  ⟨result.2, if result.1 then move.1.credit run.keys else run.keys⟩

def runCalls (moves : List (CredentialCall × Option Fault)) : CredentialRun :=
  moves.foldl CredentialRun.step ⟨.empty, fun _ => none⟩

/-! ## what is to hold -/

/-- the refs of the profiles lead to the keys of their providers, and every key is listed -/
structure Resolves (disk : CredentialDisk) (keys : Keys) (profiles : List ProviderProfileRecord) : Prop where
  resolves : ∀ record ∈ profiles, ∀ ref, record.credentialRef = some ref →
    ∃ key, keys record.providerId = some key ∧ resolveSecret disk ref = .ok key
  listed : ∀ providerId key, keys providerId = some key →
    ∃ record ∈ profiles, record.providerId = providerId ∧ record.credentialRef.isSome

def Behaves (run : CredentialRun) : Prop :=
  ∀ now, ∃ profiles, listProfiles run.disk now = .ok profiles ∧ Resolves run.disk run.keys profiles

/-! ## how far a call gets -/

/-- the profiles that a call reads -/
def CredentialDisk.store? (disk : CredentialDisk) : Option ProviderProfileStore :=
  match disk.profiles with
  | none => some .empty
  | some (.whole store) => some store
  | some .torn => none

def CredentialDisk.ref? (disk : CredentialDisk) (providerId : String) : Option String :=
  (disk.store?.bind fun store => store.get? providerId).bind (·.credentialRef)

/-- the file that `delete_secret` deletes, if it is there -/
def CredentialDisk.fileOf (disk : CredentialDisk) (ref : Option String) : Option String :=
  (ref.map secretFile).filter fun name => (disk.secrets name).isSome

/-- what a call does to the files of secrets, and the ref that the provider has then -/
structure Plan where
  providerId : String
  deletes : Option String
  /-- a ref and its key -/
  writes : Option (String × String)
  leaves : Option String

def CredentialCall.plan (disk : CredentialDisk) : CredentialCall → Option Plan
  | .save clock providerId apiBaseUrl apiKey =>
    let providerId := normalizeProviderId providerId
    if providerId = "deepseek" ∧ (apiBaseUrl.bind optionalTrimmed).isSome then none
    else disk.store?.map fun _ =>
      match apiKey with
      | none => ⟨providerId, none, none, disk.ref? providerId⟩
      | some key =>
        let new := (optionalTrimmed key).map fun trimmed => (credentialRef providerId clock.ref, trimmed)
        ⟨providerId, disk.fileOf (disk.ref? providerId), new, new.map (·.1)⟩
  | .delete _ providerId =>
    let providerId := normalizeProviderId providerId
    disk.store?.map fun _ => ⟨providerId, disk.fileOf (disk.ref? providerId), none, none⟩
  | .resolve _ => none

/-- how far a call gets: with the secrets, and then with the profiles -/
inductive Stage where
  | untouched
  | deleted
  | broken
  | written
  | torn
  | done
  deriving DecidableEq

/-- a fault that is not met does not matter -/
def Plan.stage (plan : Plan) (disk : CredentialDisk) : Option Fault → Stage
  | none => .done
  | some .load => if disk.profiles.isSome then .untouched else .done
  | some .removal => if plan.deletes.isSome then .untouched else .done
  | some .secretsDir | some .protection | some (.secret false) => if plan.writes.isSome then .deleted else .done
  | some (.secret true) => if plan.writes.isSome then .broken else .done
  | some .profilesDir | some (.profiles false) => .written
  | some (.profiles true) => .torn

/-- a file of a key is left with it -/
def Plan.Spares (plan : Plan) (file key : String) : Stage → Prop
  | .untouched => True
  | .deleted => plan.deletes ≠ some file
  | .broken => plan.deletes ≠ some file ∧ ∀ new, plan.writes = some new → secretFile new.1 ≠ file
  | .written | .torn | .done =>
    (∀ new, plan.writes = some new → secretFile new.1 = file → new.2 = key) ∧
      (plan.deletes = some file → ∃ new, plan.writes = some new ∧ secretFile new.1 = file)

/-- the call leaves the profiles whole, and the credentials that stay listed their files -/
def Heeds (disk : CredentialDisk) (move : CredentialCall × Option Fault) : Prop :=
  ∀ plan, move.1.plan disk = some plan →
    plan.stage disk move.2 ≠ .torn ∧
      ∀ providerId ref key, disk.ref? providerId = some ref → resolveSecret disk ref = .ok key →
        (plan.stage disk move.2 = .done → providerId ≠ plan.providerId) →
          plan.Spares (secretFile ref) key (plan.stage disk move.2)

section
variable {fault : Option Fault} {disk disk' : CredentialDisk} {run : CredentialRun} {ref name key p q : String}
  {store : ProviderProfileStore} {now : Nat}

/-! ## the files of refs -/

theorem secretPath_credentialRef (providerId : String) (now : Nat) :
    secretPath (credentialRef providerId now) = .ok (secretFile (credentialRef providerId now)) := by
  unfold secretPath
  rw [if_pos]
  unfold credentialRef
  simp only [String.toList_append, List.append_assoc]
  exact List.prefix_append ..

/-- a ref that `write_secret` made -/
def Made (providerId ref : String) : Prop := ∃ now, ref = credentialRef providerId now

theorem Made.path (h : Made p ref) : secretPath ref = .ok (secretFile ref) := by
  obtain ⟨now, rfl⟩ := h
  exact secretPath_credentialRef p now

theorem Made.resolves_iff (h : Made p ref) :
    resolveSecret disk ref = .ok key ↔ disk.secrets (secretFile ref) = some (.whole key) := by
  unfold resolveSecret
  rw [h.path]
  dsimp only
  cases disk.secrets (secretFile ref) with
  | none => exact iff_of_false nofun (Option.some_ne_none _).symm
  | some file =>
    cases file with
    | whole secret =>
      constructor
      · intro hsecret
        rw [Except.ok.inj hsecret]
      · intro hsecret
        rw [FileState.whole.inj (Option.some.inj hsecret)]
    | torn => exact iff_of_false nofun fun htorn => nomatch Option.some.inj htorn

/-! ## the steps of a call -/

def CredentialDisk.without (disk : CredentialDisk) : Option String → CredentialDisk
  | some name => disk.putSecret name none
  | none => disk

theorem deleteOld_run {old : Option String} (h : ∀ ref, old = some ref → Made p ref) :
    deleteOld fault old disk =
      if fault = some .removal ∧ (disk.fileOf old).isSome then .error .io disk
      else .ok () (disk.without (disk.fileOf old)) := by
  cases old with
  | none =>
    have hnone : disk.fileOf none = none := rfl
    rw [hnone, if_neg (fun hfault => Bool.false_ne_true hfault.2)]
    rfl
  | some ref =>
    show deleteSecret fault ref disk = _
    unfold deleteSecret failsAt
    rw [(h ref rfl).path]
    simp only [lift, bind_apply, get_apply]
    cases hfile : disk.secrets (secretFile ref) with
    | none =>
      have hnone : disk.fileOf (some ref) = none := by simp [CredentialDisk.fileOf, hfile]
      simp [hnone, CredentialDisk.without]
    | some file =>
      have hsome : disk.fileOf (some ref) = some (secretFile ref) := by
        simp [CredentialDisk.fileOf, Option.filter, hfile]
      rw [hsome]
      by_cases hfault : fault = some .removal
      · simp [hfault, bind_apply]
      · simp [hfault, bind_apply, CredentialDisk.without]

theorem writeSecret_run (providerId secret : String) (now : Nat) :
    writeSecret fault providerId secret now disk =
      let ref := credentialRef providerId now
      match fault with
      | some .secretsDir | some .protection | some (.secret false) => .error .io disk
      | some (.secret true) => .error .io (disk.putSecret (secretFile ref) (some .torn))
      | _ => .ok ref (disk.putSecret (secretFile ref) (some (.whole secret))) := by
  unfold writeSecret writeFile failsAt
  dsimp only
  rw [secretPath_credentialRef]
  cases fault with
  | none => rfl
  | some here =>
    cases here with
    | secret torn => cases torn <;> rfl
    | _ => rfl

theorem saveStore_run (store : ProviderProfileStore) : saveStore fault store disk =
    match fault with
    | some .profilesDir | some (.profiles false) => .error .io disk
    | some (.profiles true) => .error .io { disk with profiles := some .torn }
    | _ => .ok () { disk with profiles := some (.whole store) } := by
  unfold saveStore writeFile failsAt
  cases fault with
  | none => rfl
  | some here =>
    cases here with
    | profiles torn => cases torn <;> rfl
    | _ => rfl

theorem loadStore_run (fault : Option Fault) (disk : CredentialDisk) : loadStore fault disk =
    if disk.profiles.isSome ∧ fault = some .load then .error .io disk
    else match disk.store? with
      | some store => .ok store disk
      | none => .error .invalidData disk := by
  unfold loadStore failsAt CredentialDisk.store?
  simp only [bind_apply, get_apply]
  cases hprofiles : disk.profiles with
  | none => simp
  | some file =>
    by_cases hfault : fault = some .load
    · simp [hfault, bind_apply]
    · cases file <;> simp [hfault, bind_apply]

/-! ## a call -/

def CredentialDisk.wrote (disk : CredentialDisk) (new : Option (String × String))
    (content : String → FileState String) :
    CredentialDisk :=
  match new with
  | some (ref, key) => disk.putSecret (secretFile ref) (some (content key))
  | none => disk

/-- whether a call succeeds, and the disk that it leaves -/
def Plan.after (plan : Plan) (store : ProviderProfileStore) (disk : CredentialDisk) : Stage → Bool × CredentialDisk
  | .untouched => (false, disk)
  | .deleted => (false, disk.without plan.deletes)
  | .broken => (false, (disk.without plan.deletes).wrote plan.writes fun _ => .torn)
  | .written => (false, (disk.without plan.deletes).wrote plan.writes .whole)
  | .torn => (false, { (disk.without plan.deletes).wrote plan.writes .whole with profiles := some .torn })
  | .done => (true, { (disk.without plan.deletes).wrote plan.writes .whole with profiles := some (.whole store) })

/-- the fault does not keep the profiles from being read -/
def Loads (fault : Option Fault) (disk : CredentialDisk) : Prop := ¬ (disk.profiles.isSome ∧ fault = some .load)

theorem stage_of_not_loads (plan : Plan) (h : ¬ Loads fault disk) : plan.stage disk fault = .untouched := by
  obtain ⟨hsome, rfl⟩ := not_not.mp h
  exact if_pos hsome

theorem clear_run {α : Type} {old : Option String} (h : ∀ ref, old = some ref → Made p ref)
    (hloads : Loads fault disk) (providerId : String) (leaves : Option String) (result : α) :
    ended (do deleteOld fault old; saveStore fault store; pure result) disk =
      (Plan.mk providerId (disk.fileOf old) none leaves).after store disk
        ((Plan.mk providerId (disk.fileOf old) none leaves).stage disk fault) := by
  unfold ended
  simp only [bind_apply, deleteOld_run h, saveStore_run]
  cases fault with
  | none => rfl
  | some here =>
    cases here with
    | load =>
      have hnone : disk.profiles.isSome = false := by
        simpa [Loads] using hloads
      simp [Plan.stage, Plan.after, hnone, CredentialDisk.wrote]
    | removal =>
      cases hfile : disk.fileOf old with
      | none => simp [Plan.stage, Plan.after, CredentialDisk.wrote]
      | some name => simp [Plan.stage, Plan.after]
    | profiles torn => cases torn <;> rfl
    | secret torn => cases torn <;> rfl
    | _ => rfl

theorem replace_run {α : Type} {old : Option String} (h : ∀ ref, old = some ref → Made p ref)
    (hloads : Loads fault disk) (providerId secret : String) (now : Nat)
    (next : String → ProviderProfileStore) (result : String → α) :
    ended (do
      deleteOld fault old
      let ref ← writeSecret fault providerId secret now
      saveStore fault (next ref)
      pure (result ref)) disk =
      (Plan.mk providerId (disk.fileOf old) (some (credentialRef providerId now, secret))
        (some (credentialRef providerId now))).after (next (credentialRef providerId now)) disk
          ((Plan.mk providerId (disk.fileOf old) (some (credentialRef providerId now, secret))
            (some (credentialRef providerId now))).stage disk fault) := by
  unfold ended
  simp only [bind_apply, deleteOld_run h, writeSecret_run, saveStore_run]
  cases fault with
  | none => rfl
  | some here =>
    cases here with
    | load =>
      have hnone : disk.profiles.isSome = false := by
        simpa [Loads] using hloads
      simp [Plan.stage, Plan.after, hnone, CredentialDisk.wrote]
    | removal =>
      cases hfile : disk.fileOf old with
      | none => simp [Plan.stage, Plan.after, CredentialDisk.wrote]
      | some name => simp [Plan.stage, Plan.after]
    | profiles torn => cases torn <;> rfl
    | secret torn => cases torn <;> rfl
    | _ => rfl

theorem keep_run {α : Type} (hloads : Loads fault disk) (providerId : String) (leaves : Option String) (result : α) :
    ended (do saveStore fault store; pure result) disk =
      (Plan.mk providerId none none leaves).after store disk ((Plan.mk providerId none none leaves).stage disk fault) :=
  clear_run (show ∀ ref, none = some ref → Made providerId ref from nofun) hloads providerId leaves result

/-! ## the profiles -/

def refOf (store : ProviderProfileStore) (providerId : String) : Option String :=
  (store.get? providerId).bind (·.credentialRef)

/-- each profile is under the id of its provider, with a ref that was made for it -/
def Formed (store : ProviderProfileStore) : Prop :=
  ∀ providerId record, store.get? providerId = some record →
    record.providerId = providerId ∧ ∀ ref, record.credentialRef = some ref → Made providerId ref

def CredentialDisk.Formed (disk : CredentialDisk) : Prop := ∀ store, disk.store? = some store → Credentials.Formed store

theorem refOf_insert (store : ProviderProfileStore) (record : ProviderProfileRecord) :
    refOf (store.insert p record) q = if q = p then record.credentialRef else refOf store q := by
  unfold refOf
  rw [Table.get?_insert]
  split <;> rfl

theorem Formed.insert {record : ProviderProfileRecord} (h : Formed store) (hid : record.providerId = p)
    (hmade : ∀ ref, record.credentialRef = some ref → Made p ref) : Formed (store.insert p record) := by
  intro providerId found hfound
  rw [Table.get?_insert] at hfound
  split at hfound
  · rename_i hp
    obtain rfl := Option.some.inj hfound
    exact hp ▸ ⟨hid, hmade⟩
  · exact h providerId found hfound

theorem Formed.made (h : Formed store) (href : refOf store p = some ref) : Made p ref := by
  obtain ⟨record, hrecord, hrecref⟩ := Option.bind_eq_some_iff.mp href
  exact (h p record hrecord).2 ref hrecref

theorem refOf_ensure (store : ProviderProfileStore) (now : Nat) :
    refOf (ensureDefaultProfiles store now) q = refOf store q := by
  unfold ensureDefaultProfiles
  dsimp only
  rw [refOf_insert]
  split
  · rename_i hq
    rw [hq, refOf]
    cases store.get? "deepseek" <;> rfl
  · rfl

theorem Formed.ensure (h : Formed store) (now : Nat) : Formed (ensureDefaultProfiles store now) := by
  unfold ensureDefaultProfiles
  dsimp only
  cases hget : store.get? "deepseek" with
  | none => exact h.insert rfl nofun
  | some record => exact h.insert (h _ record hget).1 (h _ record hget).2

theorem Formed.erase (h : Formed store) : Formed (store.erase p) := by
  intro providerId record hrecord
  rw [Table.get?_erase] at hrecord
  split at hrecord
  · exact absurd hrecord.symm (Option.some_ne_none _)
  · exact h providerId record hrecord

theorem refOf_erase : refOf (store.erase p) q = if q = p then none else refOf store q := by
  unfold refOf
  rw [Table.get?_erase]
  split <;> rfl

theorem ref?_of_store (h : disk.store? = some store) : disk.ref? p = refOf store p := by
  unfold CredentialDisk.ref?
  rw [h]
  rfl

/-! ## a call with a plan -/

theorem ended_bind {α β : Type} (m : CredentialM α) (f : α → CredentialM β) :
    ended (m >>= f) disk = match m disk with
      | .ok a disk' => ended (f a) disk'
      | .error _ disk' => (false, disk') := by
  unfold ended
  rw [bind_apply]
  cases m disk <;> rfl

theorem ended_loadStore {β : Type} (f : ProviderProfileStore → CredentialM β) (hstore : disk.store? = some store)
    (hloads : Loads fault disk) : ended (loadStore fault >>= f) disk = ended (f store) disk := by
  rw [ended_bind, loadStore_run, if_neg hloads, hstore]

theorem ended_not_loads {β : Type} (f : ProviderProfileStore → CredentialM β) (hloads : ¬ Loads fault disk) :
    ended (loadStore fault >>= f) disk = (false, disk) := by
  rw [ended_bind, loadStore_run, if_pos (not_not.mp hloads)]

theorem refOf_getD (store : ProviderProfileStore) (p : String) (apiBaseUrl : Option String) (now : Nat) :
    ((store.get? p).getD (newRecord p apiBaseUrl now)).credentialRef = refOf store p := by
  unfold refOf
  cases store.get? p <;> rfl

theorem providerId_getD (h : Formed store) (p : String) (apiBaseUrl : Option String) (now : Nat) :
    ((store.get? p).getD (newRecord p apiBaseUrl now)).providerId = p := by
  cases hget : store.get? p with
  | none => rfl
  | some record => exact (h p record hget).1

/-- the store that a call writes -/
def Written (plan : Plan) (disk : CredentialDisk) (store : ProviderProfileStore) : Prop :=
  Formed store ∧ ∀ q, refOf store q = if q = plan.providerId then plan.leaves else disk.ref? q

theorem run_of_not_loads {call : CredentialCall} (plan : Plan) (hloads : ¬ Loads fault disk)
    (hrun : call.run fault disk = (false, disk)) :
    ∃ store, call.run fault disk = plan.after store disk (plan.stage disk fault) ∧
      (plan.stage disk fault = .done → Written plan disk store) := by
  rw [stage_of_not_loads plan hloads]
  exact ⟨.empty, hrun, fun h => Stage.noConfusion h⟩

theorem delete_run {clock : Clock} {providerId : String} {plan : Plan} (hformed : disk.Formed)
    (hplan : (CredentialCall.delete clock providerId).plan disk = some plan) :
    ∃ store, (CredentialCall.delete clock providerId).run fault disk =
        plan.after store disk (plan.stage disk fault) ∧
      (plan.stage disk fault = .done → Written plan disk store) := by
  obtain ⟨store, hstore, rfl⟩ := Option.map_eq_some_iff.mp hplan
  by_cases hloads : Loads fault disk
  · have hmade : ∀ ref, refOf store (normalizeProviderId providerId) = some ref →
        Made (normalizeProviderId providerId) ref := fun ref => (hformed store hstore).made
    refine ⟨_, ?_, fun _ => ⟨((hformed store hstore).erase (p := normalizeProviderId providerId)).ensure
      clock.defaults, fun q => ?_⟩⟩
    · show ended (loadStore fault >>= _) disk = _
      rw [ended_loadStore _ hstore hloads, ref?_of_store hstore, ← clear_run hmade hloads _ none ()]
      simp only [bind_pure_unit]
      rfl
    · rw [refOf_ensure, refOf_erase]
      rw [ref?_of_store (p := q) hstore]
  · exact run_of_not_loads _ hloads (ended_not_loads _ hloads)

theorem save_run {clock : Clock} {providerId : String} {apiBaseUrl apiKey : Option String} {plan : Plan}
    (hformed : disk.Formed)
    (hplan : (CredentialCall.save clock providerId apiBaseUrl apiKey).plan disk = some plan) :
    ∃ store, (CredentialCall.save clock providerId apiBaseUrl apiKey).run fault disk =
        plan.after store disk (plan.stage disk fault) ∧
      (plan.stage disk fault = .done → Written plan disk store) := by
  unfold CredentialCall.plan at hplan
  dsimp only at hplan
  unfold CredentialCall.run saveProviderProfile
  dsimp only
  split at hplan
  · cases hplan
  rename_i hurl
  rw [if_neg hurl]
  obtain ⟨store, hstore, rfl⟩ := Option.map_eq_some_iff.mp hplan
  have hstoreFormed := hformed store hstore
  by_cases hloads : Loads fault disk
  · rw [ended_loadStore _ hstore hloads]
    generalize hid : normalizeProviderId providerId = p
    have hensured := hstoreFormed.ensure clock.defaults
    have hpid := providerId_getD hensured p none clock.record
    have href := refOf_getD (ensureDefaultProfiles store clock.defaults) p none clock.record
    rw [refOf_ensure] at href
    generalize hrecord : ((ensureDefaultProfiles store clock.defaults).get? p).getD
      (newRecord p none clock.record) = record at hpid href
    have hmade : ∀ ref, record.credentialRef = some ref → Made p ref := by
      intro ref hold
      exact hstoreFormed.made (href.symm.trans hold)
    have hwritten {saved : ProviderProfileRecord} (deletes : Option String) (writes : Option (String × String))
        (hsaved : saved.providerId = p) (hrefs : ∀ ref, saved.credentialRef = some ref → Made p ref) :
        Written ⟨p, deletes, writes, saved.credentialRef⟩ disk
          ((ensureDefaultProfiles store clock.defaults).insert p saved) := by
      refine ⟨hensured.insert hsaved hrefs, fun q => ?_⟩
      rw [refOf_insert, refOf_ensure, ref?_of_store hstore]
    cases apiKey with
    | none =>
      have hkept : record.credentialRef = disk.ref? p := href.trans (ref?_of_store hstore).symm
      dsimp only
      rw [← hkept]
      exact ⟨_, keep_run hloads p _ _, fun _ => hwritten none none hpid hmade⟩
    | some key =>
      have hkept : disk.ref? p = record.credentialRef := (ref?_of_store hstore).trans href.symm
      dsimp only
      rw [hkept]
      unfold saveKey
      cases htrimmed : optionalTrimmed key with
      | none =>
        simp only [htrimmed, bind_assoc, pure_bind, Option.map_none]
        exact ⟨_, clear_run hmade hloads p none _, fun _ => hwritten _ none hpid nofun⟩
      | some trimmed =>
        simp only [htrimmed, bind_assoc, pure_bind, Option.map_some]
        refine ⟨_, replace_run hmade hloads p trimmed clock.ref _ _, fun _ => ?_⟩
        refine hwritten _ _ hpid fun ref hnew => ?_
        exact ⟨clock.ref, (Option.some.inj hnew).symm⟩
  · rw [ended_not_loads _ hloads, stage_of_not_loads _ hloads]
    exact ⟨.empty, rfl, fun h => Stage.noConfusion h⟩

theorem run_of_no_plan {call : CredentialCall} (fault : Option Fault) (hplan : call.plan disk = none) (keys : Keys) :
    (call.run fault disk).2 = disk ∧ (if (call.run fault disk).1 then call.credit keys else keys) = keys := by
  have hstore {f : ProviderProfileStore → Plan} (h : disk.store?.map f = none) {β : Type}
      (g : ProviderProfileStore → CredentialM β) : ended (loadStore fault >>= g) disk = (false, disk) := by
    rw [ended_bind, loadStore_run, Option.map_eq_none_iff.mp h]
    split
    · rename_i hload
      split at hload
      · cases hload
      · cases hload
    · rename_i hload
      split at hload
      · rw [(EStateM.Result.error.inj hload).2]
      · rw [(EStateM.Result.error.inj hload).2]
  cases call with
  | resolve ref => exact ⟨rfl, ite_self _⟩
  | delete clock providerId =>
    have hrun : (CredentialCall.delete clock providerId).run fault disk = (false, disk) := hstore hplan _
    rw [hrun]
    exact ⟨rfl, rfl⟩
  | save clock providerId apiBaseUrl apiKey =>
    have hrun : (CredentialCall.save clock providerId apiBaseUrl apiKey).run fault disk = (false, disk) := by
      unfold CredentialCall.plan at hplan
      dsimp only at hplan
      unfold CredentialCall.run saveProviderProfile
      dsimp only
      split at hplan
      · rename_i hurl
        rw [if_pos hurl]
        rfl
      · rename_i hurl
        rw [if_neg hurl]
        exact hstore hplan _
    rw [hrun]
    exact ⟨rfl, rfl⟩

theorem plan_cases {call : CredentialCall} {plan : Plan} (h : call.plan disk = some plan) :
    (∃ ref key, plan.writes = some (ref, key) ∧ plan.leaves = some ref ∧
      ∀ keys, call.credit keys = Function.update keys plan.providerId (some key)) ∨
    (plan.writes = none ∧ plan.leaves = none ∧
      ∀ keys, call.credit keys = Function.update keys plan.providerId none) ∨
    (plan.writes = none ∧ plan.deletes = none ∧ plan.leaves = disk.ref? plan.providerId ∧
      ∀ keys, call.credit keys = keys) := by
  cases call with
  | resolve ref => cases h
  | delete clock providerId =>
    obtain ⟨store, -, rfl⟩ := Option.map_eq_some_iff.mp h
    exact .inr (.inl ⟨rfl, rfl, fun _ => rfl⟩)
  | save clock providerId apiBaseUrl apiKey =>
    unfold CredentialCall.plan at h
    dsimp only at h
    split at h
    · cases h
    obtain ⟨store, -, rfl⟩ := Option.map_eq_some_iff.mp h
    cases apiKey with
    | none => exact .inr (.inr ⟨rfl, rfl, rfl, fun _ => rfl⟩)
    | some key =>
      have hcredit (keys : Keys) : (CredentialCall.save clock providerId apiBaseUrl (some key)).credit keys =
          Function.update keys (normalizeProviderId providerId) (optionalTrimmed key) := rfl
      simp only [hcredit]
      cases optionalTrimmed key with
      | none => exact .inr (.inl ⟨rfl, rfl, fun _ => rfl⟩)
      | some trimmed => exact .inl ⟨_, _, rfl, rfl, fun _ => rfl⟩

theorem run_of_plan {call : CredentialCall} {plan : Plan} (fault : Option Fault) (hformed : disk.Formed)
    (hplan : call.plan disk = some plan) :
    ∃ store, call.run fault disk = plan.after store disk (plan.stage disk fault) ∧
      (plan.stage disk fault = .done → Written plan disk store) := by
  cases call with
  | resolve ref => cases hplan
  | delete => exact delete_run hformed hplan
  | save => exact save_run hformed hplan

/-! ## the files after a call -/

theorem secrets_without (deletes : Option String) (file : String) :
    (disk.without deletes).secrets file = if deletes = some file then none else disk.secrets file := by
  cases deletes with
  | none => rfl
  | some name =>
    show Function.update disk.secrets name none file = _
    by_cases hfile : file = name
    · rw [hfile, Function.update_self, if_pos rfl]
    · rw [Function.update_of_ne hfile, if_neg fun h => hfile (Option.some.inj h).symm]

theorem secrets_wrote_of {new : String × String} (content : String → FileState String) :
    (disk.wrote (some new) content).secrets (secretFile new.1) = some (content new.2) :=
  Function.update_self ..

theorem secrets_wrote_of_ne {writes : Option (String × String)} {file : String} (content : String → FileState String)
    (h : ∀ new, writes = some new → secretFile new.1 ≠ file) :
    (disk.wrote writes content).secrets file = disk.secrets file := by
  cases writes with
  | none => rfl
  | some new => exact Function.update_of_ne (h new rfl).symm ..

theorem spares_iff (plan : Plan) (store : ProviderProfileStore) {file key : String} (stage : Stage)
    (h : disk.secrets file = some (.whole key)) :
    (plan.after store disk stage).2.secrets file = some (.whole key) ↔ plan.Spares file key stage := by
  have hwithout : (disk.without plan.deletes).secrets file = some (.whole key) ↔ plan.deletes ≠ some file := by
    rw [secrets_without]
    by_cases hfile : plan.deletes = some file
    · rw [if_pos hfile]
      exact iff_of_false nofun fun hne => hne hfile
    · rw [if_neg hfile]
      exact iff_of_true h hfile
  have hwhole : ((disk.without plan.deletes).wrote plan.writes .whole).secrets file = some (.whole key) ↔
      plan.Spares file key .written := by
    by_cases hnew : ∃ new, plan.writes = some new ∧ secretFile new.1 = file
    · obtain ⟨new, hwrites, rfl⟩ := hnew
      rw [hwrites, secrets_wrote_of]
      constructor
      · intro hsame
        have hkey : new.2 = key := FileState.whole.inj (Option.some.inj hsame)
        refine ⟨fun other hother _ => ?_, fun _ => ⟨new, hwrites, rfl⟩⟩
        rwa [← Option.some.inj (hwrites.symm.trans hother)]
      · rintro ⟨hkey, -⟩
        rw [hkey new hwrites rfl]
    · rw [secrets_wrote_of_ne _ fun new hwrites hfile => hnew ⟨new, hwrites, hfile⟩, hwithout]
      constructor
      · intro hne
        exact ⟨fun new hwrites hfile => absurd ⟨new, hwrites, hfile⟩ hnew, fun hdeletes => absurd hdeletes hne⟩
      · exact fun hspares hdeletes => hnew (hspares.2 hdeletes)
  cases stage with
  | untouched => exact iff_of_true h trivial
  | deleted => exact hwithout
  | broken =>
    show ((disk.without plan.deletes).wrote plan.writes fun _ => .torn).secrets file = _ ↔ _
    by_cases hnew : ∃ new, plan.writes = some new ∧ secretFile new.1 = file
    · obtain ⟨new, hwrites, rfl⟩ := hnew
      rw [hwrites, secrets_wrote_of]
      exact iff_of_false (fun htorn => nomatch Option.some.inj htorn) fun hspares => hspares.2 new hwrites rfl
    · have hother : ∀ new, plan.writes = some new → secretFile new.1 ≠ file :=
        fun new hwrites hfile => hnew ⟨new, hwrites, hfile⟩
      rw [secrets_wrote_of_ne _ hother, hwithout]
      exact (and_iff_left hother).symm
  | written | torn | done => exact hwhole

/-! ## the map -/

/-- the ref of a provider leads to its key -/
def Held (disk : CredentialDisk) (keys : Keys) (providerId : String) : Prop :=
  match disk.ref? providerId with
  | none => keys providerId = none
  | some ref => ∃ key, keys providerId = some key ∧ disk.secrets (secretFile ref) = some (.whole key)

theorem listProfiles_of_store (h : disk.store? = some store) :
    listProfiles disk now = .ok (ensureDefaultProfiles store now).values := by
  unfold CredentialDisk.store? at h
  unfold listProfiles
  rcases hprofiles : disk.profiles with _ | (whole | _)
  · rw [hprofiles] at h
    obtain rfl := Option.some.inj h
    rfl
  · rw [hprofiles] at h
    obtain rfl := Option.some.inj h
    rfl
  · rw [hprofiles] at h
    cases h

theorem listProfiles_of_none (h : disk.store? = none) : listProfiles disk now = .error .invalidData := by
  unfold CredentialDisk.store? at h
  unfold listProfiles
  rcases hprofiles : disk.profiles with _ | (whole | _)
  · rw [hprofiles] at h
    cases h
  · rw [hprofiles] at h
    cases h
  · rfl

theorem mem_listed (hformed : Formed store) {record : ProviderProfileRecord}
    (h : record ∈ (ensureDefaultProfiles store now).values) : record.credentialRef = refOf store record.providerId := by
  obtain ⟨k, hk⟩ := Table.mem_values.mp h
  have hid := ((hformed.ensure now) k record hk).1
  rw [hid, ← refOf_ensure store now, refOf, hk]
  rfl

theorem exists_listed (now : Nat) (hformed : Formed store) (h : refOf store p = some ref) :
    ∃ record ∈ (ensureDefaultProfiles store now).values, record.providerId = p ∧ record.credentialRef = some ref := by
  rw [← refOf_ensure store now] at h
  obtain ⟨record, hrecord, href⟩ := Option.bind_eq_some_iff.mp h
  exact ⟨record, Table.mem_values.mpr ⟨p, hrecord⟩, ((hformed.ensure now) p record hrecord).1, href⟩

theorem behaves_iff (hformed : run.disk.Formed) :
    Behaves run ↔ run.disk.store? ≠ none ∧ ∀ q, Held run.disk run.keys q := by
  constructor
  · intro h
    cases hstore : run.disk.store? with
    | none =>
      obtain ⟨profiles, hlist, -⟩ := h 0
      rw [listProfiles_of_none hstore] at hlist
      cases hlist
    | some store =>
      refine ⟨Option.some_ne_none _, fun q => ?_⟩
      have hmade := hformed store hstore
      obtain ⟨profiles, hlist, hresolves⟩ := h 0
      rw [listProfiles_of_store hstore] at hlist
      obtain rfl := Except.ok.inj hlist
      unfold Held
      rw [ref?_of_store hstore]
      cases href : refOf store q with
      | none =>
        cases hkey : run.keys q with
        | none => rfl
        | some key =>
          obtain ⟨record, hrecord, hid, hsome⟩ := hresolves.listed q key hkey
          rw [mem_listed hmade hrecord, hid, href] at hsome
          cases hsome
      | some ref =>
        obtain ⟨record, hrecord, rfl, hrecref⟩ := exists_listed 0 hmade href
        obtain ⟨key, hkey, hresolve⟩ := hresolves.resolves record hrecord ref hrecref
        exact ⟨key, hkey, (hmade.made href).resolves_iff.mp hresolve⟩
  · rintro ⟨hstore, hheld⟩ now
    obtain ⟨store, hstore⟩ := Option.ne_none_iff_exists'.mp hstore
    have hmade := hformed store hstore
    refine ⟨_, listProfiles_of_store hstore, ?_, ?_⟩
    · intro record hrecord ref hrecref
      have href : refOf store record.providerId = some ref := (mem_listed hmade hrecord).symm.trans hrecref
      have hthis := hheld record.providerId
      unfold Held at hthis
      rw [ref?_of_store hstore, href] at hthis
      obtain ⟨key, hkey, hfile⟩ := hthis
      exact ⟨key, hkey, (hmade.made href).resolves_iff.mpr hfile⟩
    · intro providerId key hkey
      have hthis := hheld providerId
      unfold Held at hthis
      rw [ref?_of_store hstore] at hthis
      cases href : refOf store providerId with
      | none =>
        rw [href] at hthis
        cases hthis.symm.trans hkey
      | some ref =>
        obtain ⟨record, hrecord, hid, hrecref⟩ := exists_listed now hmade href
        exact ⟨record, hrecord, hid, hrecref ▸ rfl⟩

/-! ## one call -/

theorem store?_after (plan : Plan) (store : ProviderProfileStore) (disk : CredentialDisk) {stage : Stage}
    (hdone : stage ≠ .done) (htorn : stage ≠ .torn) :
    (plan.after store disk stage).1 = false ∧ (plan.after store disk stage).2.profiles = disk.profiles := by
  have hwithout : (disk.without plan.deletes).profiles = disk.profiles := by
    cases plan.deletes <;> rfl
  have hwrote (content : String → FileState String) :
      ((disk.without plan.deletes).wrote plan.writes content).profiles = disk.profiles := by
    rw [← hwithout]
    cases plan.writes <;> rfl
  cases stage with
  | untouched => exact ⟨rfl, rfl⟩
  | deleted => exact ⟨rfl, hwithout⟩
  | broken | written => exact ⟨rfl, hwrote _⟩
  | torn => exact absurd rfl htorn
  | done => exact absurd rfl hdone

theorem ref?_congr (h : disk'.profiles = disk.profiles) : disk'.ref? p = disk.ref? p := by
  unfold CredentialDisk.ref? CredentialDisk.store?
  rw [h]

theorem ref?_made (hformed : disk.Formed) (h : disk.ref? p = some ref) : Made p ref := by
  obtain ⟨record, hrecord, href⟩ := Option.bind_eq_some_iff.mp h
  obtain ⟨store, hstore, hget⟩ := Option.bind_eq_some_iff.mp hrecord
  exact (hformed store hstore p record hget).2 ref href

theorem held_other {plan : Plan} {stage : Stage} {keys keys' : Keys} (hformed : disk.Formed)
    (hheld : Held disk keys q) (href : (plan.after store disk stage).2.ref? q = disk.ref? q)
      (hkeys : keys' q = keys q) :
    Held (plan.after store disk stage).2 keys' q ↔
      ∀ ref key, disk.ref? q = some ref → resolveSecret disk ref = .ok key →
        plan.Spares (secretFile ref) key stage := by
  unfold Held at hheld ⊢
  rw [href, hkeys]
  cases hq : disk.ref? q with
  | none =>
    rw [hq] at hheld
    exact iff_of_true hheld fun ref key hnone => absurd hnone.symm (Option.some_ne_none _)
  | some ref =>
    rw [hq] at hheld
    obtain ⟨key, hkey, hfile⟩ := hheld
    have hmade := ref?_made hformed hq
    constructor
    · rintro ⟨key', hkey', hfile'⟩ ref' other href' hresolve
      obtain rfl := Option.some.inj href'
      have hsame := (hmade.resolves_iff.mp hresolve).symm.trans hfile
      obtain rfl := FileState.whole.inj (Option.some.inj hsame)
      obtain rfl := Option.some.inj (hkey.symm.trans hkey')
      exact (spares_iff plan store stage hfile).mp hfile'
    · intro hspares
      exact ⟨key, hkey, (spares_iff plan store stage hfile).mpr
        (hspares ref key rfl (hmade.resolves_iff.mpr hfile))⟩

theorem held_own {call : CredentialCall} {plan : Plan} {keys : Keys} (hplan : call.plan disk = some plan)
    (hheld : Held disk keys plan.providerId) (hwritten : Written plan disk store) :
    Held (plan.after store disk .done).2 (call.credit keys) plan.providerId := by
  have href : (plan.after store disk .done).2.ref? plan.providerId = plan.leaves := by
    show refOf store plan.providerId = _
    rw [hwritten.2, if_pos rfl]
  unfold Held
  rw [href]
  rcases plan_cases hplan with ⟨ref, key, hwrites, hleaves, hcredit⟩ | ⟨-, hleaves, hcredit⟩ |
    ⟨hwrites, hdeletes, hleaves, hcredit⟩
  · rw [hleaves, hcredit, Function.update_self]
    refine ⟨key, rfl, ?_⟩
    show ((disk.without plan.deletes).wrote plan.writes .whole).secrets (secretFile ref) = _
    rw [hwrites]
    exact secrets_wrote_of FileState.whole
  · rw [hleaves, hcredit, Function.update_self]
  · rw [hleaves, hcredit]
    have hsecrets : (plan.after store disk .done).2.secrets = disk.secrets := by
      show ((disk.without plan.deletes).wrote plan.writes .whole).secrets = _
      rw [hwrites, hdeletes]
      rfl
    rw [hsecrets]
    exact hheld

theorem credit_of_ne {call : CredentialCall} {plan : Plan} {keys : Keys} (hplan : call.plan disk = some plan)
    (hq : q ≠ plan.providerId) : call.credit keys q = keys q := by
  rcases plan_cases hplan with ⟨_, _, -, -, hcredit⟩ | ⟨-, -, hcredit⟩ | ⟨-, -, -, hcredit⟩
  · rw [hcredit, Function.update_of_ne hq]
  · rw [hcredit, Function.update_of_ne hq]
  · rw [hcredit]

theorem formed_step (hformed : run.disk.Formed) (move : CredentialCall × Option Fault) :
    (run.step move).disk.Formed := by
  cases hplan : move.1.plan run.disk with
  | none =>
    show (move.1.run move.2 run.disk).2.Formed
    rw [(run_of_no_plan move.2 hplan run.keys).1]
    exact hformed
  | some plan =>
    obtain ⟨store, hrun, hwritten⟩ := run_of_plan move.2 hformed hplan
    show (move.1.run move.2 run.disk).2.Formed
    rw [hrun]
    intro after hafter
    by_cases hdone : plan.stage run.disk move.2 = .done
    · rw [hdone] at hafter
      obtain rfl := Option.some.inj hafter
      exact (hwritten hdone).1
    · by_cases htorn : plan.stage run.disk move.2 = .torn
      · rw [htorn] at hafter
        cases hafter
      · have hprofiles := (store?_after plan store run.disk hdone htorn).2
        refine hformed after ?_
        unfold CredentialDisk.store? at hafter ⊢
        rwa [hprofiles] at hafter

theorem behaves_step_iff (hformed : run.disk.Formed) (h : Behaves run) (move : CredentialCall × Option Fault) :
    Behaves (run.step move) ↔ Heeds run.disk move := by
  rw [behaves_iff hformed] at h
  obtain ⟨hstore, hheld⟩ := h
  rw [behaves_iff (formed_step hformed move)]
  cases hplan : move.1.plan run.disk with
  | none =>
    obtain ⟨hdisk, hkeys⟩ := run_of_no_plan move.2 hplan run.keys
    have hstep : run.step move = run := by
      unfold CredentialRun.step
      dsimp only
      rw [hdisk, hkeys]
    rw [hstep]
    exact iff_of_true ⟨hstore, hheld⟩ fun plan hsome => absurd (hplan.symm.trans hsome).symm (Option.some_ne_none _)
  | some plan =>
    obtain ⟨store, hrun, hwritten⟩ := run_of_plan move.2 hformed hplan
    have hheeds : Heeds run.disk move ↔ plan.stage run.disk move.2 ≠ .torn ∧
        ∀ q, (plan.stage run.disk move.2 = .done → q ≠ plan.providerId) → ∀ ref key,
          run.disk.ref? q = some ref → resolveSecret run.disk ref = .ok key →
            plan.Spares (secretFile ref) key (plan.stage run.disk move.2) := by
      constructor
      · intro h
        obtain ⟨htorn, hspares⟩ := h plan hplan
        exact ⟨htorn, fun q hq ref key href hkey => hspares q ref key href hkey hq⟩
      · rintro ⟨htorn, hspares⟩ plan' hplan'
        obtain rfl := Option.some.inj (hplan.symm.trans hplan')
        exact ⟨htorn, fun q ref key href hkey hq => hspares q hq ref key href hkey⟩
    rw [hheeds]
    have hstep : run.step move = ⟨(plan.after store run.disk (plan.stage run.disk move.2)).2,
        if (plan.after store run.disk (plan.stage run.disk move.2)).1 then move.1.credit run.keys else run.keys⟩ := by
      unfold CredentialRun.step
      dsimp only
      rw [hrun]
    rw [hstep]
    generalize hstage : plan.stage run.disk move.2 = stage at hwritten ⊢
    by_cases htorn : stage = .torn
    · subst htorn
      exact iff_of_false (fun h => h.1 rfl) fun h => h.1 rfl
    refine and_congr (iff_of_true ?_ htorn) (forall_congr' fun q => ?_)
    · by_cases hdone : stage = .done
      · subst hdone
        exact Option.some_ne_none _
      · have hprofiles := (store?_after plan store run.disk hdone htorn).2
        unfold CredentialDisk.store? at hstore ⊢
        dsimp only
        rwa [hprofiles]
    · by_cases hdone : stage = .done
      · subst hdone
        by_cases hq : q = plan.providerId
        · subst hq
          exact iff_of_true (held_own hplan (hheld _) (hwritten rfl)) fun hne => absurd rfl (hne rfl)
        · have href : (plan.after store run.disk .done).2.ref? q = run.disk.ref? q := by
            show refOf store q = _
            rw [(hwritten rfl).2, if_neg hq]
          exact (held_other hformed (hheld q) href (credit_of_ne hplan hq)).trans
            (imp_iff_right fun _ => hq).symm
      · obtain ⟨hfails, hprofiles⟩ := store?_after plan store run.disk hdone htorn
        rw [hfails, if_neg Bool.false_ne_true]
        exact (held_other hformed (hheld q) (ref?_congr hprofiles) rfl).trans
          (imp_iff_right fun h => absurd h hdone).symm

theorem runCalls_concat (moves : List (CredentialCall × Option Fault)) (move : CredentialCall × Option Fault) :
    runCalls (moves ++ [move]) = (runCalls moves).step move := List.foldl_append

theorem formed_runCalls (moves : List (CredentialCall × Option Fault)) : (runCalls moves).disk.Formed := by
  induction moves using List.reverseRecOn with
  | nil =>
    intro store hstore
    obtain rfl := Option.some.inj hstore
    exact fun providerId record h => absurd h.symm (Option.some_ne_none _)
  | append_singleton moves move ih =>
    rw [runCalls_concat]
    exact formed_step ih move

/-- the key of a listed credential -/
def Resolvable (disk : CredentialDisk) (providerId key : String) : Prop :=
  ∃ ref, disk.ref? providerId = some ref ∧ resolveSecret disk ref = .ok key

theorem resolvable_iff (hformed : run.disk.Formed) (hheld : Held run.disk run.keys p) :
    Resolvable run.disk p key ↔ run.keys p = some key := by
  unfold Held at hheld
  unfold Resolvable
  cases href : run.disk.ref? p with
  | none =>
    rw [href] at hheld
    rw [hheld]
    exact iff_of_false (fun ⟨_, hsome, _⟩ => absurd hsome.symm (Option.some_ne_none _)) nofun
  | some ref =>
    rw [href] at hheld
    obtain ⟨held, hkey, hfile⟩ := hheld
    have hmade := ref?_made hformed href
    constructor
    · rintro ⟨ref', href', hresolve⟩
      obtain rfl := Option.some.inj href'
      have hsame := hfile.symm.trans (hmade.resolves_iff.mp hresolve)
      rw [hkey, FileState.whole.inj (Option.some.inj hsame)]
    · intro hheld
      obtain rfl := Option.some.inj (hkey.symm.trans hheld)
      exact ⟨ref, rfl, hmade.resolves_iff.mpr hfile⟩

end

/-- **the store is a map** all along a run exactly when every call heeds it; and then a call that fails leaves every
credential as it was -/
theorem keys_kept_iff (moves : List (CredentialCall × Option Fault)) :
    ((∀ old, old <+: moves → Behaves (runCalls old)) ↔
      ∀ old move, old ++ [move] <+: moves → Heeds (runCalls old).disk move) ∧
    ((∀ old move, old ++ [move] <+: moves → Heeds (runCalls old).disk move) →
      ∀ old move, old ++ [move] <+: moves → (move.1.run move.2 (runCalls old).disk).1 = false →
        ∀ providerId key, Resolvable (runCalls old).disk providerId key →
          Resolvable (runCalls (old ++ [move])).disk providerId key) := by
  have hempty : Behaves (runCalls []) :=
    (behaves_iff (formed_runCalls [])).mpr ⟨Option.some_ne_none _, fun _ => rfl⟩
  have hiff := Recorded.forall_prefix_iff (P := fun old => Behaves (runCalls old))
    (Q := fun old move => Heeds (runCalls old).disk move) hempty (fun old move hold => by
      rw [runCalls_concat]
      exact behaves_step_iff (formed_runCalls old) hold move) moves
  refine ⟨hiff, fun hheeds old move hold hfails providerId key hkey => ?_⟩
  have hall := hiff.mpr hheeds
  have hbefore := (behaves_iff (formed_runCalls old)).mp (hall old ((List.prefix_append old [move]).trans hold))
  have hafter := (behaves_iff (formed_runCalls (old ++ [move]))).mp (hall _ hold)
  have hkeys : (runCalls (old ++ [move])).keys = (runCalls old).keys := by
    rw [runCalls_concat]
    exact if_neg (hfails ▸ Bool.false_ne_true)
  rw [resolvable_iff (formed_runCalls _) (hafter.2 providerId), hkeys]
  exact (resolvable_iff (formed_runCalls old) (hbefore.2 providerId)).mp hkey

/-! ## keys that are lost -/

def saveAt (now : Nat) (providerId key : String) (fault : Option Fault) : CredentialCall × Option Fault :=
  (.save ⟨now, now, now⟩ providerId none (some key), fault)

/-- a second key that the platform does not protect -/
def notProtected : List (CredentialCall × Option Fault) :=
  [saveAt 5 "open" "first" none, saveAt 6 "open" "second" (some .protection)]

/-- two providers in one millisecond -/
def sameFile : List (CredentialCall × Option Fault) := [saveAt 5 "a b" "first" none, saveAt 5 "a_b" "second" none]

/-- **a key is lost**: by a save that fails, and by one for another provider -/
theorem key_lost : ¬ Behaves (runCalls notProtected) ∧ ¬ Behaves (runCalls sameFile) := by
  have hresolve (moves : List (CredentialCall × Option Fault)) (providerId : String)
      (hlost : (runCalls moves).keys providerId = some "first" ∧
        ((runCalls moves).disk.ref? providerId).all fun ref =>
          (resolveSecret (runCalls moves).disk ref).toOption ≠ some "first") : ¬ Behaves (runCalls moves) := by
    intro h
    have hheld := ((behaves_iff (formed_runCalls moves)).mp h).2 providerId
    obtain ⟨ref, href, hkey⟩ := (resolvable_iff (formed_runCalls moves) hheld).mpr hlost.1
    have hall := hlost.2
    rw [href, Option.all_some, hkey] at hall
    exact absurd rfl (of_decide_eq_true hall)
  constructor
  · exact hresolve notProtected "open" (by decide +kernel)
  · exact hresolve sameFile "a b" (by decide +kernel)

end Credentials
