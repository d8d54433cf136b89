import SuperNova.Lib.Schema
import SuperNova.Provider.Toolset

/-!
# Strict tool schemas

In strict mode the provider takes only schemas whose objects are closed and require what they declare.
`deepseekStrictSchema` rewrites the parameters of a tool into this form or gives up.

* `deepseekStrictSchema`   the rewriting;
* `strict_strict`          a strict form is its own strict form;
* `accepts_strict`         the strict form accepts the full values of the schema;
* `accepts_of_strict`      and no other value, when the schema is plain.
-/

set_option linter.unusedSectionVars false

namespace Provider
open Json Schema

variable {s s' v : Json} {t : String} {props : List (String × Json)}

/-! ## the rewriting -/

def primitiveTypes : List String := ["string", "integer", "number", "boolean", "null"]

def primitiveOf (t : String) (description : Option String) (enum : Option (List Json)) : Json :=
  .obj ([("type", .str t)] ++ (description.map fun d => ("description", Json.str d)).toList ++
    (enum.map fun e => ("enum", Json.arr e)).toList)

/-- a primitive schema keeps its type, its description and its enum -/
def strictPrimitive (t : String) (schema : Json) : Json :=
  primitiveOf t (schema.strAt? "description") ((schema.get? "enum").bind asArr?)

def deepseekStrictSchema (schema : Json) : Option Json :=
  (schema.strAt? "type").bind fun t =>
    if t = "object" then
      if ((schema.get? "additionalProperties").bind asBool?).getD false then none
      else ((properties schema).attach.mapM fun p => (deepseekStrictSchema p.1.2).map (p.1.1, ·)).map objectOf
    else if t = "array" then
      match _h : schema.get? "items" with
      | some items => (deepseekStrictSchema items).map arrayOf
      | none => none
    else if t ∈ primitiveTypes then some (strictPrimitive t schema) else none
termination_by sizeOf schema
decreasing_by
  · exact sizeOf_property p.2
  · exact sizeOf_of_get? _h

/-- `object_parameters` -/
def objectParameters (required : List String) (properties : List (String × Json))
    (additionalProperties : Bool) : Json :=
  .obj [("type", .str "object"), ("required", .arr (required.map .str)), ("properties", .obj properties),
    ("additionalProperties", .bool additionalProperties)]

def stringParameter (description : String) : Json :=
  .obj [("type", .str "string"), ("description", .str description)]

/-- the parameters of `os.stat_path`, `os.read_file`, `os.hash_path` and `os.verify_artifact` -/
def pathParameters : Json :=
  objectParameters ["path"] [("path", stringParameter "Workspace-relative path."),
    ("reason", stringParameter "Short reason for requesting this capability.")] false

def providerToolSchemaIsStrictCompatible (schema : Json) : Bool := (deepseekStrictSchema schema).isSome

/-- the strict parameters of a tool: in strict mode, for a capability on the list, if they exist -/
def providerToolStrictParametersForDescriptor (strictCompatible : Bool) (parameters : Json)
    (strictModeEnabled : Bool) : Option Json :=
  if !strictModeEnabled || !strictCompatible then none
  else (deepseekStrictSchema parameters).bind fun strict =>
    if providerToolSchemaIsStrictCompatible strict then some strict else none

/-! ## what the rewriting gives -/

theorem forall₂_of_mapM {α β : Type} {f : α → Option β} {l : List α} : ∀ {l' : List β},
    l.mapM f = some l' → List.Forall₂ (fun a b => f a = some b) l l' := by
  induction l with
  | nil =>
    intro l' h
    rw [List.mapM_nil] at h
    cases h
    exact .nil
  | cons a l ih =>
    intro l' h
    rw [List.mapM_cons, Option.bind_eq_bind, Option.bind_eq_some_iff] at h
    obtain ⟨b, hb, h⟩ := h
    rw [Option.bind_eq_bind, Option.bind_eq_some_iff] at h
    obtain ⟨l₁, hl, h⟩ := h
    cases h
    exact .cons hb (ih hl)

theorem mapM_of_forall₂ {α β : Type} {f : α → Option β} {l : List α} {l' : List β}
    (h : List.Forall₂ (fun a b => f a = some b) l l') : l.mapM f = some l' := by
  induction h with
  | nil => rfl
  | cons hab _ ih =>
    rw [List.mapM_cons, hab, ih]
    rfl

theorem strict_of_object (ht : s.strAt? "type" = some "object")
    (hopen : (s.get? "additionalProperties").bind asBool? ≠ some true)
    (hprops : Fieldwise (fun p q => deepseekStrictSchema p = some q) (properties s) props) :
    deepseekStrictSchema s = some (objectOf props) := by
  have hclosed : ((s.get? "additionalProperties").bind asBool?).getD false = false := by
    cases h : (s.get? "additionalProperties").bind asBool? with
    | none => rfl
    | some b =>
      cases b with
      | false => rfl
      | true => exact absurd h hopen
  rw [deepseekStrictSchema, ht, Option.bind_some, if_pos rfl, hclosed, if_neg Bool.false_ne_true,
    Option.map_eq_some_iff]
  refine ⟨props, mapM_of_forall₂ ?_, rfl⟩
  rw [Fieldwise, ← List.attach_map_subtype_val (properties s), List.forall₂_map_left_iff] at hprops
  refine hprops.imp fun p q hq => ?_
  rw [hq.1, Option.map_some, hq.2]

theorem strict_of_array {items items' : Json} (ht : s.strAt? "type" = some "array")
    (hitems : s.get? "items" = some items) (h : deepseekStrictSchema items = some items') :
    deepseekStrictSchema s = some (arrayOf items') := by
  rw [deepseekStrictSchema, ht, Option.bind_some, if_neg (by decide), if_pos rfl]
  split
  next w hw =>
    rw [hitems, Option.some.injEq] at hw
    rw [← hw, h]
    rfl
  next hw =>
    rw [hitems] at hw
    exact absurd hw (Option.some_ne_none items)

theorem strict_of_primitive (ht : s.strAt? "type" = some t) (hprim : t ∈ primitiveTypes) :
    deepseekStrictSchema s = some (strictPrimitive t s) := by
  have hobj : t ≠ "object" := by
    rintro rfl
    exact absurd hprim (by decide)
  have harr : t ≠ "array" := by
    rintro rfl
    exact absurd hprim (by decide)
  rw [deepseekStrictSchema, ht, Option.bind_some, if_neg hobj, if_neg harr, if_pos hprim]

theorem strict_cases (h : deepseekStrictSchema s = some s') :
    (s.strAt? "type" = some "object" ∧ (s.get? "additionalProperties").bind asBool? ≠ some true ∧
      ∃ props, s' = objectOf props ∧
        Fieldwise (fun p q => deepseekStrictSchema p = some q) (properties s) props) ∨
    (s.strAt? "type" = some "array" ∧ ∃ items items', s.get? "items" = some items ∧
      deepseekStrictSchema items = some items' ∧ s' = arrayOf items') ∨
    ∃ t ∈ primitiveTypes, s.strAt? "type" = some t ∧ s' = strictPrimitive t s := by
  rw [deepseekStrictSchema, Option.bind_eq_some_iff] at h
  obtain ⟨t, ht, h⟩ := h
  split at h
  next hobj =>
    subst hobj
    split at h
    next => exact absurd h.symm (Option.some_ne_none _)
    next hopen =>
      rw [Option.map_eq_some_iff] at h
      obtain ⟨props, hprops, rfl⟩ := h
      refine .inl ⟨ht, fun htrue => hopen (by rw [htrue]; rfl), props, rfl, ?_⟩
      have hall := forall₂_of_mapM hprops
      rw [Fieldwise, ← List.attach_map_subtype_val (properties s), List.forall₂_map_left_iff]
      refine hall.imp fun p q hq => ?_
      obtain ⟨w, hw, rfl⟩ := Option.map_eq_some_iff.mp hq
      exact ⟨hw, rfl⟩
  next =>
    split at h
    next harr =>
      subst harr
      split at h
      next items hitems =>
        rw [Option.map_eq_some_iff] at h
        obtain ⟨items', hitems', rfl⟩ := h
        exact .inr (.inl ⟨ht, items, items', hitems, hitems', rfl⟩)
      next => exact absurd h.symm (Option.some_ne_none _)
    next =>
      split at h
      next hprim =>
        rw [Option.some.injEq] at h
        exact .inr (.inr ⟨t, hprim, ht, h.symm⟩)
      next => exact absurd h.symm (Option.some_ne_none _)

/-- **induction along the rewriting**: one case for each of the three kinds of schema -/
theorem strict_induction {motive : Json → Json → Prop}
    (object : ∀ s props, s.strAt? "type" = some "object" →
      (s.get? "additionalProperties").bind asBool? ≠ some true →
      Fieldwise motive (properties s) props → motive s (objectOf props))
    (array : ∀ s items items', s.strAt? "type" = some "array" → s.get? "items" = some items →
      motive items items' → motive s (arrayOf items'))
    (primitive : ∀ s, ∀ t ∈ primitiveTypes, s.strAt? "type" = some t → motive s (strictPrimitive t s)) :
    ∀ s s', deepseekStrictSchema s = some s' → motive s s' := by
  intro s
  induction hn : sizeOf s using Nat.strong_induction_on generalizing s with
  | _ n ih =>
    intro s' h
    obtain ⟨ht, hopen, props, rfl, hprops⟩ | ⟨ht, items, items', hi, hi', rfl⟩ | ⟨t, hprim, ht, rfl⟩ := strict_cases h
    · refine object s props ht hopen ?_
      rw [Fieldwise, List.forall₂_iff_zip] at hprops ⊢
      refine ⟨hprops.1, fun {p q} hpq => ?_⟩
      obtain ⟨hstrict, hname⟩ := hprops.2 hpq
      have hsize : sizeOf p.2 < n := hn ▸ sizeOf_property (List.of_mem_zip hpq).1
      exact ⟨ih _ hsize p.2 rfl q.2 hstrict, hname⟩
    · have hsize : sizeOf items < n := hn ▸ sizeOf_of_get? hi
      exact array s items items' ht hi (ih _ hsize items rfl items' hi')
    · exact primitive s t hprim ht

/-! ## primitive schemas -/

theorem scalar_of_ofType (ht : t ∈ primitiveTypes) (hv : ofType t v = true) : Scalar v := by
  simp only [primitiveTypes, List.mem_cons, List.not_mem_nil, or_false] at ht
  constructor
  · rintro fields rfl
    obtain rfl | rfl | rfl | rfl | rfl := ht <;> exact absurd hv Bool.false_ne_true
  · rintro l rfl
    obtain rfl | rfl | rfl | rfl | rfl := ht <;> exact absurd hv Bool.false_ne_true

@[simp] theorem type_strictPrimitive : (strictPrimitive t s).strAt? "type" = some t := rfl

theorem enum_primitiveOf (d : Option String) (e : Option (List Json)) :
    (primitiveOf t d e).get? "enum" = e.map .arr := by
  cases d <;> cases e <;> rfl

theorem description_primitiveOf (d : Option String) (e : Option (List Json)) :
    (primitiveOf t d e).strAt? "description" = d := by
  cases d <;> cases e <;> rfl

theorem get?_primitiveOf {key : String} (hkey : key ∉ ["type", "description", "enum"])
    (d : Option String) (e : Option (List Json)) : (primitiveOf t d e).get? key = none := by
  simp only [List.mem_cons, List.not_mem_nil, or_false, not_or] at hkey
  obtain ⟨ht, hd, he⟩ := hkey
  cases d <;> cases e <;> simp [primitiveOf, get?, Ne.symm ht, Ne.symm hd, Ne.symm he]

theorem bind_map_arr (e : Option (List Json)) : (e.map Json.arr).bind asArr? = e := by
  cases e <;> rfl

theorem strictPrimitive_strictPrimitive : strictPrimitive t (strictPrimitive t s) = strictPrimitive t s := by
  rw [strictPrimitive, strictPrimitive, enum_primitiveOf, description_primitiveOf, bind_map_arr]

theorem enum_eq_iff {e : List Json} : ((s.get? "enum").bind asArr?).map Json.arr = some (.arr e) ↔
    s.get? "enum" = some (.arr e) := by
  rw [Option.map_eq_some_iff]
  constructor
  · rintro ⟨e', he', heq⟩
    obtain ⟨w, hw, hwe⟩ := Option.bind_eq_some_iff.mp he'
    rw [hw]
    cases w with
    | arr l =>
      obtain rfl : l = e' := Option.some.inj hwe
      rw [heq]
    | _ => exact absurd hwe.symm (Option.some_ne_none e')
  · intro h
    refine ⟨e, ?_, rfl⟩
    rw [h]
    rfl

theorem accepts_strictPrimitive (ht : t ∈ primitiveTypes) : Accepts (strictPrimitive t s) v ↔
    ofType t v = true ∧ ∀ e, s.get? "enum" = some (.arr e) → v ∈ e := by
  constructor
  · intro h
    obtain ⟨htype, henum, -⟩ := accepts_iff.mp h
    refine ⟨htype t rfl, fun e he => henum e ?_⟩
    rw [strictPrimitive, enum_primitiveOf]
    exact enum_eq_iff.mpr he
  · rintro ⟨htype, henum⟩
    rw [(scalar_of_ofType ht htype).accepts_iff]
    refine ⟨fun t' ht' => ?_, fun e he => henum e ?_, within_of_none fun key hkey => get?_primitiveOf ?_ _ _,
      fun e he => ?_⟩
    · rw [type_strictPrimitive, Option.some.injEq] at ht'
      rw [← ht']
      exact htype
    · rw [strictPrimitive, enum_primitiveOf] at he
      exact enum_eq_iff.mp he
    · simp only [bounds, List.mem_cons, List.not_mem_nil, or_false] at hkey
      obtain rfl | rfl | rfl | rfl := hkey <;> decide
    · rw [strictPrimitive, get?_primitiveOf (by decide)] at he
      exact absurd he.symm (Option.some_ne_none e)

theorem strict_stringParameter (d : String) :
    deepseekStrictSchema (stringParameter d) = some (stringParameter d) :=
  strict_of_primitive (t := "string") rfl (by decide)

theorem strict_pathParameters : providerToolStrictParametersForDescriptor true pathParameters true =
    some (objectOf (properties pathParameters)) := by
  have hfields : Fieldwise (fun p q => deepseekStrictSchema p = some q) (properties pathParameters)
      (properties pathParameters) :=
    .cons ⟨strict_stringParameter _, rfl⟩ (.cons ⟨strict_stringParameter _, rfl⟩ .nil)
  have hstrict := strict_of_object (s := pathParameters) rfl (by rintro ⟨⟩) hfields
  have hagain := strict_of_object (s := objectOf (properties pathParameters)) rfl (by rintro ⟨⟩) hfields
  rw [providerToolStrictParametersForDescriptor, hstrict, Option.bind_some,
    providerToolSchemaIsStrictCompatible, hagain]
  rfl

/-! ## what the rewriting preserves -/

/-- the keywords that the rewriting drops from a schema of a type -/
def dropped (t : String) : List String :=
  if t ∈ primitiveTypes then "anyOf" :: bounds else ["enum", "anyOf", "maxItems"]

/-- a schema that says nothing that the rewriting drops, at every depth -/
def Expressible (s : Json) : Prop :=
  (∀ t, s.strAt? "type" = some t → ∀ key ∈ dropped t, s.get? key = none) ∧
  (∀ r ∈ required s, r ∈ (properties s).map (·.1)) ∧
  (∀ (name : String) (p : Json) (_ : (name, p) ∈ properties s), Expressible p) ∧
  (∀ (p : Json) (_ : s.get? "items" = some p), Expressible p)
termination_by sizeOf s
decreasing_by
  · exact sizeOf_property ‹_›
  · exact sizeOf_of_get? ‹_›

theorem expressible_iff : Expressible s ↔
    (∀ t, s.strAt? "type" = some t → ∀ key ∈ dropped t, s.get? key = none) ∧
    (∀ r ∈ required s, r ∈ (properties s).map (·.1)) ∧
    (∀ name p, (name, p) ∈ properties s → Expressible p) ∧ (∀ p, s.get? "items" = some p → Expressible p) := by
  rw [Expressible]

theorem full_of_strict : deepseekStrictSchema s = some s' → Accepts s' v → Full s v := by
  intro h
  refine strict_induction (motive := fun s s' => ∀ v, Accepts s' v → Full s v) ?_ ?_ ?_ s s' h v
  · intro s props ht _ hprops v hv
    obtain ⟨fields, rfl, hall, hnames⟩ := accepts_objectOf.mp hv
    refine full_iff.mpr ⟨fun _ fields' hf => ⟨fun name p hp => ?_, fun f hf' => ?_⟩, fun harr => ?_⟩
    · obtain ⟨q, hq, ih⟩ := hprops.left hp
      obtain ⟨w, hw, hacc⟩ := hall name q hq
      exact ⟨w, hw, ih w hacc⟩
    · rw [hprops.names_eq]
      rw [← obj.inj hf] at hf'
      exact hnames f hf'
    · rw [ht] at harr
      exact absurd (Option.some.inj harr) (by decide)
  · intro s items items' ht hitems ih v hv
    obtain ⟨l, rfl, hall⟩ := accepts_arrayOf.mp hv
    refine full_iff.mpr ⟨fun hobj => ?_, fun _ p hp l' hl w hw => ?_⟩
    · rw [ht] at hobj
      exact absurd (Option.some.inj hobj) (by decide)
    · rw [hitems, Option.some.injEq] at hp
      rw [← arr.inj hl] at hw
      rw [← hp]
      exact ih w (hall w hw)
  · intro s t hprim ht v hv
    obtain ⟨hscalar, harr⟩ := scalar_of_ofType hprim ((accepts_strictPrimitive hprim).mp hv).1
    exact full_iff.mpr ⟨fun _ fields hf => absurd hf (hscalar fields), fun _ p _ l hl => absurd hl (harr l)⟩

theorem accepts_strict : deepseekStrictSchema s = some s' → Accepts s v → Full s v → Accepts s' v := by
  intro h
  refine strict_induction (motive := fun s s' => ∀ v, Accepts s v → Full s v → Accepts s' v) ?_ ?_ ?_ s s' h v
  · intro s props ht _ hprops v hv hfull
    obtain ⟨htype, -, -, -, -, hdeclared, -⟩ := accepts_iff.mp hv
    have hobj : ofType "object" v = true := htype "object" ht
    cases v with
    | obj fields =>
      obtain ⟨hgives, hnames⟩ := (full_iff.mp hfull).1 ht fields rfl
      refine accepts_objectOf.mpr ⟨fields, rfl, fun name q hq => ?_, ?_⟩
      · obtain ⟨p, hp, ih⟩ := hprops.right hq
        obtain ⟨w, hw, hwfull⟩ := hgives name p hp
        exact ⟨w, hw, ih w (hdeclared name p hp w hw) hwfull⟩
      · rw [← hprops.names_eq]
        exact hnames
    | _ => exact absurd hobj Bool.false_ne_true
  · intro s items items' ht hitems ih v hv hfull
    obtain ⟨htype, -, -, -, -, -, hall⟩ := accepts_iff.mp hv
    have harr : ofType "array" v = true := htype "array" ht
    cases v with
    | arr l =>
      have hfulls := (full_iff.mp hfull).2 ht items hitems l rfl
      exact accepts_arrayOf.mpr ⟨l, rfl, fun w hw => ih w (hall items hitems l rfl w hw) (hfulls w hw)⟩
    | _ => exact absurd harr Bool.false_ne_true
  · intro s t hprim ht v hv _
    obtain ⟨htype, henum, -⟩ := accepts_iff.mp hv
    exact (accepts_strictPrimitive hprim).mpr ⟨htype t ht, henum⟩

theorem accepts_of_strict : deepseekStrictSchema s = some s' → Expressible s → Accepts s' v → Accepts s v := by
  intro h
  refine strict_induction (motive := fun s s' => ∀ v, Expressible s → Accepts s' v → Accepts s v) ?_ ?_ ?_ s s' h v
  · intro s props ht _ hprops v hplain hv
    obtain ⟨hdropped, hrequired, hinner, -⟩ := expressible_iff.mp hplain
    obtain ⟨fields, rfl, hall, hnames⟩ := accepts_objectOf.mp hv
    have hnone : ∀ key ∈ dropped "object", s.get? key = none := hdropped "object" ht
    refine accepts_iff.mpr ⟨fun t h => ?_, fun e he => ?_, ?_, fun fields' hf => ⟨fun r hr => ?_, fun _ => ?_⟩,
      fun e he => ?_, fun name p hp w hw => ?_, fun p _ l hl => absurd hl (by simp)⟩
    · rw [ht, Option.some.injEq] at h
      rw [← h]
      rfl
    · rw [hnone "enum" (by decide)] at he
      exact absurd he.symm (Option.some_ne_none _)
    · exact within_obj
    · obtain ⟨⟨name, p⟩, hp, rfl⟩ := List.mem_map.mp (hrequired r hr)
      obtain ⟨q, hq, -⟩ := hprops.left hp
      obtain ⟨w, hw, -⟩ := hall name q hq
      rw [hw]
      rfl
    · rw [← obj.inj hf, hprops.names_eq]
      exact hnames
    · rw [hnone "anyOf" (by decide)] at he
      exact absurd he.symm (Option.some_ne_none _)
    · obtain ⟨q, hq, ih⟩ := hprops.left hp
      obtain ⟨w', hw', hacc⟩ := hall name q hq
      rw [hw, Option.some.injEq] at hw'
      rw [hw']
      exact ih w' (hinner name p hp) hacc
  · intro s items items' ht hitems ih v hplain hv
    obtain ⟨hdropped, -, -, hinner⟩ := expressible_iff.mp hplain
    obtain ⟨l, rfl, hall⟩ := accepts_arrayOf.mp hv
    have hnone : ∀ key ∈ dropped "array", s.get? key = none := hdropped "array" ht
    refine accepts_iff.mpr ⟨fun t h => ?_, fun e he => ?_, within_arr (hnone "maxItems" (by decide)),
      fun fields hf => absurd hf (by simp), fun e he => ?_,
      fun name p _ w hw => absurd hw.symm (Option.some_ne_none w), fun p hp l' hl w hw => ?_⟩
    · rw [ht, Option.some.injEq] at h
      rw [← h]
      rfl
    · rw [hnone "enum" (by decide)] at he
      exact absurd he.symm (Option.some_ne_none _)
    · rw [hnone "anyOf" (by decide)] at he
      exact absurd he.symm (Option.some_ne_none _)
    · rw [hitems, Option.some.injEq] at hp
      rw [← arr.inj hl] at hw
      rw [← hp]
      exact ih w (hinner items hitems) (hall w hw)
  · intro s t hprim ht v hplain hv
    obtain ⟨htype, henum⟩ := (accepts_strictPrimitive hprim).mp hv
    have hnone : ∀ key ∈ "anyOf" :: bounds, s.get? key = none := by
      have hdropped := (expressible_iff.mp hplain).1 t ht
      rwa [dropped, if_pos hprim] at hdropped
    refine (scalar_of_ofType hprim htype).accepts_iff.mpr ⟨fun t' h => ?_, henum,
      within_of_none fun key hkey => hnone key (List.mem_cons_of_mem _ hkey), fun e he => ?_⟩
    · rw [ht, Option.some.injEq] at h
      rw [← h]
      exact htype
    · rw [hnone "anyOf" List.mem_cons_self] at he
      exact absurd he.symm (Option.some_ne_none _)

theorem strict_strict : deepseekStrictSchema s = some s' → deepseekStrictSchema s' = some s' := by
  refine strict_induction (motive := fun _ s' => deepseekStrictSchema s' = some s') ?_ ?_ ?_ s s'
  · intro s props _ _ hprops
    have hfixed : Fieldwise (fun p q => deepseekStrictSchema p = some q) props props := by
      refine List.forall₂_same.mpr fun p hp => ⟨?_, rfl⟩
      obtain ⟨_, _, hfix⟩ := hprops.right hp
      exact hfix
    exact strict_of_object type_objectOf (by rintro ⟨⟩) hfixed
  · intro s items items' _ _ hfix
    exact strict_of_array type_arrayOf items_arrayOf hfix
  · intro s t hprim _
    have h := strict_of_primitive (s := strictPrimitive t s) type_strictPrimitive hprim
    rwa [strictPrimitive_strictPrimitive] at h

/-- **the strict parameters of a tool**: the check on them never fails, they accept the full values of the
parameters, they accept full values only, and of plain parameters exactly those -/
theorem strictParameters_spec {parameters strict : Json} {strictCompatible mode : Bool}
    (h : providerToolStrictParametersForDescriptor strictCompatible parameters mode = some strict) :
    deepseekStrictSchema parameters = some strict ∧ deepseekStrictSchema strict = some strict ∧
      (∀ v, Accepts parameters v → Full parameters v → Accepts strict v) ∧
      (∀ v, Accepts strict v → Full parameters v) ∧
      (Expressible parameters → ∀ v, Accepts strict v ↔ Accepts parameters v ∧ Full parameters v) := by
  rw [providerToolStrictParametersForDescriptor] at h
  split at h
  next => exact absurd h.symm (Option.some_ne_none _)
  next =>
    obtain ⟨s', hs', h⟩ := Option.bind_eq_some_iff.mp h
    split at h
    next =>
      obtain rfl : s' = strict := Option.some.inj h
      refine ⟨hs', strict_strict hs', fun v => accepts_strict hs', fun v => full_of_strict hs',
        fun hplain v => ⟨fun hv => ⟨accepts_of_strict hs' hplain hv, full_of_strict hs' hv⟩, ?_⟩⟩
      rintro ⟨hv, hfull⟩
      exact accepts_strict hs' hv hfull
    next => exact absurd h.symm (Option.some_ne_none _)

theorem expressible_stringParameter (d : String) : Expressible (stringParameter d) := by
  refine expressible_iff.mpr ⟨fun t ht key hkey => ?_, fun r hr => absurd hr List.not_mem_nil,
    fun name p hp => absurd hp List.not_mem_nil, fun p hp => absurd hp.symm (Option.some_ne_none p)⟩
  obtain rfl : "string" = t := Option.some.inj ht
  have hkeys : dropped "string" = "anyOf" :: bounds := by decide
  simp only [hkeys, bounds, List.mem_cons, List.not_mem_nil, or_false] at hkey
  obtain rfl | rfl | rfl | rfl | rfl := hkey <;> rfl

theorem expressible_pathParameters : Expressible pathParameters := by
  refine expressible_iff.mpr ⟨fun t ht key hkey => ?_, ?_, fun name p hp => ?_,
    fun p hp => absurd hp.symm (Option.some_ne_none p)⟩
  · obtain rfl : "object" = t := Option.some.inj ht
    have hkeys : dropped "object" = ["enum", "anyOf", "maxItems"] := by decide
    simp only [hkeys, List.mem_cons, List.not_mem_nil, or_false] at hkey
    obtain rfl | rfl | rfl := hkey <;> rfl
  · decide
  · obtain h | hp := List.mem_cons.mp hp
    · rw [(Prod.mk.inj h).2]
      exact expressible_stringParameter _
    · rw [(Prod.mk.inj (List.mem_singleton.mp hp)).2]
      exact expressible_stringParameter _

theorem strictParameters_spec_path :
    Accepts (objectOf (properties pathParameters)) (.obj [("path", .str "notes.md")]) ↔
      Accepts pathParameters (.obj [("path", .str "notes.md")]) ∧
        Full pathParameters (.obj [("path", .str "notes.md")]) :=
  (strictParameters_spec strict_pathParameters).2.2.2.2 expressible_pathParameters _

end Provider
