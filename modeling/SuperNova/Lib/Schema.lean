import SuperNova.Lib.Json
import Mathlib.Data.List.Forall2

/-!
# JSON schemas

The values that a schema accepts, over the keywords `type`, `enum`, `anyOf`, `required`, `properties`,
`additionalProperties`, `items` and the bounds.  A keyword says nothing about a value of another type,
so the keywords of a schema are independent of each other: `Accepts` is one conjunct a keyword.

* `Accepts`   the values that a schema accepts;
* `Full`      the values that give every declared property, and no other, at every depth;
* `objectOf`  the schemas that ask for exactly this, by `required` and `additionalProperties`.
-/

set_option linter.unusedSectionVars false

namespace Json

/-- the fields of an object; another value has none -/
def fields : Json → List (String × Json)
  | .obj l => l
  | _ => []

def asInt? : Json → Option Int
  | .num n => some n
  | _ => none

theorem get?_eq_find? (v : Json) (key : String) :
    v.get? key = (v.fields.find? fun f => f.1 == key).map (·.2) := by
  cases v <;> rfl

theorem mem_fields_of_get? {v w : Json} {key : String} (h : v.get? key = some w) : (key, w) ∈ v.fields := by
  rw [get?_eq_find?, Option.map_eq_some_iff] at h
  obtain ⟨f, hf, rfl⟩ := h
  have hkey : (f.1 == key) = true := List.find?_some (p := fun f : String × Json => f.1 == key) hf
  rw [beq_iff_eq] at hkey
  rw [← hkey]
  exact List.mem_of_find?_eq_some hf

theorem sizeOf_of_mem_fields {v w : Json} {key : String} (h : (key, w) ∈ v.fields) :
    sizeOf w < sizeOf v := by
  cases v with
  | obj l =>
    have hmem : sizeOf (key, w) < sizeOf l := List.sizeOf_lt_of_mem h
    have hpair : sizeOf (key, w) = 1 + sizeOf key + sizeOf w := rfl
    have hobj : sizeOf (Json.obj l) = 1 + sizeOf l := obj.sizeOf_spec l
    omega
  | _ => exact absurd h List.not_mem_nil

theorem sizeOf_of_get? {v w : Json} {key : String} (h : v.get? key = some w) : sizeOf w < sizeOf v :=
  sizeOf_of_mem_fields (mem_fields_of_get? h)

theorem sizeOf_of_mem_arr {w : Json} {l : List Json} (h : w ∈ l) : sizeOf w < sizeOf (Json.arr l) := by
  have hmem : sizeOf w < sizeOf l := List.sizeOf_lt_of_mem h
  have harr : sizeOf (Json.arr l) = 1 + sizeOf l := arr.sizeOf_spec l
  omega

/-- fields of the same names, in the same order, whose values are related -/
def Fieldwise (R : Json → Json → Prop) (l l' : List (String × Json)) : Prop :=
  List.Forall₂ (fun p q => R p.2 q.2 ∧ p.1 = q.1) l l'

section

variable {R : Json → Json → Prop} {l l' : List (String × Json)} {name : String} {p q : Json}

theorem Fieldwise.names_eq (h : Fieldwise R l l') : l.map (·.1) = l'.map (·.1) := by
  induction h with
  | nil => rfl
  | cons hp _ ih => rw [List.map_cons, List.map_cons, hp.2, ih]

theorem Fieldwise.left (h : Fieldwise R l l') (hp : (name, p) ∈ l) : ∃ q, (name, q) ∈ l' ∧ R p q := by
  induction h with
  | nil => exact absurd hp List.not_mem_nil
  | @cons a b l l' hab _ ih =>
    obtain rfl | hp := List.mem_cons.mp hp
    · have hb : (name, b.2) = b := Prod.ext hab.2 rfl
      exact ⟨b.2, by rw [hb]; exact List.mem_cons_self, hab.1⟩
    · obtain ⟨q, hq, hR⟩ := ih hp
      exact ⟨q, List.mem_cons_of_mem _ hq, hR⟩

theorem Fieldwise.right (h : Fieldwise R l l') (hq : (name, q) ∈ l') : ∃ p, (name, p) ∈ l ∧ R p q := by
  induction h with
  | nil => exact absurd hq List.not_mem_nil
  | @cons a b l l' hab _ ih =>
    obtain rfl | hq := List.mem_cons.mp hq
    · have ha : (name, a.2) = a := Prod.ext hab.2.symm rfl
      exact ⟨a.2, by rw [ha]; exact List.mem_cons_self, hab.1⟩
    · obtain ⟨p, hp, hR⟩ := ih hq
      exact ⟨p, List.mem_cons_of_mem _ hp, hR⟩

end

end Json

namespace Schema
open Json

variable {s v w item : Json} {key name : String} {l : List Json}

/-! ## keywords -/

/-- the declared properties of a schema -/
def properties (s : Json) : List (String × Json) := ((s.get? "properties").getD .null).fields

/-- the items of a keyword that holds an array -/
def listAt (s : Json) (key : String) : List Json := ((s.get? key).bind asArr?).getD []

def required (s : Json) : List String := (listAt s "required").filterMap asStr?

def closed (s : Json) : Prop := (s.get? "additionalProperties").bind asBool? = some false

theorem sizeOf_property (h : (name, w) ∈ properties s) : sizeOf w < sizeOf s := by
  cases hs : s.get? "properties" with
  | none => rw [properties, hs] at h; exact absurd h List.not_mem_nil
  | some p =>
    rw [properties, hs] at h
    exact (sizeOf_of_mem_fields h).trans (sizeOf_of_get? hs)

theorem sizeOf_listAt (h : w ∈ listAt s key) : sizeOf w < sizeOf s := by
  cases hs : s.get? key with
  | none => rw [listAt, hs] at h; exact absurd h List.not_mem_nil
  | some p =>
    rw [listAt, hs] at h
    cases p with
    | arr l => exact (sizeOf_of_mem_arr h).trans (sizeOf_of_get? hs)
    | _ => exact absurd h List.not_mem_nil

/-! ## the values that a schema accepts -/

/-- a value is of the type that a schema names -/
def ofType : String → Json → Bool
  | "null", .null => true
  | "boolean", .bool _ => true
  | "integer", .num _ => true
  | "number", .num _ => true
  | "number", .real _ => true
  | "string", .str _ => true
  | "array", .arr _ => true
  | "object", .obj _ => true
  | _, _ => false

/-- the bounds on a number, on a length and on a count -/
def Within (s v : Json) : Prop :=
  (∀ m n : Int, (s.get? "minimum").bind asInt? = some m → v = .num n → m ≤ n) ∧
  (∀ m n : Int, (s.get? "maximum").bind asInt? = some m → v = .num n → n ≤ m) ∧
  (∀ (m : Nat) (t : String), (s.get? "maxLength").bind asNat? = some m → v = .str t → t.length ≤ m) ∧
  (∀ (m : Nat) (l : List Json), (s.get? "maxItems").bind asNat? = some m → v = .arr l → l.length ≤ m)

/-- the keywords that bound a value -/
def bounds : List String := ["minimum", "maximum", "maxLength", "maxItems"]

theorem within_of_none (h : ∀ key ∈ bounds, s.get? key = none) : Within s v := by
  have hnone : ∀ key ∈ bounds, ∀ {α : Type} (f : Json → Option α), (s.get? key).bind f = none := by
    intro key hkey α f
    rw [h key hkey]
    rfl
  refine ⟨fun m n hm => ?_, fun m n hm => ?_, fun m t hm => ?_, fun m l hm => ?_⟩
  · rw [hnone "minimum" (by simp [bounds])] at hm
    exact absurd hm (Option.some_ne_none m).symm
  · rw [hnone "maximum" (by simp [bounds])] at hm
    exact absurd hm (Option.some_ne_none m).symm
  · rw [hnone "maxLength" (by simp [bounds])] at hm
    exact absurd hm (Option.some_ne_none m).symm
  · rw [hnone "maxItems" (by simp [bounds])] at hm
    exact absurd hm (Option.some_ne_none m).symm

theorem within_obj {fields : List (String × Json)} : Within s (.obj fields) := by
  refine ⟨fun m n _ h => ?_, fun m n _ h => ?_, fun m t _ h => ?_, fun m l _ h => ?_⟩ <;> cases h

theorem within_arr (h : s.get? "maxItems" = none) : Within s (.arr l) := by
  refine ⟨fun m n _ h => ?_, fun m n _ h => ?_, fun m t _ h => ?_, fun m l hm _ => ?_⟩
  · cases h
  · cases h
  · cases h
  · rw [h] at hm
    exact absurd hm.symm (Option.some_ne_none m)

/-- the values of an object that its schema declares are there or not; a closed schema has no other -/
def Keys (s v : Json) : Prop := ∀ fields, v = .obj fields →
  (∀ r ∈ required s, (v.get? r).isSome) ∧
  (closed s → ∀ f ∈ fields, f.1 ∈ (properties s).map (·.1))

def Accepts (s v : Json) : Prop :=
  (∀ t, s.strAt? "type" = some t → ofType t v) ∧
  (∀ e, s.get? "enum" = some (.arr e) → v ∈ e) ∧
  Within s v ∧ Keys s v ∧
  (∀ e, s.get? "anyOf" = some e → ∃ (a : Json) (_ : a ∈ listAt s "anyOf"), Accepts a v) ∧
  (∀ (name : String) (p : Json) (_ : (name, p) ∈ properties s) (w : Json), v.get? name = some w →
    Accepts p w) ∧
  (∀ (p : Json) (_ : s.get? "items" = some p) (l : List Json), v = .arr l → ∀ w ∈ l, Accepts p w)
termination_by sizeOf s
decreasing_by
  · exact sizeOf_listAt ‹_›
  · exact sizeOf_property ‹_›
  · exact sizeOf_of_get? ‹_›

/-- every declared property is there, and no other, at every depth -/
def Full (s v : Json) : Prop :=
  (s.strAt? "type" = some "object" → ∀ fields, v = .obj fields →
    (∀ (name : String) (p : Json) (_ : (name, p) ∈ properties s), ∃ w, v.get? name = some w ∧ Full p w) ∧
    ∀ f ∈ fields, f.1 ∈ (properties s).map (·.1)) ∧
  (s.strAt? "type" = some "array" →
    ∀ (p : Json) (_ : s.get? "items" = some p) (l : List Json), v = .arr l → ∀ w ∈ l, Full p w)
termination_by sizeOf s
decreasing_by
  · exact sizeOf_property ‹_›
  · exact sizeOf_of_get? ‹_›

theorem accepts_iff : Accepts s v ↔
    (∀ t, s.strAt? "type" = some t → ofType t v) ∧
    (∀ e, s.get? "enum" = some (.arr e) → v ∈ e) ∧
    Within s v ∧ Keys s v ∧
    (∀ e, s.get? "anyOf" = some e → ∃ a ∈ listAt s "anyOf", Accepts a v) ∧
    (∀ name p, (name, p) ∈ properties s → ∀ w, v.get? name = some w → Accepts p w) ∧
    (∀ p, s.get? "items" = some p → ∀ l, v = .arr l → ∀ w ∈ l, Accepts p w) := by
  rw [Accepts]
  simp only [exists_prop]

theorem full_iff : Full s v ↔
    (s.strAt? "type" = some "object" → ∀ fields, v = .obj fields →
      (∀ name p, (name, p) ∈ properties s → ∃ w, v.get? name = some w ∧ Full p w) ∧
      ∀ f ∈ fields, f.1 ∈ (properties s).map (·.1)) ∧
    (s.strAt? "type" = some "array" →
      ∀ p, s.get? "items" = some p → ∀ l, v = .arr l → ∀ w ∈ l, Full p w) := by
  rw [Full]

/-- a value that is neither an array nor an object -/
def Scalar (v : Json) : Prop := (∀ fields, v ≠ .obj fields) ∧ ∀ l, v ≠ .arr l

theorem Scalar.get?_eq (hv : Scalar v) : v.get? name = none := by
  cases v with
  | obj fields => exact absurd rfl (hv.1 fields)
  | _ => rfl

theorem Scalar.accepts_iff (hv : Scalar v) : Accepts s v ↔
    (∀ t, s.strAt? "type" = some t → ofType t v) ∧
    (∀ e, s.get? "enum" = some (.arr e) → v ∈ e) ∧ Within s v ∧
    ∀ e, s.get? "anyOf" = some e → ∃ a ∈ listAt s "anyOf", Accepts a v := by
  rw [Schema.accepts_iff]
  constructor
  · rintro ⟨htype, henum, hwithin, -, hany, -⟩
    exact ⟨htype, henum, hwithin, hany⟩
  · rintro ⟨htype, henum, hwithin, hany⟩
    refine ⟨htype, henum, hwithin, fun fields hf => absurd hf (hv.1 fields), hany, fun name p _ w hw => ?_,
      fun p _ l hl => absurd hl (hv.2 l)⟩
    rw [hv.get?_eq] at hw
    exact absurd hw.symm (Option.some_ne_none w)

/-! ## schemas that ask for every property -/

variable {props : List (String × Json)}

/-- the object schema that requires what it declares, and is closed -/
def objectOf (props : List (String × Json)) : Json :=
  .obj [("type", .str "object"), ("required", .arr (props.map fun p => .str p.1)),
    ("properties", .obj props), ("additionalProperties", .bool false)]

def arrayOf (item : Json) : Json := .obj [("type", .str "array"), ("items", item)]

@[simp] theorem type_objectOf : (objectOf props).strAt? "type" = some "object" := rfl
@[simp] theorem type_arrayOf : (arrayOf item).strAt? "type" = some "array" := rfl
@[simp] theorem items_arrayOf : (arrayOf item).get? "items" = some item := rfl

theorem required_objectOf : required (objectOf props) = props.map (·.1) := by
  have hlist : listAt (objectOf props) "required" = props.map fun p => Json.str p.1 := rfl
  rw [required, hlist, List.filterMap_map]
  have hsome : asStr? ∘ (fun p : String × Json => Json.str p.1) = fun p => some p.1 := rfl
  rw [hsome, ← List.filterMap_eq_map]
  rfl

theorem accepts_objectOf : Accepts (objectOf props) v ↔ ∃ fields, v = .obj fields ∧
    (∀ name p, (name, p) ∈ props → ∃ w, v.get? name = some w ∧ Accepts p w) ∧
    ∀ f ∈ fields, f.1 ∈ props.map (·.1) := by
  rw [accepts_iff]
  constructor
  · rintro ⟨htype, -, -, hkeys, -, hprops, -⟩
    have hobj : ofType "object" v = true := htype "object" rfl
    cases v with
    | obj fields =>
      obtain ⟨hreq, hclosed⟩ := hkeys fields rfl
      refine ⟨fields, rfl, fun name p hp => ?_, hclosed rfl⟩
      have hname : name ∈ required (objectOf props) := by
        rw [required_objectOf]
        exact List.mem_map_of_mem (f := (·.1)) hp
      obtain ⟨w, hw⟩ := Option.isSome_iff_exists.mp (hreq name hname)
      exact ⟨w, hw, hprops name p hp w hw⟩
    | _ => exact absurd hobj Bool.false_ne_true
  · rintro ⟨fields, rfl, hprops, hnames⟩
    have hunbounded : ∀ key ∈ bounds, (objectOf props).get? key = none := by simp [bounds, objectOf, get?]
    refine ⟨fun t ht => ?_, fun e he => absurd he.symm (Option.some_ne_none _), within_of_none hunbounded,
      fun fields' hf => ⟨fun r hr => ?_, fun _ => ?_⟩, fun e he => absurd he.symm (Option.some_ne_none _),
      fun name p hp w hw => ?_, fun p hp => absurd hp.symm (Option.some_ne_none _)⟩
    · rw [type_objectOf, Option.some.injEq] at ht
      rw [← ht]
      rfl
    · rw [required_objectOf] at hr
      obtain ⟨⟨name, p⟩, hp, rfl⟩ := List.mem_map.mp hr
      obtain ⟨w, hw, -⟩ := hprops name p hp
      rw [hw]
      rfl
    · rw [← Json.obj.inj hf]
      exact hnames
    · obtain ⟨w', hw', hacc⟩ := hprops name p hp
      rw [hw, Option.some.injEq] at hw'
      rw [hw']
      exact hacc

theorem accepts_arrayOf : Accepts (arrayOf item) v ↔ ∃ l, v = .arr l ∧ ∀ w ∈ l, Accepts item w := by
  rw [accepts_iff]
  constructor
  · rintro ⟨htype, -, -, -, -, -, hitems⟩
    have harr : ofType "array" v = true := htype "array" rfl
    cases v with
    | arr l => exact ⟨l, rfl, hitems item rfl l rfl⟩
    | _ => exact absurd harr Bool.false_ne_true
  · rintro ⟨l, rfl, hitems⟩
    have hunbounded : ∀ key ∈ bounds, (arrayOf item).get? key = none := by simp [bounds, arrayOf, get?]
    refine ⟨fun t ht => ?_, fun e he => absurd he.symm (Option.some_ne_none _), within_of_none hunbounded,
      fun fields hf => absurd hf (by simp), fun e he => absurd he.symm (Option.some_ne_none _),
      fun name p hp => absurd hp List.not_mem_nil, fun p hp l' hl => ?_⟩
    · rw [type_arrayOf, Option.some.injEq] at ht
      rw [← ht]
      rfl
    · rw [items_arrayOf, Option.some.injEq] at hp
      rw [← hp, ← Json.arr.inj hl]
      exact hitems

end Schema
