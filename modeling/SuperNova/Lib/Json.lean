import Mathlib.Data.List.Infix

/-!
# JSON values

The values a JSON document stands for; the fields of an object are a list of pairs, read by key.
-/

inductive Json where
  | null
  | bool (b : Bool)
  | num (n : Int)
  | real (text : String)
  | str (s : String)
  | arr (items : List Json)
  | obj (fields : List (String × Json))

namespace Json

/-- `Value::get` with a string key -/
def get? : Json → String → Option Json
  | .obj fields, key => (fields.find? fun f => f.1 == key).map (·.2)
  | _, _ => none

def asStr? : Json → Option String
  | .str s => some s
  | _ => none

def asArr? : Json → Option (List Json)
  | .arr l => some l
  | _ => none

def asBool? : Json → Option Bool
  | .bool b => some b
  | _ => none

/-- `Value::as_u64` -/
def asNat? : Json → Option Nat
  | .num (.ofNat n) => some n
  | _ => none

def strAt? (v : Json) (key : String) : Option String := (v.get? key).bind asStr?

def ofText? (text : Option String) : Json := text.elim .null .str

/-! ## equality -/

mutual
/-- equality of values, as a program -/
def beq : Json → Json → Bool
  | .null, .null => true
  | .bool a, .bool b => a == b
  | .num a, .num b => a == b
  | .real a, .real b => a == b
  | .str a, .str b => a == b
  | .arr a, .arr b => beqItems a b
  | .obj a, .obj b => beqFields a b
  | _, _ => false

def beqItems : List Json → List Json → Bool
  | [], [] => true
  | a :: l, b :: l' => beq a b && beqItems l l'
  | _, _ => false

def beqFields : List (String × Json) → List (String × Json) → Bool
  | [], [] => true
  | (k, a) :: l, (k', b) :: l' => k == k' && beq a b && beqFields l l'
  | _, _ => false
end

mutual
theorem eq_of_beq : ∀ a b : Json, beq a b = true → a = b
  | .null, b, h => by cases b <;> simp_all [beq]
  | .bool a, b, h => by cases b <;> simp_all [beq]
  | .num a, b, h => by cases b <;> simp_all [beq]
  | .real a, b, h => by cases b <;> simp_all [beq]
  | .str a, b, h => by cases b <;> simp_all [beq]
  | .arr l, b, h => by
    cases b with
    | arr l' => exact congrArg arr (eq_of_beqItems l l' h)
    | _ => exact absurd h Bool.false_ne_true
  | .obj l, b, h => by
    cases b with
    | obj l' => exact congrArg obj (eq_of_beqFields l l' h)
    | _ => exact absurd h Bool.false_ne_true

theorem eq_of_beqItems : ∀ l l' : List Json, beqItems l l' = true → l = l'
  | [], [], _ => rfl
  | a :: l, b :: l', h => by
    obtain ⟨hab, hl⟩ := Bool.and_eq_true_iff.mp h
    rw [eq_of_beq a b hab, eq_of_beqItems l l' hl]

theorem eq_of_beqFields : ∀ l l' : List (String × Json), beqFields l l' = true → l = l'
  | [], [], _ => rfl
  | (k, a) :: l, (k', b) :: l', h => by
    obtain ⟨hfield, hl⟩ := Bool.and_eq_true_iff.mp h
    obtain ⟨hk, hab⟩ := Bool.and_eq_true_iff.mp hfield
    rw [eq_of_beq a b hab, eq_of_beqFields l l' hl, beq_iff_eq.mp hk]
end

mutual
theorem beq_self : ∀ a : Json, beq a a = true
  | .null => rfl
  | .bool _ => by simp [beq]
  | .num _ => by simp [beq]
  | .real _ => by simp [beq]
  | .str _ => by simp [beq]
  | .arr l => beqItems_self l
  | .obj l => beqFields_self l

theorem beqItems_self : ∀ l : List Json, beqItems l l = true
  | [] => rfl
  | a :: l => by rw [beqItems, beq_self a, beqItems_self l]; rfl

theorem beqFields_self : ∀ l : List (String × Json), beqFields l l = true
  | [] => rfl
  | (k, a) :: l => by simp [beqFields, beq_self a, beqFields_self l]
end

instance : DecidableEq Json := fun a b =>
  decidable_of_iff (beq a b = true) ⟨eq_of_beq a b, fun h => h ▸ beq_self a⟩

end Json

/-- a JSON library: parsing and printing -/
structure Codec where
  parse : String → Except String Json
  render : Json → String
