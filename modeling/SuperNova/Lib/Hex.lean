import Mathlib.Data.Nat.Digits.Defs

/-!
# Numbers in hexadecimal

The value of a list of hexadecimal digits, which tells the numbers apart that are written with leading zeros.
-/

namespace Hex

/-- the value of a digit `0`–`9`, `a`–`f` -/
def digitVal (c : Char) : Nat := if c.toNat < 58 then c.toNat - 48 else c.toNat - 87

def ofDigits (l : List Char) : Nat := l.foldl (fun n c => n * 16 + digitVal c) 0

theorem digitVal_digitChar : ∀ d < 16, digitVal d.digitChar = d := by decide

theorem ofDigits_concat (l : List Char) (c : Char) : ofDigits (l ++ [c]) = ofDigits l * 16 + digitVal c :=
  List.foldl_append

theorem ofDigits_toDigits (n : Nat) : ofDigits (Nat.toDigits 16 n) = n := by
  induction n using Nat.strongRecOn with
  | ind n ih =>
    rcases Nat.lt_or_ge n 16 with hlt | hge
    · rw [Nat.toDigits_of_lt_base hlt]
      show 0 * 16 + digitVal n.digitChar = n
      rw [digitVal_digitChar n hlt, Nat.zero_mul, Nat.zero_add]
    · have hdigit : digitVal (n % 16).digitChar = n % 16 :=
        digitVal_digitChar _ (Nat.mod_lt _ (by decide))
      rw [Nat.toDigits_of_base_le (by decide) hge, ofDigits_concat, ih (n / 16) (by omega), hdigit]
      omega

theorem ofDigits_zeros (k : Nat) (l : List Char) : ofDigits (List.replicate k '0' ++ l) = ofDigits l := by
  induction k with
  | zero => rfl
  | succ k ih =>
    rw [List.replicate_succ, List.cons_append]
    exact ih

end Hex
