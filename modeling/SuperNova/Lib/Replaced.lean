import Mathlib.Data.List.Infix
import Mathlib.Data.List.Induction

/-!
# Entries that are replaced but for a label

An entry keeps the label that it was first written with, and has the content that it was last written with.

* `write`: a write, of a label and a content;
* `foldl_write_of_prefixes`: writing first some prefixes of a list and then the list leaves what the list alone
  leaves.
-/

namespace Replaced

variable {ℓ β : Type}

def write (entry : Option (ℓ × β)) (written : ℓ × β) : Option (ℓ × β) :=
  some ((entry.map (·.1)).getD written.1, written.2)

variable {entry other : Option (ℓ × β)} {first : ℓ × β} {rest : List (ℓ × β)}

theorem foldl_write_some (label : ℓ) (content : β) (l : List (ℓ × β)) :
    ∃ last, l.foldl write (some (label, content)) = some (label, last) := by
  induction l generalizing content with
  | nil => exact ⟨content, rfl⟩
  | cons w l ih => exact ih w.2

theorem foldl_write_cons (h : (entry.map (·.1)).getD first.1 = (other.map (·.1)).getD first.1) :
    (first :: rest).foldl write entry = (first :: rest).foldl write other := by
  rw [List.foldl_cons, List.foldl_cons, write, write, h]

theorem label_of_written {written : List (ℓ × β)} (h : written <+: first :: rest) :
    ((written.foldl write entry).map (·.1)).getD first.1 = (entry.map (·.1)).getD first.1 := by
  cases written with
  | nil => rfl
  | cons w l =>
    obtain ⟨rfl, -⟩ := List.cons_prefix_cons.mp h
    obtain ⟨last, hlast⟩ := foldl_write_some ((entry.map (·.1)).getD w.1) w.2 l
    have hfold : (w :: l).foldl write entry = some ((entry.map (·.1)).getD w.1, last) := hlast
    rw [hfold]
    rfl

/-- **prefixes leave no trace** behind the whole list -/
theorem foldl_write_of_prefixes {all : List (ℓ × β)} (earlier : List (List (ℓ × β)))
    (h : ∀ written ∈ earlier, written <+: all) (entry : Option (ℓ × β)) :
    all.foldl write (earlier.foldl (fun entry written => written.foldl write entry) entry) =
      all.foldl write entry := by
  induction earlier generalizing entry with
  | nil => rfl
  | cons written earlier ih =>
    have hwritten : written <+: all := h written List.mem_cons_self
    rw [List.foldl_cons, ih fun w hw => h w (List.mem_cons_of_mem _ hw)]
    cases all with
    | nil => rw [List.prefix_nil.mp hwritten, List.foldl_nil]
    | cons first rest => exact foldl_write_cons (label_of_written hwritten)

end Replaced
