import Mathlib.Data.List.Infix

/-!
# Text files whose writes break off

A write that breaks off leaves the first bytes of the text.  What can be read of them are whole
characters; in the middle of a character they are not text at all.
-/

namespace Torn

/-- a file: the whole characters in it, and whether a part of one more follows -/
structure Content where
  text : List Char
  broken : Bool
  deriving DecidableEq

/-- a file with a whole text -/
def whole (text : List Char) : Content := ⟨text, false⟩

/-- the first bytes of a text -/
def cut : List Char → Nat → Content
  | [], _ => whole []
  | c :: text, bytes =>
    if bytes = 0 then whole []
    else if bytes < c.utf8Size then ⟨[], true⟩
    else ⟨c :: (cut text (bytes - c.utf8Size)).text, (cut text (bytes - c.utf8Size)).broken⟩

/-- `read_to_string` -/
def Content.read? (file : Content) : Option (List Char) :=
  if file.broken then none else some file.text

@[simp] theorem read_whole (text : List Char) : (whole text).read? = some text := rfl

theorem eq_whole_of_read {file : Content} {text : List Char} (h : file.read? = some text) :
    file = whole text := by
  obtain ⟨t, broken⟩ := file
  cases broken with
  | true => cases h
  | false => exact congrArg whole (Option.some.inj h)

theorem cut_prefix (text : List Char) : ∀ bytes, (cut text bytes).text <+: text := by
  induction text with
  | nil => exact fun _ => List.prefix_rfl
  | cons c text ih =>
    intro bytes
    unfold cut
    split
    · exact List.nil_prefix
    · split
      · exact List.nil_prefix
      · exact List.cons_prefix_cons.mpr ⟨rfl, ih _⟩

theorem read_cut {text read : List Char} {bytes : Nat} (h : (cut text bytes).read? = some read) :
    read <+: text := by
  unfold Content.read? at h
  split at h
  · cases h
  · exact Option.some.inj h ▸ cut_prefix text bytes

end Torn
