import Mathlib.Data.Char
import Mathlib.Data.List.Basic

/-!
# A streaming decoder of UTF-8

The decoder takes byte after byte, so that its input may come in pieces.  A byte order mark at the start is dropped,
and a malformed sequence is replaced.

* `decode_append`: pieces decode to the pieces of the text;
* `decodeAll_encoded` (**main**): the bytes of a text decode to the text, without a byte order mark at its start.
-/

namespace Decoding

def replacement : Char := Char.ofNat 0xFFFD

def byteOrderMark : Char := Char.ofNat 0xFEFF

/-- the state of the decoder between two bytes -/
structure TextDecoder where
  codePoint : Nat := 0
  bytesSeen : Nat := 0
  bytesNeeded : Nat := 0
  lower : Nat := 0x80
  upper : Nat := 0xBF
  bomSeen : Bool := false

namespace TextDecoder

/-- between two characters -/
def between (bomSeen : Bool) : TextDecoder := { bomSeen }

def start : TextDecoder := between false

/-- a character of the output -/
def emit (bomSeen : Bool) (c : Char) : TextDecoder × List Char :=
  (between true, if ¬ bomSeen ∧ c = byteOrderMark then [] else [c])

/-- the first byte of a character -/
def first (bomSeen : Bool) (byte : Nat) : TextDecoder × List Char :=
  if byte ≤ 0x7F then emit bomSeen (Char.ofNat byte)
  else if 0xC2 ≤ byte ∧ byte ≤ 0xDF then ({ between bomSeen with bytesNeeded := 1, codePoint := byte % 0x20 }, [])
  else if 0xE0 ≤ byte ∧ byte ≤ 0xEF then
    ({ between bomSeen with
        bytesNeeded := 2
        codePoint := byte % 0x10
        lower := if byte = 0xE0 then 0xA0 else 0x80
        upper := if byte = 0xED then 0x9F else 0xBF }, [])
  else if 0xF0 ≤ byte ∧ byte ≤ 0xF4 then
    ({ between bomSeen with
        bytesNeeded := 3
        codePoint := byte % 0x8
        lower := if byte = 0xF0 then 0x90 else 0x80
        upper := if byte = 0xF4 then 0x8F else 0xBF }, [])
  else emit bomSeen replacement

def push (d : TextDecoder) (byte : Nat) : TextDecoder × List Char :=
  if d.bytesNeeded = 0 then first d.bomSeen byte
  else if byte < d.lower ∨ d.upper < byte then
    -- the byte is not part of the sequence and is taken again as the first of the next one
    let broken := emit d.bomSeen replacement
    let next := first true byte
    (next.1, broken.2 ++ next.2)
  else
    let codePoint := d.codePoint * 64 + byte % 64
    if d.bytesSeen + 1 = d.bytesNeeded then emit d.bomSeen (Char.ofNat codePoint)
    else ({ d with codePoint, bytesSeen := d.bytesSeen + 1, lower := 0x80, upper := 0xBF }, [])

/-- `decode` with more to come -/
def decode (d : TextDecoder) : List UInt8 → TextDecoder × List Char
  | [] => (d, [])
  | byte :: rest =>
    let here := d.push byte.toNat
    let later := decode here.1 rest
    (later.1, here.2 ++ later.2)

/-- `decode` at the end -/
def flush (d : TextDecoder) : List Char := if d.bytesNeeded = 0 then [] else (emit d.bomSeen replacement).2

end TextDecoder

open TextDecoder

/-- all the text of the bytes -/
def decodeAll (bytes : List UInt8) : List Char :=
  let d := start.decode bytes
  d.2 ++ d.1.flush

def encoded (text : List Char) : List UInt8 := text.flatMap String.utf8EncodeChar

def dropMark : List Char → List Char
  | [] => []
  | c :: rest => if c = byteOrderMark then rest else c :: rest

/-! ## pieces -/

theorem decode_append (d : TextDecoder) (a b : List UInt8) :
    d.decode (a ++ b) = (((d.decode a).1.decode b).1, (d.decode a).2 ++ ((d.decode a).1.decode b).2) := by
  induction a generalizing d with
  | nil => rfl
  | cons byte a ih => rw [List.cons_append, decode, ih, decode, List.append_assoc]

/-! ## the bytes of a character -/

section
variable {b : Bool} {c : Char} {d : TextDecoder} {n : Nat}

theorem decode_byte (hn : n < 256) (rest : List UInt8) : d.decode (UInt8.ofNat n :: rest) =
    (((d.push n).1.decode rest).1, (d.push n).2 ++ ((d.push n).1.decode rest).2) := by
  have hbyte : (UInt8.ofNat n).toNat = n := by
    rw [UInt8.toNat_ofNat']
    omega
  rw [decode, hbyte]

theorem push_first : (between b).push n = first b n := if_pos rfl

theorem push_middle (hmore : d.bytesSeen + 1 < d.bytesNeeded) (hlower : d.lower ≤ n) (hupper : n ≤ d.upper) :
    d.push n = ({ d with
      codePoint := d.codePoint * 64 + n % 64, bytesSeen := d.bytesSeen + 1, lower := 0x80, upper := 0xBF }, []) := by
  have hneeded : ¬ d.bytesNeeded = 0 := by omega
  have hlast : ¬ d.bytesSeen + 1 = d.bytesNeeded := by omega
  rw [push, if_neg hneeded, if_neg (by omega), if_neg hlast]

theorem push_last (hlast : d.bytesSeen + 1 = d.bytesNeeded) (hlower : d.lower ≤ n) (hupper : n ≤ d.upper) :
    d.push n = emit d.bomSeen (Char.ofNat (d.codePoint * 64 + n % 64)) := by
  have hneeded : ¬ d.bytesNeeded = 0 := by omega
  rw [push, if_neg hneeded, if_neg (by omega), if_pos hlast]

theorem emit_sum {m : Nat} (h : m = n) : emit b (Char.ofNat m) = emit b (Char.ofNat n) := by rw [h]

theorem decode_two (hlower : 0x7f < n) (hupper : n ≤ 0x7ff) :
    (between b).decode [UInt8.ofNat (n / 64 % 0x20 + 0xc0), UInt8.ofNat (n % 0x40 + 0x80)] = emit b (Char.ofNat n) := by
  have hfirst : first b (n / 64 % 0x20 + 0xc0) =
      ({ between b with bytesNeeded := 1, codePoint := (n / 64 % 0x20 + 0xc0) % 0x20 }, []) := by
    rw [first, if_neg (by omega), if_pos (by omega)]
  have hlow : 0x80 ≤ n % 0x40 + 0x80 := by omega
  have hhigh : n % 0x40 + 0x80 ≤ 0xBF := by omega
  rw [decode_byte (by omega), push_first, hfirst, decode_byte (by omega), push_last rfl hlow hhigh, decode,
    List.append_nil, List.nil_append]
  exact emit_sum (by dsimp only [between]; omega)

theorem decode_three (hlower : 0x7ff < n) (hupper : n ≤ 0xffff) (hvalid : n < 0xD800 ∨ 0xDFFF < n) :
    (between b).decode [UInt8.ofNat (n / 4096 % 0x10 + 0xe0), UInt8.ofNat (n / 64 % 0x40 + 0x80),
      UInt8.ofNat (n % 0x40 + 0x80)] = emit b (Char.ofNat n) := by
  have hfirst : first b (n / 4096 % 0x10 + 0xe0) =
      ({ between b with
          bytesNeeded := 2
          codePoint := (n / 4096 % 0x10 + 0xe0) % 0x10
          lower := if n / 4096 % 0x10 + 0xe0 = 0xE0 then 0xA0 else 0x80
          upper := if n / 4096 % 0x10 + 0xe0 = 0xED then 0x9F else 0xBF }, []) := by
    rw [first, if_neg (by omega), if_neg (by omega), if_pos (by omega)]
  have hlow : (if n / 4096 % 0x10 + 0xe0 = 0xE0 then 0xA0 else 0x80) ≤ n / 64 % 0x40 + 0x80 := by
    split <;> omega
  have hhigh : n / 64 % 0x40 + 0x80 ≤ (if n / 4096 % 0x10 + 0xe0 = 0xED then 0x9F else 0xBF) := by
    split <;> omega
  have hlow' : 0x80 ≤ n % 0x40 + 0x80 := by omega
  have hhigh' : n % 0x40 + 0x80 ≤ 0xBF := by omega
  rw [decode_byte (by omega), push_first, hfirst, decode_byte (by omega), push_middle Nat.one_lt_two hlow hhigh,
    decode_byte (by omega), push_last rfl hlow' hhigh', decode, List.append_nil, List.nil_append, List.nil_append]
  exact emit_sum (by dsimp only [between]; omega)

theorem decode_four (hlower : 0xffff < n) (hupper : n < 0x110000) :
    (between b).decode [UInt8.ofNat (n / 262144 % 0x08 + 0xf0), UInt8.ofNat (n / 4096 % 0x40 + 0x80),
      UInt8.ofNat (n / 64 % 0x40 + 0x80), UInt8.ofNat (n % 0x40 + 0x80)] = emit b (Char.ofNat n) := by
  have hfirst : first b (n / 262144 % 0x08 + 0xf0) =
      ({ between b with
          bytesNeeded := 3
          codePoint := (n / 262144 % 0x08 + 0xf0) % 0x8
          lower := if n / 262144 % 0x08 + 0xf0 = 0xF0 then 0x90 else 0x80
          upper := if n / 262144 % 0x08 + 0xf0 = 0xF4 then 0x8F else 0xBF }, []) := by
    rw [first, if_neg (by omega), if_neg (by omega), if_neg (by omega), if_pos (by omega)]
  have hlow : (if n / 262144 % 0x08 + 0xf0 = 0xF0 then 0x90 else 0x80) ≤ n / 4096 % 0x40 + 0x80 := by
    split <;> omega
  have hhigh : n / 4096 % 0x40 + 0x80 ≤ (if n / 262144 % 0x08 + 0xf0 = 0xF4 then 0x8F else 0xBF) := by
    split <;> omega
  have hlow' : 0x80 ≤ n / 64 % 0x40 + 0x80 := by omega
  have hhigh' : n / 64 % 0x40 + 0x80 ≤ 0xBF := by omega
  have hlow'' : 0x80 ≤ n % 0x40 + 0x80 := by omega
  have hhigh'' : n % 0x40 + 0x80 ≤ 0xBF := by omega
  rw [decode_byte (by omega), push_first, hfirst, decode_byte (by omega), push_middle
    (show 0 + 1 < 3 by decide) hlow hhigh,
    decode_byte (by omega), push_middle (show 1 + 1 < 3 by decide) hlow' hhigh', decode_byte (by omega),
      push_last rfl hlow'' hhigh'',
    decode, List.append_nil, List.nil_append, List.nil_append, List.nil_append]
  exact emit_sum (by dsimp only [between]; omega)

/-- **the bytes of a character decode to it** -/
theorem decode_char (b : Bool) (c : Char) : (between b).decode (String.utf8EncodeChar c) = emit b c := by
  have hvalid : c.val.toNat < 0xD800 ∨ 0xDFFF < c.val.toNat ∧ c.val.toNat < 0x110000 := c.valid
  have hchar : Char.ofNat c.val.toNat = c := Char.ofNat_toNat c
  conv_rhs => rw [← hchar]
  unfold String.utf8EncodeChar
  dsimp only
  split
  · next hone =>
    rw [decode_byte (by omega), push_first, first, if_pos hone, decode, List.append_nil]
  split
  · exact decode_two (by omega) (by omega)
  split
  · exact decode_three (by omega) (by omega) (by omega)
  · exact decode_four (by omega) (by omega)

theorem decode_encoded (text : List Char) : (between true).decode (encoded text) = (between true, text) := by
  induction text with
  | nil => rfl
  | cons c text ih =>
    have hc : emit true c = (between true, [c]) := by simp [emit]
    rw [encoded, List.flatMap_cons, decode_append, decode_char, hc]
    change (((between true).decode (encoded text)).1, [c] ++ ((between true).decode (encoded text)).2) = _
    rw [ih, List.singleton_append]

/-- **the bytes of a text decode to the text, without a byte order mark at its start** -/
theorem decodeAll_encoded (text : List Char) : decodeAll (encoded text) = dropMark text := by
  cases text with
  | nil => rfl
  | cons c text =>
    have hc : emit false c = (between true, dropMark [c]) := by simp [emit, dropMark]
    have hdecode : start.decode (encoded (c :: text)) = (between true, dropMark [c] ++ text) := by
      rw [encoded, List.flatMap_cons, decode_append, start, decode_char, hc]
      change (((between true).decode (encoded text)).1, dropMark [c] ++ ((between true).decode (encoded text)).2) = _
      rw [decode_encoded]
    have hflush : (between true).flush = [] := rfl
    rw [decodeAll, hdecode, hflush, List.append_nil, dropMark, dropMark]
    split <;> rfl

end

end Decoding
