import Feedforward.Number.Instances

/-!
# Code points

A code point is a number below `0x110000`. Most stand for a character; the halves of pairs do not. A
first half and a second half that follow each other stand for one character together
(`joinHalves`). Escapes in documents denote code points by hexadecimal digits.
-/

namespace Feedforward

abbrev CodePoint := Fin 0x110000

namespace CodePoint

/-- Numerals denote code points. -/
instance (priority := high) neZeroLimit : NeZero 0x110000 := ⟨by decide⟩

def ofChar (c : Char) : CodePoint := Fin.ofNat 0x110000 c.toNat

/-- The character with a code point; one without a character gives the replacement character. -/
def char (n : CodePoint) : Char := if n.val.isValidChar then Char.ofNat n.val else '\ufffd'

def isHighHalf (n : CodePoint) : Bool := 0xd800 ≤ n.val && n.val < 0xdc00

def isLowHalf (n : CodePoint) : Bool := 0xdc00 ≤ n.val && n.val < 0xe000

def isHalf (n : CodePoint) : Bool := n.isHighHalf || n.isLowHalf

@[simp] theorem val_ofChar (c : Char) : (ofChar c).val = c.toNat := by
  have h : c.toNat.isValidChar := c.valid
  have : c.toNat < 0x110000 := by rcases h with h | h <;> omega
  simpa [ofChar, Fin.ofNat] using this

@[simp] theorem char_ofChar (c : Char) : (ofChar c).char = c := by
  have h : c.toNat.isValidChar := c.valid
  simp [char, val_ofChar, h]

theorem ofChar_char {n : CodePoint} (h : n.isHalf = false) : ofChar n.char = n := by
  have hv : n.val.isValidChar := by
    simp only [isHalf, isHighHalf, isLowHalf, Bool.or_eq_false_iff, Bool.and_eq_false_iff,
      decide_eq_false_iff_not] at h
    have := n.isLt
    unfold Nat.isValidChar
    omega
  apply Fin.ext
  rw [val_ofChar, char, if_pos hv, Char.ofNat, dif_pos hv]
  rfl

/-- The code point that two halves stand for together. -/
def joined (high low : CodePoint) : CodePoint :=
  Fin.ofNat 0x110000 (0x10000 + (high.val - 0xd800) * 0x400 + (low.val - 0xdc00))

/-- The code points with every first half and the second half behind it joined. -/
def joinHalves : List CodePoint → List CodePoint
  | high :: low :: rest =>
    if high.isHighHalf && low.isLowHalf then joined high low :: joinHalves rest
    else high :: joinHalves (low :: rest)
  | ns => ns

end CodePoint

namespace Text

/-- The value of a hexadecimal digit. -/
def hexValue? (c : Char) : Option Nat :=
  if c.isDigit then some (c.toNat - '0'.toNat)
  else if 'a' ≤ c && c ≤ 'f' then some (c.toNat - 'a'.toNat + 10)
  else if 'A' ≤ c && c ≤ 'F' then some (c.toNat - 'A'.toNat + 10)
  else none

end Text

end Feedforward
