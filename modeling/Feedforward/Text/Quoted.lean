import Feedforward.Text.Basic
import Feedforward.Text.Printable

/-!
# Quoted text

A quoted text stands between single quotes, or between double quotes when it holds a single quote
and no double quote. The backslash, the quote in use and every code point that is not a printable
character are escaped, so that a quoted text is one printable line.
-/

namespace Feedforward.Text

/-- `n` in hexadecimal, padded with zeros to at least `width` digits. -/
def hexadecimal (width n : Nat) : String :=
  let ds := Nat.toDigits 16 n
  String.ofList (List.replicate (width - ds.length) '0' ++ ds)

/-- A character inside a text quoted with `quote`. -/
def escapeChar (quote c : Char) : String :=
  if c = quote || c = '\\' then "\\" ++ c.toString
  else if c = '\n' then "\\n"
  else if c = '\r' then "\\r"
  else if c = '\t' then "\\t"
  else if isPrintable c then c.toString
  else if c.toNat < 0x100 then "\\x" ++ hexadecimal 2 c.toNat
  else if c.toNat < 0x10000 then "\\u" ++ hexadecimal 4 c.toNat
  else "\\U" ++ hexadecimal 8 c.toNat

/-- A code point inside a text quoted with `quote`. -/
def escape (quote : Char) (n : CodePoint) : String :=
  if n.isHalf then "\\u" ++ hexadecimal 4 n else escapeChar quote n.char

def quoteFor (t : Text) : Char :=
  let ns := t.codePoints
  if ns.contains (.ofChar '\'') && !ns.contains (.ofChar '"') then '"' else '\''

def quoted (t : Text) : String :=
  let quote := quoteFor t
  quote.toString ++ String.join (t.codePoints.map (escape quote)) ++ quote.toString

end Feedforward.Text
