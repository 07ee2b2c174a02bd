import Feedforward.Text.CodePoint

/-!
# Texts

A text is a sequence of code points. When each of them stands for a character the text is a string;
a document can also denote, by escapes, a text in which halves of pairs stand alone. The two kinds
exclude each other, so that texts are equal just when their code points are.
-/

namespace Feedforward

inductive Text where
  | string (s : String)
  /-- Code points with half of a pair among them. -/
  | broken (ns : List CodePoint) (h : ns.any CodePoint.isHalf)
  deriving DecidableEq

instance : Coe String Text := ⟨Text.string⟩

namespace Text

def ofCodePoints (ns : List CodePoint) : Text :=
  if h : ns.any CodePoint.isHalf then broken ns h
  else string (String.ofList (ns.map CodePoint.char))

def codePoints : Text → List CodePoint
  | string s => s.toList.map CodePoint.ofChar
  | broken ns _ => ns

@[simp]
theorem codePoints_ofCodePoints (ns : List CodePoint) : (ofCodePoints ns).codePoints = ns := by
  unfold ofCodePoints
  split
  · rfl
  · rename_i h
    have h : ∀ n ∈ ns, n.isHalf = false := by simpa using h
    simp only [codePoints, String.toList_ofList, List.map_map]
    exact (List.map_congr_left (g := id) fun n hn => CodePoint.ofChar_char (h n hn)).trans
      (List.map_id ns)

/-- The text as a string, if it is one. -/
def string? : Text → Option String
  | string s => some s
  | broken _ _ => none

/-- A string that shows the text, with replacement characters for what is no character. -/
def shown : Text → String
  | string s => s
  | broken ns _ => String.ofList (ns.map CodePoint.char)

def isEmpty : Text → Bool
  | string s => s.isEmpty
  | broken _ _ => false

/-- The code points of a text, each as a text of its own. -/
def characters (t : Text) : List Text := t.codePoints.map fun n => ofCodePoints [n]

/-- The first text stands before the second in the order of code points. -/
def before (s t : Text) : Bool := decide (s.codePoints < t.codePoints)

end Text

end Feedforward
