import Feedforward.Document
import Feedforward.Files.Tree
import Feedforward.Proofs.Network.Answer
import Feedforward.Proofs.Value.Alike

/-!
# Documents that hold a configuration

A text without carriage returns is read from its bytes as it is, so that a JSON document holds what
its text says. Whoever writes a mapping to a document may put its keys in another order
(`FileTree.Holds`).

Which values are taken for a configuration, and which are refused, can be said without knowing how
YAML is read (`read_eq_ok_iff`, `read_eq_notAMapping_iff`). Documents that count as absent
(`CountsAsAbsent`) stand for the empty mapping, whatever their value is.
-/

namespace Feedforward

variable {t : FileTree} {readYaml : Yaml.Reader} {p : Path} {s : String} {v : Value} {m m' : Fields}
  {x : Document.Language} {content : ByteArray}

/-- The document at a path holds the mapping, with its keys in any order. -/
def FileTree.Holds (t : FileTree) (readYaml : Yaml.Reader) (p : Path) (m : Fields) : Prop :=
  ∃ content m', t.read p = .ok content ∧ Document.read readYaml p content = .ok m' ∧
    Value.Alike (.map m) (.map m')

namespace Document

/-- The text has the value. -/
def Denotes (readYaml : Yaml.Reader) (s : String) (v : Value) : Language → Prop
  | .json => Json.read s = .ok v
  | .yaml => readYaml s = .ok v

/-- The text counts as an absent document: there is nothing in it, or, in YAML, its value counts as
nothing. -/
def CountsAsAbsent (readYaml : Yaml.Reader) (s : String) : Language → Prop
  | .json => s = ""
  | .yaml => ∃ v, readYaml s = .ok v ∧ v.isVoid

/-! ## Bytes and texts -/

theorem unifyBreaks_eq {cs : List Char} (h : '\r' ∉ cs) : unifyBreaks cs = cs := by
  fun_induction unifyBreaks cs with
  | case1 => simp at h
  | case2 => simp at h
  | case3 c cs _ _ ih => rw [ih (List.not_mem_of_not_mem_cons h)]
  | case4 => rfl

/-- The bytes of a text are read as the text, if it has no carriage returns. -/
theorem decode?_toUTF8 (h : '\r' ∉ s.toList) : decode? s.toUTF8 = some s := by
  have hbytes : String.fromUTF8? s.toUTF8 = some s := dif_pos s.isValidUTF8
  rw [decode?, hbytes, Option.map_some, unifyBreaks_eq h, String.ofList_toList]

/-! ## Values of texts -/

/-- An empty text is none of JSON. -/
theorem not_denotes_empty : ¬ Denotes readYaml "" v .json := by
  rw [Denotes]
  rintro ⟨⟩

/-- A text with a value counts as absent in YAML only, if the value counts as nothing. -/
theorem countsAsAbsent_iff (h : Denotes readYaml s v x) :
    CountsAsAbsent readYaml s x ↔ x = .yaml ∧ v.isVoid := by
  cases x with
  | json =>
      refine iff_of_false ?_ fun ⟨hlanguage, _⟩ => by cases hlanguage
      rintro rfl
      exact not_denotes_empty h
  | yaml =>
      rw [CountsAsAbsent, and_iff_right rfl]
      constructor
      · rintro ⟨w, hw, hvoid⟩
        obtain rfl := Except.ok.inj (hw.symm.trans h)
        exact hvoid
      · exact fun hvoid => ⟨v, h, hvoid⟩

/-- A text is given its own value, unless it counts as absent. -/
theorem parse_eq_ok_iff :
    parse readYaml s x = .ok v ↔
      CountsAsAbsent readYaml s x ∧ v = .map [] ∨
        ¬ CountsAsAbsent readYaml s x ∧ Denotes readYaml s v x := by
  cases x with
  | json =>
      rw [parse, CountsAsAbsent, Denotes]
      by_cases hs : s = ""
      · simpa [hs] using eq_comm
      · cases hread : Json.read s <;> simp [hs]
  | yaml =>
      rw [parse, CountsAsAbsent, Denotes]
      cases hread : readYaml s with
      | error e => simp
      | ok w =>
          by_cases hvoid : w.isVoid
          · simpa [hvoid] using eq_comm
          · simp [hvoid]

/-- That a value is no mapping is not for the reader of a language to say. -/
theorem parse_ne_notAMapping (name : String) : parse readYaml s x ≠ .error (.notAMapping name) := by
  intro h
  cases x with
  | json =>
      rw [parse] at h
      split at h
      · cases h
      · split at h <;> cases h
  | yaml =>
      rw [parse] at h
      split at h <;> cases h

/-! ## Configurations in files -/

theorem read_eq_ok_iff (htext : decode? content = some s)
    (hlanguage : Language.ofSuffix? p.suffix = some x) :
    read readYaml p content = .ok m ↔ parse readYaml s x = .ok (.map m) := by
  rw [read, htext]
  dsimp only
  rw [hlanguage]
  dsimp only
  rw [bind_eq_ok_iff]
  constructor
  · rintro ⟨v, hv, h⟩
    split at h
    · cases h
      exact hv
    · cases h
  · intro h
    exact ⟨.map m, h, rfl⟩

/-- The reading of a file is refused for its value if the value is no mapping. -/
theorem read_eq_notAMapping_iff (htext : decode? content = some s)
    (hlanguage : Language.ofSuffix? p.suffix = some x) :
    read readYaml p content = .error (.notAMapping p.name) ↔
      ∃ v, parse readYaml s x = .ok v ∧ ∀ m, v ≠ .map m := by
  rw [read, htext]
  dsimp only
  rw [hlanguage]
  dsimp only
  rw [bind_eq_error_iff, or_iff_right (parse_ne_notAMapping p.name)]
  refine exists_congr fun v => and_congr_right fun _ => ?_
  cases v <;> simp

/-- A JSON document holds what its text says. -/
theorem read_toUTF8 (hsuffix : Language.ofSuffix? p.suffix = some .json) (hne : s ≠ "")
    (hbreaks : '\r' ∉ s.toList) (hread : Json.read s = .ok (.map m)) :
    read readYaml p s.toUTF8 = .ok m :=
  (read_eq_ok_iff (decode?_toUTF8 hbreaks) hsuffix).mpr (parse_eq_ok_iff.mpr (.inr ⟨hne, hread⟩))

end Document

end Feedforward
