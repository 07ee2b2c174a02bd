import Mathlib.Data.List.Nodup
import Feedforward.Json.Writing
import Feedforward.Proofs.Sorting.Sorted

/-!
# Writing the entries of a mapping in order

Texts are in a linear order, and so are entries with different texts as keys: they are written in
this order, wherever they stood before (`arrange_eq_of_perm`). Other keys need not have an order at
all, as long as one of them is the undefined number.
-/

namespace Feedforward

namespace CodePoint

@[simp] theorem isHalf_ofChar (c : Char) : (ofChar c).isHalf = false := by
  have h : c.toNat.isValidChar := c.valid
  simp only [isHalf, isHighHalf, isLowHalf, val_ofChar, Bool.or_eq_false_iff, Bool.and_eq_false_iff,
    decide_eq_false_iff_not]
  unfold Nat.isValidChar at h
  omega

end CodePoint

namespace Text

variable {s t u : Text}

/-- A text is made up of its code points. -/
@[simp] theorem ofCodePoints_codePoints (t : Text) : ofCodePoints t.codePoints = t := by
  cases t with
  | string s =>
      have hwhole : ¬(s.toList.map CodePoint.ofChar).any CodePoint.isHalf := by
        simp [CodePoint.isHalf_ofChar]
      have hchars : CodePoint.char ∘ CodePoint.ofChar = id := funext CodePoint.char_ofChar
      rw [codePoints, ofCodePoints, dif_neg hwhole, List.map_map, hchars, List.map_id,
        String.ofList_toList]
  | broken ns h => exact dif_pos h

theorem codePoints_injective (h : s.codePoints = t.codePoints) : s = t := by
  rw [← ofCodePoints_codePoints s, h, ofCodePoints_codePoints]

theorem before_eq_false_iff : s.before t = false ↔ ¬s.codePoints < t.codePoints :=
  decide_eq_false_iff_not

theorem before_asymm (h : s.before t) : t.before s = false :=
  before_eq_false_iff.mpr (List.lt_asymm (of_decide_eq_true h))

/-- Texts that do not stand before others are in order. -/
theorem before_trans (h : t.before s = false) (h' : u.before t = false) : u.before s = false := by
  rw [before_eq_false_iff, List.not_lt] at h h' ⊢
  exact List.le_trans h h'

/-- No two texts are in the same place of the order. -/
theorem eq_of_before_eq_false (h : s.before t = false) (h' : t.before s = false) : s = t := by
  rw [before_eq_false_iff, List.not_lt] at h h'
  exact codePoints_injective (List.le_antisymm h' h)

end Text

namespace Json

variable {β : Type}

/-- The entry has a text as its key. -/
def HasTextKey (e : Key × β) : Prop := ∃ t, e.1 = .str t

/-- Entries are in the order of the texts that are their keys. -/
theorem ordersOn_hasTextKey :
    Sorting.OrdersOn (fun a b : Key × β => keyBefore a.1 b.1) HasTextKey where
  asymm := by
    rintro ⟨_, v⟩ ⟨_, w⟩ ⟨s, rfl⟩ ⟨t, rfl⟩ h
    exact Text.before_asymm h
  trans := by
    rintro ⟨_, v⟩ ⟨_, w⟩ ⟨_, x⟩ ⟨s, rfl⟩ ⟨t, rfl⟩ ⟨u, rfl⟩ h h'
    exact Text.before_trans h h'

variable {entries entries' : List (Key × Except WriteError String)}

/-- Whether keys can be put in order does not depend on the order in which they come. -/
theorem ordered_perm {ks ks' : List Key} (h : ks.Perm ks') : ordered ks = ordered ks' := by
  rw [ordered, ordered, h.length_eq, h.all_eq, h.all_eq]

/-- Where the entries stood before does not matter, if their keys are different texts. -/
theorem arrange_eq_of_perm (htext : ∀ e ∈ entries, HasTextKey e)
    (hnodup : (entries.map (·.1)).Nodup) (hperm : entries.Perm entries') :
    arrange entries = arrange entries' := by
  have hsort := Sorting.sortBy_eq_of_perm ordersOn_hasTextKey htext ?_ hperm
  · rw [arrange, arrange, ordered_perm (hperm.map (·.1)), hsort]
  · rintro ⟨k, v⟩ hx ⟨l, w⟩ hy hkl hlk
    obtain ⟨s, rfl⟩ := htext _ hx
    obtain ⟨t, rfl⟩ := htext _ hy
    obtain rfl : s = t := Text.eq_of_before_eq_false hkl hlk
    exact List.inj_on_of_nodup_map hnodup hx hy rfl

end Json

end Feedforward
