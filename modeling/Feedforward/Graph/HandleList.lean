import Std.Data.TreeSet.Lemmas
import Feedforward.Graph.Basic

/-!
# Lists of handles with quick look-up

A `HandleList` is a list of handles that grows at its front. It keeps the set of its members beside
them, so that `h ∈ l` is decided without a walk along the list. The list is what it means: `toList`
views it, and membership is membership in that view.
-/

namespace Feedforward

/-- A list of handles together with the set of its members. -/
structure HandleList where
  toList : List Handle
  members : Std.TreeSet Handle
  mem_members : ∀ h, h ∈ members ↔ h ∈ toList

namespace HandleList

instance : Membership Handle HandleList := ⟨fun l h => h ∈ l.toList⟩

instance (h : Handle) (l : HandleList) : Decidable (h ∈ l) :=
  decidable_of_iff (h ∈ l.members) (l.mem_members h)

theorem mem_toList {h : Handle} {l : HandleList} : h ∈ l.toList ↔ h ∈ l := Iff.rfl

def nil : HandleList := ⟨[], ∅, by simp⟩

def cons (h : Handle) (l : HandleList) : HandleList :=
  ⟨h :: l.toList, l.members.insert h, fun k => by
    rw [Std.TreeSet.mem_insert, List.mem_cons, l.mem_members,
      Std.LawfulEqCmp.compare_eq_iff_eq, eq_comm]⟩

@[simp] theorem toList_nil : nil.toList = [] := rfl

@[simp] theorem toList_cons (h : Handle) (l : HandleList) : (cons h l).toList = h :: l.toList := rfl

@[simp] theorem not_mem_nil (h : Handle) : h ∉ nil := List.not_mem_nil

@[simp] theorem mem_cons {h k : Handle} {l : HandleList} : k ∈ cons h l ↔ k = h ∨ k ∈ l :=
  List.mem_cons

/-- Puts several handles in front, in their order. -/
def prepend (hs : List Handle) (l : HandleList) : HandleList := hs.foldr cons l

@[simp] theorem toList_prepend (hs : List Handle) (l : HandleList) :
    (prepend hs l).toList = hs ++ l.toList := by
  induction hs with
  | nil => rfl
  | cons h hs ih => rw [prepend, List.foldr_cons, toList_cons, ← prepend, ih, List.cons_append]

end HandleList

end Feedforward
