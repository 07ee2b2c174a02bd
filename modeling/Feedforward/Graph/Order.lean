import Feedforward.Graph.HandleList

/-!
# The order of a graph

`Graph.order` lists the groups that reach an output, every group after the groups that it reads
from. It explores inputs depth first, the last edge first, and lists a group once its inputs are
listed; a group that is listed already is passed over. A group that turns up while its own inputs
are still being explored lies on a cycle, and the exploration stops there.

`Graph.reach` collects the same groups in another way, which also works where there are cycles.
-/

namespace Feedforward

inductive OrderError where
  /-- The group is reachable from itself. -/
  | cyclic (group : Handle)
  deriving DecidableEq

def OrderError.kind : OrderError → ErrorKind
  | .cyclic _ => .cyclicGraph

namespace Graph

variable {A : Type}

/-- The number of members of the first list that are not in the second. -/
def countOutside (us hs : List Handle) : Nat := us.countP fun x => !hs.contains x

theorem countOutside_le_of_subset {us hs ks : List Handle} (h : ∀ x ∈ hs, x ∈ ks) :
    countOutside us ks ≤ countOutside us hs :=
  List.countP_mono_left fun x _ hx => by
    simp only [Bool.not_eq_true', List.contains_eq_mem, decide_eq_false_iff_not] at hx ⊢
    exact fun hh => hx (h x hh)

theorem countOutside_cons_lt {v : Handle} {us hs : List Handle} (hmem : v ∈ us) (hv : v ∉ hs) :
    countOutside us (v :: hs) < countOutside us hs := by
  unfold countOutside
  induction us with
  | nil => simp at hmem
  | cons u us ih =>
    have hle : countOutside us (v :: hs) ≤ countOutside us hs :=
      countOutside_le_of_subset fun x hx => List.mem_cons_of_mem v hx
    unfold countOutside at hle
    rw [List.countP_cons, List.countP_cons]
    by_cases hu : u = v
    · subst hu
      have h1 : (!(u :: hs).contains u) = false := by simp
      have h2 : (!hs.contains u) = true := by simpa using hv
      rw [h1, h2, if_neg Bool.false_ne_true, if_pos rfl]
      omega
    · have hlt := ih (by simpa [Ne.symm hu] using hmem)
      have heq : (!(v :: hs).contains u) = !hs.contains u := by simp [hu]
      rw [heq]
      omega

/-- The number of handles of the graph that are not in the list. -/
def outside (g : Graph A) (hs : List Handle) : Nat := countOutside (List.range g.next) hs

theorem group?_lt {g : Graph A} {h : Handle} {t : Group A} (ht : g.group? h = some t) :
    h < g.next := by
  by_cases hlt : h < g.places.size
  · exact hlt
  · rw [group?, Array.getElem?_eq_none (Nat.le_of_not_lt hlt)] at ht
    simp at ht

theorem outside_cons_lt {g : Graph A} {h : Handle} {hs : List Handle} (hlt : h < g.next)
    (hn : h ∉ hs) : g.outside (h :: hs) < g.outside hs :=
  countOutside_cons_lt (List.mem_range.2 hlt) hn

mutual

/-- Lists a group after its inputs. `path` holds the groups whose inputs are being explored, `done`
the listed ones, both latest first. -/
def visit (g : Graph A) (path done : HandleList) (v : Handle) :
    Except OrderError HandleList :=
  if _hp : v ∈ path then .error (.cyclic v)
  else if v ∈ done then .ok done
  else match _hg : g.group? v with
    | none => .ok (done.cons v)
    | some t => do
      let done ← visitAll g (path.cons v) done t.inputs.reverse
      return done.cons v
termination_by (g.outside path.toList, 0)
decreasing_by exact Prod.Lex.left _ _ (outside_cons_lt (group?_lt _hg) _hp)

def visitAll (g : Graph A) (path done : HandleList) (vs : List Handle) :
    Except OrderError HandleList :=
  match vs with
  | [] => .ok done
  | v :: rest => do
    let done ← visit g path done v
    visitAll g path done rest
termination_by (g.outside path.toList, vs.length + 1)
decreasing_by
  · exact Prod.Lex.right _ (Nat.succ_pos _)
  · exact Prod.Lex.right _ (by simp)

end

/-- The groups that reach the output, every group before the groups that read from it. -/
def order (g : Graph A) (output : Handle) : Except OrderError (List Handle) :=
  (g.visit .nil .nil output).map (·.toList.reverse)

/-- The same groups, the output first. -/
def reverseOrder (g : Graph A) (output : Handle) : Except OrderError (List Handle) :=
  (g.order output).map List.reverse

/-! ### Collecting without an order -/

/-- The handles that a graph mentions. -/
def mentioned (g : Graph A) : List Handle :=
  List.range g.next ++ (List.range g.next).flatMap g.inputs

theorem mem_mentioned_of_mem_inputs {g : Graph A} {u v : Handle} (hu : u ∈ g.inputs v) :
    u ∈ g.mentioned := by
  refine List.mem_append_right _ (List.mem_flatMap.2 ⟨v, List.mem_range.2 ?_, hu⟩)
  cases ht : g.group? v with
  | none => simp [inputs, ht] at hu
  | some t => exact group?_lt ht

/-- The handles of the second list that are not in the first, each once. -/
def fresh (seen : HandleList) (vs : List Handle) : List Handle :=
  (vs.filter (· ∉ seen)).eraseDups

/-- Collects what the groups of the frontier read from, directly or through others. -/
def collect (g : Graph A) (seen : HandleList) (frontier : List Handle) : HandleList :=
  match frontier with
  | [] => seen
  | v :: rest => match _hf : fresh seen (g.inputs v) with
    | [] => collect g seen rest
    | u :: us => collect g (seen.prepend (u :: us)) (u :: us ++ rest)
termination_by (countOutside g.mentioned seen.toList, frontier.length)
decreasing_by
  · exact Prod.Lex.right _ (by simp)
  · have hu : u ∈ fresh seen (g.inputs v) := by rw [_hf]; exact List.mem_cons_self
    have hu' : u ∈ g.inputs v ∧ u ∉ seen := by simpa [fresh, List.mem_eraseDups] using hu
    have hle : countOutside g.mentioned (seen.prepend (u :: us)).toList ≤
        countOutside g.mentioned (u :: seen.toList) :=
      countOutside_le_of_subset fun x hx => by
        rw [HandleList.toList_prepend]
        rcases List.mem_cons.1 hx with rfl | hx
        · simp
        · simp [hx]
    exact Prod.Lex.left _ _ (Nat.lt_of_le_of_lt hle
      (countOutside_cons_lt (mem_mentioned_of_mem_inputs hu'.1) hu'.2))

/-- The number of groups that reach the output, the output included. -/
def reach (g : Graph A) (output : Handle) : Nat :=
  (g.collect (HandleList.nil.cons output) [output]).toList.length

end Graph

def OrderError.message {A : Type} (g : Graph A) : OrderError → String
  | .cyclic h => "graph is not acyclic: " ++ g.label h ++ " is reachable from itself"

end Feedforward
