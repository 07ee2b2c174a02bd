import Feedforward.Proofs.Graph.Order
import Feedforward.Proofs.Network.Answer

/-!
# Positions in a network that follows an order

A network *follows* a graph from an output if its layers belong to the groups of the order. Such a
network holds each group that the output reaches at one position (`index_eq_ok_iff`,
`index_eq_error_iff`), and a layer reads from layers in front of it (`exists_inputPositions`).
Neither depends on what the buffers hold.
-/

namespace Feedforward

/-! ## The last position of a handle -/

theorem getElem?_of_lastPosition? {h : Handle} {hs : List Handle} {i : Nat}
    (hi : lastPosition? h hs = some i) : hs[i]? = some h := by
  induction hs generalizing i with
  | nil => cases hi
  | cons k rest ih =>
      rw [lastPosition?] at hi
      cases hrest : lastPosition? h rest with
      | some j =>  -- case: `h` occurs later as well
          rw [hrest] at hi
          obtain rfl : j + 1 = i := Option.some.inj hi
          exact ih hrest
      | none =>  -- case: here or nowhere
          rw [hrest] at hi
          by_cases hk : k = h
          · rw [if_pos hk] at hi
            obtain rfl : 0 = i := Option.some.inj hi
            exact congrArg some hk
          · rw [if_neg hk] at hi
            cases hi

/-- A handle has a position exactly if it is listed. -/
theorem lastPosition?_eq_none_iff {h : Handle} {hs : List Handle} :
    lastPosition? h hs = none ↔ h ∉ hs := by
  induction hs with
  | nil => exact ⟨fun _ => List.not_mem_nil, fun _ => rfl⟩
  | cons k rest ih =>
      rw [lastPosition?, List.mem_cons, not_or, ← ih]
      cases lastPosition? h rest with
      | some j => simp
      | none => simp [eq_comm]

/-- In a list without repetitions, a handle stands at its last position only. -/
theorem lastPosition?_eq_some_iff {h : Handle} {hs : List Handle} (hnodup : hs.Nodup) {i : Nat} :
    lastPosition? h hs = some i ↔ hs[i]? = some h := by
  refine ⟨getElem?_of_lastPosition?, fun hi => ?_⟩
  cases hlast : lastPosition? h hs with
  | none => exact absurd (List.mem_of_getElem? hi) (lastPosition?_eq_none_iff.mp hlast)
  | some j =>
      have hj := getElem?_of_lastPosition? hlast
      have hlt : j < hs.length := (List.getElem?_eq_some_iff.mp hj).1
      rw [(List.getElem?_inj hlt hnodup).mp (hj.trans hi.symm)]

namespace Network

variable {A : Type} {g : Graph A} {net : Network A} {output : Handle}

theorem getElem?_groups (net : Network A) (i : Nat) :
    net.groups[i]? = net.layers[i]?.map (·.group) := by
  rw [groups, List.getElem?_map, Array.getElem?_toList]

theorem getElem?_groups_of_layer {i : Nat} {layer : Layer A}
    (hlayer : net.layers[i]? = some layer) :
    net.groups[i]? = some layer.group := by
  rw [getElem?_groups, hlayer, Option.map_some]

theorem exists_layer_of_getElem?_groups {i : Nat} {h : Handle} (hi : net.groups[i]? = some h) :
    ∃ layer, net.layers[i]? = some layer ∧ layer.group = h := by
  rw [getElem?_groups] at hi
  exact Option.map_eq_some_iff.mp hi

theorem size_eq_length_groups (net : Network A) : net.size = net.groups.length := by
  rw [groups, List.length_map, Array.length_toList, size]

@[simp] theorem size_setBuffer (net : Network A) (i : Nat) (b : Buffer) (content : Option A) :
    (net.setBuffer i b content).size = net.size := by
  simp [size_eq_length_groups]

/-- The layers belong to the groups of the order. -/
def Follows (net : Network A) (g : Graph A) (output : Handle) : Prop :=
  g.order output = .ok net.groups

namespace Follows

/-- The position of a group is where the network has it. -/
theorem position?_eq_some_iff (hnet : net.Follows g output) {h : Handle} {i : Nat} :
    net.position? h = some i ↔ net.groups[i]? = some h := by
  rw [position?_eq, lastPosition?_eq_some_iff (Graph.nodup_order hnet)]

theorem index_eq_ok_iff (hnet : net.Follows g output) {h : Handle} {i : Nat} :
    net.index h = .ok i ↔ net.groups[i]? = some h := by
  rw [← hnet.position?_eq_some_iff, index]
  cases net.position? h <;> simp

/-- Only a group that the output does not reach has no position. -/
theorem index_eq_error_iff (hnet : net.Follows g output) {h : Handle} :
    net.index h = .error (.notMember h) ↔ ¬ g.Reaches output h := by
  rw [← Graph.mem_order_iff hnet, ← lastPosition?_eq_none_iff, ← position?_eq, index]
  cases net.position? h <;> simp

/-- A layer reads from layers in front of it, one for each edge and in the order of the edges. -/
theorem exists_inputPositions (hnet : net.Follows g output) {i : Nat} {h : Handle}
    (hi : net.groups[i]? = some h) :
    ∃ js, net.inputPositions g h = .ok js ∧ (∀ j ∈ js, j < i) ∧
      js.map (net.groups[·]?) = (g.inputs h).map some := by
  have hlt : ∀ u ∈ g.inputs h, ∃ j < i, net.groups[j]? = some u := fun u hu =>
    Graph.exists_lt_of_mem_inputs_order hnet hi hu
  rw [inputPositions]
  -- all that is used of the inputs is that they stand in front of `i`
  generalize g.inputs h = us at hlt
  induction us with
  | nil => exact ⟨[], rfl, List.forall_mem_nil _, rfl⟩
  | cons u us ih =>
      obtain ⟨j, hji, hj⟩ := hlt u List.mem_cons_self
      obtain ⟨js, hjs, hbelow, hgroups⟩ := ih fun v hv => hlt v (List.mem_cons_of_mem u hv)
      refine ⟨j :: js, ?_, ?_, ?_⟩
      · rw [mapM_eq_ok_iff] at hjs ⊢
        refine .cons ?_ hjs
        rw [hnet.position?_eq_some_iff.mpr hj]
      · exact List.forall_mem_cons.mpr ⟨hji, hbelow⟩
      · rw [List.map_cons, List.map_cons, hj, hgroups]

end Follows

/-! ## Sources -/

theorem sources_eq (net : Network A) (g : Graph A) :
    net.sources g =
      (List.range net.groups.length).filter fun i => (net.groups[i]?).any g.isSource := by
  have htest : (fun i : Nat => (net.layers[i]?).any (g.isSource ·.group)) =
      fun i : Nat => (net.groups[i]?).any g.isSource := by
    funext i
    rw [getElem?_groups, Option.any_map]
  rw [sources, size_eq_length_groups, htest]

/-- The sources are the layers whose groups read from nothing. -/
theorem mem_sources_iff {i : Nat} :
    i ∈ net.sources g ↔ ∃ layer, net.layers[i]? = some layer ∧ g.isSource layer.group := by
  rw [sources, List.mem_filter, List.mem_range, Option.any_eq_true]
  constructor
  · rintro ⟨-, layer, hlayer, hsource⟩
    exact ⟨layer, hlayer, hsource⟩
  · rintro ⟨layer, hlayer, hsource⟩
    exact ⟨(Array.getElem?_eq_some_iff.mp hlayer).1, layer, hlayer, hsource⟩

theorem pairwise_sources : (net.sources g).Pairwise (· < ·) :=
  List.pairwise_lt_range.filter _

end Network

end Feedforward
