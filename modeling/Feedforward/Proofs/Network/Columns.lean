import Feedforward.Proofs.Network.Draws
import Feedforward.Proofs.Network.Shape
import Feedforward.Proofs.Tensor.Block

/-!
# Which column belongs to which input

A layer reads the signals of its inputs joined in edge order. The components of an input start
where the sizes of the inputs in front of it end (`Graph.offset`), and the weights have a column for
each of them. Over exact arithmetic an entry of what goes into the activation is the sum

    ∑ j, ∑ c, weights r (offset j + c) * signal of the j-th input at c

over the edges and the neurons behind them (`Graph.weightedSum`). A group that is read from twice
takes part in it twice, and one without neurons has no columns.
-/

namespace Feedforward

open Finset

/-! ## Joined arrays of numbers -/

namespace Numeric

/-- Arrays that are joined as elements of one type keep their elements. -/
theorem elements_of_map_join? {α : Type} {as : List Numeric} {f : Numeric → Tensor α}
    {wrap : Tensor α → Numeric} {element : α → Element} {x : Numeric}
    (hwrap : ∀ t, (wrap t).elements = t.data.map element)
    (hf : ∀ a ∈ as, a.elements = (f a).data.map element)
    (hx : (Tensor.join? (as.map f)).map wrap = some x) :
    x.elements = (as.map elements).flatten := by
  obtain ⟨t, ht, rfl⟩ := Option.map_eq_some_iff.mp hx
  rw [hwrap, Tensor.data_of_join? ht, List.map_flatten, List.map_map, List.map_map]
  exact congrArg List.flatten (List.map_congr_left fun a ha => (hf a ha).symm)

/-- Arrays of one kind meet in this kind. -/
theorem foldl_common {as : List Numeric} {kind : ElementKind} (hkind : ∀ a ∈ as, a.kind = kind) :
    as.foldl (fun k b => k.common b.kind) kind = kind := by
  induction as with
  | nil => rfl
  | cons b rest ih =>
      obtain ⟨hb, hrest⟩ := List.forall_mem_cons.mp hkind
      rw [List.foldl_cons, hb, ElementKind.common, if_pos rfl]
      exact ih hrest

/-- Arrays of one kind keep their elements and their kind when they are joined. -/
theorem elements_of_join? {as : List Numeric} {kind : ElementKind}
    (hkind : ∀ a ∈ as, a.kind = kind) {x : Numeric} (hx : join? as = some x) :
    x.elements = (as.map elements).flatten ∧ x.kind = kind := by
  match as, hkind with
  | [], _ => cases hx
  | a :: rest, hkind =>
      obtain ⟨hfirst, hrest⟩ := List.forall_mem_cons.mp hkind
      rw [join?, hfirst, foldl_common hrest] at hx
      -- whatever the kind is, the arrays are joined in it
      cases kind
      all_goals
        constructor
        · refine elements_of_map_join? (fun _ => rfl) (fun b hb => ?_) hx
          have hb := hkind b hb
          cases b <;> first | rfl | cases hb
        · obtain ⟨t, -, rfl⟩ := Option.map_eq_some_iff.mp hx
          rfl

theorem length_elements_of_shape {a : Numeric} {n : Nat} (ha : a.shape = [n]) :
    a.elements.length = n := by
  have hshape : Arithmetic.shape a = [n] := ha
  rw [length_elements, Arithmetic.size, hshape, volume, volume, Nat.mul_one]

end Numeric

/-! ## Where inputs start -/

/-- The number of neurons that the inputs of a group in front of one have. -/
def Graph.offset {A : Type} (g : Graph A) (h : Handle) (j : Nat) : Nat :=
  (((g.inputs h).take j).map g.cardinality).sum

namespace Network

/-- A layer reads the elements of its inputs one behind the other, in the kind of these. -/
theorem Follows.exists_gather_kind {g : Graph Numeric} {net : Network Numeric}
    {output : Handle} {k : Nat} {layer : Layer Numeric} {kind : ElementKind}
    (hnet : net.Follows g output)
    (hsignal : ∀ layer ∈ net.layers, ∃ s, layer.signal = some s ∧
      s.shape = [g.cardinality layer.group] ∧ s.kind = kind)
    (hlayer : net.layers[k]? = some layer) (hne : g.inputs layer.group ≠ []) :
    ∃ (values : Handle → Numeric) (x : Numeric),
      (∀ u ∈ g.inputs layer.group, net.bufferOf .signal u = some (values u) ∧
        (values u).shape = [g.cardinality u]) ∧
      net.gather g layer = .ok x ∧ x.shape = [g.inputSize layer.group] ∧ x.kind = kind ∧
      x.elements = ((g.inputs layer.group).map fun u => (values u).elements).flatten := by
  -- all signals are of one kind, so that joining them converts nothing
  obtain ⟨values, hvalues⟩ := hnet.exists_values
    (P := fun u s => s.shape = [g.cardinality u] ∧ s.kind = kind) hsignal hlayer
  obtain ⟨x, hx, hshape⟩ := Numeric.exists_join? (mt List.map_eq_nil_iff.mp hne)
    (forall₂_map_map_iff.mpr fun u hu => (hvalues u hu).2.1)
  have hjoin : Arithmetic.join ((g.inputs layer.group).map values) = .ok x :=
    congrArg (orFault .shapeMisfit) hx
  have hkinds : ∀ a ∈ (g.inputs layer.group).map values, a.kind = kind := by
    intro a ha
    obtain ⟨u, hu, rfl⟩ := List.mem_map.mp ha
    exact (hvalues u hu).2.2
  obtain ⟨helements, hkind⟩ := Numeric.elements_of_join? hkinds hx
  refine ⟨values, x, fun u hu => ⟨(hvalues u hu).1, (hvalues u hu).2.1⟩, ?_, hshape, hkind, ?_⟩
  · rw [hnet.gather_eq_join hlayer hne fun u hu => (hvalues u hu).1, hjoin]
    rfl
  · rw [helements, List.map_map]
    rfl

/-- What a layer reads holds the elements of each input behind those of the inputs in front of it,
one for one. -/
theorem Follows.exists_gather_elements {g : Graph Numeric} {net : Network Numeric}
    {output : Handle} {k : Nat} {layer : Layer Numeric} {kind : ElementKind}
    (hnet : net.Follows g output)
    (hsignal : ∀ layer ∈ net.layers, ∃ s, layer.signal = some s ∧
      s.shape = [g.cardinality layer.group] ∧ s.kind = kind)
    (hlayer : net.layers[k]? = some layer) (hne : g.inputs layer.group ≠ []) :
    ∃ x, net.gather g layer = .ok x ∧ x.shape = [g.inputSize layer.group] ∧
      ∀ j u, (g.inputs layer.group)[j]? = some u → ∃ s, net.bufferOf .signal u = some s ∧
        s.shape = [g.cardinality u] ∧ ∀ c < g.cardinality u,
          x.elements[g.offset layer.group j + c]? = s.elements[c]? := by
  obtain ⟨values, x, hvalues, hx, hshape, -, helements⟩ :=
    hnet.exists_gather_kind hsignal hlayer hne
  refine ⟨x, hx, hshape, fun j u hj => ?_⟩
  obtain ⟨hs, hsize⟩ := hvalues u (List.mem_of_getElem? hj)
  refine ⟨values u, hs, hsize, fun c hc => ?_⟩
  rw [helements, Graph.offset]
  exact getElem?_flatten_map
    (fun v hv => Numeric.length_elements_of_shape (hvalues v hv).2) hj hc

end Network

/-! ## Sums over edges -/

section Exact

variable {α : Type} [Semiring α]

/-- The sum of weights times components, over the edges of a group and the neurons behind them. -/
def Graph.weightedSum {A : Type} (g : Graph A) (h : Handle) (weight : Nat → α)
    (component : Handle → Nat → α) : α :=
  ∑ j : Fin (g.inputs h).length, ∑ c ∈ range (g.cardinality ((g.inputs h).get j)),
    weight (g.offset h j + c) * component ((g.inputs h).get j) c

namespace Graph

variable {g : Graph (Tensor α)} {h : Handle}

/-- The weights of a group times its joined inputs. -/
theorem exists_weightedSum {values : Handle → Tensor α} {w : Tensor α} (hne : g.inputs h ≠ [])
    (hvalues : ∀ u ∈ g.inputs h, (values u).shape = [g.cardinality u])
    (hw : w.shape = [g.cardinality h, g.inputSize h]) :
    ∃ x z, Arithmetic.join ((g.inputs h).map values) = .ok x ∧ x.shape = [g.inputSize h] ∧
      Arithmetic.product w x = .ok z ∧ z.shape = [g.cardinality h] ∧
      ∀ r < g.cardinality h,
        z.component r = g.weightedSum h (w.entry r) fun u => (values u).component := by
  obtain ⟨x, hx, hshape⟩ :=
    Tensor.exists_join? (mt List.map_eq_nil_iff.mp hne) (forall₂_map_map_iff.mpr hvalues)
  obtain ⟨z, hz, hrows⟩ := Tensor.exists_product? hw hshape
  exact ⟨x, z, congrArg (orFault .shapeMisfit) hx, hshape, congrArg (orFault .shapeMisfit) hz,
    hrows, fun r hr => Tensor.component_of_product?_join? hvalues hx hshape hw hz hr⟩

/-- Of the components those count that the edges lead to. -/
theorem weightedSum_congr {weight : Nat → α} {component component' : Handle → Nat → α}
    (hcomponent : ∀ u ∈ g.inputs h, component u = component' u) :
    g.weightedSum h weight component = g.weightedSum h weight component' := by
  refine sum_congr rfl fun j _ => ?_
  rw [hcomponent _ (List.get_mem _ j)]

end Graph

namespace Network

variable {g : Graph (Tensor α)} {net : Network (Tensor α)} {output : Handle} {k : Nat}
  {layer : Layer (Tensor α)}

def component (net : Network (Tensor α)) (h : Handle) (c : Nat) : α :=
  (net.bufferOf .signal h).elim 0 (·.component c)

def weight (net : Network (Tensor α)) (h : Handle) (r k : Nat) : α :=
  (net.bufferOf .weights h).elim 0 (·.entry r k)

/-- What the signals hold is no matter of the weights. -/
theorem weight_eq_of_mute_eq {other : Network (Tensor α)} (hmute : net.mute = other.mute) :
    net.weight = other.weight := by
  have hlayer : ∀ (net : Network (Tensor α)) (i : Nat),
      net.layers[i]?.bind (·.buffer .weights) = net.mute[i]?.bind (·.buffer .weights) := by
    intro net i
    rw [getElem?_mute, Option.bind_map]
    rfl
  have hposition : net.position? = other.position? := by
    funext h
    rw [position?_eq, position?_eq, groups_eq_of_mute_eq hmute]
  funext h r k
  simp only [weight, bufferOf, hlayer, hmute, hposition]

/-- What a layer hands to its activation. -/
theorem Shaped.exists_weightedSum {V : Type} [Readable V (Tensor α)] (hnet : net.Shaped g output)
    (hlayer : net.layers[k]? = some layer) (hne : g.inputs layer.group ≠ [])
    (given : List (Nat × V)) :
    ∃ z, net.layerValue g given k layer = g.activate layer.group z ∧
      z.shape = [g.cardinality layer.group] ∧
      ∀ r < g.cardinality layer.group,
        z.component r = g.weightedSum layer.group (net.weight layer.group r) net.component := by
  obtain ⟨values, hvalues⟩ := hnet.follows.exists_values
    (P := fun u s => s.shape = [g.cardinality u]) hnet.signal hlayer
  obtain ⟨hnone, hweights⟩ := hnet.weights layer (Array.mem_of_getElem? hlayer)
  obtain ⟨w, hw⟩ := Option.ne_none_iff_exists'.mp (mt hnone.mp hne)
  -- the row of the weights is applied to what is gathered, which is a weighted sum
  obtain ⟨x, z, hx, hshape, hz, hrows, hsum⟩ :=
    Graph.exists_weightedSum hne (fun u hu => (hvalues u hu).2) (hweights w hw)
  have hgather : net.gather g layer = .ok x := by
    rw [hnet.follows.gather_eq_join hlayer hne fun u hu => (hvalues u hu).1, hx]
    rfl
  refine ⟨z, layerValue_of_product hne hgather hshape hw (hweights w hw) hz, hrows,
    fun r hr => ?_⟩
  -- a weight of the network is an entry of the matrix of its layer
  have hweight : net.weight layer.group r = w.entry r := by
    funext k
    rw [weight, hnet.follows.bufferOf_eq hlayer .weights, Layer.buffer, hw, Option.elim_some]
  rw [hsum r hr, hweight]
  refine Graph.weightedSum_congr fun u hu => ?_
  funext c
  rw [component, (hvalues u hu).1, Option.elim_some]

end Network

end Exact

end Feedforward
