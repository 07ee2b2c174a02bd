import Feedforward.Network.Layout
import Feedforward.Proofs.Network.Compile

/-!
# What a layout says

A layout has an entry for each layer, in the same place. For a network that is laid out by a graph,
an entry repeats what the graph says of the group of its layer (`Shows`). It lists positions where
the group lists handles; the names that the layout has at these positions are the names of the groups
behind the handles.
-/

namespace Feedforward

/-- Lists that are related element by element are related at every position. -/
theorem rel_getElem?_of_forall₂ {α β : Type} {R : α → β → Prop} {xs : List α} {ys : List β}
    (h : List.Forall₂ R xs ys) (i : Nat) : Option.Rel R xs[i]? ys[i]? := by
  induction h generalizing i with
  | nil => exact .none
  | cons hxy _ ih =>
      match i with
      | 0 => exact .some hxy
      | i + 1 => exact ih i

theorem exists_getElem?_left {α β : Type} {R : α → β → Prop} {xs : List α} {ys : List β}
    (h : List.Forall₂ R xs ys) {i : Nat} {y : β} (hy : ys[i]? = some y) :
    ∃ x, xs[i]? = some x ∧ R x y := by
  have hrel := rel_getElem?_of_forall₂ h i
  rw [hy] at hrel
  match xs[i]?, hrel with
  | some x, .some hxy => exact ⟨x, rfl, hxy⟩

theorem exists_getElem?_right {α β : Type} {R : α → β → Prop} {xs : List α} {ys : List β}
    (h : List.Forall₂ R xs ys) {i : Nat} {x : α} (hx : xs[i]? = some x) :
    ∃ y, ys[i]? = some y ∧ R x y :=
  exists_getElem?_left h.flip hx

def Layout.nameAt? (l : Layout) (i : Nat) : Option Value := (l.layers[i]?).bind (·.name)

variable {A : Type}

def Graph.nameOf? (g : Graph A) (h : Handle) : Option Value := (g.group? h).bind (·.name)

/-- Whether there are weights, and of which shape, is a matter of the graph alone. -/
theorem Graph.WeightsFit.map_shape [Arithmetic A] {g : Graph A} {h : Handle} {w : Option A}
    (hfit : g.WeightsFit h w) :
    w.map Arithmetic.shape =
      if g.inputs h = [] then none else some [g.cardinality h, g.inputSize h] := by
  obtain ⟨hnone, hshape⟩ := hfit
  split
  · next hnil => rw [hnone.mpr hnil]; rfl
  · next hne =>
      obtain ⟨w', rfl⟩ := Option.ne_none_iff_exists'.mp (mt hnone.mp hne)
      rw [Option.map_some, hshape w' rfl]

/-- An entry of a layout says of a group what the graph says. -/
structure LayerLayout.Shows (e : LayerLayout) (l : Layout) (g : Graph A) (h : Handle)
    (t : Group A) : Prop where
  name : e.name = t.name
  cardinality : e.cardinality = t.cardinality
  activation : e.activation = t.activation.name
  inputs : e.inputs.map l.nameAt? = t.inputs.map g.nameOf?
  weightShape : e.weightShape = if t.inputs = [] then none else some [t.cardinality, g.inputSize h]

namespace Network

variable [Arithmetic A] {g : Graph A} {net : Network A} {output : Handle} {zeros : Nat → A}
  {l : Layout} {i : Nat}

/-- An entry says of its layer what the group says of itself, and where its inputs are. -/
theorem layerLayout_eq_ok_iff {layer : Layer A} {e : LayerLayout} :
    net.layerLayout g i layer = .ok e ↔
      ∃ js t, net.inputPositions g layer.group = .ok js ∧ g.group? layer.group = some t ∧
        e = ⟨i, t.name, t.cardinality, t.activation.name, js,
          layer.weights.map Arithmetic.shape⟩ := by
  rw [layerLayout, bind_eq_ok_iff]
  refine exists_congr fun js => ?_
  cases g.group? layer.group with
  | none => simp
  | some t =>
      simp only [Option.some.injEq, exists_and_left, exists_eq_left']
      exact and_congr_right fun _ => ⟨fun h => (Except.ok.inj h).symm, fun h => congrArg _ h.symm⟩

theorem layout_eq_ok_iff :
    net.layout g = .ok l ↔
      List.Forall₂ (fun p e => net.layerLayout g p.2 p.1 = .ok e) net.layers.toList.zipIdx
        l.layers ∧ l.parameters = net.parameterCount := by
  rw [layout, bind_eq_ok_iff]
  simp only [mapM_eq_ok_iff]
  constructor
  · rintro ⟨es, hes, hl⟩
    obtain rfl := Except.ok.inj hl
    exact ⟨hes, rfl⟩
  · rintro ⟨hes, hparameters⟩
    exact ⟨l.layers, hes, hparameters ▸ rfl⟩

/-- The layers and their entries stand in the same places. -/
theorem rel_getElem?_of_layout (hlayout : net.layout g = .ok l) (i : Nat) :
    Option.Rel (fun layer e => net.layerLayout g i layer = .ok e) net.layers[i]? l.layers[i]? := by
  have hrel := rel_getElem?_of_forall₂ (layout_eq_ok_iff.mp hlayout).1 i
  rw [List.getElem?_zipIdx, Array.getElem?_toList, Nat.zero_add] at hrel
  match net.layers[i]?, l.layers[i]?, hrel with
  | none, none, _ => exact .none
  | some _, some _, .some h => exact .some h

/-- The entries have the names of the groups. -/
theorem map_name_layers (hlayout : net.layout g = .ok l) :
    l.layers.map (·.name) = net.groups.map g.nameOf? := by
  refine List.ext_getElem? fun i => ?_
  have hrel := rel_getElem?_of_layout hlayout i
  rw [List.getElem?_map, List.getElem?_map, getElem?_groups]
  match net.layers[i]?, l.layers[i]?, hrel with
  | none, none, _ => rfl
  | some layer, some e, .some h =>
      obtain ⟨js, t, -, ht, rfl⟩ := layerLayout_eq_ok_iff.mp h
      simp [Graph.nameOf?, ht]

/-- The name at a position of the layout is the name of the group there. -/
theorem nameAt?_eq (hlayout : net.layout g = .ok l) (i : Nat) :
    l.nameAt? i = (net.groups[i]?).bind g.nameOf? := by
  have hname := congrArg (·[i]?.bind id) (map_name_layers hlayout)
  simp only [List.getElem?_map, Option.bind_map] at hname
  exact hname

/-- The positions that a layer reads from lead to the names of its inputs. -/
theorem Follows.map_nameAt? (hnet : net.Follows g output) (hlayout : net.layout g = .ok l)
    {h : Handle} (hi : net.groups[i]? = some h) {js : List Nat}
    (hjs : net.inputPositions g h = .ok js) :
    js.map l.nameAt? = (g.inputs h).map g.nameOf? := by
  obtain ⟨ks, hks, -, hmap⟩ := hnet.exists_inputPositions hi
  obtain rfl := Except.ok.inj (hjs.symm.trans hks)
  have hnames := congrArg (List.map (Option.bind · g.nameOf?)) hmap
  rw [List.map_map, List.map_map] at hnames
  rw [← List.map_congr_left (fun j _ => (nameAt?_eq hlayout j).symm)]
  exact hnames

/-- A network whose layers belong to groups of the graph has a layout. -/
theorem Follows.exists_layout (hnet : net.Follows g output)
    (hgroups : ∀ h, g.Reaches output h → ∃ t, g.group? h = some t) :
    ∃ l, net.layout g = .ok l := by
  have hentry : ∀ p ∈ net.layers.toList.zipIdx, ∃ e, net.layerLayout g p.2 p.1 = .ok e := by
    rintro ⟨layer, i⟩ hp
    rw [List.mem_zipIdx_iff_getElem?, Array.getElem?_toList] at hp
    have hi := getElem?_groups_of_layer hp
    obtain ⟨js, hjs, -⟩ := hnet.exists_inputPositions hi
    have hreach := (Graph.mem_order_iff hnet).mp (List.mem_of_getElem? hi)
    obtain ⟨t, ht⟩ := hgroups _ hreach
    exact ⟨_, layerLayout_eq_ok_iff.mpr ⟨js, t, hjs, ht, rfl⟩⟩
  obtain ⟨es, hes⟩ := exists_mapM_eq_ok hentry
  exact ⟨⟨es, net.parameterCount⟩, layout_eq_ok_iff.mpr ⟨mapM_eq_ok_iff.mp hes, rfl⟩⟩

/-- The groups and what is said of them stand in the same places. -/
theorem LaidOut.rel_shows (hnet : net.LaidOut g zeros output) (hlayout : net.layout g = .ok l)
    (i : Nat) :
    Option.Rel (fun h e => e.index = i ∧ ∃ t, g.group? h = some t ∧ e.Shows l g h t)
      net.groups[i]? l.layers[i]? := by
  have hrel := rel_getElem?_of_layout hlayout i
  -- a position is one of the network and of the layout, or of neither
  match hi : net.layers[i]?, l.layers[i]?, hrel with
  | none, none, _ =>
      rw [getElem?_groups, hi]
      exact .none
  | some layer, some e, .some h =>
      have hgroup := getElem?_groups_of_layer hi
      obtain ⟨js, t, hjs, ht, rfl⟩ := layerLayout_eq_ok_iff.mp h
      have hinputs := Graph.inputs_of_group? ht
      rw [hgroup]
      refine .some ⟨rfl, t, ht, rfl, rfl, rfl, ?_, ?_⟩
      · rw [← hinputs]  -- the names of its inputs
        exact hnet.follows.map_nameAt? hlayout hgroup hjs
      -- the shape of its weights
      · have hcardinality : g.cardinality layer.group = t.cardinality := by
          rw [Graph.cardinality, ht]
          rfl
        rw [(hnet.weights layer (Array.mem_of_getElem? hi)).map_shape, hinputs, hcardinality]

end Network

end Feedforward
