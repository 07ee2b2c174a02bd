import Feedforward.Proofs.Graph.Unfolding
import Feedforward.Proofs.Network.Description

/-!
# Compiling under other handles

Compiling looks at handles only to find groups. Where a map of handles carries the groups that an
output reaches over to another graph (`CarriesGroups`), compiling there takes the same draws, is
refused in the same way, and answers with the same layers under other handles (`compile_rename`). A
layout has positions in the place of handles, so that it stays the same (`layout_rename`).
-/

namespace Feedforward

variable {A : Type}

/-- The group that reads from other handles. -/
def Group.rename (f : Handle → Handle) (t : Group A) : Group A :=
  { t with inputs := t.inputs.map f }

def Layer.rename (f : Handle → Handle) (layer : Layer A) : Layer A :=
  { layer with group := f layer.group }

def Network.rename (f : Handle → Handle) (net : Network A) : Network A :=
  .ofLayers (net.layers.toList.map (·.rename f))

/-- In a list, an injective map carries the positions of handles along. -/
theorem lastPosition?_map {f : Handle → Handle} {u : Handle} {hs : List Handle}
    (hinj : ∀ v ∈ hs, f v = f u → v = u) :
    lastPosition? (f u) (hs.map f) = lastPosition? u hs := by
  induction hs with
  | nil => rfl
  | cons v rest ih =>
      have hiff : f v = f u ↔ v = u := ⟨hinj v List.mem_cons_self, congrArg f⟩
      rw [List.map_cons, lastPosition?, lastPosition?,
        ih fun w hw => hinj w (List.mem_cons_of_mem v hw)]
      simp only [hiff]

namespace Graph

/-- A map of handles carries the groups that the output reaches over to another graph. -/
structure CarriesGroups (g g' : Graph A) (f : Handle → Handle) (output : Handle) : Prop where
  injective : ∀ u v, g.Reaches output u → g.Reaches output v → f u = f v → u = v
  group? : ∀ v, g.Reaches output v → g'.group? (f v) = (g.group? v).map (·.rename f)

namespace CarriesGroups

variable {g g' : Graph A} {f : Handle → Handle} {output v : Handle} {hs : List Handle}
  {alloc : Allocation A} {net : Network A}

theorem inputs_eq (h : g.CarriesGroups g' f output) (hv : g.Reaches output v) :
    g'.inputs (f v) = (g.inputs v).map f := by
  rw [inputs, inputs, h.group? v hv]
  cases g.group? v <;> rfl

theorem carries (h : g.CarriesGroups g' f output) : g.Carries g' f output :=
  ⟨h.injective, fun _ hv => h.inputs_eq hv⟩

theorem cardinality_eq (h : g.CarriesGroups g' f output) (hv : g.Reaches output v) :
    g'.cardinality (f v) = g.cardinality v := by
  rw [cardinality, cardinality, h.group? v hv]
  cases g.group? v <;> rfl

theorem inputSize_eq (h : g.CarriesGroups g' f output) (hv : g.Reaches output v) :
    g'.inputSize (f v) = g.inputSize v := by
  rw [inputSize, inputSize, h.inputs_eq hv, List.map_map]
  exact congrArg List.sum (List.map_congr_left fun u hu => h.cardinality_eq (hv.tail hu))

theorem isSource_eq (h : g.CarriesGroups g' f output) (hv : g.Reaches output v) :
    g'.isSource (f v) = g.isSource v := by
  rw [isSource, isSource, h.inputs_eq hv, List.isEmpty_map]

/-! ## Compiling -/

theorem drawWeights_eq (h : g.CarriesGroups g' f output) (hv : g.Reaches output v)
    (gen : Generator) : g'.drawWeights alloc (f v) gen = g.drawWeights alloc v gen := by
  rw [drawWeights, drawWeights, h.isSource_eq hv, h.cardinality_eq hv, h.inputSize_eq hv]

/-- Renamed groups draw the same weights. -/
theorem drawAll_eq (h : g.CarriesGroups g' f output) (hhs : ∀ v ∈ hs, g.Reaches output v)
    (gen : Generator) : g'.drawAll alloc (hs.map f) gen = g.drawAll alloc hs gen := by
  induction hs generalizing gen with
  | nil => rfl
  | cons v rest ih =>
      obtain ⟨hv, hrest⟩ := List.forall_mem_cons.mp hhs
      simp only [List.map_cons, drawAll, h.drawWeights_eq hv, ih hrest]

/-- The buffers of renamed groups are the renamed buffers. -/
theorem newLayers_eq (h : g.CarriesGroups g' f output) (hhs : ∀ v ∈ hs, g.Reaches output v)
    (ws : List (Option A)) :
    g'.newLayers alloc (hs.map f) ws =
      (g.newLayers alloc hs ws).map (List.map (Layer.rename f)) := by
  induction hs generalizing ws with
  | nil => rfl
  | cons v rest ih =>
      obtain ⟨hv, hrest⟩ := List.forall_mem_cons.mp hhs
      match ws with
      | [] => rfl
      | w :: ws =>
          rw [List.map_cons, newLayers, newLayers, newLayer, newLayer, h.cardinality_eq hv,
            ih hrest]
          cases alloc.zeros (g.cardinality v) with
          | error fault => rfl
          | ok z => cases g.newLayers alloc rest ws <;> rfl

/-- Compiling the carried groups goes the same way. -/
theorem compile_rename (h : g.CarriesGroups g' f output) (hacyclic : g.AcyclicFrom output)
    (alloc : Allocation A) (gen : Generator) :
    g'.compile alloc (f output) gen =
      ((g.compile alloc output gen).1.map (·.rename f), (g.compile alloc output gen).2) := by
  obtain ⟨hs, horder⟩ := order_eq_ok_iff.mpr hacyclic
  have hhs : ∀ v ∈ hs, g.Reaches output v := fun v hv => (mem_order_iff horder).mp hv
  have horder' : g'.order (f output) = .ok (hs.map f) := by
    rw [h.carries.order_eq hacyclic, horder]
    rfl
  simp only [compile, horder, horder', h.drawAll_eq hhs]
  obtain ⟨drawn, gen'⟩ := g.drawAll alloc hs gen
  cases drawn with
  | error fault => rfl
  | ok ws =>
      simp only [h.newLayers_eq hhs]
      cases g.newLayers alloc hs ws <;> rfl

/-! ## The layout -/

theorem position?_rename (h : g.CarriesGroups g' f output) (hnet : net.Follows g output)
    (hv : g.Reaches output v) : (net.rename f).position? (f v) = net.position? v := by
  have hgroups : (net.rename f).groups = net.groups.map f := by
    simp only [Network.rename, Network.groups, Network.ofLayers, List.map_map]
    rfl
  rw [Network.position?_eq, Network.position?_eq, hgroups]
  exact lastPosition?_map fun u hu => h.injective u v ((mem_order_iff hnet).mp hu) hv

theorem inputPositions_rename (h : g.CarriesGroups g' f output) (hnet : net.Follows g output)
    (hv : g.Reaches output v) :
    (net.rename f).inputPositions g' (f v) = net.inputPositions g v := by
  rw [Network.inputPositions, Network.inputPositions, h.inputs_eq hv, List.mapM_map]
  refine mapM_congr fun u hu => ?_
  have hreach : g.Reaches output u := hv.tail hu
  obtain ⟨j, hj⟩ := List.mem_iff_getElem?.mp ((mem_order_iff hnet).mpr hreach)
  rw [Function.comp_apply, h.position?_rename hnet hreach, hnet.position?_eq_some_iff.mpr hj]

/-- No handle is left in the entry of a layer. -/
theorem layerLayout_rename [Arithmetic A] (h : g.CarriesGroups g' f output)
    (hnet : net.Follows g output) {layer : Layer A} {t : Group A}
    (hlayer : g.Reaches output layer.group) (ht : g.group? layer.group = some t) (i : Nat) :
    (net.rename f).layerLayout g' i (layer.rename f) = net.layerLayout g i layer := by
  simp only [Network.layerLayout, Layer.rename, h.inputPositions_rename hnet hlayer,
    h.group? _ hlayer, ht]
  rfl

/-- The layout does not show handles. -/
theorem layout_rename [Arithmetic A] (h : g.CarriesGroups g' f output)
    (hnet : net.Follows g output) (hgroups : ∀ v, g.Reaches output v → ∃ t, g.group? v = some t) :
    (net.rename f).layout g' = net.layout g := by
  have hlayers : (net.rename f).layers.toList = net.layers.toList.map (·.rename f) := rfl
  have hparameters : (net.rename f).parameterCount = net.parameterCount := by
    rw [Network.parameterCount, hlayers, List.map_map]
    rfl
  rw [Network.layout, Network.layout, hparameters, hlayers, List.zipIdx_map, List.mapM_map]
  refine congrArg (· >>= _) (mapM_congr fun p hlayer => ?_)
  obtain ⟨layer, i⟩ := p
  have hmem := List.mem_map_of_mem (f := Layer.group) (List.fst_mem_of_mem_zipIdx hlayer)
  have hreach := (mem_order_iff hnet).mp hmem
  obtain ⟨t, ht⟩ := hgroups _ hreach
  exact h.layerLayout_rename hnet hreach ht i

/-- Compiling the carried groups is refused because of the same array, or answers with a network of
the same layout and the same weights. -/
theorem compile_eq_or_exists [Arithmetic A] (h : g.CarriesGroups g' f output)
    (hacyclic : g.AcyclicFrom output) (hgroups : ∀ v, g.Reaches output v → ∃ t, g.group? v = some t)
    (alloc : Allocation A) (gen : Generator) :
    (∃ fault gen', g.compile alloc output gen = (.error (.array fault), gen') ∧
      g'.compile alloc (f output) gen = (.error (.array fault), gen')) ∨
    ∃ net net' gen' l, g.compile alloc output gen = (.ok net, gen') ∧
      g'.compile alloc (f output) gen = (.ok net', gen') ∧
      net.layout g = .ok l ∧ net'.layout g' = .ok l ∧
      net'.layers.toList.map (·.weights) = net.layers.toList.map (·.weights) := by
  have hrename := h.compile_rename hacyclic alloc gen
  match hcompile : g.compile alloc output gen with
  | (.error (.order e), gen') =>
      -- there is an order, so that only an array can be refused
      obtain ⟨hs, horder⟩ := order_eq_ok_iff.mpr hacyclic
      cases horder.symm.trans (compile_eq_order_error_iff.mp hcompile).1
  | (.error (.array fault), gen') =>
      rw [hcompile] at hrename
      exact .inl ⟨fault, gen', rfl, hrename⟩
  | (.ok net, gen') =>
      rw [hcompile] at hrename
      have hnet := follows_of_compile hcompile
      obtain ⟨l, hlayout⟩ := hnet.exists_layout hgroups
      refine .inr ⟨net, net.rename f, gen', l, rfl, hrename, hlayout, ?_, ?_⟩
      · rw [h.layout_rename hnet hgroups, hlayout]
      -- renaming leaves the weights as they are
      · show (net.layers.toList.map (·.rename f)).map (·.weights) = _
        rw [List.map_map]
        rfl

end CarriesGroups

end Graph

end Feedforward
