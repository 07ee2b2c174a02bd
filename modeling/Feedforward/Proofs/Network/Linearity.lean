import Mathlib.Algebra.Order.Ring.Defs
import Mathlib.Algebra.Order.Ring.Int
import Mathlib.Tactic.Ring
import Feedforward.Proofs.Graph.Unfolding
import Feedforward.Proofs.Network.Dependence
import Feedforward.Proofs.Network.Rearrangement

/-!
# Linear networks

Over exact arithmetic a layer multiplies and adds, so a network whose activations are all `linear`
computes a linear map of the vectors for its sources,

    run (a x + b y)  =  a (run x) + b (run y),

and so does each of its layers. The rectifier does not respect sums, but it respects multiples with
`0 ≤ a`; as `a x` is the combination `a x + 0 x`, one induction over the groups serves both
(`exists_computes_combination`).
-/

namespace Feedforward

open Finset

/-! ## Combinations of vectors -/

namespace Tensor

variable {α : Type} [Semiring α] {x y : Tensor α} {n c : Nat} {a b : α}

/-- `a` times one vector plus `b` times another of the same size. -/
def combine (a b : α) (x y : Tensor α) : Tensor α :=
  ⟨x.shape, (List.range x.size).map fun c => a * x.component c + b * y.component c, by
    simpa [size] using x.fits⟩

@[simp] theorem shape_combine (a b : α) (x y : Tensor α) : (combine a b x y).shape = x.shape := rfl

theorem component_of_le (hx : x.shape = [n]) (hc : n ≤ c) : x.component c = 0 := by
  rw [← length_data_of_shape hx] at hc
  simp [component, hc]

/-- Components are combined one by one. -/
theorem component_combine (hx : x.shape = [n]) (hy : y.shape = [n]) (c : Nat) :
    (combine a b x y).component c = a * x.component c + b * y.component c := by
  by_cases hc : c < n
  · have hsize : c < x.size := by
      rw [size, length_data_of_shape hx]
      exact hc
    rw [component, combine]
    simp [hsize]
  · have hz : (combine a b x y).shape = [n] := hx
    rw [component_of_le hz (by omega), component_of_le hx (by omega), component_of_le hy (by omega),
      mul_zero, mul_zero, add_zero]

theorem component_map (f : α → α) (hx : x.shape = [n]) (hc : c < n) :
    (x.map f).component c = f (x.component c) := by
  have hsize : c < x.data.length := by
    rw [length_data_of_shape hx]
    exact hc
  simp [component, map, hsize]

/-- A multiple is a combination of the vector with itself. -/
theorem combine_zero (hx : x.shape = [n]) : combine a 0 x x = x.map (a * ·) := by
  refine ext_component (n := n) ?_ ?_ fun c hc => ?_
  · exact hx
  · exact hx
  · rw [component_combine hx hx, component_map _ hx hc, zero_mul, add_zero]

end Tensor

/-! ## Activations over exact arithmetic -/

namespace Activation

variable {α : Type}

def tensorLinear [OfNat α 1] : Activation (Tensor α) where
  name := "linear"
  evaluate x := .ok x
  derivate x := .ok (x.map fun _ => 1)

/-- The identity on positive numbers and zero elsewhere. -/
def tensorRelu [LE α] [DecidableLE α] [LT α] [DecidableLT α] [OfNat α 0] [OfNat α 1] :
    Activation (Tensor α) where
  name := "relu"
  evaluate x := .ok (x.map rectify)
  derivate x := .ok (x.map fun c => if 0 < c then 1 else 0)

/-- On doubles and on singles, these are the built-in activations. -/
theorem evaluate_linear_eq_tensorLinear (x : Tensor Float) (y : Tensor Float32) :
    linear.evaluate (.float64 x) = (tensorLinear.evaluate x).map .float64 ∧
    linear.evaluate (.float32 y) = (tensorLinear.evaluate y).map .float32 :=
  ⟨rfl, rfl⟩

theorem evaluate_relu_eq_tensorRelu (x : Tensor Float) (y : Tensor Float32) :
    relu.evaluate (.float64 x) = (tensorRelu.evaluate x).map .float64 ∧
    relu.evaluate (.float32 y) = (tensorRelu.evaluate y).map .float32 :=
  ⟨rfl, rfl⟩

section Combinations

variable [CommSemiring α]

/-- Vectors are taken to vectors of the same size, and a combination of two to the combination of
what these are taken to. -/
def Respects (t : Activation (Tensor α)) (a b : α) : Prop :=
  ∀ (n : Nat) (x y : Tensor α), x.shape = [n] → y.shape = [n] → ∃ x' y' : Tensor α,
    t.evaluate x = .ok x' ∧ t.evaluate y = .ok y' ∧ x'.shape = [n] ∧ y'.shape = [n] ∧
    t.evaluate (.combine a b x y) = .ok (.combine a b x' y')

/-- The identity respects every combination. -/
theorem respects_tensorLinear (a b : α) : tensorLinear.Respects a b := by
  intro n x y hx hy
  exact ⟨x, y, rfl, rfl, hx, hy, rfl⟩

variable [LinearOrder α] [IsOrderedRing α] {a : α}

/-- A factor that is not negative can be taken out of a rectification. -/
theorem rectify_mul (ha : 0 ≤ a) (c : α) : rectify (a * c) = a * rectify c := by
  unfold rectify
  by_cases hc : c ≤ 0
  · rw [if_pos hc, if_pos (mul_nonpos_of_nonneg_of_nonpos ha hc), mul_zero]
  · have hprod : 0 ≤ a * c := mul_nonneg ha (le_of_not_ge hc)
    rw [if_neg hc]
    split
    · next h => exact le_antisymm hprod h
    · rfl

/-- Rectifying respects multiples by factors that are not negative. -/
theorem respects_tensorRelu (ha : 0 ≤ a) : tensorRelu.Respects a 0 := by
  intro n x y hx hy
  refine ⟨x.map rectify, y.map rectify, rfl, rfl, hx, hy, congrArg Except.ok ?_⟩
  refine Tensor.ext_component (n := n) ?_ ?_ fun c hc => ?_
  · exact hx
  · exact hx
  · rw [Tensor.component_map rectify (x := .combine a 0 x y) hx hc, Tensor.component_combine hx hy,
      Tensor.component_combine (x := x.map rectify) (y := y.map rectify) hx hy,
      Tensor.component_map rectify hx hc, zero_mul, zero_mul, add_zero, add_zero, rectify_mul ha]

end Combinations

end Activation

/-! ## Vectors for the sources -/

/-- A network is handed the members of a family as the vectors for its sources: in the order of the
sources, or by group. -/
inductive Network.Hands {A V : Type} (net : Network A) (g : Graph A) (family : Handle → V) :
    Feed V → Prop
  | aligned : Hands net g family (.aligned ((net.sourceGroups g).map family))
  | keyed {hs : List Handle} : (∀ h, h ∈ hs ↔ h ∈ net.sourceGroups g) →
      Hands net g family (.keyed (hs.map fun h => (h, family h)))

namespace Network.Hands

variable {A V : Type} {net : Network A} {g : Graph A} {family : Handle → V} {feed : Feed V}
  {output : Handle}

/-- A family of vectors that is handed to the sources is accepted. -/
theorem exists_accept (hands : net.Hands g family feed) (hnet : net.Follows g output) :
    ∃ given, net.accept g feed = .ok given := by
  cases hands with
  | aligned =>
      have hlength : ((net.sourceGroups g).map family).length = (net.sources g).length := by
        rw [List.length_map, length_sources]
      exact ⟨_, if_pos hlength⟩
  | keyed hkeys =>
      apply hnet.exists_accept_keyed_iff.mpr
      intro h
      simp [hkeys]

theorem lookup_map {hs : List Handle} {h : Handle} (hh : h ∈ hs) :
    (hs.map fun k => (k, family k)).lookup h = some (family h) := by
  induction hs with
  | nil => cases hh
  | cons k rest ih =>
      rw [List.map_cons, lookup_cons_eq_ite]
      by_cases hk : h = k
      · rw [if_pos hk, hk]
      · rw [if_neg hk]
        exact ih ((List.mem_cons.mp hh).resolve_left hk)

/-- Only the members for the sources count. -/
theorem congr {family' : Handle → V} (hsame : ∀ h ∈ net.sourceGroups g, family h = family' h)
    (hands : net.Hands g family feed) : net.Hands g family' feed := by
  cases hands with
  | aligned =>
      rw [List.map_congr_left hsame]
      exact .aligned
  | @keyed hs hkeys =>
      have hentries : (hs.map fun h => (h, family h)) = hs.map fun h => (h, family' h) := by
        apply List.map_congr_left
        intro h hh
        rw [hsame h ((hkeys h).mp hh)]
      rw [hentries]
      exact .keyed hkeys

/-- Each source receives its member of the family. -/
theorem vector?_eq (hands : net.Hands g family feed) {h : Handle} (hh : h ∈ net.sourceGroups g) :
    feed.vector? (net.sourceGroups g) h = some (family h) := by
  cases hands with
  | aligned =>
      show ((net.sourceGroups g).zip ((net.sourceGroups g).map family)).lookup h = _
      rw [← List.map_prod_left_eq_zip]
      exact lookup_map hh
  | keyed hkeys =>
      show (List.reverse _).lookup h = _
      rw [← List.map_reverse]
      exact lookup_map (List.mem_reverse.mpr ((hkeys h).mpr hh))

end Network.Hands

/-! ## Layers -/

/-- Every group that the output reaches has one of the given activations. -/
def Graph.ActivatedBy {A : Type} (g : Graph A) (output : Handle)
    (activations : List (Activation A)) : Prop :=
  ∀ h, g.Reaches output h → ∃ t, g.group? h = some t ∧ t.activation ∈ activations

section Exact

variable {α : Type} [CommSemiring α] {g : Graph (Tensor α)} {net : Network (Tensor α)}
  {output : Handle} {a b : α} {x y : Handle → Tensor α} {feed₁ feed₂ feed₃ : Feed (Tensor α)}

/-- A sum over edges of a combination is the combination of the sums. -/
theorem Graph.weightedSum_combine (h : Handle) (weight : Nat → α) (p q : Handle → Nat → α) :
    g.weightedSum h weight (fun u c => a * p u c + b * q u c) =
      a * g.weightedSum h weight p + b * g.weightedSum h weight q := by
  unfold weightedSum
  rw [mul_sum, mul_sum, ← sum_add_distrib]
  apply sum_congr rfl
  intro j _
  rw [mul_sum, mul_sum, ← sum_add_distrib]
  apply sum_congr rfl
  intro c _
  ring

/-- The product of the weights of a group with its joined inputs respects combinations. -/
theorem Graph.exists_product_combine {h : Handle} {s t : Handle → Tensor α} {w : Tensor α}
    (hne : g.inputs h ≠ []) (hs : ∀ u ∈ g.inputs h, (s u).shape = [g.cardinality u])
    (ht : ∀ u ∈ g.inputs h, (t u).shape = [g.cardinality u])
    (hw : w.shape = [g.cardinality h, g.inputSize h]) (a b : α) :
    ∃ p q r x y : Tensor α, x.shape = [g.cardinality h] ∧ y.shape = [g.cardinality h] ∧
      Arithmetic.join ((g.inputs h).map s) = .ok p ∧ Arithmetic.product w p = .ok x ∧
      Arithmetic.join ((g.inputs h).map t) = .ok q ∧ Arithmetic.product w q = .ok y ∧
      Arithmetic.join ((g.inputs h).map fun u => .combine a b (s u) (t u)) = .ok r ∧
      Arithmetic.product w r = .ok (.combine a b x y) := by
  obtain ⟨p, x, hp, -, hx, hxshape, hxsum⟩ := exists_weightedSum hne hs hw
  obtain ⟨q, y, hq, -, hy, hyshape, hysum⟩ := exists_weightedSum hne ht hw
  have hcombined : ∀ u ∈ g.inputs h, (Tensor.combine a b (s u) (t u)).shape = [g.cardinality u] :=
    hs
  obtain ⟨r, z, hr, -, hz, hzshape, hzsum⟩ := exists_weightedSum hne hcombined hw
  refine ⟨p, q, r, x, y, hxshape, hyshape, hp, hx, hq, hy, hr, hz.trans (congrArg Except.ok ?_)⟩
  refine Tensor.ext_component hzshape hxshape fun c hc => ?_
  rw [hzsum c hc, Tensor.component_combine hxshape hyshape, hxsum c hc, hysum c hc,
    ← weightedSum_combine]
  apply weightedSum_congr
  intro u hu
  funext c
  exact Tensor.component_combine (hs u hu) (ht u hu) c

/-- Where every activation respects a combination, the values of the groups do. -/
theorem Network.exists_computes_combination (like : Tensor α) (hnet : net.Shaped g output)
    (hrespects : ∀ h, g.Reaches output h → ∃ t, g.group? h = some t ∧ t.activation.Respects a b)
    (hx : ∀ h ∈ net.sourceGroups g, (x h).shape = [g.cardinality h])
    (hy : ∀ h ∈ net.sourceGroups g, (y h).shape = [g.cardinality h])
    (hands₁ : net.Hands g x feed₁) (hands₂ : net.Hands g y feed₂)
    (hands₃ : net.Hands g (fun h => .combine a b (x h) (y h)) feed₃) :
    ∀ h, g.Reaches output h → ∃ s t : Tensor α,
      s.shape = [g.cardinality h] ∧ t.shape = [g.cardinality h] ∧
      g.Computes (net.runData g feed₁ like) h s ∧ g.Computes (net.runData g feed₂ like) h t ∧
      g.Computes (net.runData g feed₃ like) h (.combine a b s t) := by
  refine (Graph.acyclicFrom_of_order hnet.follows).induction fun h hreach ih => ?_
  obtain ⟨t, ht, hactivation⟩ := hrespects h hreach
  have hactivate : ∀ {z z' : Tensor α}, t.activation.evaluate z = .ok z' →
      g.activate h z = .ok z' := fun hz => Graph.activate_eq_ok_iff.mpr ⟨t, ht, hz⟩
  by_cases hnil : g.inputs h = []
  · -- a source computes the activation of the vector that it is handed
    have hsource : h ∈ net.sourceGroups g := by
      rw [sourceGroups, List.mem_filter]
      exact ⟨(Graph.mem_order_iff hnet.follows).mpr hreach, Graph.isSource_iff.mpr hnil⟩
    obtain ⟨p, q, hp, hq, hpshape, hqshape, hpq⟩ :=
      hactivation _ _ _ (hx h hsource) (hy h hsource)
    refine ⟨p, q, hpshape, hqshape, ?_, ?_, ?_⟩
    all_goals apply (Graph.computes_iff_of_nil hnil).mpr
    · exact ⟨_, _, hands₁.vector?_eq hsource, rfl, hactivate hp⟩
    · exact ⟨_, _, hands₂.vector?_eq hsource, rfl, hactivate hq⟩
    · exact ⟨_, _, hands₃.vector?_eq hsource, rfl, hactivate hpq⟩
  · -- any other group computes the activation of its weights times what its inputs compute
    have : Nonempty (Tensor α) := ⟨like⟩
    choose! s r hs hr hcomputes₁ hcomputes₂ hcomputes₃ using ih
    obtain ⟨w, hw, hshape⟩ := hnet.exists_weights hreach hnil
    obtain ⟨p₁, p₂, p₃, z₁, z₂, hz₁, hz₂, hjoin₁, hproduct₁, hjoin₂, hproduct₂, hjoin₃,
      hproduct₃⟩ := Graph.exists_product_combine hnil hs hr hshape a b
    obtain ⟨p, q, hp, hq, hpshape, hqshape, hpq⟩ := hactivation _ _ _ hz₁ hz₂
    refine ⟨p, q, hpshape, hqshape, ?_, ?_, ?_⟩
    · rw [Graph.computes_iff_of_values hnil (fun u hu => (hcomputes₁ u hu).denotes) hjoin₁ hw
        hproduct₁]
      exact hactivate hp
    · rw [Graph.computes_iff_of_values hnil (fun u hu => (hcomputes₂ u hu).denotes) hjoin₂ hw
        hproduct₂]
      exact hactivate hq
    · rw [Graph.computes_iff_of_values hnil (fun u hu => (hcomputes₃ u hu).denotes) hjoin₃ hw
        hproduct₃]
      exact hactivate hpq

/-! ## Runs -/

/-- A run answers with what the groups compute if all of it fits, and leaves it in the signals. -/
theorem Network.exists_run_of_computes {like : Tensor α} (hnet : net.Shaped g output)
    {family values : Handle → Tensor α} {feed : Feed (Tensor α)} (hands : net.Hands g family feed)
    (hvalues : ∀ h, g.Reaches output h → g.Computes (net.runData g feed like) h (values h) ∧
      (values h).shape = [g.cardinality h]) :
    ∃ net', net.run g feed = (.ok (values output), net') ∧
      ∀ i h, net.groups[i]? = some h → net'.bufferAt .signal i = some (values h) := by
  have hfit : net.SignalsFit (Tensor α) g like := by
    intro layer hlayer
    obtain ⟨s, hs, hshape⟩ := hnet.signal layer hlayer
    exact ⟨s, hs, hshape, fun _ => rfl, fun _ => rfl⟩
  have hrun : ∃ net', net.run g feed = (.ok (values output), net') := by
    rw [exists_run_iff hnet hfit]
    exact ⟨hands.exists_accept hnet.follows, fun h hreach => ⟨values h, hvalues h hreach⟩,
      (hvalues output (.refl output)).1.denotes⟩
  obtain ⟨net', hrun⟩ := hrun
  refine ⟨net', hrun, ?_⟩
  intro i h hi
  obtain ⟨s, hs, hdenotes⟩ := hnet.follows.exists_signal_of_run hfit hrun hi
  have hreach := (Graph.mem_order_iff hnet.follows).mp (List.mem_of_getElem? hi)
  rw [hs, hdenotes.unique (hvalues h hreach).1.denotes]
  rfl

/-- Where every activation respects a combination, runs do, layer by layer. -/
theorem Network.exists_run_combination (hnet : net.Shaped g output)
    (hrespects : ∀ h, g.Reaches output h → ∃ t, g.group? h = some t ∧ t.activation.Respects a b)
    (hx : ∀ h ∈ net.sourceGroups g, (x h).shape = [g.cardinality h])
    (hy : ∀ h ∈ net.sourceGroups g, (y h).shape = [g.cardinality h])
    (hands₁ : net.Hands g x feed₁) (hands₂ : net.Hands g y feed₂)
    (hands₃ : net.Hands g (fun h => .combine a b (x h) (y h)) feed₃) :
    ∃ (out₁ out₂ : Tensor α) (net₁ net₂ net₃ : Network (Tensor α)),
      out₁.shape = [g.cardinality output] ∧ out₂.shape = [g.cardinality output] ∧
      net.run g feed₁ = (.ok out₁, net₁) ∧ net.run g feed₂ = (.ok out₂, net₂) ∧
      net.run g feed₃ = (.ok (.combine a b out₁ out₂), net₃) ∧
      ∀ i h, net.groups[i]? = some h → ∃ s t : Tensor α,
        s.shape = [g.cardinality h] ∧ t.shape = [g.cardinality h] ∧
        net₁.bufferAt .signal i = some s ∧ net₂.bufferAt .signal i = some t ∧
        net₃.bufferAt .signal i = some (.combine a b s t) := by
  have hcomputes := exists_computes_combination (.vector []) hnet hrespects hx hy hands₁ hands₂
    hands₃
  have : Nonempty (Tensor α) := ⟨.vector []⟩
  choose! s t hs ht hcomputes₁ hcomputes₂ hcomputes₃ using hcomputes
  obtain ⟨net₁, hrun₁, hsignal₁⟩ := exists_run_of_computes hnet hands₁ fun h hreach =>
    ⟨hcomputes₁ h hreach, hs h hreach⟩
  obtain ⟨net₂, hrun₂, hsignal₂⟩ := exists_run_of_computes hnet hands₂ fun h hreach =>
    ⟨hcomputes₂ h hreach, ht h hreach⟩
  obtain ⟨net₃, hrun₃, hsignal₃⟩ := exists_run_of_computes hnet hands₃ fun h hreach =>
    ⟨hcomputes₃ h hreach, hs h hreach⟩
  refine ⟨s output, t output, net₁, net₂, net₃, hs _ (.refl output), ht _ (.refl output), hrun₁,
    hrun₂, hrun₃, ?_⟩
  intro i h hi
  have hreach := (Graph.mem_order_iff hnet.follows).mp (List.mem_of_getElem? hi)
  exact ⟨s h, t h, hs h hreach, ht h hreach, hsignal₁ i h hi, hsignal₂ i h hi, hsignal₃ i h hi⟩

end Exact

/-! ## The main result -/

open Feedforward.Network Feedforward.Graph

/-- Running a compiled network over exact arithmetic, whatever its weights and signals hold. Where
all activations are linear, the vectors `a x + b y` give the answer `a p + b q` if `x` gives `p` and
`y` gives `q`, and the same is so of the signal of every layer. Where some of them rectify, the
vectors `a x` with `0 ≤ a` give the answer `a p`, again in every layer. The vectors are handed in by
group or in the order of the sources. -/
theorem run_combine_of_linear {α : Type} [CommSemiring α] {g : Graph (Tensor α)} {output : Handle}
    {alloc : Allocation (Tensor α)} {gen gen' : Generator} {compiled net : Network (Tensor α)}
    (hcompile : g.compile alloc output gen = (.ok compiled, gen'))
    (hgroups : net.groups = compiled.groups)
    (hweights : ∀ layer ∈ net.layers, g.WeightsFit layer.group layer.weights)
    (hsignals : ∀ layer ∈ net.layers, ∃ s, layer.signal = some s ∧
      s.shape = [g.cardinality layer.group]) :
    (g.ActivatedBy output [.tensorLinear] →
      ∀ (a b : α) (x y : Handle → Tensor α) (feed₁ feed₂ feed₃ : Feed (Tensor α)),
        (∀ h ∈ net.sourceGroups g, (x h).shape = [g.cardinality h]) →
        (∀ h ∈ net.sourceGroups g, (y h).shape = [g.cardinality h]) →
        net.Hands g x feed₁ → net.Hands g y feed₂ →
        net.Hands g (fun h => .combine a b (x h) (y h)) feed₃ →
        ∃ (p q : Tensor α) (net₁ net₂ net₃ : Network (Tensor α)),
          net.run g feed₁ = (.ok p, net₁) ∧ net.run g feed₂ = (.ok q, net₂) ∧
          net.run g feed₃ = (.ok (.combine a b p q), net₃) ∧
          p.shape = [g.cardinality output] ∧ q.shape = [g.cardinality output] ∧
          ∀ i h, net.groups[i]? = some h → ∃ s t : Tensor α,
            net₁.bufferAt .signal i = some s ∧ net₂.bufferAt .signal i = some t ∧
            net₃.bufferAt .signal i = some (.combine a b s t) ∧
            s.shape = [g.cardinality h] ∧ t.shape = [g.cardinality h]) ∧
    ∀ [LinearOrder α] [IsOrderedRing α], g.ActivatedBy output [.tensorLinear, .tensorRelu] →
      ∀ (a : α) (x : Handle → Tensor α) (feed₁ feed₂ : Feed (Tensor α)), 0 ≤ a →
        (∀ h ∈ net.sourceGroups g, (x h).shape = [g.cardinality h]) →
        net.Hands g x feed₁ → net.Hands g (fun h => (x h).map (a * ·)) feed₂ →
        ∃ (p : Tensor α) (net₁ net₂ : Network (Tensor α)),
          net.run g feed₁ = (.ok p, net₁) ∧ net.run g feed₂ = (.ok (p.map (a * ·)), net₂) ∧
          p.shape = [g.cardinality output] ∧
          ∀ i h, net.groups[i]? = some h → ∃ s : Tensor α,
            net₁.bufferAt .signal i = some s ∧ net₂.bufferAt .signal i = some (s.map (a * ·)) ∧
            s.shape = [g.cardinality h] := by
  have hnet : net.Shaped g output := {
    follows := by
      rw [Follows, hgroups]
      exact follows_of_compile hcompile
    weights := hweights
    signal := hsignals }
  constructor
  -- case: linear activations respect all combinations
  · intro hlinear a b x y feed₁ feed₂ feed₃ hx hy hands₁ hands₂ hands₃
    have hrespects : ∀ h, g.Reaches output h →
        ∃ t, g.group? h = some t ∧ t.activation.Respects a b := by
      intro h hreach
      obtain ⟨t, ht, hactivation⟩ := hlinear h hreach
      rw [List.mem_singleton] at hactivation
      refine ⟨t, ht, ?_⟩
      rw [hactivation]
      exact Activation.respects_tensorLinear a b
    obtain ⟨p, q, net₁, net₂, net₃, hp, hq, hrun₁, hrun₂, hrun₃, hsignal⟩ :=
      exists_run_combination hnet hrespects hx hy hands₁ hands₂ hands₃
    refine ⟨p, q, net₁, net₂, net₃, hrun₁, hrun₂, hrun₃, hp, hq, ?_⟩
    intro i h hi
    obtain ⟨s, t, hs, ht, hs₁, ht₂, hst₃⟩ := hsignal i h hi
    exact ⟨s, t, hs₁, ht₂, hst₃, hs, ht⟩
  -- case: a multiple is a combination with nothing
  · intro _ _ hrelu a x feed₁ feed₂ ha hx hands₁ hands₂
    have hrespects : ∀ h, g.Reaches output h →
        ∃ t, g.group? h = some t ∧ t.activation.Respects a 0 := by
      intro h hreach
      obtain ⟨t, ht, hactivation⟩ := hrelu h hreach
      refine ⟨t, ht, ?_⟩
      rw [List.mem_pair] at hactivation
      rcases hactivation with hactivation | hactivation
      · rw [hactivation]
        exact Activation.respects_tensorLinear a 0
      · rw [hactivation]
        exact Activation.respects_tensorRelu ha
    have hmultiple : net.Hands g (fun h => .combine a 0 (x h) (x h)) feed₂ := by
      apply hands₂.congr
      intro h hh
      exact (Tensor.combine_zero (hx h hh)).symm
    -- both summands of the combination are the same run
    obtain ⟨p, q, net₁, net₁', net₂, hp, -, hrun₁, hrun₁', hrun₂, hsignal⟩ :=
      exists_run_combination hnet hrespects hx hx hands₁ hands₁ hmultiple
    obtain ⟨hq, rfl⟩ := Prod.mk.inj (hrun₁.symm.trans hrun₁')
    obtain rfl := Except.ok.inj hq
    rw [Tensor.combine_zero hp] at hrun₂
    refine ⟨p, net₁, net₂, hrun₁, hrun₂, hp, ?_⟩
    intro i h hi
    obtain ⟨s, t, hs, -, hs₁, ht₁, hs₂⟩ := hsignal i h hi
    obtain rfl := Option.some.inj (hs₁.symm.trans ht₁)
    rw [Tensor.combine_zero hs] at hs₂
    exact ⟨s, hs₁, hs₂, hs⟩

/-- A layer of two neurons, and an output that reads from the source over it and past it. -/
def bypass (f : Activation (Tensor ℤ)) : Graph (Tensor ℤ) :=
  ⟨#[some ⟨2, .tensorLinear, [], none⟩, some ⟨2, f, [0], none⟩,
    some ⟨1, .tensorLinear, [0, 1], none⟩]⟩

def bypassNetwork : Network (Tensor ℤ) :=
  .ofLayers [
    ⟨0, none, some (.fill [2] 7), none⟩,
    ⟨1, some ⟨[2, 2], [1, -1, 2, 0], rfl⟩, some (.fill [2] 7), none⟩,
    ⟨2, some ⟨[1, 4], [1, 2, 3, 4], rfl⟩, some (.fill [1] 7), none⟩]

theorem order_bypass (f : Activation (Tensor ℤ)) :
    (bypass f).order 2 = .ok bypassNetwork.groups := by cbv

theorem exists_compile_bypass (f : Activation (Tensor ℤ)) :
    ∃ compiled gen', (bypass f).compile exactAllocation 2 (.ofSeed [0]) = (.ok compiled, gen') ∧
      bypassNetwork.groups = compiled.groups := by
  obtain ⟨compiled, gen', hcompile⟩ := (exists_compile_iff lawful_exactAllocation).mpr
    ⟨acyclicFrom_of_order (order_bypass f), fun _ _ => ⟨⟨_, rfl⟩, fun _ => rfl⟩⟩
  exact ⟨compiled, gen', hcompile,
    Except.ok.inj ((order_bypass f).symm.trans (follows_of_compile hcompile))⟩

theorem fits_bypassNetwork (f : Activation (Tensor ℤ)) :
    (∀ layer ∈ bypassNetwork.layers, (bypass f).WeightsFit layer.group layer.weights) ∧
    ∀ layer ∈ bypassNetwork.layers, ∃ s, layer.signal = some s ∧
      s.shape = [(bypass f).cardinality layer.group] := by
  constructor
  all_goals
    intro layer hlayer
    simp only [bypassNetwork, Network.ofLayers, List.mem_toArray, List.mem_cons,
      List.not_mem_nil, or_false] at hlayer
    rcases hlayer with rfl | rfl | rfl
  · exact ⟨iff_of_true rfl rfl, by rintro w ⟨⟩⟩
  · exact ⟨iff_of_false (Option.some_ne_none _) (List.cons_ne_nil _ _), by rintro w ⟨⟩; rfl⟩
  · exact ⟨iff_of_false (Option.some_ne_none _) (List.cons_ne_nil _ _), by rintro w ⟨⟩; rfl⟩
  all_goals exact ⟨_, rfl, rfl⟩

theorem activatedBy_bypass (f : Activation (Tensor ℤ)) :
    (bypass f).ActivatedBy 2 [.tensorLinear, f] := by
  intro h hreach
  rw [← mem_order_iff (order_bypass f)] at hreach
  have hh : h = 0 ∨ h = 1 ∨ h = 2 := by
    simpa [bypassNetwork, Network.groups, Network.ofLayers] using hreach
  rcases hh with rfl | rfl | rfl
  all_goals exact ⟨_, rfl, by simp⟩

/-- The vectors `[1, 2]` and `[3, -4]` give 10 and 40, so `2 [1, 2] - [3, -4]` gives -20. With a
rectifier, `[1, 2]` gives 13 and `3 [1, 2]` three times as much. -/
theorem run_bypassNetwork :
    (∃ compiled gen' net₃,
      (bypass .tensorLinear).compile exactAllocation 2 (.ofSeed [0]) = (.ok compiled, gen') ∧
      bypassNetwork.groups = compiled.groups ∧
      (bypass .tensorLinear).ActivatedBy 2 [.tensorLinear] ∧
      bypassNetwork.run (bypass .tensorLinear)
          (.keyed [(0, (.vector [-1, 8] : Tensor ℤ))]) = (.ok (.vector [-20]), net₃)) ∧
    ∃ compiled gen' net₂,
      (bypass .tensorRelu).compile exactAllocation 2 (.ofSeed [0]) = (.ok compiled, gen') ∧
      bypassNetwork.groups = compiled.groups ∧
      (bypass .tensorRelu).ActivatedBy 2 [.tensorLinear, .tensorRelu] ∧
      bypassNetwork.run (bypass .tensorRelu) (.aligned [(.vector [3, 6] : Tensor ℤ)]) =
        (.ok (.vector [39]), net₂) := by
  constructor
  · obtain ⟨compiled, gen', hcompile, hgroups⟩ := exists_compile_bypass .tensorLinear
    obtain ⟨hweights, hsignals⟩ := fits_bypassNetwork .tensorLinear
    have hlinear : (bypass .tensorLinear).ActivatedBy 2 [.tensorLinear] := by
      intro h hreach
      simpa using activatedBy_bypass .tensorLinear h hreach
    obtain ⟨hcombine, -⟩ := run_combine_of_linear hcompile hgroups hweights hsignals
    have hsources : ∀ h, h ∈ [0] ↔ h ∈ bypassNetwork.sourceGroups (bypass .tensorLinear) :=
      fun _ => Iff.rfl
    obtain ⟨p, q, net₁, net₂, net₃, hp, hq, hrun, -⟩ := hcombine hlinear 2 (-1)
      -- twice the first vector less the second one
      (fun _ => .vector [1, 2]) (fun _ => .vector [3, -4]) _ _ (.keyed [(0, .vector [-1, 8])])
      (by decide) (by decide) .aligned .aligned (.keyed hsources)
    cases hp
    cases hq
    exact ⟨compiled, gen', net₃, hcompile, hgroups, hlinear, hrun⟩
  · obtain ⟨compiled, gen', hcompile, hgroups⟩ := exists_compile_bypass .tensorRelu
    obtain ⟨hweights, hsignals⟩ := fits_bypassNetwork .tensorRelu
    obtain ⟨-, hmultiple⟩ := run_combine_of_linear hcompile hgroups hweights hsignals
    -- three times the vector
    obtain ⟨p, net₁, net₂, hp, hrun, -⟩ := hmultiple (activatedBy_bypass .tensorRelu) 3
      (fun _ => .vector [1, 2]) _ (.aligned [.vector [3, 6]]) (by decide) (by decide) .aligned
      .aligned
    cases hp
    exact ⟨compiled, gen', net₂, hcompile, hgroups, activatedBy_bypass .tensorRelu, hrun⟩

end Feedforward
