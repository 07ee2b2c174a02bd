import Feedforward.Proofs.Network.Denotation

/-!
# What a signal depends on

The value of a group is made of the weights and the vectors of groups that it reaches, and of
nothing else (`Denotes.congr`). Signals after a run are values, so two runs that differ at one group
only leave the same signals in every layer whose group does not reach it:

    ¬ Reaches k h  →  signal of k after one run  =  signal of k after the other.

Whether a layer stands in front of the changed one or behind it does not matter.
-/

namespace Feedforward

variable {A V : Type} [Arithmetic A] [Readable V A]

namespace Graph

variable {g : Graph A} {data data' : RunData V A} {h : Handle} {a b : A}

/-- Data that agree on what a group reaches give it the same value. -/
theorem Denotes.congr (hlike : data.like = data'.like)
    (hweights : ∀ u, g.Reaches h u → data.weights u = data'.weights u)
    (hvector : ∀ u, g.Reaches h u → g.inputs u = [] → data.vector u = data'.vector u)
    (ha : g.Denotes data h a) : g.Denotes data' h a := by
  induction ha with  -- the induction follows the groups down to the sources
  | @source h t v x y ht hnil hv hx hy =>
      have hsource := (inputs_of_group? ht).trans hnil
      rw [hvector h (.refl h) hsource] at hv
      rw [hlike] at hx ⊢
      exact .source ht hnil hv hx hy
  | @layer h t x w z y values ht hne _ hx hw hz hy ih =>
      rw [hweights h (.refl h)] at hw
      rw [hlike]
      refine .layer values ht hne ?_ hx hw hz hy
      intro u hu
      -- what an input reaches is reached from `h` as well
      have hread : u ∈ g.inputs h := by rwa [inputs_of_group? ht]
      apply ih u hu
      · intro v hv
        exact hweights v (hv.head hread)
      · intro v hv
        exact hvector v (hv.head hread)

/-- What a group denotes depends on the weights and the vectors of the groups that it reaches. -/
theorem Denotes.eq_of_agree (hlike : data.like = data'.like)
    (hweights : ∀ u, g.Reaches h u → data.weights u = data'.weights u)
    (hvector : ∀ u, g.Reaches h u → g.inputs u = [] → data.vector u = data'.vector u)
    (ha : g.Denotes data h a) (hb : g.Denotes data' h b) : a = b :=
  (ha.congr hlike hweights hvector).unique hb

end Graph

namespace Network

variable {g : Graph A} {net other net' other' : Network A} {output h : Handle} {i j : Nat}
  {like out : A} {feed : Feed V}

omit [Arithmetic A] in
/-- Networks of the same groups that agree in a buffer of all layers but one agree in the buffer of
all groups but one. -/
theorem bufferOf_eq_of_ne {b : Buffer} (hgroups : net.groups = other.groups)
    (hi : net.groups[i]? = some h)
    (hbuffers : ∀ j, j ≠ i → net.bufferAt b j = other.bufferAt b j) {u : Handle} (hu : u ≠ h) :
    net.bufferOf b u = other.bufferOf b u := by
  have hposition : net.position? u = other.position? u := by
    rw [position?_eq, position?_eq, hgroups]
  rw [bufferOf, bufferOf, ← hposition]
  cases hj : net.position? u with
  | none => rfl
  | some j =>
      have hne : j ≠ i := by
        rintro rfl
        rw [position?_eq] at hj
        exact hu (Option.some.inj ((getElem?_of_lastPosition? hj).symm.trans hi))
      exact hbuffers j hne

/-- Weights count for nothing in the signals that a network starts from. -/
theorem SignalsFit.setWeights (hfit : net.SignalsFit V g like) (content : Option A) :
    (net.setBuffer i .weights content).SignalsFit V g like := by
  apply forall_mem_setBuffer hfit
  intro layer hlayer
  exact hfit layer (Array.mem_of_getElem? hlayer)

/-- After a run that answers, the signal at a position is the value of the group there. -/
theorem Follows.exists_signal_of_run (hnet : net.Follows g output) (hfit : net.SignalsFit V g like)
    (hrun : net.run g feed = (.ok out, net')) {k : Handle} (hj : net.groups[j]? = some k) :
    ∃ a, net'.bufferAt .signal j = some a ∧ g.Denotes (net.runData g feed like) k a := by
  obtain ⟨hmute, -, hlayers⟩ := hnet.denotes_of_run hfit hrun
  rw [← groups_eq_of_mute_eq hmute] at hj
  obtain ⟨layer, hlayer, rfl⟩ := exists_layer_of_getElem?_groups hj
  obtain ⟨a, ha, hdenotes⟩ := hlayers layer (Array.mem_of_getElem? hlayer)
  refine ⟨a, ?_, hdenotes⟩
  rw [bufferAt, hlayer]
  exact ha

end Network

open Feedforward.Network Feedforward.Graph

/-- Two runs of a compiled network that both answer, with whatever the signals held before. The
weights and the vectors are the same but for the weights of one layer and the vector for its group.
Then the signals are the same in every layer whose group does not reach this one. -/
theorem signal_eq_of_not_reaches {g : Graph A} {output h : Handle} {alloc : Allocation A}
    {gen gen' : Generator} {compiled net other net' other' : Network A} {like out out' : A}
    {feed feed' : Feed V} {i : Nat}
    (hcompile : g.compile alloc output gen = (.ok compiled, gen'))
    (hgroups : net.groups = compiled.groups) (hgroups' : other.groups = compiled.groups)
    (hfit : net.SignalsFit V g like) (hfit' : other.SignalsFit V g like)
    (hi : compiled.groups[i]? = some h)
    (hweights : ∀ j, j ≠ i → net.bufferAt .weights j = other.bufferAt .weights j)
    (hvectors : ∀ u ∈ compiled.groups.filter g.isSource, u ≠ h →
      feed.vector? (compiled.groups.filter g.isSource) u =
        feed'.vector? (compiled.groups.filter g.isSource) u)
    (hrun : net.run g feed = (.ok out, net')) (hrun' : other.run g feed' = (.ok out', other')) :
    ∀ (j : Nat) (k : Handle), compiled.groups[j]? = some k → ¬ g.Reaches k h →
      net'.bufferAt .signal j = other'.bufferAt .signal j := by
  intro j k hj hk
  have hcompiled := Graph.follows_of_compile hcompile
  have hnet : net.Follows g output := by rwa [Follows, hgroups]
  have hother : other.Follows g output := by rwa [Follows, hgroups']
  obtain ⟨a, ha, hdenotes⟩ := hnet.exists_signal_of_run hfit hrun (hgroups ▸ hj)
  obtain ⟨b, hb, hdenotes'⟩ := hother.exists_signal_of_run hfit' hrun' (hgroups' ▸ hj)
  -- `k` does not reach the changed group, so whatever it reaches is another one
  have hne : ∀ u, g.Reaches k u → u ≠ h := by
    rintro u hu rfl
    exact hk hu
  -- the initial values of the buffers are no part of what a group denotes
  have hlike : (net.runData g feed like).like = (other.runData g feed' like).like := rfl
  rw [ha, hb, hdenotes.eq_of_agree hlike ?_ ?_ hdenotes']
  · intro u hu
    exact bufferOf_eq_of_ne (hgroups.trans hgroups'.symm) (hgroups ▸ hi) hweights (hne u hu)
  · intro u hu hsource
    have hreach : g.Reaches output u :=
      ((Graph.mem_order_iff hcompiled).mp (List.mem_of_getElem? hj)).trans hu
    have hmem : u ∈ compiled.groups.filter g.isSource := by
      rw [List.mem_filter]
      exact ⟨(Graph.mem_order_iff hcompiled).mpr hreach, Graph.isSource_iff.mpr hsource⟩
    show feed.vector? (net.groups.filter g.isSource) u =
      feed'.vector? (other.groups.filter g.isSource) u
    rw [hgroups, hgroups']
    exact hvectors u hmem (hne u hu)

/-- One side of the diamond does not read from the other, though it runs behind it. -/
theorem not_reaches_diamond : ¬ (diamond Activation.linear).Reaches 1 2 := by
  intro hreach
  -- the layer and the source that it reads from are all there is on its side
  have hclosed : ∀ v, v = 1 ∨ v = 0 →
      ∀ u ∈ (diamond Activation.linear).inputs v, u = 1 ∨ u = 0 := by
    rintro v (rfl | rfl) u hu
    · exact .inr (List.mem_singleton.mp hu)
    · cases hu
  exact absurd (hreach.mem_of_closed hclosed (.inl rfl)) (by decide)

theorem signal_eq_diamondNetwork :
    ∃ compiled gen' net' other' out out',
      (diamond Activation.linear).compile Numeric.doubles 3 (.ofSeed [0]) = (.ok compiled, gen') ∧
      diamondNetwork.run (diamond .linear) (.aligned [Value.list [.int 1, .int 2]]) =
        (.ok out, net') ∧
      (diamondNetwork.setBuffer 1 .weights (some (.float64 (.fill [1, 4] 7)))).run (diamond .linear)
        (.aligned [Value.list [.int 1, .int 2]]) = (.ok out', other') ∧
      net'.bufferAt .signal 2 = other'.bufferAt .signal 2 := by
  obtain ⟨compiled, gen', hcompile⟩ := exists_compile_diamond (.ofSeed [0])
  have hcompiled := groups_of_compile_diamond hcompile
  have hgroups : diamondNetwork.groups = compiled.groups := hcompiled.symm
  have hrun : ∃ out net', diamondNetwork.run (diamond .linear)
      (.aligned [Value.list [.int 1, .int 2]]) = (.ok out, net') := ⟨_, _, rfl⟩
  have hrun' : ∃ out' other',
      (diamondNetwork.setBuffer 1 .weights (some (.float64 (.fill [1, 4] 7)))).run (diamond .linear)
        (.aligned [Value.list [.int 1, .int 2]]) = (.ok out', other') := ⟨_, _, rfl⟩
  obtain ⟨out, net', hrun⟩ := hrun
  obtain ⟨out', other', hrun'⟩ := hrun'
  refine ⟨compiled, gen', net', other', out, out', hcompile, hrun, hrun', ?_⟩
  -- the diamond runs with other weights in one of its sides, which the other side does not reach
  refine signal_eq_of_not_reaches (i := 1) (h := 2) hcompile hgroups ?_ signalsFit_diamondNetwork
    (signalsFit_diamondNetwork.setWeights _) ?_ ?_ ?_ hrun hrun' 2 1 ?_ not_reaches_diamond
  · simp [hgroups]
  · rw [hcompiled]
    rfl
  · intro j hj
    rw [bufferAt_setBuffer_of_ne _ _ _ _ hj.symm]
  · intro u _ _
    rfl
  · rw [hcompiled]
    rfl

end Feedforward
