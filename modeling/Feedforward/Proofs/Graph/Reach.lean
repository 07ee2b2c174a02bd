import Feedforward.Proofs.Graph.Unfolding

/-!
# Counting what is reached

`Graph.reach` counts the groups that an output reaches. It collects them from a frontier: a group
leaves the frontier once all that it reads from is collected, so that in the end the collected groups
are closed under inputs,

    v ∈ collect g {output} [output]  ↔  Reaches g output v,

and each is collected once. Cycles do no harm, since what is collected already never joins the
frontier again. Where the graph has an order, the order lists the same groups.
-/

namespace Feedforward.Graph

variable {A : Type} {g : Graph A} {output v : Handle} {seen : HandleList} {frontier : List Handle}

theorem mem_fresh_iff {vs : List Handle} : v ∈ fresh seen vs ↔ v ∈ vs ∧ v ∉ seen := by
  simp [fresh, List.mem_eraseDups]

theorem nodup_fresh (seen : HandleList) (vs : List Handle) : (fresh seen vs).Nodup :=
  nodup_eraseDups _

theorem mem_prepend_iff {vs : List Handle} : v ∈ seen.prepend vs ↔ v ∈ vs ∨ v ∈ seen := by
  rw [← HandleList.mem_toList, HandleList.toList_prepend, List.mem_append, HandleList.mem_toList]

/-- A group leaves the frontier, and what it reads from and is new takes its place. -/
theorem collect_cons (g : Graph A) (seen : HandleList) (v : Handle) (rest : List Handle) :
    g.collect seen (v :: rest) =
      g.collect (seen.prepend (fresh seen (g.inputs v))) (fresh seen (g.inputs v) ++ rest) := by
  rw [collect]
  split
  · next hf =>
      rw [hf]
      rfl
  · next u us hf => rw [hf]

/-- What holds while groups are collected: they are reached and each stands once, and the ones that
have left the frontier read from collected ones only. -/
structure Collecting (g : Graph A) (output : Handle) (seen : HandleList) (frontier : List Handle) :
    Prop where
  nodup : seen.toList.Nodup
  mem_output : output ∈ seen
  reached : ∀ v, v ∈ seen → g.Reaches output v
  mem_frontier : ∀ v ∈ frontier, v ∈ seen
  closed : ∀ v, v ∈ seen → v ∈ frontier ∨ ∀ u ∈ g.inputs v, u ∈ seen

namespace Collecting

/-- The output is collected before anything else, and its inputs are due. -/
theorem start (g : Graph A) (output : Handle) :
    g.Collecting output (HandleList.nil.cons output) [output] where
  nodup := List.nodup_singleton output
  mem_output := HandleList.mem_cons.mpr (.inl rfl)
  reached v hv := by
    obtain rfl | hv := HandleList.mem_cons.mp hv
    · exact .refl v
    · exact absurd hv (HandleList.not_mem_nil v)
  mem_frontier v hv := HandleList.mem_cons.mpr (.inl (List.mem_singleton.mp hv))
  closed v hv := by
    obtain rfl | hv := HandleList.mem_cons.mp hv
    · exact .inl (List.mem_singleton_self v)
    · exact absurd hv (HandleList.not_mem_nil v)

/-- The inputs of the head of the frontier are collected, and they join the frontier unless they
have been there. -/
theorem step {rest : List Handle} (h : g.Collecting output seen (v :: rest)) :
    g.Collecting output (seen.prepend (fresh seen (g.inputs v)))
      (fresh seen (g.inputs v) ++ rest) where
  nodup := by
    rw [HandleList.toList_prepend, List.nodup_append]
    refine ⟨nodup_fresh _ _, h.nodup, fun u hu w hw heq => ?_⟩
    exact (mem_fresh_iff.mp hu).2 (heq ▸ hw)
  mem_output := mem_prepend_iff.mpr (.inr h.mem_output)
  reached u hu := by
    obtain hu | hu := mem_prepend_iff.mp hu
    · exact (h.reached v (h.mem_frontier v List.mem_cons_self)).tail (mem_fresh_iff.mp hu).1
    · exact h.reached u hu
  mem_frontier u hu := by
    rw [mem_prepend_iff]
    exact (List.mem_append.mp hu).imp_right fun hu => h.mem_frontier u (List.mem_cons_of_mem v hu)
  closed u hu := by
    rw [List.mem_append]
    obtain hu | hu := mem_prepend_iff.mp hu
    · exact .inl (.inl hu)
    · obtain hmem | hclosed := h.closed u hu
      · obtain rfl | hrest := List.mem_cons.mp hmem
        · -- this is the group that leaves the frontier
          right
          intro w hw
          rw [mem_prepend_iff, mem_fresh_iff]
          exact (em (w ∈ seen)).elim .inr fun hnew => .inl ⟨hw, hnew⟩
        · exact .inl (.inr hrest)
      · exact .inr fun w hw => mem_prepend_iff.mpr (.inr (hclosed w hw))

/-- In the end nothing is due. -/
theorem collect (h : g.Collecting output seen frontier) :
    g.Collecting output (g.collect seen frontier) [] := by
  induction seen, frontier using Graph.collect.induct g with
  | case1 seen => rwa [Graph.collect]
  | case2 seen v rest hf ih =>
      have hstep := h.step
      rw [hf] at hstep
      rw [collect_cons, hf]
      exact ih hstep
  | case3 seen v rest u us hf ih =>
      have hstep := h.step
      rw [hf] at hstep
      rw [collect_cons, hf]
      exact ih hstep

end Collecting

/-! ## What is counted -/

theorem mem_collect_iff :
    v ∈ g.collect (HandleList.nil.cons output) [output] ↔ g.Reaches output v := by
  have hend := (Collecting.start g output).collect
  refine ⟨hend.reached v, fun hreach => hreach.mem_of_closed (fun w hw => ?_) hend.mem_output⟩
  exact (hend.closed w hw).resolve_left List.not_mem_nil

theorem nodup_collect (g : Graph A) (output : Handle) :
    (g.collect (HandleList.nil.cons output) [output]).toList.Nodup :=
  (Collecting.start g output).collect.nodup

/-- The count is the number of distinct groups that are reached, whatever list they stand in. -/
theorem reach_eq_length {hs : List Handle} (hnodup : hs.Nodup)
    (hmem : ∀ v, v ∈ hs ↔ g.Reaches output v) : g.reach output = hs.length := by
  have hperm : (g.collect (HandleList.nil.cons output) [output]).toList.Perm hs := by
    refine (List.perm_ext_iff_of_nodup (nodup_collect g output) hnodup).mpr fun v => ?_
    rw [HandleList.mem_toList, mem_collect_iff, hmem]
  exact hperm.length_eq

/-- Where there is an order, collecting counts what it lists. -/
theorem reach_eq_length_of_order {hs : List Handle} (h : g.order output = .ok hs) :
    g.reach output = hs.length :=
  reach_eq_length (nodup_order h) fun _ => mem_order_iff h

end Feedforward.Graph
