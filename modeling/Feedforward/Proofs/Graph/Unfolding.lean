import Mathlib.Data.List.Induction
import Mathlib.Data.List.Nodup
import Feedforward.Proofs.Graph.Order

/-!
# The order of a graph and the tree that it unfolds to

A graph without cycles unfolds to a tree: a group stands above a copy of the tree of each of its
inputs, and a group that is shared is copied. `Graph.preorder` lists this tree from the top, the
inputs in edge order, and the order of the graph is that list read from its end, where every group
counts at its first place only:

    order g output  =  ok (first occurrences of the reversed preorder).

The tree can be exponentially larger than the graph. The exploration passes over a group that is
listed already, and what this leaves out is listed already, too (`explored_visit_all`). So the order
is a matter of the edges alone: where a map of handles carries edges to edges, it carries the order
along (`Carries.order_eq`).
-/

namespace Feedforward

/-! ## First occurrences -/

section Occurrences

variable {α β : Type} [BEq α] [LawfulBEq α] [BEq β] [LawfulBEq β]

/-- Elements that have occurred leave no trace. -/
theorem eraseDups_append_of_subset {as bs : List α} (h : ∀ b ∈ bs, b ∈ as) :
    (as ++ bs).eraseDups = as.eraseDups := by
  have hnil : bs.removeAll as = [] := by
    rw [List.removeAll, List.filter_eq_nil_iff]
    intro b hb
    simpa using h b hb
  rw [List.eraseDups_append, hnil, List.eraseDups_nil, List.append_nil]

/-- A new element comes last. -/
theorem eraseDups_concat_of_not_mem {as : List α} {a : α} (h : a ∉ as) :
    (as ++ [a]).eraseDups = as.eraseDups ++ [a] := by
  have hself : [a].removeAll as = [a] := by
    rw [List.removeAll, List.filter_eq_self]
    intro b hb
    rw [List.mem_singleton.mp hb]
    simpa using h
  rw [List.eraseDups_append, hself]
  rfl

theorem eraseDups_of_nodup {as : List α} (h : as.Nodup) : as.eraseDups = as := by
  induction as using List.reverseRecOn with
  | nil => rfl
  | append_singleton as a ih =>
      obtain ⟨has, -, hdisjoint⟩ := List.nodup_append.mp h
      have ha : a ∉ as := fun ha => hdisjoint a ha a (List.mem_singleton_self a) rfl
      rw [eraseDups_concat_of_not_mem ha, ih has]

theorem nodup_eraseDups (as : List α) : as.eraseDups.Nodup := by
  induction as using List.reverseRecOn with
  | nil => exact List.nodup_nil
  | append_singleton as a ih =>
      by_cases ha : a ∈ as
      · rwa [eraseDups_append_of_subset (by simpa using ha)]
      · rw [eraseDups_concat_of_not_mem ha, List.nodup_append]
        refine ⟨ih, List.nodup_singleton a, fun b hb c hc heq => ?_⟩
        rw [List.mem_singleton.mp hc] at heq
        exact ha (List.mem_eraseDups.mp (heq ▸ hb))

theorem eraseDups_filter (p : α → Bool) (as : List α) :
    (as.filter p).eraseDups = as.eraseDups.filter p := by
  induction as using List.reverseRecOn with
  | nil => rfl
  | append_singleton as a ih =>
      rw [List.filter_append]
      by_cases ha : a ∈ as  -- case: `a` occurs before, so that neither list grows
      · have hsub : ∀ b ∈ [a].filter p, b ∈ as.filter p := by
          intro b hb
          obtain ⟨hb, hp⟩ := List.mem_filter.mp hb
          exact List.mem_filter.mpr ⟨List.mem_singleton.mp hb ▸ ha, hp⟩
        rw [eraseDups_append_of_subset hsub, ih,
          eraseDups_append_of_subset (by simpa using ha)]
      · rw [eraseDups_concat_of_not_mem ha, List.filter_append, ← ih]  -- case: `a` is new
        by_cases hp : p a
        · have hnot : a ∉ as.filter p := fun hmem => ha (List.mem_filter.mp hmem).1
          rw [List.filter_singleton, hp, cond_true, eraseDups_concat_of_not_mem hnot]
        · simp [hp]

/-- What tells the members of a list apart keeps their first occurrences where they are. -/
theorem eraseDups_map {f : α → β} {as : List α} (hf : ∀ a ∈ as, ∀ b ∈ as, f a = f b → a = b) :
    (as.map f).eraseDups = as.eraseDups.map f := by
  induction as using List.reverseRecOn with
  | nil => rfl
  | append_singleton as a ih =>
      have hprefix : ∀ b ∈ as, ∀ c ∈ as, f b = f c → b = c := fun b hb c hc =>
        hf b (List.mem_append_left _ hb) c (List.mem_append_left _ hc)
      rw [List.map_append, List.map_singleton]
      by_cases ha : a ∈ as
      · have hfa : f a ∈ as.map f := List.mem_map_of_mem ha
        rw [eraseDups_append_of_subset (by simpa using hfa),
          eraseDups_append_of_subset (by simpa using ha), ih hprefix]
      · have hfa : f a ∉ as.map f := by
          intro hmem
          obtain ⟨b, hb, heq⟩ := List.mem_map.mp hmem
          obtain rfl := hf b (List.mem_append_left _ hb) a (by simp) heq
          exact ha hb
        rw [eraseDups_concat_of_not_mem ha, eraseDups_concat_of_not_mem hfa, ih hprefix,
          List.map_append, List.map_singleton]

end Occurrences

namespace Graph

open Relation

variable {A : Type} {g : Graph A}

/-- A property of the groups that a group without cycles reaches, shown of each from its inputs. -/
theorem AcyclicFrom.induction {root : Handle} (h : g.AcyclicFrom root) {P : Handle → Prop}
    (hstep : ∀ v, g.Reaches root v → (∀ u ∈ g.inputs v, P u) → P v) :
    ∀ v, g.Reaches root v → P v := by
  obtain ⟨hs, horder⟩ := order_eq_ok_iff.mpr h
  -- in the order, the inputs of a group stand in front of it
  have hpositions : ∀ (i : Nat) (v : Handle), hs[i]? = some v → P v := by
    intro i
    induction i using Nat.strongRecOn with
    | ind i ih =>
        intro v hv
        refine hstep v ((mem_order_iff horder).mp (List.mem_of_getElem? hv)) fun u hu => ?_
        obtain ⟨j, hji, hj⟩ := exists_lt_of_mem_inputs_order horder hv hu
        exact ih j hji u hj
  intro v hv
  obtain ⟨i, hi⟩ := List.mem_iff_getElem?.mp ((mem_order_iff horder).mpr hv)
  exact hpositions i v hi

/-- No cycle is reached from an input either. -/
theorem AcyclicFrom.of_mem_inputs {u v : Handle} (h : g.AcyclicFrom v) (hu : u ∈ g.inputs v) :
    g.AcyclicFrom u :=
  h.of_reaches (.head hu (.refl u))

/-- In a graph without cycles, no input leads back. -/
theorem AcyclicFrom.not_reaches_of_mem_inputs {u v : Handle} (h : g.AcyclicFrom v)
    (hu : u ∈ g.inputs v) : ¬ g.Reaches u v :=
  fun hback => h v (.refl v) (TransGen.head' hu hback)

/-! ## The unfolding -/

/-- Lists a group and then, one input after the other, what is above it in the tree. The path holds
the groups below; one of them that turns up again is not followed. -/
def preorderFrom (g : Graph A) (path : List Handle) (v : Handle) : List Handle :=
  if _hp : v ∈ path then []
  else match _hg : g.group? v with
    | none => [v]
    | some t => v :: t.inputs.flatMap (preorderFrom g (v :: path))
termination_by g.outside path
decreasing_by exact outside_cons_lt (group?_lt _hg) _hp

/-- The tree that unfolds from a group, every group before the trees of its inputs. -/
def preorder (g : Graph A) (v : Handle) : List Handle := g.preorderFrom [] v

theorem preorderFrom_of_not_mem {path : List Handle} {v : Handle} (h : v ∉ path) :
    g.preorderFrom path v = v :: (g.inputs v).flatMap (g.preorderFrom (v :: path)) := by
  rw [preorderFrom, dif_neg h]
  split
  · next hg =>
      rw [inputs, hg]
      rfl
  · next t hg => rw [inputs_of_group? hg]

/-- A path does not matter where none of its groups is reached. -/
theorem preorderFrom_eq_preorder {path : List Handle} {v : Handle} (hv : g.AcyclicFrom v)
    (hpath : ∀ x ∈ path, ¬ g.Reaches v x) : g.preorderFrom path v = g.preorder v := by
  have hall : ∀ u, g.Reaches v u → ∀ p q : List Handle, (∀ x ∈ p, ¬ g.Reaches u x) →
      (∀ x ∈ q, ¬ g.Reaches u x) → g.preorderFrom p u = g.preorderFrom q u := by
    refine hv.induction fun w hw ih p q hp hq => ?_
    have hacyclic := hv.of_reaches hw
    -- `w` joins the path, and no input of `w` leads back to it
    have hcons : ∀ p : List Handle, (∀ x ∈ p, ¬ g.Reaches w x) →
        ∀ u ∈ g.inputs w, ∀ x ∈ w :: p, ¬ g.Reaches u x := by
      intro p hp u hu x hx
      rcases List.mem_cons.mp hx with rfl | hx
      · exact hacyclic.not_reaches_of_mem_inputs hu
      · exact fun hreach => hp x hx (hreach.head hu)
    rw [preorderFrom_of_not_mem fun hmem => hp w hmem (.refl w),
      preorderFrom_of_not_mem fun hmem => hq w hmem (.refl w)]
    refine congrArg (w :: ·) (List.flatMap_congr fun u hu => ?_)
    exact ih u hu _ _ (hcons p hp u hu) (hcons q hq u hu)
  exact hall v (.refl v) path [] hpath (List.forall_mem_nil _)

/-- The unfolding of a group stands above the unfoldings of its inputs. -/
theorem preorder_eq_cons {v : Handle} (h : g.AcyclicFrom v) :
    g.preorder v = v :: (g.inputs v).flatMap g.preorder := by
  rw [preorder, preorderFrom_of_not_mem List.not_mem_nil]
  refine congrArg (v :: ·) (List.flatMap_congr fun u hu => ?_)
  refine preorderFrom_eq_preorder (h.of_mem_inputs hu) fun x hx => ?_
  rw [List.mem_singleton.mp hx]
  exact h.not_reaches_of_mem_inputs hu

/-- Read from its end, the tree has a group behind the trees of its inputs. -/
theorem reverse_preorder {v : Handle} (h : g.AcyclicFrom v) :
    (g.preorder v).reverse =
      ((g.inputs v).reverse.flatMap fun u => (g.preorder u).reverse) ++ [v] := by
  rw [preorder_eq_cons h, List.reverse_cons, List.reverse_flatMap]
  rfl

/-- The tree has what the group reaches. -/
theorem mem_preorder_iff {v u : Handle} (h : g.AcyclicFrom v) :
    u ∈ g.preorder v ↔ g.Reaches v u := by
  have hall : ∀ w, g.Reaches v w → (u ∈ g.preorder w ↔ g.Reaches w u) := by
    refine h.induction fun w hw ih => ?_
    rw [preorder_eq_cons (h.of_reaches hw), List.mem_cons, List.mem_flatMap]
    constructor
    · rintro (rfl | ⟨x, hx, hu⟩)
      · exact .refl u
      · exact ((ih x hx).mp hu).head hx
    · intro hreach
      rcases ReflTransGen.cases_head hreach with heq | ⟨x, hx, hback⟩
      · exact .inl heq.symm
      · exact .inr ⟨x, hx, (ih x hx).mpr hback⟩
  exact hall v (.refl v)

/-! ## What is explored -/

/-- A list that holds what its members read from. -/
def Closed (g : Graph A) (l : List Handle) : Prop := ∀ v ∈ l, ∀ u ∈ g.inputs v, u ∈ l

theorem Closed.append {l l' : List Handle} (h : g.Closed l) (h' : g.Closed l') :
    g.Closed (l ++ l') := by
  intro v hv u hu
  rcases List.mem_append.mp hv with hv | hv
  · exact List.mem_append_left _ (h v hv u hu)
  · exact List.mem_append_right _ (h' v hv u hu)

/-- From its end on, the tree has everything that its members read from. -/
theorem closed_reverse_preorder {v : Handle} (h : g.AcyclicFrom v) :
    g.Closed (g.preorder v).reverse := by
  intro w hw u hu
  rw [List.mem_reverse, mem_preorder_iff h] at hw ⊢
  exact hw.tail hu

/-- The list holds the first occurrences of a walk, the latest first. -/
def Records (listed : HandleList) (walk : List Handle) : Prop :=
  listed.toList.reverse = walk.eraseDups

namespace Records

variable {listed : HandleList} {walk : List Handle} {v : Handle}

theorem mem_iff (h : Records listed walk) : v ∈ listed ↔ v ∈ walk := by
  rw [← HandleList.mem_toList, ← List.mem_reverse, h, List.mem_eraseDups]

theorem cons (h : Records listed walk) (hv : v ∉ walk) :
    Records (listed.cons v) (walk ++ [v]) := by
  rw [Records, HandleList.toList_cons, List.reverse_cons, h, eraseDups_concat_of_not_mem hv]

/-- Passing over a group that is listed already leaves out what is listed already. -/
theorem append_preorder (h : Records listed walk) (hclosed : g.Closed walk)
    (hacyclic : g.AcyclicFrom v) (hv : v ∈ listed) :
    Records listed (walk ++ (g.preorder v).reverse) := by
  rw [Records, eraseDups_append_of_subset]
  · exact h
  · intro u hu
    rw [List.mem_reverse, mem_preorder_iff hacyclic] at hu
    exact hu.mem_of_closed hclosed (h.mem_iff.mp hv)

end Records

/-- Joint specification of the two functions of the exploration, by their own induction principle:
what they list is what a walk along the unfoldings lists. -/
theorem records_visit_all :
    (∀ (path listed : HandleList) (v : Handle) (walk : List Handle) (now : HandleList),
      g.AcyclicFrom v → g.Closed walk → Records listed walk →
      g.visit path listed v = .ok now → Records now (walk ++ (g.preorder v).reverse)) ∧
    ∀ (path listed : HandleList) (vs walk : List Handle) (now : HandleList),
      (∀ v ∈ vs, g.AcyclicFrom v) → g.Closed walk → Records listed walk →
      g.visitAll path listed vs = .ok now →
      Records now (walk ++ vs.flatMap fun v => (g.preorder v).reverse) := by
  apply visit.mutual_induct g
    (fun path listed v => ∀ walk now, g.AcyclicFrom v → g.Closed walk → Records listed walk →
      g.visit path listed v = .ok now → Records now (walk ++ (g.preorder v).reverse))
    (fun path listed vs => ∀ walk now, (∀ v ∈ vs, g.AcyclicFrom v) → g.Closed walk →
      Records listed walk → g.visitAll path listed vs = .ok now →
      Records now (walk ++ vs.flatMap fun v => (g.preorder v).reverse))
  case _ => -- visit, on the path
    intro path listed v hv walk now _ _ _ hvisit
    rw [visit_of_mem_path hv] at hvisit
    cases hvisit
  case _ => -- visit, listed already
    intro path listed v hp hv walk now hacyclic hclosed hwalk hvisit
    rw [visit_of_mem hp hv] at hvisit
    obtain rfl := Except.ok.inj hvisit
    exact hwalk.append_preorder hclosed hacyclic hv
  case _ => -- visit, no group with this handle
    intro path listed v hp hv hg walk now hacyclic _ hwalk hvisit
    have hnil : g.inputs v = [] := by rw [inputs, hg]; rfl
    rw [visit_of_not_mem hp hv, hnil, List.reverse_nil, visitAll] at hvisit
    obtain rfl : listed.cons v = now := Except.ok.inj hvisit
    rw [reverse_preorder hacyclic, hnil]
    exact hwalk.cons fun hmem => hv (hwalk.mem_iff.mpr hmem)
  case _ => -- visit, a new group
    intro path listed v hp hv t hg ih walk now hacyclic hclosed hwalk hvisit
    rw [← inputs_of_group? hg] at ih
    rw [visit_of_not_mem hp hv] at hvisit
    cases hall : g.visitAll (path.cons v) listed (g.inputs v).reverse with
    | error e => rw [hall] at hvisit; cases hvisit
    | ok before =>
        rw [hall] at hvisit
        obtain rfl : before.cons v = now := Except.ok.inj hvisit
        have hinputs : ∀ u ∈ (g.inputs v).reverse, g.AcyclicFrom u := fun u hu =>
          hacyclic.of_mem_inputs (List.mem_reverse.mp hu)
        have hbefore := ih walk before hinputs hclosed hwalk hall
        rw [reverse_preorder hacyclic, ← List.append_assoc]
        refine hbefore.cons fun hmem => ?_
        -- `v` is not listed, and the unfoldings of its inputs do not lead back to it
        rcases List.mem_append.mp hmem with hmem | hmem
        · exact hv (hwalk.mem_iff.mpr hmem)
        · obtain ⟨u, hu, hmem⟩ := List.mem_flatMap.mp hmem
          rw [List.mem_reverse, mem_preorder_iff (hinputs u hu)] at hmem
          exact hacyclic.not_reaches_of_mem_inputs (List.mem_reverse.mp hu) hmem
  case _ => -- visitAll []
    intro path listed walk now _ _ hwalk hvisit
    rw [visitAll] at hvisit
    obtain rfl := Except.ok.inj hvisit
    rwa [List.flatMap_nil, List.append_nil]
  case _ => -- visitAll (v :: rest)
    intro path listed v rest ihv ihrest walk now hacyclic hclosed hwalk hvisit
    rw [visitAll_cons] at hvisit
    cases hfirst : g.visit path listed v with
    | error e => rw [hfirst] at hvisit; cases hvisit
    | ok next =>
        rw [hfirst] at hvisit
        have hv := hacyclic v List.mem_cons_self
        have hnext := ihv walk next hv hclosed hwalk hfirst
        rw [List.flatMap_cons, ← List.append_assoc]
        exact ihrest next _ now (fun u hu => hacyclic u (List.mem_cons_of_mem v hu))
          (hclosed.append (closed_reverse_preorder hv)) hnext hvisit

/-- The order is the reversed preorder, every group at its first place. -/
theorem order_eq_eraseDups {output : Handle} (h : g.AcyclicFrom output) :
    g.order output = .ok (g.preorder output).reverse.eraseDups := by
  obtain ⟨hs, horder⟩ := order_eq_ok_iff.mpr h
  rw [horder]
  rw [order] at horder
  cases hvisit : g.visit .nil .nil output with
  | error e => rw [hvisit] at horder; cases horder
  | ok now =>
      rw [hvisit] at horder
      obtain rfl : now.toList.reverse = hs := Except.ok.inj horder
      have hnow := records_visit_all.1 .nil .nil output [] now h (List.forall_mem_nil _) rfl hvisit
      exact congrArg Except.ok hnow

/-! ## Trees -/

/-- Every group that the output reaches is read once at most. -/
structure IsTreeFrom (g : Graph A) (output : Handle) : Prop where
  nodup : ∀ v, g.Reaches output v → (g.inputs v).Nodup
  eq_of_mem_inputs : ∀ u v w, g.Reaches output u → g.Reaches output v →
    w ∈ g.inputs u → w ∈ g.inputs v → u = v

namespace IsTreeFrom

variable {output : Handle}

/-- In a tree, one of two groups that reach a third reaches the other. -/
theorem reaches_or_reaches (h : g.IsTreeFrom output) {u v w : Handle} (hu : g.Reaches output u)
    (hv : g.Reaches output v) (huw : g.Reaches u w) (hvw : g.Reaches v w) :
    g.Reaches u v ∨ g.Reaches v u := by
  induction huw with
  | refl => exact .inr hvw
  | @tail x w hux hread ih =>
      rcases ReflTransGen.cases_tail hvw with rfl | ⟨y, hvy, hread'⟩
      · exact .inl (ReflTransGen.tail hux hread)
      · obtain rfl := h.eq_of_mem_inputs x y w (hu.trans hux) (hv.trans hvy) hread hread'
        exact ih hvy

/-- What two inputs of a group reach has nothing in common. -/
theorem disjoint_preorder (h : g.IsTreeFrom output) (hacyclic : g.AcyclicFrom output)
    {v u w : Handle} (hv : g.Reaches output v) (hu : u ∈ g.inputs v) (hw : w ∈ g.inputs v)
    (hne : u ≠ w) : List.Disjoint (g.preorder u) (g.preorder w) := by
  have hvacyclic := hacyclic.of_reaches hv
  -- an input that reached another one would reach its reader, which is their common reader
  have hnot : ∀ {x y : Handle}, x ∈ g.inputs v → y ∈ g.inputs v → x ≠ y → ¬ g.Reaches x y := by
    intro x y hx hy hxy hreach
    rcases ReflTransGen.cases_tail hreach with heq | ⟨z, hxz, hread⟩
    · exact hxy heq.symm
    · have hz : g.Reaches output z := (hv.trans (.head hx (.refl x))).trans hxz
      obtain rfl := h.eq_of_mem_inputs z v y hz hv hread hy
      exact hvacyclic.not_reaches_of_mem_inputs hx hxz
  intro x hxu hxw
  rw [mem_preorder_iff (hvacyclic.of_mem_inputs hu)] at hxu
  rw [mem_preorder_iff (hvacyclic.of_mem_inputs hw)] at hxw
  have hreach := h.reaches_or_reaches (hv.trans (.head hu (.refl u)))
    (hv.trans (.head hw (.refl w))) hxu hxw
  exact hreach.elim (hnot hu hw hne) (hnot hw hu hne.symm)

/-- A tree unfolds to itself. -/
theorem nodup_preorder (h : g.IsTreeFrom output) (hacyclic : g.AcyclicFrom output) :
    (g.preorder output).Nodup := by
  refine hacyclic.induction (P := fun v => (g.preorder v).Nodup) (fun v hv ih => ?_) output
    (.refl output)
  have hvacyclic := hacyclic.of_reaches hv
  rw [preorder_eq_cons hvacyclic, List.nodup_cons, List.nodup_flatMap]
  refine ⟨fun hmem => ?_, ih, ?_⟩
  · obtain ⟨u, hu, hmem⟩ := List.mem_flatMap.mp hmem
    rw [mem_preorder_iff (hvacyclic.of_mem_inputs hu)] at hmem
    exact hvacyclic.not_reaches_of_mem_inputs hu hmem
  · exact (h.nodup v hv).imp_of_mem fun hu hw hne => h.disjoint_preorder hacyclic hv hu hw hne

end IsTreeFrom

/-! ## Other handles -/

section Edges

variable {B : Type} {g' : Graph B} {f : Handle → Handle} {output : Handle}

/-- Where every edge on the other side comes from an edge on this side, what is reached there is
reached here as well. -/
theorem exists_transGen_of_edges
    (hedge : ∀ v, g.Reaches output v → ∀ x ∈ g'.inputs (f v), ∃ u ∈ g.inputs v, f u = x)
    {v w : Handle} (hv : g.Reaches output v) (hreach : TransGen g'.Reads (f v) w) :
    ∃ u, TransGen g.Reads v u ∧ f u = w := by
  induction hreach with
  | single hread =>
      obtain ⟨y, hy, rfl⟩ := hedge v hv _ hread
      exact ⟨y, .single hy, rfl⟩
  | tail _ hread ih =>
      obtain ⟨u, hu, rfl⟩ := ih
      obtain ⟨y, hy, rfl⟩ := hedge u (hv.trans hu.to_reflTransGen) _ hread
      exact ⟨y, .tail hu hy, rfl⟩

/-- A map of handles that takes edges to edges makes no cycles, if it keeps the groups apart. -/
theorem acyclicFrom_of_edges
    (hedge : ∀ v, g.Reaches output v → ∀ x ∈ g'.inputs (f v), ∃ u ∈ g.inputs v, f u = x)
    (hinj : ∀ u v, g.Reaches output u → g.Reaches output v → f u = f v → u = v)
    (hacyclic : g.AcyclicFrom output) {v : Handle} (hv : g.Reaches output v) :
    g'.AcyclicFrom (f v) := by
  have hcycle : ∀ u, g.Reaches output u → ¬ g'.OnCycle (f u) := by
    intro u hu hcycle
    obtain ⟨w, huw, heq⟩ := exists_transGen_of_edges hedge hu hcycle
    obtain rfl := hinj w u (hu.trans huw.to_reflTransGen) hu heq
    exact hacyclic w hu huw
  intro w hw
  rcases Relation.reflTransGen_iff_eq_or_transGen.mp hw with rfl | hw
  · exact hcycle v hv
  · obtain ⟨u, hu, rfl⟩ := exists_transGen_of_edges hedge hv hw
    exact hcycle u (hv.trans hu.to_reflTransGen)

end Edges

/-- A map of handles carries the edges that the output reaches over to another graph. -/
structure Carries {B : Type} (g : Graph A) (g' : Graph B) (f : Handle → Handle)
    (output : Handle) : Prop where
  injective : ∀ u v, g.Reaches output u → g.Reaches output v → f u = f v → u = v
  inputs : ∀ v, g.Reaches output v → g'.inputs (f v) = (g.inputs v).map f

namespace Carries

variable {B : Type} {g' : Graph B} {f : Handle → Handle} {output : Handle}

theorem acyclicFrom (h : g.Carries g' f output) (hacyclic : g.AcyclicFrom output) {v : Handle}
    (hv : g.Reaches output v) : g'.AcyclicFrom (f v) := by
  refine acyclicFrom_of_edges (fun u hu x hx => ?_) h.injective hacyclic hv
  rw [h.inputs u hu] at hx
  exact List.mem_map.mp hx

/-- A graph that carries the edges over has the tree of the images. -/
theorem preorder_eq (h : g.Carries g' f output) (hacyclic : g.AcyclicFrom output) :
    g'.preorder (f output) = (g.preorder output).map f := by
  refine hacyclic.induction (P := fun v => g'.preorder (f v) = (g.preorder v).map f)
    (fun v hv ih => ?_) output (.refl output)
  rw [preorder_eq_cons (h.acyclicFrom hacyclic hv), preorder_eq_cons (hacyclic.of_reaches hv),
    h.inputs v hv, List.flatMap_map, List.map_cons, List.map_flatMap]
  exact congrArg (f v :: ·) (List.flatMap_congr fun u hu => ih u hu)

/-- The order is carried along with the edges. -/
theorem order_eq (h : g.Carries g' f output) (hacyclic : g.AcyclicFrom output) :
    g'.order (f output) = (g.order output).map (List.map f) := by
  rw [order_eq_eraseDups hacyclic, order_eq_eraseDups (h.acyclicFrom hacyclic (.refl output)),
    h.preorder_eq hacyclic, ← List.map_reverse, eraseDups_map]
  · rfl
  · intro u hu v hv
    rw [List.mem_reverse, mem_preorder_iff hacyclic] at hu hv
    exact h.injective u v hu hv

end Carries

/-! ## The main result -/

/-- The order of a graph without cycles is its unfolding read from the end, every group at its first
place. A tree unfolds to itself, so that its order is the reversed preorder. Where a map of handles
carries the edges over to another graph, whatever the groups there are, it carries the order. -/
theorem order_eq_first_occurrences (g : Graph A) (output : Handle) (h : g.AcyclicFrom output) :
    (∀ v, g.Reaches output v → g.preorder v = v :: (g.inputs v).flatMap g.preorder) ∧
    g.order output = .ok (g.preorder output).reverse.eraseDups ∧
    (g.IsTreeFrom output → g.order output = .ok (g.preorder output).reverse) ∧
    ∀ (B : Type) (g' : Graph B) (f : Handle → Handle), g.Carries g' f output →
      g'.order (f output) = (g.order output).map (List.map f) := by
  refine ⟨fun v hv => preorder_eq_cons (h.of_reaches hv), order_eq_eraseDups h, fun htree => ?_,
    fun B g' f hcarries => hcarries.order_eq h⟩
  rw [order_eq_eraseDups h, eraseDups_of_nodup]
  exact List.nodup_reverse.mpr (htree.nodup_preorder h)

/-- The diamond in a graph whose first declaration was refused. -/
def lateDiamond (f : Activation A) : Graph A :=
  ⟨#[none, some ⟨2, f, [], none⟩, some ⟨3, f, [1], none⟩, some ⟨1, f, [1, 1], none⟩,
    some ⟨1, f, [3, 2, 3], none⟩]⟩

theorem preorder_diamond (f : Activation A) :
    (diamond f).preorder 3 = [3, 2, 0, 0, 1, 0, 2, 0, 0] := by cbv

theorem reaches_diamond (f : Activation A) : (diamond f).Reaches 3 1 :=
  (mem_preorder_iff (acyclicFrom_diamond f)).mp (by rw [preorder_diamond]; decide)

/-- One side of the diamond is a chain. -/
theorem isTreeFrom_diamond (f : Activation A) : (diamond f).IsTreeFrom 1 := by
  have hacyclic := (acyclicFrom_diamond f).of_reaches (reaches_diamond f)
  have hpreorder : (diamond f).preorder 1 = [1, 0] := by cbv
  have hmem : ∀ v, (diamond f).Reaches 1 v → v = 1 ∨ v = 0 := by
    intro v hv
    simpa [hpreorder] using (mem_preorder_iff hacyclic).mpr hv
  refine ⟨fun v hv => ?_, fun u v w hu hv hwu hwv => ?_⟩
  · rcases hmem v hv with rfl | rfl
    · exact (by decide : [0].Nodup)
    · exact List.nodup_nil
  · rcases hmem u hu with rfl | rfl <;> rcases hmem v hv with rfl | rfl
    · rfl
    · exact absurd hwv List.not_mem_nil
    · exact absurd hwu List.not_mem_nil
    · rfl

/-- A declaration in front shifts all handles by one. -/
theorem carries_lateDiamond (f : Activation A) :
    (diamond f).Carries (lateDiamond f) (· + 1) 3 := by
  refine ⟨fun u v _ _ heq => Nat.succ.inj heq, fun v hv => ?_⟩
  rw [← mem_preorder_iff (acyclicFrom_diamond f), preorder_diamond] at hv
  simp only [List.mem_cons, List.not_mem_nil, or_false] at hv
  rcases hv with rfl | rfl | rfl | rfl | rfl | rfl | rfl | rfl | rfl
  all_goals rfl

/-- The orders of the diamond, of its side and of the later diamond. -/
theorem order_diamond_eq_first_occurrences :
    (diamond Activation.linear).AcyclicFrom 3 ∧
    (diamond Activation.linear).order 3 = .ok [0, 2, 1, 3] ∧
    (diamond Activation.linear).IsTreeFrom 1 ∧
    (diamond Activation.linear).order 1 = .ok [0, 1] ∧
    (diamond Activation.linear).Carries (lateDiamond Activation.linear) (· + 1) 3 ∧
    (lateDiamond Activation.linear).order 4 = .ok [1, 3, 2, 4] := by
  have hacyclic := acyclicFrom_diamond Activation.linear
  obtain ⟨-, horder, -, hcarry⟩ := order_eq_first_occurrences _ 3 hacyclic
  obtain ⟨-, -, hside, -⟩ := order_eq_first_occurrences _ 1
    (hacyclic.of_reaches (reaches_diamond Activation.linear))
  have hdiamond : (diamond Activation.linear).order 3 = .ok [0, 2, 1, 3] := by
    rw [horder, preorder_diamond]
    decide
  refine ⟨hacyclic, hdiamond, isTreeFrom_diamond _, ?_, carries_lateDiamond _, ?_⟩
  · rw [hside (isTreeFrom_diamond _)]
    cbv
  · rw [hcarry _ _ _ (carries_lateDiamond _), hdiamond]
    rfl

end Graph

end Feedforward
