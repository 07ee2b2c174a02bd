import Feedforward.Blueprint
import Feedforward.Proofs.Blueprint.Declaration
import Feedforward.Proofs.Graph.Growth

/-!
# Tables of declared layers

While a blueprint is built, a table holds the groups of its layers by name. `Declares` relates such
a table to the declarations that it comes from: behind every name stands a group with the
cardinality, the activation and the name that are declared, and it reads from the groups behind the
names of its inputs. What names mean is then what groups do:

    lookup n = some h  →  (Reaches g h k  ↔  ∃ m, Reached ds n m ∧ lookup m = some k).

Other groups may stand in the graph, but no group of the table reads from them. A layer only reads
from layers declared before it, so that there are no cycles (`Declares.acyclicFrom`).
-/

namespace Feedforward

variable {A : Type}

/-- The group behind the name of a declared layer. -/
structure StandsFor (g : Graph A) (registry : Registry A) (declared : Declared) (d : Declaration)
    (h : Handle) (a : Activation A) (us : List Handle) : Prop where
  activation : d.activation.string?.bind registry.find? = some a
  inputs : d.inputs.map (List.lookup · declared) = us.map some
  group : g.group? h = some ⟨d.cardinality, a, us, some (.str d.name)⟩

/-- A table of groups and the declarations that it comes from, one layer after the other. Every name
is new, and a layer reads from layers in front of it. -/
inductive Declares (g : Graph A) (registry : Registry A) : List Declaration → Declared → Prop
  | nil : Declares g registry [] []
  | snoc {ds : List Declaration} {declared : Declared} {d : Declaration} {h : Handle}
      {a : Activation A} {us : List Handle} :
      Declares g registry ds declared → declared.lookup d.name = none →
      StandsFor g registry declared d h a us →
      Declares g registry (ds ++ [d]) ((d.name, h) :: declared)

section Lookup

variable {declared : Declared} {n m : Text} {h k : Handle}

@[simp] theorem lookup_cons_self : ((n, h) :: declared : Declared).lookup n = some h :=
  List.lookup_cons_self

theorem lookup_cons_of_ne (hne : m ≠ n) :
    ((n, h) :: declared : Declared).lookup m = declared.lookup m := by
  rw [List.lookup_cons, beq_false_of_ne hne]

/-- A new name leaves the other ones as they are. -/
theorem lookup_cons_of_lookup (hn : declared.lookup n = none) (hm : declared.lookup m = some k) :
    ((n, h) :: declared : Declared).lookup m = some k := by
  rw [lookup_cons_of_ne, hm]
  rintro rfl
  rw [hn] at hm
  cases hm

/-- A new name changes nothing about the names that are found already. -/
theorem map_lookup_cons {ns : List Text} {us : List Handle} (hn : declared.lookup n = none)
    (hns : ns.map (List.lookup · declared) = us.map some) :
    ns.map (List.lookup · ((n, h) :: declared)) = us.map some := by
  rw [← hns]
  refine List.map_congr_left fun m hm => ?_
  have hmem : declared.lookup m ∈ us.map some := hns ▸ List.mem_map_of_mem hm
  obtain ⟨u, -, hu⟩ := List.mem_map.mp hmem
  rw [lookup_cons_of_lookup hn hu.symm, hu]

end Lookup

namespace StandsFor

variable {g : Graph A} {registry : Registry A} {declared : Declared} {d : Declaration}
  {h u : Handle} {a : Activation A} {us : List Handle}

/-- A group tells by its own name what it stands for. -/
theorem name_eq {declared' : Declared} {e : Declaration} {b : Activation A} {vs : List Handle}
    (hd : StandsFor g registry declared d h a us) (he : StandsFor g registry declared' e h b vs) :
    d.name = e.name := by
  have hsame := Option.some.inj (hd.group.symm.trans he.group)
  exact Value.str.inj (Option.some.inj (congrArg Group.name hsame))

theorem inputs_eq (hstands : StandsFor g registry declared d h a us) : g.inputs h = us :=
  Graph.inputs_of_group? hstands.group

/-- What a group reads from stands behind the names of the inputs. -/
theorem mem_inputs_iff (hstands : StandsFor g registry declared d h a us) :
    u ∈ g.inputs h ↔ ∃ n ∈ d.inputs, declared.lookup n = some u := by
  have hmem : some u ∈ us.map some ↔ u ∈ us := by simp
  rw [hstands.inputs_eq, ← hmem, ← hstands.inputs, List.mem_map]

theorem cardinality_eq (hstands : StandsFor g registry declared d h a us) :
    g.cardinality h = d.cardinality := by
  rw [Graph.cardinality, hstands.group]
  rfl

theorem eq_nil_iff (hstands : StandsFor g registry declared d h a us) :
    us = [] ↔ d.inputs = [] := by
  rw [← List.map_eq_nil_iff (f := some), ← hstands.inputs, List.map_eq_nil_iff]

/-- What is said of the groups behind the inputs can be said of their names. -/
theorem map_eq {β : Type} {ofGroup : Handle → β} {ofName : Text → β}
    (hstands : StandsFor g registry declared d h a us)
    (hagree : ∀ n u, declared.lookup n = some u → ofGroup u = ofName n) :
    us.map ofGroup = d.inputs.map ofName := by
  have hinputs := hstands.inputs
  generalize d.inputs = ns at hinputs
  clear hstands
  induction ns generalizing us with
  | nil => rw [List.map_eq_nil_iff.mp hinputs.symm, List.map_nil, List.map_nil]
  | cons n ns ih =>
      match us, hinputs with
      | u :: us, hinputs =>
          obtain ⟨hu, hus⟩ := List.cons_eq_cons.mp hinputs
          rw [List.map_cons, List.map_cons, hagree n u hu, ih hus]

/-- The activation is found in the registry by the name that is declared. -/
theorem activation_eq (hstands : StandsFor g registry declared d h a us) :
    Text.string a.name = d.activation := by
  obtain ⟨name, hname, hfind⟩ := Option.bind_eq_some_iff.mp hstands.activation
  have hfound : a.name = name := by simpa using List.find?_some hfind
  cases hd : d.activation with
  | string s => rw [hd] at hname; rw [hfound, ← Option.some.inj hname]
  | broken ns _ => rw [hd] at hname; cases hname

end StandsFor

namespace Declares

variable {g g' : Graph A} {registry : Registry A} {ds : List Declaration} {declared : Declared}
  {d : Declaration} {n m : Text} {h k : Handle} {a : Activation A} {us : List Handle}

/-- A table of a graph is one of any graph that extends it. -/
theorem mono (htable : Declares g registry ds declared) (hext : g.Extends g') :
    Declares g' registry ds declared := by
  induction htable with
  | nil => exact .nil
  | snoc _ hfresh hstands ih =>
      exact .snoc ih hfresh ⟨hstands.activation, hstands.inputs, hext _ _ hstands.group⟩

/-- Behind every name of the table stands a declared layer. -/
theorem exists_standsFor_of_lookup (htable : Declares g registry ds declared)
    (hn : declared.lookup n = some h) :
    ∃ d ∈ ds, d.name = n ∧ ∃ a us, StandsFor g registry declared d h a us := by
  induction htable with
  | nil => cases hn
  | @snoc ds declared d k a us _ hfresh hstands ih =>
      by_cases hname : n = d.name
      · subst hname
        rw [lookup_cons_self] at hn
        obtain rfl := Option.some.inj hn
        exact ⟨d, List.mem_append_right _ (List.mem_singleton_self d), rfl, a, us,
          hstands.activation, map_lookup_cons hfresh hstands.inputs, hstands.group⟩
      · rw [lookup_cons_of_ne hname] at hn
        obtain ⟨e, he, hen, b, vs, hb, hvs, hgroup⟩ := ih hn
        exact ⟨e, List.mem_append_left _ he, hen, b, vs, hb, map_lookup_cons hfresh hvs, hgroup⟩

/-- Every declared layer has its name in the table. -/
theorem exists_lookup (htable : Declares g registry ds declared) (hd : d ∈ ds) :
    ∃ h, declared.lookup d.name = some h := by
  induction htable with
  | nil => cases hd
  | @snoc ds declared e k a us _ hfresh _ ih =>
      rcases List.mem_append.mp hd with hd | hd
      · obtain ⟨h, hh⟩ := ih hd
        exact ⟨h, lookup_cons_of_lookup hfresh hh⟩
      · rw [List.mem_singleton.mp hd]
        exact ⟨k, lookup_cons_self⟩

/-- No two layers have one name. -/
theorem nodup_names (htable : Declares g registry ds declared) : (ds.map (·.name)).Nodup := by
  induction htable with
  | nil => exact List.nodup_nil
  | @snoc ds declared d k a us hbefore hfresh _ ih =>
      rw [List.map_append, List.nodup_append]
      refine ⟨ih, List.nodup_singleton _, fun n hn m hm heq => ?_⟩
      obtain ⟨e, he, rfl⟩ := List.mem_map.mp hn
      obtain ⟨h, hh⟩ := hbefore.exists_lookup he
      rw [heq, List.mem_singleton.mp hm, hfresh] at hh
      cases hh

/-- The group of a declared layer. -/
theorem exists_standsFor (htable : Declares g registry ds declared) (hd : d ∈ ds) :
    ∃ h a us, declared.lookup d.name = some h ∧ StandsFor g registry declared d h a us := by
  obtain ⟨h, hh⟩ := htable.exists_lookup hd
  obtain ⟨e, he, hname, a, us, hstands⟩ := htable.exists_standsFor_of_lookup hh
  rw [Declaration.eq_of_name_eq htable.nodup_names he hd hname] at hstands
  exact ⟨h, a, us, hh, hstands⟩

/-- No group stands behind two names. -/
theorem eq_of_lookup (htable : Declares g registry ds declared) (hn : declared.lookup n = some h)
    (hm : declared.lookup m = some h) : n = m := by
  obtain ⟨d, -, rfl, a, us, hd⟩ := htable.exists_standsFor_of_lookup hn
  obtain ⟨e, -, rfl, b, vs, he⟩ := htable.exists_standsFor_of_lookup hm
  exact hd.name_eq he

/-! ## Sizes -/

theorem cardinality_eq (htable : Declares g registry ds declared)
    (hn : declared.lookup n = some h) : g.cardinality h = Declaration.cardinalityOf ds n := by
  obtain ⟨d, hd, rfl, a, us, hstands⟩ := htable.exists_standsFor_of_lookup hn
  rw [hstands.cardinality_eq, Declaration.cardinalityOf_name htable.nodup_names hd]

/-- A group reads from as many neurons as its layer. -/
theorem inputSize_eq (htable : Declares g registry ds declared)
    (hstands : StandsFor g registry declared d h a us) : g.inputSize h = d.inputSize ds := by
  rw [Graph.inputSize, hstands.inputs_eq,
    hstands.map_eq fun n u hu => htable.cardinality_eq hu]
  rfl

/-! ## Reading -/

/-- What groups reach is what their names reach. -/
theorem reaches_iff (htable : Declares g registry ds declared) (hn : declared.lookup n = some h) :
    g.Reaches h k ↔ ∃ m, Declaration.Reached ds n m ∧ declared.lookup m = some k := by
  constructor
  · intro hreach
    -- what is read is read by name, one step of the path after the other
    induction hreach with
    | refl => exact ⟨n, .refl, hn⟩
    | tail _ hread ih =>
        obtain ⟨m, hm, hlookup⟩ := ih
        obtain ⟨d, hd, rfl, a, us, hstands⟩ := htable.exists_standsFor_of_lookup hlookup
        obtain ⟨l, hl, hk⟩ := hstands.mem_inputs_iff.mp hread
        exact ⟨l, hm.tail ⟨d, hd, rfl, hl⟩, hk⟩
  · rintro ⟨m, hm, hk⟩
    induction hm generalizing k with
    | refl =>
        rw [hn] at hk
        rw [Option.some.inj hk]
        exact .refl k
    | tail _ hread ih =>
        obtain ⟨d, hd, rfl, hmem⟩ := hread
        obtain ⟨j, a, us, hj, hstands⟩ := htable.exists_standsFor hd
        exact (ih hj).tail (hstands.mem_inputs_iff.mpr ⟨_, hmem, hk⟩)

/-- Whatever is reached is a group of the graph. -/
theorem exists_group (htable : Declares g registry ds declared) (hn : declared.lookup n = some h)
    (k : Handle) (hreach : g.Reaches h k) : ∃ t, g.group? k = some t := by
  obtain ⟨m, -, hm⟩ := (htable.reaches_iff hn).mp hreach
  obtain ⟨d, -, -, a, us, hstands⟩ := htable.exists_standsFor_of_lookup hm
  exact ⟨_, hstands.group⟩

/-- Behind a table, no cycle is reached. -/
theorem acyclicFrom (htable : Declares g registry ds declared) (hn : declared.lookup n = some h) :
    g.AcyclicFrom h := by
  induction htable generalizing n h with
  | nil => cases hn
  | @snoc ds declared d k a us hbefore hfresh hstands ih =>
      -- the newest name may be new in the table, all others are older
      by_cases hname : n = d.name
      · subst hname
        rw [lookup_cons_self] at hn
        obtain rfl := Option.some.inj hn
        refine Graph.acyclicFrom_of_inputs fun u hu => ?_
        obtain ⟨m, -, hm⟩ := hstands.mem_inputs_iff.mp hu
        refine ⟨ih hm, fun hback => ?_⟩
        -- whatever an input reaches has a name in front, and `d` is no such name
        obtain ⟨l, -, hl⟩ := (hbefore.reaches_iff hm).mp hback
        obtain ⟨e, -, rfl, b, vs, he⟩ := hbefore.exists_standsFor_of_lookup hl
        rw [he.name_eq hstands, hfresh] at hl
        cases hl
      · rw [lookup_cons_of_ne hname] at hn
        exact ih hn

end Declares

end Feedforward
