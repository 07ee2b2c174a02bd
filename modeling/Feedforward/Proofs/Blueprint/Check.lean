import Feedforward.Proofs.Blueprint.Alike

/-!
# What is checked of a layer

Building checks each layer of a blueprint in seven steps (`LayerCheck`). A layer may only refer to
names of layers in front of it, and no name may come twice, where a layer without a name is called
after its position. Of the checks that a layer fails the first one decides,

    LayerPlan.ofValue registry declared i v = error e  →  RefusedAt registry layers i v e,

and likewise for adding the layer that was read. While layers are added the table holds the names
of the layers so far (`Tabulates`). This is all that the checks need to know of the table, so that
nothing is said of groups here.
-/

namespace Feedforward

variable {A : Type}

/-! ## Checks -/

/-- The layer at a position has the name. -/
def NameAt (layers : List Value) (i : Nat) (n : Text) : Prop :=
  ∃ layer : Fields, layers[i]? = some (.map layer) ∧ layer.layerName i = .ok n

/-- A layer in front of a position has the name. -/
def NameBefore (layers : List Value) (i : Nat) (n : Text) : Prop := ∃ j < i, NameAt layers j n

/-- The value is the name of a layer in front of a position. -/
def RefersBefore (layers : List Value) (i : Nat) (source : Value) : Prop :=
  ∃ n, source = .str n ∧ NameBefore layers i n

/-- What is checked of a layer: that it is a mapping, that it has a new name, that it has a
cardinality, that its activation is registered, that the cardinality is an integer, that it is not
negative, and that the inputs are names of layers in front. -/
inductive LayerCheck where
  | mapping | name | cardinality | activation | kind | sign | inputs
  deriving DecidableEq

namespace LayerCheck

/-- The checks in the order in which they are made. -/
def order : List LayerCheck := [mapping, name, cardinality, activation, kind, sign, inputs]

/-- The checks that are made before one. -/
def before (check : LayerCheck) : List LayerCheck := order.takeWhile (· ≠ check)

/-- The value at a position describes a layer that passes a check. -/
def Passes (registry : Registry A) (layers : List Value) (i : Nat) (v : Value) : LayerCheck → Prop
  | mapping => ∃ layer : Fields, v = .map layer
  | name => ∃ (layer : Fields) (n : Text), v = .map layer ∧ layer.layerName i = .ok n ∧
      ¬ NameBefore layers i n
  | cardinality => ∃ (layer : Fields) (c : Value), v = .map layer ∧
      layer.at? "cardinality" = some c
  | activation => ∃ layer : Fields, v = .map layer ∧
      ∃ a ∈ registry.activations, layer.activationName = .ok (.string a.name)
  | kind => ∃ (layer : Fields) (n : Int), v = .map layer ∧ layer.at? "cardinality" = some (.int n)
  | sign => ∃ (layer : Fields) (n : Int), v = .map layer ∧
      layer.at? "cardinality" = some (.int n) ∧ 0 ≤ n
  | inputs => ∃ (layer : Fields) (sources : List Value), v = .map layer ∧
      layer.references = .ok sources ∧ ∀ source ∈ sources, RefersBefore layers i source

/-- The error with which a layer is refused that fails a check. Inputs are looked at from the last
one to the first. -/
inductive Raises (registry : Registry A) (layers : List Value) (i : Nat) :
    Value → LayerCheck → BlueprintError → Prop
  | mapping {v : Value} : Raises registry layers i v mapping (.layerNotAMapping i)
  | noName {layer : Fields} {e : BlueprintError} : layer.layerName i = .error e →
      Raises registry layers i (.map layer) name e
  | name {layer : Fields} {n : Text} : layer.layerName i = .ok n →
      Raises registry layers i (.map layer) name (.duplicateName n)
  | cardinality {layer : Fields} {n : Text} : layer.layerName i = .ok n →
      Raises registry layers i (.map layer) cardinality (.missingCardinality n)
  | noActivation {layer : Fields} {e : BlueprintError} : layer.activationName = .error e →
      Raises registry layers i (.map layer) activation e
  | activation {layer : Fields} {n : Text} : layer.activationName = .ok n →
      Raises registry layers i (.map layer) activation (.unknownActivation n registry.names)
  | kind {layer : Fields} {c : Value} : layer.at? "cardinality" = some c →
      Raises registry layers i (.map layer) kind (.group (.notAnInteger c.kind))
  | sign {layer : Fields} {n : Int} : layer.at? "cardinality" = some (.int n) →
      Raises registry layers i (.map layer) sign (.group (.negative n))
  | noInputs {layer : Fields} {e : BlueprintError} : layer.references = .error e →
      Raises registry layers i (.map layer) inputs e
  | notAKey {layer : Fields} {front back : List Value} {source : Value} :
      layer.references = .ok (front ++ source :: back) →
      (∀ s ∈ back, RefersBefore layers i s) → source.toKey? = none →
      Raises registry layers i (.map layer) inputs .notAKey
  | inputs {layer : Fields} {n : Text} {front back : List Value} {source : Value} {key : Key} :
      layer.layerName i = .ok n → layer.references = .ok (front ++ source :: back) →
      (∀ s ∈ back, RefersBefore layers i s) → ¬ RefersBefore layers i source →
      source.toKey? = some key →
      Raises registry layers i (.map layer) inputs
        (if key.hasText then .unknownLayer n source else .unknownNumber n)

end LayerCheck

/-- The layer at a position is refused with an error, which is that of the first check it fails. -/
def RefusedAt (registry : Registry A) (layers : List Value) (i : Nat) (v : Value)
    (e : BlueprintError) : Prop :=
  ∃ check : LayerCheck, (∀ c ∈ check.before, c.Passes registry layers i v) ∧
    ¬ check.Passes registry layers i v ∧ check.Raises registry layers i v e

/-! ## Names -/

section Names

variable {layers : List Value} {i : Nat} {n m : Text} {layer : Fields}

/-- A layer has the name that is looked up for it. -/
theorem nameAt_iff (hv : layers[i]? = some (.map layer)) :
    NameAt layers i n ↔ layer.layerName i = .ok n := by
  constructor
  · rintro ⟨layer', hlayer, hn⟩
    rw [hv, Option.some.injEq, Value.map.injEq] at hlayer
    rwa [hlayer]
  · exact fun hn => ⟨layer, hv, hn⟩

theorem nameBefore_succ_iff :
    NameBefore layers (i + 1) n ↔ NameBefore layers i n ∨ NameAt layers i n := by
  constructor
  · rintro ⟨j, hj, hn⟩
    rcases Nat.lt_succ_iff_lt_or_eq.mp hj with hj | rfl
    · exact .inl ⟨j, hj, hn⟩
    · exact .inr hn
  · rintro (⟨j, hj, hn⟩ | hn)
    · exact ⟨j, Nat.lt_succ_of_lt hj, hn⟩
    · exact ⟨i, Nat.lt_succ_self i, hn⟩

/-- Behind the last layer, all names stand in front. -/
theorem nameBefore_iff_of_length_le (hi : layers.length ≤ i) :
    NameBefore layers i n ↔ ∃ j, NameAt layers j n := by
  constructor
  · rintro ⟨j, -, hn⟩
    exact ⟨j, hn⟩
  · rintro ⟨j, layer, hlayer, hn⟩
    obtain ⟨hj, -⟩ := List.getElem?_eq_some_iff.mp hlayer
    exact ⟨j, by omega, layer, hlayer, hn⟩

/-- The table holds the names of the layers in front of a position. -/
def Tabulates (declared : Declared) (layers : List Value) (i : Nat) : Prop :=
  ∀ n, (∃ h, declared.lookup n = some h) ↔ NameBefore layers i n

variable {declared : Declared} {h : Handle}

/-- No name stands in front of the first layer. -/
theorem tabulates_nil (layers : List Value) : Tabulates [] layers 0 := by
  intro n
  constructor
  · rintro ⟨h, hh⟩
    cases hh
  · rintro ⟨j, hj, -⟩
    cases hj

namespace Tabulates

theorem lookup_eq_none_iff (htable : Tabulates declared layers i) :
    declared.lookup n = none ↔ ¬ NameBefore layers i n := by
  rw [← htable n, Option.eq_none_iff_forall_ne_some, not_exists]

/-- The table goes on to hold the names in front when a layer is entered. -/
theorem cons (htable : Tabulates declared layers i) (hv : layers[i]? = some (.map layer))
    (hname : layer.layerName i = .ok m) : Tabulates ((m, h) :: declared) layers (i + 1) := by
  intro n
  rw [nameBefore_succ_iff, nameAt_iff hv, hname, ← htable n]
  by_cases hn : n = m
  · subst hn
    exact ⟨fun _ => .inr rfl, fun _ => ⟨h, lookup_cons_self⟩⟩
  · rw [lookup_cons_of_ne hn]
    constructor
    · exact .inl
    · rintro (hh | hm)
      · exact hh
      · exact absurd (Except.ok.inj hm).symm hn

/-- The texts that can be resolved are the names in front. -/
theorem exists_resolve_iff (htable : Tabulates declared layers i) {source : Value} :
    (∃ u, declared.resolve n source = .ok u) ↔ RefersBefore layers i source := by
  constructor
  · rintro ⟨u, hu⟩
    obtain ⟨m, hm, hlookup⟩ := Declared.resolve_eq_ok_iff.mp hu
    refine ⟨m, ?_, (htable m).mp ⟨u, hlookup⟩⟩
    cases source with
    | str t => rw [Option.some.inj hm]
    | _ => cases hm
  · rintro ⟨m, rfl, hm⟩
    obtain ⟨u, hu⟩ := (htable m).mpr hm
    exact ⟨u, Declared.resolve_eq_ok_iff.mpr ⟨m, rfl, hu⟩⟩

end Tabulates

end Names

/-! ## Refusals -/

/-- The ends at which reading the entries of a layer is refused, in the order of the steps. -/
theorem LayerPlan.ofFields_eq_error {registry : Registry A} {declared : Declared} {i : Nat}
    {layer : Fields} {e : BlueprintError} (h : ofFields registry declared i layer = .error e) :
    layer.layerName i = .error e ∨ ∃ n, layer.layerName i = .ok n ∧
      ((∃ u, declared.lookup n = some u) ∧ e = .duplicateName n ∨ declared.lookup n = none ∧
        (layer.at? "cardinality" = none ∧ e = .missingCardinality n ∨
          (∃ c, layer.at? "cardinality" = some c) ∧
            (layer.activationName = .error e ∨ ∃ m, layer.activationName = .ok m ∧
              m.string?.bind registry.find? = none ∧
                e = .unknownActivation m registry.names))) := by
  rw [ofFields] at h
  -- The checks of a layer are taken in the order in which they are made.
  rcases bind_eq_error_iff.mp h with hname | ⟨n, hname, h⟩
  · exact .inl hname
  · refine .inr ⟨n, hname, ?_⟩
    dsimp only at h
    split at h
    · next hsome => exact .inl ⟨Option.isSome_iff_exists.mp hsome, (Except.error.inj h).symm⟩
    · next hfresh =>
        refine .inr ⟨Option.not_isSome_iff_eq_none.mp hfresh, ?_⟩
        split at h
        · next hnone => exact .inl ⟨hnone, (Except.error.inj h).symm⟩
        · next c hc =>
            refine .inr ⟨⟨c, hc⟩, ?_⟩
            rcases bind_eq_error_iff.mp h with hactivation | ⟨m, hm, h⟩
            · exact .inl hactivation
            · split at h
              · next hfind => exact .inr ⟨m, hm, hfind, (Except.error.inj h).symm⟩
              · cases h

/-- A reference is refused if it is no key, or no name. A number without a text is reported in its
own way. -/
theorem Declared.resolve_eq_error {declared : Declared} {n : Text} {source : Value}
    {e : BlueprintError} (h : declared.resolve n source = .error e) :
    (source.toKey? = none ∧ e = .notAKey) ∨ ∃ key, source.toKey? = some key ∧
      e = if key.hasText then .unknownLayer n source else .unknownNumber n := by
  rw [resolve] at h
  split at h
  · next hkey => exact .inl ⟨hkey, (Except.error.inj h).symm⟩
  · next t hkey =>
      split at h
      · cases h
      · exact .inr ⟨_, hkey, (Except.error.inj h).symm⟩
  · next key _ hkey => exact .inr ⟨key, hkey, (Except.error.inj h).symm⟩

/-- The first reference that cannot be resolved is reported. -/
theorem Graph.connectAll_eq_error {g g' : Graph A} {declared : Declared} {n : Text}
    {sources : List Value} {h : Handle} {e : BlueprintError}
    (hconnect : g.connectAll declared n sources h = (.error e, g')) :
    ∃ front source back, sources = front ++ source :: back ∧
      (∀ s ∈ front, ∃ u, declared.resolve n s = .ok u) ∧ declared.resolve n source = .error e := by
  induction sources generalizing g h with
  | nil => cases hconnect
  | cons v rest ih =>
      rw [connectAll] at hconnect
      split at hconnect
      · next hv =>
          obtain rfl := Except.error.inj (Prod.mk.inj hconnect).1
          exact ⟨[], v, rest, rfl, List.forall_mem_nil _, hv⟩
      · next u hu =>
          obtain ⟨front, source, back, rfl, hfront, hsource⟩ := ih hconnect
          exact ⟨v :: front, source, back, rfl, List.forall_mem_cons.mpr ⟨⟨u, hu⟩, hfront⟩, hsource⟩

/-- The ends at which adding a layer is refused. Its inputs are looked up from the last to the
first. -/
theorem Graph.addLayer_eq_error {g g' : Graph A} {declared : Declared} {plan : LayerPlan A}
    {e : BlueprintError} (hadd : g.addLayer declared plan = (.error e, g')) :
    (∃ e', plan.cardinality.check = .error e' ∧ e = .group e') ∨
    ∃ k, plan.cardinality.check = .ok k ∧
      (plan.fields.references = .error e ∨
        ∃ front source back, plan.fields.references = .ok (front ++ source :: back) ∧
          (∀ s ∈ back, ∃ u, declared.resolve plan.name s = .ok u) ∧
          declared.resolve plan.name source = .error e) := by
  rw [addLayer, declare] at hadd
  cases hcheck : plan.cardinality.check with
  | error e' =>
      rw [hcheck] at hadd
      exact .inl ⟨e', rfl, (Except.error.inj (Prod.mk.inj hadd).1).symm⟩
  | ok k =>
      rw [hcheck] at hadd
      refine .inr ⟨k, rfl, ?_⟩
      dsimp only at hadd
      split at hadd
      · next hsources =>
          obtain rfl := Except.error.inj (Prod.mk.inj hadd).1
          exact .inl hsources
      · next sources hsources =>
          split at hadd
          · next hconnect =>
              obtain rfl := Except.error.inj (Prod.mk.inj hadd).1
              -- the connections are made from the last one to the first
              obtain ⟨back, source, front, hsplit, hback, hsource⟩ := connectAll_eq_error hconnect
              rw [List.reverse_eq_iff, List.reverse_append, List.reverse_cons,
                List.append_assoc] at hsplit
              rw [hsplit] at hsources
              refine .inr ⟨front.reverse, source, back.reverse, hsources, fun s hs => ?_, hsource⟩
              exact hback s (List.mem_reverse.mp hs)
          · cases hadd

/-- An activation is found under its own name only. -/
theorem Registry.find?_eq_some {registry : Registry A} {n : Text} {a : Activation A}
    (h : n.string?.bind registry.find? = some a) :
    a ∈ registry.activations ∧ n = .string a.name := by
  obtain ⟨s, hs, hfind⟩ := Option.bind_eq_some_iff.mp h
  have hname : a.name = s := by simpa using List.find?_some hfind
  refine ⟨List.mem_of_find?_eq_some hfind, ?_⟩
  cases n with
  | string t => rw [hname, Option.some.inj hs]
  | broken ns _ => cases hs

theorem Registry.find?_eq_none {registry : Registry A} {n : Text}
    (h : n.string?.bind registry.find? = none) {a : Activation A} (ha : a ∈ registry.activations) :
    n ≠ .string a.name := by
  rintro rfl
  have hnone : registry.find? a.name = none := h
  simpa using List.find?_eq_none.mp hnone a ha

/-! ## One layer -/

section Layer

variable {registry : Registry A} {layers : List Value} {i : Nat} {v : Value} {declared : Declared}
  {e : BlueprintError}

open LayerCheck

section Passes

variable {layer : Fields}

theorem passes_name_iff : name.Passes registry layers i (.map layer) ↔
    ∃ n, layer.layerName i = .ok n ∧ ¬ NameBefore layers i n := by simp [Passes]

theorem passes_cardinality_iff : cardinality.Passes registry layers i (.map layer) ↔
    ∃ c, layer.at? "cardinality" = some c := by simp [Passes]

theorem passes_activation_iff : activation.Passes registry layers i (.map layer) ↔
    ∃ a ∈ registry.activations, layer.activationName = .ok (.string a.name) := by simp [Passes]

theorem passes_inputs_iff : inputs.Passes registry layers i (.map layer) ↔
    ∃ sources, layer.references = .ok sources ∧
      ∀ source ∈ sources, RefersBefore layers i source := by simp [Passes]

end Passes

/-- The first four checks are made when a layer is read. -/
theorem refusedAt_of_ofValue (htable : Tabulates declared layers i)
    (h : LayerPlan.ofValue registry declared i v = .error e) : RefusedAt registry layers i v e := by
  cases v with
  -- Each check that fails has all those in front of it passed; they are collected on the way.
  | map layer =>
      have hmapping : mapping.Passes registry layers i (.map layer) := ⟨layer, rfl⟩
      obtain hname | ⟨n, hname, hplan⟩ := LayerPlan.ofFields_eq_error h
      · exact ⟨name, by simp [before, order, hmapping], by simp [passes_name_iff, hname],
          .noName hname⟩
      obtain ⟨hold, rfl⟩ | ⟨hfresh, hplan⟩ := hplan
      · exact ⟨name, by simp [before, order, hmapping],
          by simp [passes_name_iff, hname, (htable n).mp hold], .name hname⟩
      have hnew : name.Passes registry layers i (.map layer) :=
        passes_name_iff.mpr ⟨n, hname, htable.lookup_eq_none_iff.mp hfresh⟩
      obtain ⟨hnone, rfl⟩ | ⟨hthere, hplan⟩ := hplan
      · exact ⟨cardinality, by simp [before, order, hmapping, hnew],
          by simp [passes_cardinality_iff, hnone], .cardinality hname⟩
      have hbefore : ∀ c ∈ activation.before, c.Passes registry layers i (.map layer) := by
        simp [before, order, hmapping, hnew, passes_cardinality_iff.mpr hthere]
      obtain hactivation | ⟨m, hm, hfind, rfl⟩ := hplan
      · exact ⟨activation, hbefore, by simp [passes_activation_iff, hactivation],
          .noActivation hactivation⟩
      · refine ⟨activation, hbefore, ?_, .activation hm⟩
        rw [passes_activation_iff]
        rintro ⟨a, ha, hname⟩
        rw [hm] at hname
        exact Registry.find?_eq_none hfind ha (Except.ok.inj hname)
  | _ =>
      obtain rfl := Except.error.inj h
      exact ⟨mapping, by simp [before, order], by simp [Passes], .mapping⟩

/-- A layer that was read has passed the first four checks. -/
theorem passes_of_ofValue {plan : LayerPlan A} (htable : Tabulates declared layers i)
    (h : LayerPlan.ofValue registry declared i v = .ok plan) :
    ∀ check ∈ kind.before, check.Passes registry layers i v := by
  obtain ⟨rfl, -⟩ := LayerPlan.ofValue_eq_ok h
  obtain ⟨hname, hfresh, ⟨c, hc, -⟩, ⟨n, hn, hfind⟩, -⟩ := LayerPlan.ofFields_eq_ok_iff.mp h
  obtain ⟨ha, rfl⟩ := Registry.find?_eq_some hfind
  have hmapping : mapping.Passes registry layers i (.map plan.fields) := ⟨_, rfl⟩
  have hnew : name.Passes registry layers i (.map plan.fields) :=
    ⟨_, _, rfl, hname, htable.lookup_eq_none_iff.mp hfresh⟩
  have hthere : cardinality.Passes registry layers i (.map plan.fields) := ⟨_, c, rfl, hc⟩
  have hknown : activation.Passes registry layers i (.map plan.fields) := ⟨_, rfl, _, ha, hn⟩
  simp [before, order, hmapping, hnew, hthere, hknown]

/-- The two checks of the cardinality are made when the group is declared. -/
theorem refusedAt_of_check {layer : Fields} {c : Value} {e : GroupError}
    (hc : layer.at? "cardinality" = some c)
    (hread : ∀ check ∈ kind.before, check.Passes registry layers i (.map layer))
    (h : (Requested.ofValue c).check = .error e) :
    RefusedAt registry layers i (.map layer) (.group e) := by
  -- Anything but an integer fails the check of its kind, and a negative integer the one of its
  -- sign.
  by_cases hint : ∃ n, c = .int n
  · obtain ⟨n, rfl⟩ := hint
    have hkind : kind.Passes registry layers i (.map layer) := ⟨layer, n, rfl, hc⟩
    rw [Requested.ofValue, Requested.check] at h
    split at h
    · next hn =>
        obtain rfl := Except.error.inj h
        refine ⟨sign, fun check hcheck => ?_, ?_, .sign hc⟩
        · by_cases hlast : check = kind
          · rwa [hlast]
          · exact hread check (by revert hlast hcheck; cases check <;> decide)
        · rintro ⟨_, m, ⟨⟩, hm, hnonneg⟩
          rw [hc, Option.some.injEq, Value.int.injEq] at hm
          omega
    · cases h
  · refine ⟨kind, hread, ?_, ?_⟩
    · rintro ⟨_, n, ⟨⟩, hn⟩
      rw [hc] at hn
      exact hint ⟨n, Option.some.inj hn⟩
    · cases c with
      | int n => exact absurd ⟨n, rfl⟩ hint
      | _ =>
        obtain rfl := Except.error.inj h
        exact .kind hc

/-- A layer whose group was declared has passed all checks but the last one. -/
theorem passes_of_check {layer : Fields} {c : Value} {k : Nat}
    (hc : layer.at? "cardinality" = some c)
    (hread : ∀ check ∈ kind.before, check.Passes registry layers i (.map layer))
    (h : (Requested.ofValue c).check = .ok k) :
    ∀ check ∈ inputs.before, check.Passes registry layers i (.map layer) := by
  have hint : ∃ n : Int, c = .int n ∧ 0 ≤ n := by
    cases c with
    | int n =>
        rw [Requested.ofValue, Requested.check] at h
        split at h
        · cases h
        · next hn => exact ⟨n, rfl, Int.not_lt.mp hn⟩
    | _ => cases h
  obtain ⟨n, rfl, hn⟩ := hint
  intro check hcheck
  -- all checks in front of the inputs are the two of the cardinality and those made while reading
  by_cases hkind : check = kind
  · rw [hkind]
    exact ⟨layer, n, rfl, hc⟩
  by_cases hsign : check = sign
  · rw [hsign]
    exact ⟨layer, n, rfl, hc, hn⟩
  exact hread check (by revert hkind hsign hcheck; cases check <;> decide)

variable {g g' : Graph A} {plan : LayerPlan A} {declared' : Declared}

/-- The last three checks are made when a layer is added. -/
theorem refusedAt_of_addLayer (htable : Tabulates declared layers i)
    (hplan : LayerPlan.ofValue registry declared i v = .ok plan)
    (hadd : g.addLayer declared plan = (.error e, g')) : RefusedAt registry layers i v e := by
  have hread := passes_of_ofValue htable hplan
  obtain ⟨rfl, -⟩ := LayerPlan.ofValue_eq_ok hplan
  obtain ⟨hname, -, ⟨c, hc, hcardinality⟩, -⟩ := LayerPlan.ofFields_eq_ok_iff.mp hplan
  obtain ⟨e', hcheck, rfl⟩ | ⟨k, hcheck, hinputs⟩ := Graph.addLayer_eq_error hadd
  · exact refusedAt_of_check hc hread (hcardinality ▸ hcheck)
  have hdeclared := passes_of_check hc hread (hcardinality ▸ hcheck)
  obtain hnone | ⟨front, source, back, hsources, hback, hsource⟩ := hinputs
  · exact ⟨inputs, hdeclared, by simp [passes_inputs_iff, hnone], .noInputs hnone⟩
  -- the sources behind the one that is refused were connected already
  have hknown : ∀ s ∈ back, RefersBefore layers i s := fun s hs =>
    htable.exists_resolve_iff.mp (hback s hs)
  have hunknown : ¬ RefersBefore layers i source := by
    rw [← htable.exists_resolve_iff, hsource]
    rintro ⟨u, hu⟩
    cases hu
  refine ⟨inputs, hdeclared, ?_, ?_⟩
  · rw [passes_inputs_iff]
    rintro ⟨sources, hok, hall⟩
    rw [hsources] at hok
    obtain rfl := Except.ok.inj hok
    exact hunknown (hall source (by simp))
  · obtain ⟨hkey, rfl⟩ | ⟨key, hkey, rfl⟩ := Declared.resolve_eq_error hsource
    · exact .notAKey hsources hknown hkey
    · exact .inputs hname hsources hknown hunknown hkey

/-- A layer that was added has passed all checks, and its name is new in the table. -/
theorem passes_of_addLayer (htable : Tabulates declared layers i) (hv : layers[i]? = some v)
    (hplan : LayerPlan.ofValue registry declared i v = .ok plan)
    (hadd : g.addLayer declared plan = (.ok declared', g')) :
    (∀ check : LayerCheck, check.Passes registry layers i v) ∧
      Tabulates declared' layers (i + 1) := by
  have hread := passes_of_ofValue htable hplan
  obtain ⟨rfl, -⟩ := LayerPlan.ofValue_eq_ok hplan
  obtain ⟨hname, -, ⟨c, hc, hcardinality⟩, -⟩ := LayerPlan.ofFields_eq_ok_iff.mp hplan
  rw [Graph.addLayer] at hadd
  split at hadd
  · cases hadd
  · next bare g₁ hdeclare =>
      obtain ⟨n, hcheck, -, hbare⟩ := Graph.declare_eq_ok hdeclare
      have hdeclared := passes_of_check hc hread (hcardinality ▸ hcheck)
      split at hadd
      · cases hadd
      · next sources hsources =>
          split at hadd
          · cases hadd
          · next last g₂ hconnect =>
              obtain rfl := Except.ok.inj (Prod.mk.inj hadd).1
              obtain ⟨us, hus, -⟩ := Graph.connectAll_eq_ok hbare hconnect
              have hresolved : ∀ s ∈ sources.reverse, ∃ u, declared.resolve plan.name s = .ok u :=
                -- resolving is said twice here: as the handles that are connected and as names that
                -- are known
                ((List.forall₂_and_left _ _).mp (hus.imp fun s u hu =>
                  ⟨⟨u, Declared.resolve_eq_ok_iff.mpr hu⟩, hu⟩)).1
              refine ⟨fun check => ?_, htable.cons hv hname⟩
              by_cases hlast : check = inputs
              · rw [hlast]
                exact ⟨_, sources, rfl, hsources, fun s hs =>
                  htable.exists_resolve_iff.mp (hresolved s (List.mem_reverse.mpr hs))⟩
              · exact hdeclared check (by revert hlast; cases check <;> decide)

end Layer

end Feedforward
