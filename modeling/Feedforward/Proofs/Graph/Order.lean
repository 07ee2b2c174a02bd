import Mathlib.Data.List.Nodup
import Feedforward.Proofs.Graph.Reachability

/-!
# What the order of a graph is

Two properties of `Graph.order`, both from one invariant of the exploration:

* **A complete order** (`exists_order_of_acyclicFrom`) — where no cycle is reached, the order lists
  exactly the groups that the output reaches, each once, every group behind its inputs and the
  output last.
* **An exact refusal** (`order_eq_error_iff_reaches_cycle`) — the order is refused exactly where a
  cycle is reached, and the group that is blamed lies on one.

The listed groups are *settled* at any time: each stands once, and whatever it reads from was listed
before it. A settled list is closed under inputs and free of cycles, so an answer proves that there
is no cycle to be found; the path of the exploration is a chain of inputs, so a refusal proves that
there is one.
-/

namespace Feedforward.Graph

open Relation

variable {A : Type} {g : Graph A}

/-! ## Settled lists -/

/-- A list of groups, latest first: each stands once, and its inputs stand behind it. -/
def Settled (g : Graph A) : List Handle → Prop
  | [] => True
  | v :: rest => v ∉ rest ∧ (∀ u ∈ g.inputs v, u ∈ rest) ∧ Settled g rest

namespace Settled

theorem nodup {l : List Handle} (h : Settled g l) : l.Nodup := by
  induction l with
  | nil => exact List.nodup_nil
  | cons v rest ih => exact List.nodup_cons.mpr ⟨h.1, ih h.2.2⟩

theorem mem_of_mem_inputs {l : List Handle} (h : Settled g l) :
    ∀ v ∈ l, ∀ u ∈ g.inputs v, u ∈ l := by
  induction l with
  | nil => intro v hv; cases hv
  | cons w rest ih =>
      intro v hv u hu
      rcases List.mem_cons.mp hv with rfl | hv
      · exact List.mem_cons_of_mem _ (h.2.1 u hu)
      · exact List.mem_cons_of_mem _ (ih h.2.2 v hv u hu)

/-- A settled list has everything that its members reach. -/
theorem mem_of_reaches {l : List Handle} (h : Settled g l) {v u : Handle} (hv : v ∈ l)
    (hreach : g.Reaches v u) : u ∈ l :=
  hreach.mem_of_closed h.mem_of_mem_inputs hv

/-- No group of a settled list lies on a cycle: what the first group reaches stands behind it. -/
theorem not_onCycle {l : List Handle} (h : Settled g l) : ∀ v ∈ l, ¬ g.OnCycle v := by
  induction l with
  | nil => intro v hv; cases hv
  | cons w rest ih =>
      intro v hv hcycle
      rcases List.mem_cons.mp hv with rfl | hv
      · obtain ⟨u, hread, hback⟩ := TransGen.head'_iff.mp hcycle
        exact h.1 (mem_of_reaches h.2.2 (h.2.1 u hread) hback)
      · exact ih h.2.2 v hv hcycle

/-- Read from its end, a settled list has every group behind its inputs. -/
theorem exists_lt_of_mem_inputs {l : List Handle} (h : Settled g l) {i : Nat} {v u : Handle}
    (hv : l.reverse[i]? = some v) (hu : u ∈ g.inputs v) :
    ∃ j < i, l.reverse[j]? = some u := by
  induction l generalizing i with
  | nil => simp at hv
  | cons w rest ih =>
      rw [List.reverse_cons] at hv ⊢
      by_cases hi : i < rest.reverse.length
      · rw [List.getElem?_append_left hi] at hv
        obtain ⟨j, hji, hj⟩ := ih h.2.2 hv
        exact ⟨j, hji, by rw [List.getElem?_append_left (Nat.lt_trans hji hi)]; exact hj⟩
      · -- `w` itself stands last, so its inputs are found anywhere in `rest`.
        rw [List.getElem?_append_right (Nat.le_of_not_lt hi)] at hv
        obtain rfl : v = w := List.mem_singleton.mp (List.mem_of_getElem? hv)
        obtain ⟨j, hj, hget⟩ := List.mem_iff_getElem.mp (List.mem_reverse.mpr (h.2.1 u hu))
        refine ⟨j, Nat.lt_of_lt_of_le hj (Nat.le_of_not_lt hi), ?_⟩
        rw [List.getElem?_append_left hj, List.getElem?_eq_getElem hj, hget]

end Settled

/-! ## What exploring yields -/

/-- The groups listed by exploring `vs`: they extend the ones listed before and take in `vs`. What
is new is reached from `vs` and keeps off the path. -/
structure Lists (g : Graph A) (path listed : HandleList) (vs : List Handle) (now : HandleList) :
    Prop where
  settled : Settled g now.toList
  keeps : ∀ x, x ∈ listed → x ∈ now
  covers : ∀ v ∈ vs, v ∈ now
  reached : ∀ x, x ∈ now → x ∈ listed ∨ ∃ v ∈ vs, g.Reaches v x
  offPath : ∀ x, x ∈ now → x ∈ listed ∨ x ∉ path

/-- The two ends that exploring `vs` can come to: the groups are listed, or one of the groups that
they reach lies on a cycle and is blamed for it. -/
def Explores (g : Graph A) (path listed : HandleList) (vs : List Handle) :
    Except OrderError HandleList → Prop
  | .ok now => Lists g path listed vs now
  | .error (.cyclic w) => g.OnCycle w ∧ ∃ v ∈ vs, g.Reaches v w

namespace Lists

variable {path listed now later : HandleList} {v : Handle} {vs : List Handle}

/-- Exploring nothing leaves the list as it is. -/
theorem nil (h : Settled g listed.toList) : Lists g path listed [] listed where
  settled := h
  keeps _ hx := hx
  covers _ hv := by cases hv
  reached _ hx := .inl hx
  offPath _ hx := .inl hx

/-- A group that is listed already adds nothing. -/
theorem of_mem (h : Settled g listed.toList) (hv : v ∈ listed) :
    Lists g path listed [v] listed where
  settled := h
  keeps _ hx := hx
  covers u hu := by rwa [List.mem_singleton.mp hu]
  reached _ hx := .inl hx
  offPath _ hx := .inl hx

/-- Exploring one after the other. -/
theorem append (h₁ : Lists g path listed [v] now) (h₂ : Lists g path now vs later) :
    Lists g path listed (v :: vs) later where
  settled := h₂.settled
  keeps x hx := h₂.keeps x (h₁.keeps x hx)
  covers u hu := by
    rcases List.mem_cons.mp hu with rfl | hu
    · exact h₂.keeps u (h₁.covers u (List.mem_singleton_self u))
    · exact h₂.covers u hu
  reached x hx := by
    rcases h₂.reached x hx with hx | ⟨u, hu, hreach⟩
    · refine (h₁.reached x hx).imp_right fun ⟨u, hu, hreach⟩ => ⟨u, ?_, hreach⟩
      exact List.mem_cons.mpr (.inl (List.mem_singleton.mp hu))
    · exact .inr ⟨u, List.mem_cons_of_mem v hu, hreach⟩
  offPath x hx := by
    rcases h₂.offPath x hx with hx | hx
    · exact h₁.offPath x hx
    · exact .inr hx

/-- A new group joins the list behind its inputs, which were explored with the group on the path. -/
theorem cons (hpath : v ∉ path) (hlisted : v ∉ listed)
    (h : Lists g (path.cons v) listed (g.inputs v).reverse now) :
    Lists g path listed [v] (now.cons v) where
  settled := by
    refine ⟨fun hv => ?_, fun u hu => h.covers u (List.mem_reverse.mpr hu), h.settled⟩
    -- The path keeps `v` itself out of what its inputs list.
    exact (h.offPath v hv).elim hlisted fun hoff => hoff (HandleList.mem_cons.mpr (.inl rfl))
  keeps x hx := HandleList.mem_cons.mpr (.inr (h.keeps x hx))
  covers u hu := HandleList.mem_cons.mpr (.inl (List.mem_singleton.mp hu))
  reached x hx := by
    rcases HandleList.mem_cons.mp hx with rfl | hx
    · exact .inr ⟨x, List.mem_singleton_self x, .refl x⟩
    · refine (h.reached x hx).imp_right fun ⟨u, hu, hreach⟩ => ⟨v, List.mem_singleton_self v, ?_⟩
      exact hreach.head (List.mem_reverse.mp hu)
  offPath x hx := by
    rcases HandleList.mem_cons.mp hx with rfl | hx
    · exact .inr hpath
    · refine (h.offPath x hx).imp_right fun hoff hp => hoff (HandleList.mem_cons.mpr (.inr hp))

end Lists

namespace Explores

variable {path listed : HandleList} {v : Handle} {vs : List Handle}
  {result : Except OrderError HandleList}

/-- A new group is explored by exploring its inputs. -/
theorem cons (hpath : v ∉ path) (hlisted : v ∉ listed)
    (h : Explores g (path.cons v) listed (g.inputs v).reverse result) :
    Explores g path listed [v] (result.map (HandleList.cons v)) := by
  match result, h with
  | .ok now, h => exact Lists.cons hpath hlisted h
  | .error (.cyclic w), ⟨hcycle, u, hu, hreach⟩ =>
      exact ⟨hcycle, v, List.mem_singleton_self v, hreach.head (List.mem_reverse.mp hu)⟩

/-- Exploring one after the other, up to the first that ends on a cycle. -/
theorem bind {next : HandleList → Except OrderError HandleList}
    (h : Explores g path listed [v] result)
    (hnext : ∀ now, Lists g path listed [v] now → Explores g path now vs (next now)) :
    Explores g path listed (v :: vs) (result.bind next) := by
  match result, h with
  | .error (.cyclic w), ⟨hcycle, u, hu, hreach⟩ =>
      exact ⟨hcycle, u, List.mem_cons.mpr (.inl (List.mem_singleton.mp hu)), hreach⟩
  | .ok now, h =>
      have hrest := hnext now h
      show Explores g path listed (v :: vs) (next now)
      match hlast : next now with
      | .error (.cyclic w) =>
          rw [hlast] at hrest
          obtain ⟨hcycle, u, hu, hreach⟩ := hrest
          exact ⟨hcycle, u, List.mem_cons_of_mem v hu, hreach⟩
      | .ok later =>
          rw [hlast] at hrest
          exact Lists.append h hrest

end Explores

/-! ## The exploration, step by step -/

section Steps

variable {path listed : HandleList} {v : Handle}

/-- Coming back to a group on the path closes a cycle. -/
theorem visit_of_mem_path (h : v ∈ path) : g.visit path listed v = .error (.cyclic v) := by
  rw [visit, dif_pos h]

/-- A group is listed once. -/
theorem visit_of_mem (hpath : v ∉ path) (h : v ∈ listed) : g.visit path listed v = .ok listed := by
  rw [visit, dif_neg hpath, if_pos h]

/-- A new group is listed once its inputs are, the last input first. -/
theorem visit_of_not_mem (hpath : v ∉ path) (h : v ∉ listed) :
    g.visit path listed v =
      (g.visitAll (path.cons v) listed (g.inputs v).reverse).map (HandleList.cons v) := by
  rw [visit, dif_neg hpath, if_neg h]
  split
  · next hg =>
      rw [inputs, hg]
      simp only [Option.elim_none, List.reverse_nil, visitAll]
      rfl
  · next t hg =>
      rw [inputs_of_group? hg]
      cases g.visitAll (path.cons v) listed t.inputs.reverse <;> rfl

@[simp] theorem visitAll_cons (vs : List Handle) :
    g.visitAll path listed (v :: vs) =
      (g.visit path listed v).bind fun now => g.visitAll path now vs := by
  rw [visitAll]
  rfl

end Steps

/-- Joint specification of the two functions of the exploration, by their own induction principle.
It is assumed that the groups of the path lead to what is explored; a group that turns up on the
path is thereby found to lead to itself. -/
theorem explores_visit_all :
    (∀ (path listed : HandleList) (v : Handle), Settled g listed.toList →
      (∀ x ∈ path, TransGen g.Reads x v) → Explores g path listed [v] (g.visit path listed v)) ∧
    ∀ (path listed : HandleList) (vs : List Handle), Settled g listed.toList →
      (∀ x ∈ path, ∀ v ∈ vs, TransGen g.Reads x v) →
      Explores g path listed vs (g.visitAll path listed vs) := by
  apply visit.mutual_induct g
    (fun path listed v => Settled g listed.toList →
      (∀ x ∈ path, TransGen g.Reads x v) → Explores g path listed [v] (g.visit path listed v))
    (fun path listed vs => Settled g listed.toList →
      (∀ x ∈ path, ∀ v ∈ vs, TransGen g.Reads x v) →
      Explores g path listed vs (g.visitAll path listed vs))
  case _ => -- visit, on the path
    intro path listed v hv _ hpath
    rw [visit_of_mem_path hv]
    exact ⟨hpath v hv, v, List.mem_singleton_self v, .refl v⟩
  case _ => -- visit, listed already
    intro path listed v hp hv hsettled _
    rw [visit_of_mem hp hv]
    exact .of_mem hsettled hv
  case _ => -- visit, no group with this handle
    intro path listed v hp hv hg hsettled _
    have hnil : g.inputs v = [] := by rw [inputs, hg]; rfl
    rw [visit_of_not_mem hp hv, hnil, List.reverse_nil, visitAll]
    exact .cons hp hv (hnil ▸ .nil hsettled)
  case _ => -- visit, a new group
    intro path listed v hp hv t hg ih hsettled hpath
    rw [← inputs_of_group? hg] at ih
    rw [visit_of_not_mem hp hv]
    refine .cons hp hv (ih hsettled fun x hx u hu => ?_)
    have hread : g.Reads v u := List.mem_reverse.mp hu
    rcases HandleList.mem_cons.mp hx with rfl | hx
    · exact .single hread
    · exact .tail (hpath x hx) hread
  case _ => -- visitAll []
    intro path listed hsettled _
    rw [visitAll]
    exact .nil hsettled
  case _ => -- visitAll (v :: rest)
    intro path listed v rest ihv ihrest hsettled hpath
    rw [visitAll_cons]
    refine .bind (ihv hsettled fun x hx => hpath x hx v List.mem_cons_self) fun now hnow => ?_
    exact ihrest now hnow.settled fun x hx u hu => hpath x hx u (List.mem_cons_of_mem v hu)

/-! ## The order -/

variable {output : Handle} {hs : List Handle}

/-- The exploration that the order starts: nothing is listed and nothing lies on the path. -/
theorem explores_output (g : Graph A) (output : Handle) :
    Explores g .nil .nil [output] (g.visit .nil .nil output) :=
  explores_visit_all.1 .nil .nil output trivial fun x hx => absurd hx (HandleList.not_mem_nil x)

/-- What the order lists, latest first, and that nothing is listed without reason. -/
theorem lists_of_order (h : g.order output = .ok hs) :
    ∃ now, Lists g .nil .nil [output] now ∧ now.toList.reverse = hs := by
  have hexplores := explores_output g output
  rw [order] at h
  match hvisit : g.visit .nil .nil output with
  | .error e => rw [hvisit] at h; cases h
  | .ok now =>
      rw [hvisit] at h hexplores
      exact ⟨now, hexplores, Except.ok.inj h⟩

/-- The order is complete, and has nothing more. -/
theorem mem_order_iff (h : g.order output = .ok hs) {v : Handle} :
    v ∈ hs ↔ g.Reaches output v := by
  obtain ⟨now, hnow, rfl⟩ := lists_of_order h
  rw [List.mem_reverse, HandleList.mem_toList]
  constructor
  · intro hv
    rcases hnow.reached v hv with hv | ⟨u, hu, hreach⟩
    · exact absurd hv (HandleList.not_mem_nil v)
    · exact List.mem_singleton.mp hu ▸ hreach
  · exact hnow.settled.mem_of_reaches (hnow.covers output (List.mem_singleton_self output))

theorem nodup_order (h : g.order output = .ok hs) : hs.Nodup := by
  obtain ⟨now, hnow, rfl⟩ := lists_of_order h
  exact List.nodup_reverse.mpr hnow.settled.nodup

/-- Every group stands behind its inputs. -/
theorem exists_lt_of_mem_inputs_order (h : g.order output = .ok hs) {i : Nat} {v u : Handle}
    (hv : hs[i]? = some v) (hu : u ∈ g.inputs v) : ∃ j < i, hs[j]? = some u := by
  obtain ⟨now, hnow, rfl⟩ := lists_of_order h
  exact hnow.settled.exists_lt_of_mem_inputs hv hu

/-- The output comes last, since everything else is in front of what it leads to. -/
theorem getLast?_order (h : g.order output = .ok hs) : hs.getLast? = some output := by
  rw [order, visit_of_not_mem (HandleList.not_mem_nil _) (HandleList.not_mem_nil _)] at h
  match hall : g.visitAll (HandleList.nil.cons output) .nil (g.inputs output).reverse with
  | .error e => rw [hall] at h; cases h
  | .ok now =>
      rw [hall] at h
      obtain rfl : now.toList.reverse ++ [output] = hs := by
        simpa [Except.map] using h
      exact List.getLast?_concat

/-- An order proves that no cycle is reached. -/
theorem acyclicFrom_of_order (h : g.order output = .ok hs) : g.AcyclicFrom output := by
  intro v hreach
  have hv := (mem_order_iff h).mpr hreach
  obtain ⟨now, hnow, rfl⟩ := lists_of_order h
  exact hnow.settled.not_onCycle v (List.mem_reverse.mp hv)

/-- A refusal names a group on a cycle that is reached. -/
theorem onCycle_of_order {w : Handle} (h : g.order output = .error (.cyclic w)) :
    g.OnCycle w ∧ g.Reaches output w := by
  have hexplores := explores_output g output
  rw [order] at h
  match hvisit : g.visit .nil .nil output with
  | .ok now => rw [hvisit] at h; cases h
  | .error e =>
      rw [hvisit] at h hexplores
      obtain rfl : e = .cyclic w := Except.error.inj h
      obtain ⟨hcycle, u, hu, hreach⟩ := hexplores
      exact ⟨hcycle, List.mem_singleton.mp hu ▸ hreach⟩

/-- There is an order unless a cycle is reached. -/
theorem order_eq_ok_iff : (∃ hs, g.order output = .ok hs) ↔ g.AcyclicFrom output := by
  constructor
  · rintro ⟨hs, h⟩
    exact acyclicFrom_of_order h
  · intro hacyclic
    match h : g.order output with
    | .ok hs => exact ⟨hs, rfl⟩
    | .error (.cyclic w) =>
        obtain ⟨hcycle, hreach⟩ := onCycle_of_order h
        exact absurd hcycle (hacyclic w hreach)

/-! ## The main results -/

/-- From an output that reaches no cycle, the order lists exactly what the output reaches, each
group once and behind all its inputs, the output last. -/
theorem exists_order_of_acyclicFrom (g : Graph A) (output : Handle) (h : g.AcyclicFrom output) :
    ∃ hs, g.order output = .ok hs ∧ hs.Nodup ∧ (∀ v, v ∈ hs ↔ g.Reaches output v) ∧
      (∀ (i : Nat) (v u : Handle), hs[i]? = some v → u ∈ g.inputs v → ∃ j < i, hs[j]? = some u) ∧
      hs.getLast? = some output := by
  obtain ⟨hs, horder⟩ := order_eq_ok_iff.mpr h
  refine ⟨hs, horder, nodup_order horder, fun v => mem_order_iff horder, ?_, getLast?_order horder⟩
  intro i v u hv hu
  exact exists_lt_of_mem_inputs_order horder hv hu

/-- Two groups share a source, and the output reads from one of them twice. -/
def diamond (f : Activation A) : Graph A :=
  ⟨#[some ⟨2, f, [], none⟩, some ⟨3, f, [0], none⟩, some ⟨1, f, [0, 0], none⟩,
    some ⟨1, f, [2, 1, 2], none⟩]⟩

/-- The inputs of the diamond have smaller handles than their readers. -/
theorem acyclicFrom_diamond (f : Activation A) : (diamond f).AcyclicFrom 3 := by
  have hbelow : ∀ v : Nat, v < 4 → ∀ u ∈ (diamond f).inputs v, u < v
    | 0, _ => (by decide : ∀ u ∈ ([] : List Nat), u < 0)
    | 1, _ => (by decide : ∀ u ∈ [0], u < 1)
    | 2, _ => (by decide : ∀ u ∈ [0, 0], u < 2)
    | 3, _ => (by decide : ∀ u ∈ [2, 1, 2], u < 3)
    | _ + 4, hv => absurd hv (by omega)
  exact acyclicFrom_of_lt (g := diamond f) hbelow 3

/-- The order of the diamond. -/
theorem exists_order_diamond :
    (diamond Activation.linear).AcyclicFrom 3 ∧
    ∃ hs, (diamond Activation.linear).order 3 = .ok hs ∧ hs.Nodup ∧
      (∀ v, v ∈ hs ↔ (diamond Activation.linear).Reaches 3 v) ∧
      (∀ (i : Nat) (v u : Handle), hs[i]? = some v → u ∈ (diamond Activation.linear).inputs v →
        ∃ j < i, hs[j]? = some u) ∧
      hs.getLast? = some 3 :=
  ⟨acyclicFrom_diamond _, exists_order_of_acyclicFrom _ 3 (acyclicFrom_diamond _)⟩

/-- On every graph, rewired or not, the exploration comes to one of two ends. It refuses exactly
where the output reaches a cycle and answers exactly where it does not, and a refusal names a group
that is reached and that inputs lead back to itself. -/
theorem order_eq_error_iff_reaches_cycle (g : Graph A) (output : Handle) :
    ((∃ e, g.order output = .error e) ↔ ∃ v, g.Reaches output v ∧ g.OnCycle v) ∧
    ((∃ hs, g.order output = .ok hs) ↔ ¬ ∃ v, g.Reaches output v ∧ g.OnCycle v) ∧
    ∀ e, g.order output = .error e → ∃ w, g.Reaches output w ∧ g.OnCycle w ∧
      e.message g = "graph is not acyclic: " ++ g.label w ++ " is reachable from itself" := by
  -- these are the same statement, but for what is said about the group that is named
  have hanswer : (∃ hs, g.order output = .ok hs) ↔ ¬ ∃ v, g.Reaches output v ∧ g.OnCycle v := by
    rw [order_eq_ok_iff, AcyclicFrom]
    simp only [not_exists, not_and]
  have hblame : ∀ e, g.order output = .error e → ∃ w, g.Reaches output w ∧ g.OnCycle w ∧
      e.message g = "graph is not acyclic: " ++ g.label w ++ " is reachable from itself" := by
    rintro ⟨w⟩ h
    obtain ⟨hcycle, hreach⟩ := onCycle_of_order h
    exact ⟨w, hreach, hcycle, rfl⟩
  refine ⟨⟨?_, ?_⟩, hanswer, hblame⟩
  · rintro ⟨e, h⟩
    obtain ⟨w, hreach, hcycle, -⟩ := hblame e h
    exact ⟨w, hreach, hcycle⟩
  · intro hcycle
    match h : g.order output with
    | .error e => exact ⟨e, rfl⟩
    | .ok hs => exact absurd hcycle (hanswer.mp ⟨hs, h⟩)

end Feedforward.Graph
