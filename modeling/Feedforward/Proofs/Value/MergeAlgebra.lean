import Feedforward.Proofs.Value.Merge

/-!
# The algebra of merging

A merged mapping is known by its keys, which stand in the order of the base with the new ones of
the override behind them (`map_fst_merge`), and by what it holds at each of them (`ext_get?`). From
this follow the laws of overrides that are laid over one another:

    merge (merge a b) c = merge a (merge b c)    unless b has something else between two mappings,
    merge a a = a.

The exception is a path at which `a` and `c` hold mappings and `b` holds something else
(`Value.ComesBetween`): from the left `b` has taken the mapping of `a` away before `c` arrives.
-/

namespace Feedforward

/-! ## Mappings by their keys and values -/

namespace Fields

variable {m n base override : Fields} {k k' : Key} {v w : Value}

theorem keysDiffer_iff : m.KeysDiffer ↔ (m.map Prod.fst).Pairwise fun k k' => ¬ k.same k' := by
  rw [List.pairwise_map, KeysDiffer]

@[simp] theorem get?_singleton_iff : get? [(k, v)] k' = some w ↔ k.same k' ∧ v = w := by
  simp [get?]

/-- Mappings with the same keys in the same order that hold the same at every key are equal. -/
theorem ext_get? (hm : m.KeysDiffer) (hkeys : m.map Prod.fst = n.map Prod.fst)
    (h : ∀ k, m.get? k = n.get? k) : m = n := by
  have hn : n.KeysDiffer := by rwa [keysDiffer_iff, ← hkeys, ← keysDiffer_iff]
  induction m generalizing n with
  | nil => exact (List.map_eq_nil_iff.mp hkeys.symm).symm
  | cons entry rest ih =>
      obtain ⟨key, v⟩ := entry
      obtain ⟨⟨key', w⟩, others, rfl, hkey, hothers⟩ := List.map_eq_cons_iff.mp hkeys.symm
      obtain rfl : key' = key := hkey
      obtain ⟨hfirst, hrest⟩ := List.pairwise_cons.mp hm
      obtain ⟨hfirst', hrest'⟩ := List.pairwise_cons.mp hn
      have hself : key'.same key' := Key.same_iff.mpr rfl
      have hv : v = w := by simpa [get?, hself] using h key'
      have htail : ∀ k, get? rest k = get? others k := by
        intro k
        by_cases hk : key'.same k
        · -- neither tail has the key of the entry in front
          rw [← get?_congr hk, ← get?_congr hk, get?_eq_none, get?_eq_none]
          · intro e he hsame
            exact hfirst' e he (Key.same_of_same hself hsame)
          · intro e he hsame
            exact hfirst e he (Key.same_of_same hself hsame)
        · simpa [get?, hk] using h k
      rw [hv, ih hrest hothers.symm htail hrest']

theorem contains_of_mem {e : Key × Value} (he : e ∈ m) : m.contains e.1 := by
  induction m with
  | nil => cases he
  | cons entry rest ih =>
      rw [contains, get?]
      by_cases hk : entry.1.same e.1
      · simp [hk]
      · rcases List.mem_cons.mp he with rfl | he
        · exact absurd (Key.same_iff.mpr rfl) hk
        · rw [if_neg hk]
          exact ih he

@[simp] theorem contains_put (m : Fields) (k k' : Key) (v : Value) :
    (m.put k v).contains k' = (k.same k' || m.contains k') := by
  rw [contains, contains, get?_put]
  cases k.same k' <;> simp

/-- A key that is new stands behind the others. -/
theorem map_fst_put (m : Fields) (k : Key) (v : Value) :
    (m.put k v).map Prod.fst = m.map Prod.fst ++ if m.contains k then [] else [k] := by
  induction m with
  | nil => rfl
  | cons entry rest ih =>
      obtain ⟨key, w⟩ := entry
      rw [put, contains, get?]
      by_cases hk : key.same k
      · simp [hk]
      · rw [contains] at ih
        simp [hk, ih]

/-- The keys of the base come first, and behind them those that only the override has. -/
theorem map_fst_merge (hoverride : override.KeysDiffer) (base : Fields) :
    (base.merge override).map Prod.fst =
      base.map Prod.fst ++ (override.map Prod.fst).filter fun k => !base.contains k := by
  induction override generalizing base with
  | nil => simp [merge]
  | cons entry rest ih =>
      obtain ⟨key, v⟩ := entry
      obtain ⟨hkey, hrest⟩ := List.pairwise_cons.mp hoverride
      have hfilter : (rest.map Prod.fst).filter
            (fun k => !(base.put key (v.mergeOver (base.get? key))).contains k) =
          (rest.map Prod.fst).filter fun k => !base.contains k := by
        apply List.filter_congr
        intro k hk
        obtain ⟨e, he, rfl⟩ := List.mem_map.mp hk
        simp [contains_put, hkey e he]
      rw [merge, ih hrest, map_fst_put, hfilter, List.append_assoc, List.map_cons,
        List.filter_cons]
      cases base.contains key <;> rfl

end Fields

/-! ## Induction on mappings in mappings -/

namespace Value

/-- What is found in a map is smaller than the map. -/
theorem sizeOf_lt_of_get? {m : Fields} {k : Key} {v : Value} (h : m.get? k = some v) :
    sizeOf v < sizeOf (Value.map m) := by
  obtain ⟨⟨key, w⟩, he, rfl⟩ := Fields.exists_mem_of_get? h
  have hentry := List.sizeOf_lt_of_mem he
  simp only [Prod.mk.sizeOf_spec, Value.map.sizeOf_spec] at hentry ⊢
  omega

/-- What holds of all that is no mapping, and of a mapping whenever it holds of what is found in
it, holds of every value. -/
theorem get?_induction {motive : Value → Prop} (other : ∀ v, (∀ m, v ≠ .map m) → motive v)
    (map : ∀ m : Fields, (∀ k v, m.get? k = some v → motive v) → motive (.map m)) (v : Value) :
    motive v := by
  induction hsize : sizeOf v using Nat.strongRecOn generalizing v with
  | _ size ih =>
    cases v with
    | map m =>
        apply map
        intro k v hv
        exact ih _ (hsize ▸ sizeOf_lt_of_get? hv) v rfl
    | _ =>
        apply other
        rintro m ⟨⟩

/-! ## The laws -/

variable {a b c v : Value} {old : Option Value} {l m n : Fields}

theorem mergeOver_eq_self (h : ∀ m n : Fields, old = some (.map m) → v ≠ .map n) :
    v.mergeOver old = v := by
  rcases mergeOver_cases old v with ⟨m, n, hm, hn, -⟩ | ⟨-, hsame⟩
  · exact absurd hn (h m n hm)
  · exact hsame

@[simp] theorem mergeOver_none (v : Value) : v.mergeOver none = v :=
  mergeOver_eq_self fun _ _ h => nomatch h

/-- Whatever is no map replaces what was there. -/
theorem mergeOver_of_not_map (hv : ∀ m, v ≠ .map m) (old : Option Value) : v.mergeOver old = v :=
  mergeOver_eq_self fun _ n _ => hv n

theorem mergeOver_some_of_not_map (ha : ∀ m, a ≠ .map m) (v : Value) : v.mergeOver (some a) = v :=
  mergeOver_eq_self fun m _ h => absurd (Option.some.inj h) (ha m)

/-- A value that is merged over itself stays as it is. -/
theorem mergeOver_self (v : Value) (hv : v.KeysDiffer) : v.mergeOver (some v) = v := by
  induction v using get?_induction with
  | other v hother => exact mergeOver_of_not_map hother _
  | map m ih =>
      rw [mergeOver_map]
      apply congrArg
      apply Fields.ext_get? (hv.fields.merge m)
      · -- the override has no key of its own
        rw [Fields.map_fst_merge hv.fields, List.filter_eq_nil_iff.mpr, List.append_nil]
        intro k hk
        obtain ⟨e, he, rfl⟩ := List.mem_map.mp hk
        simp [Fields.contains_of_mem he]
      · intro k  -- and each key finds what it found
        rw [Fields.get?_merge hv.fields]
        cases hk : m.get? k with
        | none => rfl
        | some v => exact congrArg some (ih k v hk (hv.get? hk))

/-- At some path the outer values hold mappings, and the one between them holds something else. -/
def ComesBetween (b a c : Value) : Prop :=
  ∃ (p : List Key) (m n : Fields) (w : Value), a.follow p = some (.map m) ∧
    c.follow p = some (.map n) ∧ b.follow p = some w ∧ ∀ l, w ≠ .map l

theorem ComesBetween.of_get? {k : Key} {u v w : Value} (hm : m.get? k = some u)
    (hl : l.get? k = some v) (hn : n.get? k = some w) (h : v.ComesBetween u w) :
    (Value.map l).ComesBetween (.map m) (.map n) := by
  obtain ⟨p, m', n', x, hu, hw, hv, hx⟩ := h
  refine ⟨k :: p, m', n', x, ?_, ?_, ?_, hx⟩
  · simp [hm, hu]
  · simp [hn, hw]
  · simp [hl, hv]

/-- Of three values that are laid over one another, it does not matter which two are merged first,
unless the one in the middle comes between the others. -/
theorem mergeOver_assoc (c : Value) (ha : a.KeysDiffer) (hb : b.KeysDiffer) (hc : c.KeysDiffer)
    (hbetween : ¬ b.ComesBetween a c) :
    c.mergeOver (some (b.mergeOver (some a))) = (c.mergeOver (some b)).mergeOver (some a) := by
  induction c using get?_induction generalizing a b with
  | other c hother =>
      rw [mergeOver_of_not_map hother, mergeOver_of_not_map hother, mergeOver_of_not_map hother]
  | map n ih =>
      by_cases hbmap : ∃ l, b = .map l
      · obtain ⟨l, rfl⟩ := hbmap
        by_cases hamap : ∃ m, a = .map m
        · obtain ⟨m, rfl⟩ := hamap
          simp only [mergeOver_map]
          apply congrArg
          -- Both sides have the same keys in the same order, and find the same under each of them.
          apply Fields.ext_get? ((ha.fields.merge l).merge n)
          · simp only [Fields.map_fst_merge hb.fields, Fields.map_fst_merge hc.fields,
              Fields.map_fst_merge (hb.fields.merge n), Fields.contains_merge hb.fields,
              List.filter_append, List.filter_filter, List.append_assoc, Bool.not_or]
          · intro k
            rw [Fields.get?_merge hc.fields, Fields.get?_merge hb.fields,
              Fields.get?_merge (hb.fields.merge n), Fields.get?_merge hc.fields]
            -- the induction reaches a key that all three have; otherwise one of the merges does
            -- nothing
            cases hw : n.get? k with
            | none => rfl
            | some w =>
                cases hv : Fields.get? l k with
                | none => simp only [mergeOver_none]
                | some v =>
                    cases hu : Fields.get? m k with
                    | none => simp only [mergeOver_none]
                    | some u =>
                        apply congrArg some
                        apply ih k w hw (ha.get? hu) (hb.get? hv) (hc.get? hw)
                        exact fun h => hbetween (h.of_get? hu hv hw)
        · -- the mapping in the middle takes the place of what is no mapping
          have hnot : ∀ m, a ≠ .map m := fun m h => hamap ⟨m, h⟩
          simp only [mergeOver_some_of_not_map hnot]
      · -- what is no mapping in the middle hides a mapping below it from the one above
        have hnot : ∀ l, b ≠ .map l := fun l h => hbmap ⟨l, h⟩
        have hother : ∀ m, a ≠ .map m := by
          rintro m rfl
          exact hbetween ⟨[], m, n, b, rfl, rfl, rfl, hnot⟩
        rw [mergeOver_of_not_map hnot, mergeOver_some_of_not_map hnot,
          mergeOver_some_of_not_map hother]

end Value

open Feedforward.Value

section Laws

variable {a b c : Fields}

/-- Merging is idempotent. -/
theorem Fields.merge_self (ha : (Value.map a).KeysDiffer) : a.merge a = a := by
  apply Value.map.inj
  rw [← mergeOver_map]
  exact mergeOver_self _ ha

/-- Nothing merged with a map is the map. -/
theorem Fields.nil_merge (ha : a.KeysDiffer) : Fields.merge [] a = a := by
  refine (Fields.ext_get? ha ?_ ?_).symm
  · rw [Fields.map_fst_merge ha]
    exact (List.filter_eq_self.mpr fun k _ => rfl).symm
  · intro k
    rw [Fields.get?_merge ha]
    cases a.get? k with
    | none => rfl
    | some v => exact congrArg some (mergeOver_none v).symm

/-- Merging is associative unless a value that is no map comes between two maps. -/
theorem Fields.merge_assoc (ha : (Value.map a).KeysDiffer) (hb : (Value.map b).KeysDiffer)
    (hc : (Value.map c).KeysDiffer) (hbetween : ¬ (Value.map b).ComesBetween (.map a) (.map c)) :
    (a.merge b).merge c = a.merge (b.merge c) := by
  apply Value.map.inj
  simp only [← mergeOver_map]
  exact mergeOver_assoc _ ha hb hc hbetween

/-- Nothing comes between a value and something else at a path where it is itself found. -/
theorem Value.not_comesBetween_self (a b : Value) : ¬ b.ComesBetween a b := by
  rintro ⟨p, m, n, w, -, hn, hw, hnot⟩
  exact hnot n (Option.some.inj (hw.symm.trans hn))

/-- Merging an override once more changes nothing, and neither does merging nothing, merging into
nothing or merging a mapping into itself. Overrides may be merged with one another first, unless one
has something else at a path where the mapping before it and the one after it hold mappings. -/
theorem Fields.merge_algebra (ha : (Value.map a).KeysDiffer) (hb : (Value.map b).KeysDiffer)
    (hc : (Value.map c).KeysDiffer) :
    (a.merge b).merge b = a.merge b ∧ a.merge [] = a ∧ Fields.merge [] a = a ∧ a.merge a = a ∧
    ((¬ ∃ (p : List Key) (m n : Fields) (w : Value), (Value.map a).follow p = some (.map m) ∧
        (Value.map c).follow p = some (.map n) ∧ (Value.map b).follow p = some w ∧
        ∀ l, w ≠ .map l) →
      (a.merge b).merge c = a.merge (b.merge c)) := by
  refine ⟨?_, ?_, Fields.nil_merge ha.fields, Fields.merge_self ha, Fields.merge_assoc ha hb hc⟩
  · rw [Fields.merge_assoc ha hb hb (Value.not_comesBetween_self _ _), Fields.merge_self hb]
  · rw [Fields.merge]

end Laws

/-- A second override, which has a mapping at `c` as the first one has. -/
def secondOverride : Fields := [(.str "c", .map [(.str "e", .int 10)])]

theorem keysDiffer_int (n : Int) : (Value.int n).KeysDiffer := by
  apply keysDiffer_of_not_map
  intro m h
  cases h

theorem keysDiffer_nestedBase : (Value.map nestedBase).KeysDiffer := by
  have hz : (Value.map [(.str "z", .int 2)]).KeysDiffer :=
    keysDiffer_map (List.pairwise_singleton _ _) (by simp [keysDiffer_int])
  have ha : (Value.map [(.str "x", .int 1), (.str "y", .map [(.str "z", .int 2)])]).KeysDiffer :=
    keysDiffer_map (by simp [Fields.KeysDiffer, Key.same, Key.normal])
      (by simp [keysDiffer_int, hz])
  have hb : (Value.list [.int 1, .int 2]).KeysDiffer := by
    apply keysDiffer_of_not_map
    intro m h
    cases h
  apply keysDiffer_map
  · simp [Fields.KeysDiffer, nestedBase, Key.same, Key.normal]
  · simp [nestedBase, keysDiffer_int, ha, hb]

theorem keysDiffer_secondOverride : (Value.map secondOverride).KeysDiffer := by
  have he : (Value.map [(.str "e", .int 10)]).KeysDiffer :=
    keysDiffer_map (List.pairwise_singleton _ _) (by simp [keysDiffer_int])
  exact keysDiffer_map (List.pairwise_singleton _ _) (by simp [secondOverride, he])

/-- At `c` the two overrides are merged, and the number of the base is gone either way. -/
theorem Fields.merge_algebra_nested :
    (Value.map nestedBase).KeysDiffer ∧ (Value.map nestedOverride).KeysDiffer ∧
    (Value.map secondOverride).KeysDiffer ∧
    (nestedBase.merge nestedOverride).merge nestedOverride = nestedBase.merge nestedOverride ∧
    nestedBase.merge [] = nestedBase ∧ Fields.merge [] nestedBase = nestedBase ∧
    nestedBase.merge nestedBase = nestedBase ∧
    (nestedBase.merge nestedOverride).merge secondOverride =
      nestedBase.merge (nestedOverride.merge secondOverride) := by
  obtain ⟨hagain, hnil, hempty, hself, hassoc⟩ := Fields.merge_algebra keysDiffer_nestedBase
    keysDiffer_nestedOverride keysDiffer_secondOverride
  refine ⟨keysDiffer_nestedBase, keysDiffer_nestedOverride, keysDiffer_secondOverride, hagain,
    hnil, hempty, hself, hassoc ?_⟩
  -- the second override shares one path with the first, where both hold mappings
  rintro ⟨p, m, n, w, -, hn, hw, hnot⟩
  match p with
  | [] => exact hnot _ (Option.some.inj hw).symm
  | k :: p =>
      obtain ⟨_, v, ⟨⟩, hv, hn⟩ := exists_of_follow_cons hn
      obtain ⟨hk, rfl⟩ := Fields.get?_singleton_iff.mp hv
      rw [follow_map_cons, ← Fields.get?_congr hk] at hw
      match p with
      | [] => exact hnot _ (Option.some.inj hw).symm
      | k' :: p =>
          obtain ⟨_, u, ⟨⟩, hu, hn⟩ := exists_of_follow_cons hn
          obtain ⟨-, rfl⟩ := Fields.get?_singleton_iff.mp hu
          cases p with
          | nil => cases hn
          | cons => cases hn

end Feedforward
