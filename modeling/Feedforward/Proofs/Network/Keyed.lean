import Mathlib.Data.List.Perm.Basic
import Feedforward.Proofs.Network.Failure

/-!
# Vectors handed in by group

A network takes the vectors for its sources in their order or by group. A run looks at no more than
the vector that is found for each position, so that the order of the entries does not matter and
both ways come to the same end:

    entries ~ sources.zip values  →  run g (.keyed entries) = run g (.aligned values).

Entries are accepted exactly if their groups are the sources. Of what can be wrong with them, a group
outside the network is reported first, then a group with inputs, then a source without a vector.
-/

namespace Feedforward

variable {A V : Type}

/-- Where no key occurs twice, every entry is found. -/
theorem lookup_eq_some_iff_mem {entries : List (Nat × V)} (hnodup : (entries.map (·.1)).Nodup)
    {h : Nat} {v : V} : entries.lookup h = some v ↔ (h, v) ∈ entries := by
  induction entries with
  | nil => simp
  | cons entry rest ih =>
      obtain ⟨k, w⟩ := entry
      obtain ⟨hk, hrest⟩ := List.nodup_cons.mp hnodup
      rw [lookup_cons_eq_ite, List.mem_cons, Prod.mk.injEq]
      by_cases hkh : h = k
      · subst hkh
        have hfree : (h, v) ∉ rest := fun hmem => hk (List.mem_map.mpr ⟨_, hmem, rfl⟩)
        simp [hfree, eq_comm]
      · simp [hkh, ih hrest]

namespace Network

variable {g : Graph A} {net : Network A} {output : Handle} {given given' : List (Nat × V)}
  {entries : List (Handle × V)}

/-! ## What a run looks at -/

section Lookup

variable [Arithmetic A] [Readable V A]

/-- A layer looks at the vector at its own position only. -/
theorem newSignal_congr {i : Nat}
    (hgiven : ∀ h, net.groups[i]? = some h → given.lookup i = given'.lookup i) :
    net.newSignal g given i = net.newSignal g given' i := by
  unfold newSignal
  split
  · rfl
  · next layer hlayer =>
      simp only [layerValue, hgiven layer.group (getElem?_groups_of_layer hlayer)]

/-- A run depends on nothing of the vectors but on what is found at the positions of the layers. -/
theorem steps_congr (is : List Nat)
    (hgiven : ∀ i h, net.groups[i]? = some h → given.lookup i = given'.lookup i) :
    steps g given is net = steps g given' is net := by
  induction is generalizing net with
  | nil => rfl
  | cons i rest ih =>
      rw [steps, steps, newSignal_congr (hgiven i)]
      cases net.newSignal g given' i with
      | error e => rfl
      | ok signal =>
          apply ih
          rw [groups_setBuffer]
          exact hgiven

/-- Two ways of handing in vectors that are both accepted come to the same end if they give the same
vectors by position. -/
theorem run_congr {feed feed' : Feed V} (haccept : net.accept g feed = .ok given)
    (haccept' : net.accept g feed' = .ok given')
    (hgiven : ∀ i h, net.groups[i]? = some h → given.lookup i = given'.lookup i) :
    net.run g feed = net.run g feed' := by
  unfold run
  simp only [haccept, haccept', steps_congr _ hgiven]

end Lookup

/-! ## Entries by position -/

theorem mem_fst_give {i j : Nat} {v : V} :
    j ∈ (give given i v).map (·.1) ↔ j = i ∨ j ∈ given.map (·.1) := by
  rw [mem_fst_iff_exists_lookup, mem_fst_iff_exists_lookup, lookup_give]
  by_cases hj : j = i <;> simp [hj]

/-- The positions are those of the groups of the entries. -/
theorem mem_fst_locate {start : List (Nat × V)} {i : Nat}
    (hlocate : entries.foldlM (fun given (h, v) => return give given (← net.index h) v) start =
      (.ok given : Except NetworkError _)) :
    i ∈ given.map (·.1) ↔
      i ∈ start.map (·.1) ∨ ∃ h ∈ entries.map (·.1), net.index h = .ok i := by
  induction entries generalizing start with
  | nil =>
      obtain rfl : start = given := Except.ok.inj hlocate
      simp
  | cons entry rest ih =>
      obtain ⟨k, v⟩ := entry
      rw [List.foldlM_cons, bind_eq_ok_iff] at hlocate
      obtain ⟨next, hnext, hrest⟩ := hlocate
      obtain ⟨j, hj, hnext⟩ := bind_eq_ok_iff.mp hnext
      obtain rfl : give start j v = next := Except.ok.inj hnext
      have hij : net.index k = .ok i ↔ i = j := by
        rw [hj, Except.ok.injEq, eq_comm]
      rw [ih hrest, mem_fst_give]
      simp only [List.map_cons, List.mem_cons, exists_eq_or_imp, hij]
      tauto

/-- Entries are located unless one of them has a group outside the network. -/
theorem locate_cases (net : Network A) (entries : List (Handle × V)) (start : List (Nat × V)) :
    (∃ given, entries.foldlM (fun given (h, v) => return give given (← net.index h) v) start =
        (.ok given : Except NetworkError _) ∧
      ∀ h ∈ entries.map (·.1), ∃ i, net.index h = .ok i) ∨
    ∃ h ∈ entries.map (·.1), net.index h = .error (.notMember h) ∧
      entries.foldlM (fun given (h, v) => return give given (← net.index h) v) start =
        (.error (.notMember h) : Except NetworkError _) := by
  -- The first entry without a position stops the search; all entries in front of it have one.
  induction entries generalizing start with
  | nil => exact .inl ⟨start, rfl, by simp⟩
  | cons entry rest ih =>
      obtain ⟨k, v⟩ := entry
      rw [List.foldlM_cons]
      dsimp only
      cases hposition : net.position? k with
      | none =>
          have hk : net.index k = .error (.notMember k) := by rw [index, hposition]
          refine .inr ⟨k, List.mem_cons_self, hk, ?_⟩
          rw [hk]
          rfl
      | some i =>
          have hk : net.index k = .ok i := by rw [index, hposition]
          rw [hk]
          obtain ⟨given, hgiven, hall⟩ | ⟨h, hmem, hh, hrefused⟩ := ih (give start i v)
          · exact .inl ⟨given, hgiven, List.forall_mem_cons.mpr ⟨⟨i, hk⟩, hall⟩⟩
          · exact .inr ⟨h, List.mem_cons_of_mem k hmem, hh, hrefused⟩

theorem mem_groupsAt_iff {is : List Nat} {h : Handle} :
    h ∈ net.groupsAt is ↔ ∃ i ∈ is, net.groups[i]? = some h := by
  simp only [groupsAt, List.mem_filterMap, ← getElem?_groups]

/-- Where there is something to report, a group is reported. -/
theorem groupsAt_ne_nil {is : List Nat} (hsome : !is.isEmpty)
    (hgroups : ∀ i ∈ is, ∃ h, net.groups[i]? = some h) : net.groupsAt is ≠ [] := by
  cases is with
  | nil => cases hsome
  | cons i rest =>
      obtain ⟨h, hh⟩ := hgroups i List.mem_cons_self
      exact List.ne_nil_of_mem (mem_groupsAt_iff.mpr ⟨i, List.mem_cons_self, hh⟩)

theorem not_mem_groupsAt {is : List Nat} (hnone : ¬ !is.isEmpty) (h : Handle) :
    h ∉ net.groupsAt is := by
  cases is with
  | nil => exact List.not_mem_nil
  | cons i rest => exact absurd rfl hnone

/-! ## What is accepted -/

/-- The groups of the sources, in the order of the network. -/
def sourceGroups (net : Network A) (g : Graph A) : List Handle := net.groups.filter g.isSource

theorem mem_sources_iff_mem_sourceGroups {i : Nat} {h : Handle} (hi : net.groups[i]? = some h) :
    i ∈ net.sources g ↔ h ∈ net.sourceGroups g := by
  obtain ⟨layer, hlayer, rfl⟩ := exists_layer_of_getElem?_groups hi
  rw [mem_sources_iff, sourceGroups, List.mem_filter]
  have hmem := List.mem_of_getElem? hi
  simp [hlayer, hmem]

theorem length_sources (net : Network A) (g : Graph A) :
    (net.sources g).length = (net.sourceGroups g).length :=
  forall₂_sources.length_eq

/-- Entries that are located have the positions of their groups. -/
theorem Follows.mem_fst_iff (hnet : net.Follows g output)
    (hlocate : net.locate entries = .ok given) {i : Nat} {h : Handle}
    (hi : net.groups[i]? = some h) : i ∈ given.map (·.1) ↔ h ∈ entries.map (·.1) := by
  rw [mem_fst_locate hlocate]
  simp only [List.map_nil, List.not_mem_nil, false_or, hnet.index_eq_ok_iff, hi, Option.some.injEq,
    exists_eq_right']

theorem Follows.exists_group_of_mem_fst (hnet : net.Follows g output)
    (hlocate : net.locate entries = .ok given) {i : Nat} (hi : i ∈ given.map (·.1)) :
    ∃ h, net.groups[i]? = some h := by
  obtain hnil | ⟨h, -, hh⟩ := (mem_fst_locate hlocate).mp hi
  · cases hnil
  · exact ⟨h, hnet.index_eq_ok_iff.mp hh⟩

/-- The groups at positions that pass a test, where the test can be made on the groups. -/
theorem mem_groupsAt_filter_iff {is : List Nat} {p : Nat → Bool} {P Q : Handle → Prop}
    (hP : ∀ i h, net.groups[i]? = some h → (i ∈ is ↔ P h))
    (hQ : ∀ i h, net.groups[i]? = some h → (p i ↔ Q h)) {h : Handle} (hh : P h → h ∈ net.groups) :
    h ∈ net.groupsAt (is.filter p) ↔ P h ∧ Q h := by
  rw [mem_groupsAt_iff]
  constructor
  · rintro ⟨i, hi, hgroup⟩
    obtain ⟨hmem, htest⟩ := List.mem_filter.mp hi
    exact ⟨(hP i h hgroup).mp hmem, (hQ i h hgroup).mp htest⟩
  · rintro ⟨hp, hq⟩
    obtain ⟨i, hi⟩ := List.mem_iff_getElem?.mp (hh hp)
    exact ⟨i, List.mem_filter.mpr ⟨(hP i h hi).mpr hp, (hQ i h hi).mpr hq⟩, hi⟩

/-- The four ends that checking entries can come to, in the order in which the checks are made. -/
theorem Follows.accept_keyed_cases (hnet : net.Follows g output) (entries : List (Handle × V)) :
    (∃ h ∈ entries.map (·.1), h ∉ net.groups ∧
      net.accept g (.keyed entries) = .error (.notMember h)) ∨
    ((∀ h ∈ entries.map (·.1), h ∈ net.groups) ∧ ∃ hs ≠ [],
      (∀ h, h ∈ hs ↔ h ∈ entries.map (·.1) ∧ h ∉ net.sourceGroups g) ∧
      net.accept g (.keyed entries) = .error (.notSources hs)) ∨
    ((∀ h ∈ entries.map (·.1), h ∈ net.sourceGroups g) ∧ ∃ hs ≠ [],
      (∀ h, h ∈ hs ↔ h ∈ net.sourceGroups g ∧ h ∉ entries.map (·.1)) ∧
      net.accept g (.keyed entries) = .error (.missingInputs hs)) ∨
    (∀ h, h ∈ entries.map (·.1) ↔ h ∈ net.sourceGroups g) ∧
      ∃ given, net.accept g (.keyed entries) = .ok given := by
  rw [accept]
  dsimp only
  -- entries are located first, and only then compared with the sources
  obtain ⟨given, hgiven, hall⟩ | ⟨h, hmem, hh, hrefused⟩ := net.locate_cases entries []
  · have hlocate : net.locate entries = .ok given := hgiven
    have hgroups : ∀ h ∈ entries.map (·.1), h ∈ net.groups := by
      intro h hmem
      obtain ⟨i, hi⟩ := hall h hmem
      exact List.mem_of_getElem? (hnet.index_eq_ok_iff.mp hi)
    have hkeys : ∀ i h, net.groups[i]? = some h → (i ∈ given.map (·.1) ↔ h ∈ entries.map (·.1)) :=
      fun i h hi => hnet.mem_fst_iff hlocate hi
    have hsources : ∀ i h, net.groups[i]? = some h → (i ∈ net.sources g ↔ h ∈ net.sourceGroups g) :=
      fun i h hi => mem_sources_iff_mem_sourceGroups hi
    right
    rw [hlocate, ok_bind]
    -- what the two checks would report, in terms of groups rather than of positions
    have hextra : ∀ h, h ∈ net.groupsAt ((given.map (·.1)).filter (· ∉ net.sources g)) ↔
        h ∈ entries.map (·.1) ∧ h ∉ net.sourceGroups g := by
      intro h
      apply mem_groupsAt_filter_iff (Q := (· ∉ net.sourceGroups g)) hkeys ?_ (hgroups h)
      intro i h hi
      simp [hsources i h hi]
    have hmissing : ∀ h, h ∈ net.groupsAt ((net.sources g).filter (· ∉ given.map (·.1))) ↔
        h ∈ net.sourceGroups g ∧ h ∉ entries.map (·.1) := by
      intro h
      apply mem_groupsAt_filter_iff (Q := (· ∉ entries.map (·.1))) hsources ?_
        List.mem_of_mem_filter
      intro i h hi
      rw [decide_eq_true_iff, hkeys i h hi]
    split
    · next hsome =>  -- case: a key is no source
        left
        refine ⟨hgroups, _, groupsAt_ne_nil hsome ?_, hextra, rfl⟩
        intro i hi
        exact hnet.exists_group_of_mem_fst hlocate (List.mem_of_mem_filter hi)
    · next hnone =>
        right
        have hbelong : ∀ h ∈ entries.map (·.1), h ∈ net.sourceGroups g := by
          intro h hmem
          by_contra hsource
          exact not_mem_groupsAt hnone h ((hextra h).mpr ⟨hmem, hsource⟩)
        split
        · next hsome =>  -- case: a source is no key
            left
            refine ⟨hbelong, _, groupsAt_ne_nil hsome ?_, hmissing, rfl⟩
            intro i hi
            obtain ⟨layer, hlayer, -⟩ := mem_sources_iff.mp (List.mem_of_mem_filter hi)
            exact ⟨_, getElem?_groups_of_layer hlayer⟩
        · next hcomplete =>
            right
            refine ⟨fun h => ⟨hbelong h, fun hsource => ?_⟩, given, rfl⟩
            by_contra hmem
            exact not_mem_groupsAt hcomplete h ((hmissing h).mpr ⟨hsource, hmem⟩)
  · left
    refine ⟨h, hmem, ?_, ?_⟩
    · intro hgroup
      obtain ⟨i, hi⟩ := List.mem_iff_getElem?.mp hgroup
      cases hh.symm.trans (hnet.index_eq_ok_iff.mpr hi)
    · have hlocate : net.locate entries = .error (.notMember h) := hrefused
      rw [hlocate]
      rfl

namespace Follows

/-- Entries are accepted exactly if their groups are the sources. -/
theorem exists_accept_keyed_iff (hnet : net.Follows g output) :
    (∃ given, net.accept g (.keyed entries) = .ok given) ↔
      ∀ h, h ∈ entries.map (·.1) ↔ h ∈ net.sourceGroups g := by
  constructor
  · rintro ⟨given, hgiven⟩
    obtain ⟨h, -, -, hrefused⟩ | ⟨-, hs, -, -, hrefused⟩ | ⟨-, hs, -, -, hrefused⟩ | ⟨hkeys, -⟩ :=
      hnet.accept_keyed_cases entries
    · cases hgiven.symm.trans hrefused  -- a key is no group
    · cases hgiven.symm.trans hrefused  -- a key is no source
    · cases hgiven.symm.trans hrefused  -- a source is no key
    · exact hkeys
  · intro hkeys
    -- what is reported would be a group that is no source, or a source that is no key
    obtain ⟨h, hmem, hgroup, -⟩ | ⟨-, hs, hne, hreport, -⟩ | ⟨-, hs, hne, hreport, -⟩ |
      ⟨-, hgiven⟩ := hnet.accept_keyed_cases entries
    · exact absurd (List.mem_of_mem_filter ((hkeys h).mp hmem)) hgroup
    · obtain ⟨h, hh⟩ := List.exists_mem_of_ne_nil hs hne
      obtain ⟨hmem, hsource⟩ := (hreport h).mp hh
      exact absurd ((hkeys h).mp hmem) hsource
    · obtain ⟨h, hh⟩ := List.exists_mem_of_ne_nil hs hne
      obtain ⟨hsource, hmem⟩ := (hreport h).mp hh
      exact absurd ((hkeys h).mpr hsource) hmem
    · exact hgiven

/-- A group outside the network is reported before anything else. -/
theorem accept_keyed_of_stranger (hnet : net.Follows g output)
    (hstranger : ∃ h ∈ entries.map (·.1), h ∉ net.groups) :
    ∃ h ∈ entries.map (·.1), h ∉ net.groups ∧
      net.accept g (.keyed entries) = .error (.notMember h) := by
  obtain ⟨k, hk, hoff⟩ := hstranger
  obtain hreported | ⟨hgroups, -⟩ | ⟨hsources, -⟩ | ⟨hkeys, -⟩ := hnet.accept_keyed_cases entries
  · exact hreported
  · exact absurd (hgroups k hk) hoff
  · exact absurd (List.mem_of_mem_filter (hsources k hk)) hoff
  · exact absurd (List.mem_of_mem_filter ((hkeys k).mp hk)) hoff

/-- Then the groups with inputs are reported, all of them. -/
theorem accept_keyed_of_hidden (hnet : net.Follows g output)
    (hgroups : ∀ h ∈ entries.map (·.1), h ∈ net.groups)
    (hhidden : ∃ h ∈ entries.map (·.1), h ∉ net.sourceGroups g) :
    ∃ hs, (∀ h, h ∈ hs ↔ h ∈ entries.map (·.1) ∧ h ∉ net.sourceGroups g) ∧
      net.accept g (.keyed entries) = .error (.notSources hs) := by
  obtain ⟨k, hk, hoff⟩ := hhidden
  obtain ⟨h, hmem, hgroup, -⟩ | ⟨-, hs, -, hreport, hrefused⟩ | ⟨hsources, -⟩ | ⟨hkeys, -⟩ :=
    hnet.accept_keyed_cases entries
  · exact absurd (hgroups h hmem) hgroup
  · exact ⟨hs, hreport, hrefused⟩
  · exact absurd (hsources k hk) hoff
  · exact absurd ((hkeys k).mp hk) hoff

/-- Then the sources without a vector are. -/
theorem accept_keyed_of_missing (hnet : net.Follows g output)
    (hsources : ∀ h ∈ entries.map (·.1), h ∈ net.sourceGroups g)
    (hmissing : ∃ h ∈ net.sourceGroups g, h ∉ entries.map (·.1)) :
    ∃ hs, (∀ h, h ∈ hs ↔ h ∈ net.sourceGroups g ∧ h ∉ entries.map (·.1)) ∧
      net.accept g (.keyed entries) = .error (.missingInputs hs) := by
  obtain ⟨k, hk, hoff⟩ := hmissing
  obtain ⟨h, hmem, hgroup, -⟩ | ⟨-, hs, hne, hreport, -⟩ | ⟨-, hs, -, hreport, hrefused⟩ |
    ⟨hkeys, -⟩ := hnet.accept_keyed_cases entries
  · exact absurd (List.mem_of_mem_filter (hsources h hmem)) hgroup
  · obtain ⟨h, hh⟩ := List.exists_mem_of_ne_nil hs hne
    obtain ⟨hmem, hsource⟩ := (hreport h).mp hh
    exact absurd (hsources h hmem) hsource
  · exact ⟨hs, hreport, hrefused⟩
  · exact absurd ((hkeys k).mpr hk) hoff

end Follows

/-! ## Both ways -/

/-- The vectors of a mapping from the sources are found in whatever order it was filled. -/
theorem vector?_keyed_eq {sources : List Handle} (hnodup : sources.Nodup)
    (hkeys : (entries.map (·.1)).Perm sources) {values : List V}
    (hperm : entries.Perm (sources.zip values)) (h : Handle) :
    Feed.vector? (.keyed entries) sources h = Feed.vector? (.aligned values) sources h := by
  have hentries : (entries.reverse.map (·.1)).Nodup := by
    rw [List.map_reverse, List.nodup_reverse]
    exact hkeys.nodup_iff.mpr hnodup
  apply Option.ext
  intro v
  simp only [Feed.vector?]
  rw [lookup_eq_some_iff_mem hentries, lookup_zip_eq_some_iff hnodup, List.mem_reverse,
    hperm.mem_iff]

end Network

open Feedforward.Network

/-- A compiled network, whatever its buffers hold. Vectors in the order of the sources and the same
vectors by group, in any order of the entries, come to the same end, with the same buffers. Entries
are accepted exactly if their groups are the sources. What is not accepted leaves the network as it
was, and of several faults the one that is reported does not depend on the order of the entries. -/
theorem run_keyed_eq_run_aligned [Arithmetic A] [Readable V A] {g : Graph A} {output : Handle}
    {alloc : Allocation A} {gen gen' : Generator} {compiled net : Network A}
    (hcompile : g.compile alloc output gen = (.ok compiled, gen'))
    (hgroups : net.groups = compiled.groups) :
    (∀ (values : List V) (entries : List (Handle × V)),
      values.length = (net.sourceGroups g).length →
      entries.Perm ((net.sourceGroups g).zip values) →
      net.run g (.keyed entries) = net.run g (.aligned values)) ∧
    (∀ values : List V, values.length ≠ (net.sourceGroups g).length →
      net.run g (.aligned values) =
        (.error (.mismatch .networkInputs (net.sourceGroups g).length values.length), net)) ∧
    ∀ entries : List (Handle × V),
      ((∃ given, net.accept g (.keyed entries) = .ok given) ↔
        ∀ h, h ∈ entries.map (·.1) ↔ h ∈ net.sourceGroups g) ∧
      ((∃ h ∈ entries.map (·.1), h ∉ net.groups) →
        ∃ h ∈ entries.map (·.1), h ∉ net.groups ∧
          net.run g (.keyed entries) = (.error (.notMember h), net)) ∧
      ((∀ h ∈ entries.map (·.1), h ∈ net.groups) →
        (∃ h ∈ entries.map (·.1), h ∉ net.sourceGroups g) →
        ∃ hs, (∀ h, h ∈ hs ↔ h ∈ entries.map (·.1) ∧ h ∉ net.sourceGroups g) ∧
          net.run g (.keyed entries) = (.error (.notSources hs), net)) ∧
      ((∀ h ∈ entries.map (·.1), h ∈ net.sourceGroups g) →
        (∃ h ∈ net.sourceGroups g, h ∉ entries.map (·.1)) →
        ∃ hs, (∀ h, h ∈ hs ↔ h ∈ net.sourceGroups g ∧ h ∉ entries.map (·.1)) ∧
          net.run g (.keyed entries) = (.error (.missingInputs hs), net)) := by
  have hnet : net.Follows g output := by
    rw [Follows, hgroups]
    exact Graph.follows_of_compile hcompile
  have hnodup : (net.sourceGroups g).Nodup := (Graph.nodup_order hnet).filter _
  refine ⟨?_, ?_, ?_⟩
  · intro values entries hlength hperm  -- in any order
    have hkeys : (entries.map (·.1)).Perm (net.sourceGroups g) := by
      have hmap := hperm.map (·.1)
      rwa [List.map_fst_zip (by omega)] at hmap
    have haligned : net.accept g (.aligned values) = .ok ((net.sources g).zip values) := by
      rw [accept]
      exact if_pos (hlength.trans (net.length_sources g).symm)
    obtain ⟨given, hkeyed⟩ := hnet.exists_accept_keyed_iff.mpr fun _ => hkeys.mem_iff
    apply run_congr hkeyed haligned
    intro i h hi
    rw [hnet.lookup_of_accept hkeyed hi, hnet.lookup_of_accept haligned hi]
    exact vector?_keyed_eq hnodup hkeys hperm h
  · intro values hlength  -- too many or too few
    apply run_eq_of_accept_error
    rw [← net.length_sources g] at hlength ⊢
    exact if_neg hlength
  · intro entries  -- whatever the keys are
    refine ⟨hnet.exists_accept_keyed_iff, ?_, ?_, ?_⟩
    · intro hstranger
      obtain ⟨h, hmem, hgroup, hrefused⟩ := hnet.accept_keyed_of_stranger hstranger
      exact ⟨h, hmem, hgroup, run_eq_of_accept_error hrefused⟩
    · intro hmember hhidden
      obtain ⟨hs, hreport, hrefused⟩ := hnet.accept_keyed_of_hidden hmember hhidden
      exact ⟨hs, hreport, run_eq_of_accept_error hrefused⟩
    · intro hsource hmissing
      obtain ⟨hs, hreport, hrefused⟩ := hnet.accept_keyed_of_missing hsource hmissing
      exact ⟨hs, hreport, run_eq_of_accept_error hrefused⟩

theorem exists_compile_lateSource :
    ∃ compiled gen', lateSource.compile Numeric.doubles 3
      (.ofSeed [0]) = (.ok compiled, gen') ∧ lateSourceNetwork.groups = compiled.groups := by
  have horder : lateSource.order 3 = .ok lateSourceNetwork.groups := by cbv
  have hlaw : Numeric.doubles.Lawful _ := Numeric.lawful_allocation (by decide)
  obtain ⟨compiled, gen', hcompile⟩ := (Graph.exists_compile_iff hlaw).mpr
    ⟨Graph.acyclicFrom_of_order horder, fun h _ => hasRoom_lateSource h⟩
  exact ⟨compiled, gen', hcompile,
    Except.ok.inj (horder.symm.trans (Graph.follows_of_compile hcompile))⟩

/-- A mapping that was filled from the second source on, a sequence that is too short, and mappings
with a group that is not there, with the output, and without the first source. -/
theorem run_keyed_lateSourceNetwork :
    ∃ compiled gen',
      lateSource.compile Numeric.doubles 3 (.ofSeed [0]) = (.ok compiled, gen') ∧
      lateSourceNetwork.groups = compiled.groups ∧
      lateSourceNetwork.run lateSource
          (.keyed [(2, Value.list [.int 2, .int 3]), (0, .list [.int 1])]) =
        lateSourceNetwork.run lateSource
          (.aligned [Value.list [.int 1], .list [.int 2, .int 3]]) ∧
      lateSourceNetwork.run lateSource (.aligned [Value.list [.int 1]]) =
        (.error (.mismatch .networkInputs 2 1), lateSourceNetwork) ∧
      lateSourceNetwork.run lateSource (.keyed [(3, Value.null), (9, .null), (0, .null)]) =
        (.error (.notMember 9), lateSourceNetwork) ∧
      (∃ hs, (∀ h, h ∈ hs ↔ h = 3) ∧
        lateSourceNetwork.run lateSource (.keyed [(3, Value.null), (0, .null)]) =
          (.error (.notSources hs), lateSourceNetwork)) ∧
      ∃ hs, (∀ h, h ∈ hs ↔ h = 0) ∧
        lateSourceNetwork.run lateSource (.keyed [(2, Value.list [.int 2, .int 3])]) =
          (.error (.missingInputs hs), lateSourceNetwork) := by
  obtain ⟨compiled, gen', hcompile, hgroups⟩ := exists_compile_lateSource
  have hsources : lateSourceNetwork.sourceGroups lateSource = [0, 2] := rfl
  obtain ⟨hboth, hshort, hentries⟩ := run_keyed_eq_run_aligned (V := Value) hcompile hgroups
  simp only [hsources] at hboth hshort hentries
  refine ⟨compiled, gen', hcompile, hgroups, ?_, ?_, ?_, ?_, ?_⟩
  · exact hboth _ _ rfl (.swap _ _ _)
  · exact hshort _ (by decide)
  -- of the keys only the second one is no group
  · obtain ⟨-, hstranger, -⟩ := hentries [(3, .null), (9, .null), (0, .null)]
    obtain ⟨h, hmem, hgroup, hrun⟩ := hstranger ⟨9, by decide, by decide⟩
    obtain rfl : h = 9 := by
      simp only [List.map_cons, List.map_nil, List.mem_cons, List.not_mem_nil, or_false] at hmem
      rcases hmem with rfl | rfl | rfl
      · exact absurd (by decide) hgroup
      · rfl
      · exact absurd (by decide) hgroup
    exact hrun
  · obtain ⟨-, -, hhidden, -⟩ := hentries [(3, .null), (0, .null)]
    obtain ⟨hs, hreport, hrun⟩ := hhidden (by decide) ⟨3, by decide, by decide⟩
    refine ⟨hs, fun h => (hreport h).trans ⟨?_, ?_⟩, hrun⟩
    · rintro ⟨hmem, hsource⟩
      simp only [List.map_cons, List.map_nil, List.mem_cons, List.not_mem_nil, or_false]
        at hmem hsource
      exact hmem.resolve_right fun hzero => hsource (.inl hzero)
    · rintro rfl
      decide
  · obtain ⟨-, -, -, hmissing⟩ := hentries [(2, .list [.int 2, .int 3])]
    obtain ⟨hs, hreport, hrun⟩ := hmissing (by decide) ⟨0, by decide, by decide⟩
    refine ⟨hs, fun h => (hreport h).trans ⟨?_, ?_⟩, hrun⟩
    · rintro ⟨hmem, hentry⟩
      simp only [List.map_cons, List.map_nil, List.mem_cons, List.not_mem_nil, or_false]
        at hmem hentry
      exact hmem.resolve_right hentry
    · rintro rfl
      decide

end Feedforward
