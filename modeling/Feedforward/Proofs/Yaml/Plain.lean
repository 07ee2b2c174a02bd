import Mathlib.Data.List.TakeDrop
import Mathlib.Data.List.TakeWhile
import Feedforward.Proofs.Network.Answer
import Feedforward.Yaml.Reading

/-!
# Plain scalars that count as nothing

A value counts as nothing that is null, false, zero or empty (`Value.isVoid`). Whether a plain scalar
has such a value can be told from its spelling:

    exists_plainValue_isVoid_iff : (∃ v, plainValue s = .ok v ∧ v.isVoid) ↔ VoidSpelling s.

So for any reader of YAML the spelling tells whether a document counts as nothing that is read as a
plain scalar (`ReadsPlain.exists_isVoid_iff`).

An integer is zero if all its digits are. It is spelled in base eight, two or sixteen then, as
decimal integers begin with another digit (`integer?_eq_zero_iff`).
-/

namespace Feedforward

namespace Text

theorem foldl_eq_zero_iff {base : Nat} (hbase : base ≠ 0) (ds : List Nat) (n : Nat) :
    ds.foldl (fun n d => n * base + d) n = 0 ↔ n = 0 ∧ ∀ d ∈ ds, d = 0 := by
  induction ds generalizing n with
  | nil => simp
  | cons d ds ih =>
      rw [List.foldl_cons, ih, Nat.add_eq_zero_iff, Nat.mul_eq_zero, or_iff_left hbase,
        List.forall_mem_cons, and_assoc]

/-- Digits stand for zero exactly if all of them are zero. -/
theorem ofDigits_eq_zero_iff {base : Nat} (hbase : base ≠ 0) {ds : List Nat} :
    ofDigits base ds = 0 ↔ ∀ d ∈ ds, d = 0 := by
  rw [ofDigits, foldl_eq_zero_iff hbase, and_iff_right rfl]

theorem isSome_hexValue?_of_isDigit {c : Char} (h : c.isDigit) : (hexValue? c).isSome := by
  rw [hexValue?, if_pos h]
  rfl

theorem le_toNat_of_isDigit {c : Char} (h : c.isDigit) : '0'.toNat ≤ c.toNat := by
  rw [Char.isDigit, Bool.and_eq_true, decide_eq_true_eq] at h
  exact h.1

/-- No hexadecimal digit but the digit zero has the value zero. -/
theorem hexValue?_eq_zero_iff {c : Char} : hexValue? c = some 0 ↔ c = '0' := by
  constructor
  · intro hzero
    rw [hexValue?] at hzero
    split at hzero
    · next hdigit =>
        have hle := Nat.sub_eq_zero_iff_le.mp (Option.some.inj hzero)
        exact Char.toNat_inj.mp (Nat.le_antisymm hle (le_toNat_of_isDigit hdigit))
    · split at hzero
      · cases hzero
      · split at hzero <;> cases hzero
  · rintro rfl
    rfl

theorem eq_empty_of_isEmpty {t : Text} (h : t.isEmpty) : t = "" := by
  cases t with
  | string s =>
      obtain rfl : s = "" := by simpa [isEmpty] using h
      rfl
  | broken ns hns => cases h

end Text

namespace Yaml

open Text

variable {base : Nat} {b : Bool} {cs ds : List Char} {s : String} {v : Value} {p : Char → Bool}

/-! ## Integers -/

/-- Nothing but zeros, with underscores among them. -/
def Zeros (cs : List Char) : Prop := ∀ c ∈ cs, c = '0' ∨ c = '_'

/-- Digits of some base, with underscores among them. -/
def DigitsOrScores (cs : List Char) : Prop := ∀ c ∈ cs, (hexValue? c).isSome ∨ c = '_'

/-- The spellings of zero as an integer without a sign: in base eight, which a single zero counts
for, in base two and in base sixteen. -/
inductive SpellsZero : List Char → Prop
  | octal {ds : List Char} : Zeros ds → SpellsZero ('0' :: ds)
  | binary {ds : List Char} : Zeros ds → '0' ∈ ds → SpellsZero ('0' :: 'b' :: ds)
  | hexadecimal {ds : List Char} : Zeros ds → '0' ∈ ds → SpellsZero ('0' :: 'x' :: ds)

theorem Zeros.all (h : Zeros cs) (hzero : p '0') (hscore : p '_') : cs.all p := by
  rw [List.all_eq_true]
  intro c hc
  obtain rfl | rfl := h c hc
  · exact hzero
  · exact hscore

theorem Zeros.digitsOrScores (h : Zeros cs) : DigitsOrScores cs := by
  intro c hc
  obtain rfl | rfl := h c hc
  · exact .inl rfl
  · exact .inr rfl

@[simp] theorem zeros_cons_iff : Zeros ('0' :: cs) ↔ Zeros cs := by
  rw [Zeros, List.forall_mem_cons, and_iff_right (.inl rfl), Zeros]

theorem digitsOrScores_of_all (hp : ∀ c, p c → (hexValue? c).isSome ∨ c = '_') (h : cs.all p) :
    DigitsOrScores cs :=
  fun c hc => hp c (List.all_eq_true.mp h c hc)

theorem dropScores_eq_nil_iff : dropScores cs = [] ↔ ∀ c ∈ cs, c = '_' := by
  simp [dropScores, List.filter_eq_nil_iff]

theorem ofDigits_digitValues_eq_zero_iff (hbase : base ≠ 0) (h : DigitsOrScores cs) :
    ofDigits base (digitValues (dropScores cs)) = 0 ↔ Zeros cs := by
  rw [ofDigits_eq_zero_iff hbase]
  simp only [digitValues, dropScores, List.forall_mem_map, List.mem_filter, decide_eq_true_eq,
    and_imp]
  refine forall₂_congr fun c hc => ?_
  obtain ⟨n, hn⟩ | rfl := (h c hc).imp_left Option.isSome_iff_exists.mp
  · have hscore : c ≠ '_' := by
      rintro rfl
      cases hn
    rw [hn, Option.getD_some, or_iff_left hscore, ← hexValue?_eq_zero_iff, hn, Option.some_inj]
    exact imp_iff_right hscore
  · simp

/-- Digits after a prefix need one digit at least, and all of them zero. -/
theorem radixValue_eq_zero_iff (hbase : base ≠ 0) (h : DigitsOrScores cs) :
    radixValue base cs = .ok 0 ↔ Zeros cs ∧ '0' ∈ cs := by
  rw [radixValue]
  by_cases hempty : dropScores cs = []
  · have hall := dropScores_eq_nil_iff.mp hempty
    have hmem : '0' ∉ cs := fun hmem => absurd (hall _ hmem) (by decide)
    simp [hempty, hmem]
  · rw [if_neg (by simpa using hempty), Except.ok.injEq, ofDigits_digitValues_eq_zero_iff hbase h]
    refine (and_iff_left_of_imp fun hzeros => ?_).symm
    rw [dropScores_eq_nil_iff] at hempty
    push Not at hempty
    obtain ⟨c, hc, hscore⟩ := hempty
    exact (hzeros c hc).resolve_right hscore ▸ hc

/-- A decimal integer begins with a digit that is not zero. -/
theorem decimalValue_ne_zero (h : isLeadingRun ds) : decimalValue ds ≠ .ok 0 := by
  match ds with
  | c :: cs =>
    obtain ⟨⟨hdigit, hne⟩, hall⟩ : (c.isDigit ∧ c ≠ '0') ∧ cs.all isDigitOrScore := by
      simpa [isLeadingRun] using h
    -- all characters are digits or underscores, which is what the value is read from
    have hdigits : DigitsOrScores (c :: cs) := by
      refine List.forall_mem_cons.mpr ⟨.inl (isSome_hexValue?_of_isDigit hdigit),
        digitsOrScores_of_all (fun c hc => ?_) hall⟩
      rw [isDigitOrScore, Bool.or_eq_true, decide_eq_true_eq] at hc
      exact hc.imp_left isSome_hexValue?_of_isDigit
    rw [decimalValue]
    split
    · exact nofun
    · rw [ne_eq, Except.ok.injEq, ofDigits_digitValues_eq_zero_iff (by decide) hdigits]
      intro hzeros
      -- the first of them is no zero, and no underscore
      obtain rfl | rfl := hzeros c List.mem_cons_self
      · exact hne rfl
      · cases hdigit

theorem isDigit_of_octal {c : Char} (h : '0' ≤ c ∧ c ≤ '7') : c.isDigit := by
  rw [Char.isDigit, Bool.and_eq_true, decide_eq_true_eq, decide_eq_true_eq]
  exact ⟨h.1, Char.le_trans h.2 (show '7' ≤ '9' by decide)⟩

/-- Every form in which a natural number is zero spells zero. -/
theorem spellsZero_of_natural? : natural? cs = some (.ok 0) → SpellsZero cs := by
  fun_cases natural? cs with
  | case1 ds hall =>  -- digits behind `0b`
      intro h
      have hdigits : DigitsOrScores ds := by
        refine digitsOrScores_of_all (fun c hc => ?_) (Bool.and_eq_true_iff.mp hall).2
        obtain (rfl | rfl) | rfl : (c = '0' ∨ c = '1') ∨ c = '_' := by simpa using hc
        · exact .inl rfl
        · exact .inl rfl
        · exact .inr rfl
      obtain ⟨hzeros, hmem⟩ := (radixValue_eq_zero_iff (by decide) hdigits).mp (Option.some.inj h)
      exact .binary hzeros hmem
  | case3 ds hall =>  -- digits behind `0x`
      intro h
      have hdigits : DigitsOrScores ds :=
        digitsOrScores_of_all (fun c hc => by simpa using hc) (Bool.and_eq_true_iff.mp hall).2
      obtain ⟨hzeros, hmem⟩ := (radixValue_eq_zero_iff (by decide) hdigits).mp (Option.some.inj h)
      exact .hexadecimal hzeros hmem
  | case5 ds _ _ hall =>  -- digits behind `0`
      intro h
      have hdigits : DigitsOrScores ('0' :: ds) := by
        refine List.forall_mem_cons.mpr ⟨.inl rfl, digitsOrScores_of_all (fun c hc => ?_) hall⟩
        rw [Bool.or_eq_true, Bool.and_eq_true, decide_eq_true_eq, decide_eq_true_eq,
          decide_eq_true_eq] at hc
        exact hc.imp_left fun hoctal => isSome_hexValue?_of_isDigit (isDigit_of_octal hoctal)
      obtain ⟨hzeros, -⟩ := (radixValue_eq_zero_iff (by decide) hdigits).mp (Option.some.inj h)
      exact .octal (zeros_cons_iff.mp hzeros)
  | case7 _ _ _ _ ds _ hleading =>  -- digits behind another digit
      intro h
      exact absurd (Option.some.inj h) (decimalValue_ne_zero hleading)
  | case9 _ _ _ _ ds groups _ _ hleading =>  -- groups in base sixty
      intro h
      -- the first group counts for a multiple of the others, and is not zero
      obtain ⟨first, hfirst, h⟩ := bind_eq_ok_iff.mp (Option.some.inj h)
      obtain rfl := ((foldl_eq_zero_iff (by decide) _ _).mp (Except.ok.inj h)).1
      exact absurd hfirst (decimalValue_ne_zero (Bool.and_eq_true_iff.mp hleading).1)
  | _ => exact fun h => nomatch h

/-- Each of the spellings of zero is read as one of the forms. -/
theorem natural?_of_spellsZero (h : SpellsZero cs) : natural? cs = some (.ok 0) := by
  cases h with
  | @octal ds h =>
      have hzeros := zeros_cons_iff.mpr h
      rw [natural?, if_pos (h.all rfl rfl),
        (radixValue_eq_zero_iff (by decide) hzeros.digitsOrScores).mpr ⟨hzeros, List.mem_cons_self⟩]
      · rintro ds rfl
        exact absurd (h 'b' List.mem_cons_self) (by decide)
      · rintro ds rfl
        exact absurd (h 'x' List.mem_cons_self) (by decide)
  | binary h hmem =>
      rw [natural?, List.isEmpty_eq_false_iff.mpr (List.ne_nil_of_mem hmem), h.all rfl rfl,
        (radixValue_eq_zero_iff (by decide) h.digitsOrScores).mpr ⟨h, hmem⟩]
      rfl
  | hexadecimal h hmem =>
      rw [natural?, List.isEmpty_eq_false_iff.mpr (List.ne_nil_of_mem hmem), h.all rfl rfl,
        (radixValue_eq_zero_iff (by decide) h.digitsOrScores).mpr ⟨h, hmem⟩]
      rfl

theorem natural?_eq_zero_iff : natural? cs = some (.ok 0) ↔ SpellsZero cs :=
  ⟨spellsZero_of_natural?, natural?_of_spellsZero⟩

theorem integer?_eq_zero_iff :
    integer? cs = some (.ok (.int 0)) ↔ SpellsZero (splitSign cs).2 := by
  rw [integer?, ← natural?_eq_zero_iff]
  obtain ⟨negative, ds⟩ := splitSign cs
  simp only [Option.map_eq_some_iff]
  constructor
  · rintro ⟨r, hr, h⟩
    obtain ⟨m, hm, hsigned⟩ := map_eq_ok_iff.mp h
    obtain ⟨n, rfl, hn⟩ := bind_eq_ok_iff.mp hm
    obtain rfl : (n : Int) = m := Except.ok.inj hn
    obtain rfl : n = 0 := by
      cases negative <;> simpa using hsigned
    exact hr
  · intro h
    exact ⟨_, h, by cases negative <;> rfl⟩

theorem exists_int_of_integer? (h : integer? cs = some (.ok v)) : ∃ n, v = .int n := by
  obtain ⟨r, -, hr⟩ := Option.map_eq_some_iff.mp h
  obtain ⟨n, -, rfl⟩ := map_eq_ok_iff.mp hr
  exact ⟨_, rfl⟩

/-! ## Plain scalars -/

/-- The spellings of a plain scalar that counts as nothing: those of null, of the truth value false,
and of zero as an integer or a double. -/
inductive VoidSpelling (s : String) : Prop
  | null (h : isNull s)
  | no (h : boolOf? s = some false)
  | integer (h : SpellsZero (splitSign s.toList).2)
  | double {x : Binary64} (h : double? s.toList = some (.ok x)) (hx : x.isZero)

/-- Doubles are spelled with a point. -/
theorem double?_eq_none (h : '.' ∉ (splitSign cs).2) : double? cs = none := by
  rw [double?]
  revert h
  obtain ⟨negative, body⟩ := splitSign cs
  intro h
  have hspan : body.dropWhile (· ≠ '.') = [] := by
    rw [List.dropWhile_eq_nil_iff]
    intro c hc
    simpa using ne_of_mem_of_not_mem hc h
  dsimp only
  rw [List.span_eq_takeWhile_dropWhile, hspan]

/-- Zero is not spelled with a point, which would make it a float. -/
theorem SpellsZero.not_mem_point (h : SpellsZero cs) : '.' ∉ cs := by
  have hzeros {ds : List Char} (h : Zeros ds) : '.' ∉ ds := fun hmem =>
    absurd (h '.' hmem) (by decide)
  cases h with
  | octal h => simp [hzeros h]
  | binary h => simp [hzeros h]
  | hexadecimal h => simp [hzeros h]

/-- The words for truth values are no numbers. -/
theorem number_eq_none_of_boolOf? (h : boolOf? s = some b) :
    double? s.toList = none ∧ integer? s.toList = none := by
  rw [← Option.isNone_iff_eq_none, ← Option.isNone_iff_eq_none]
  rw [boolOf?] at h
  split at h
  · next hmem => exact (show ∀ w ∈ ["yes", "Yes", "YES", "true", "True", "TRUE", "on", "On", "ON"],
      (double? w.toList).isNone ∧ (integer? w.toList).isNone by decide +kernel) s hmem
  · split at h
    · next hmem => exact (show ∀ w ∈ ["no", "No", "NO", "false", "False", "FALSE", "off", "Off",
        "OFF"], (double? w.toList).isNone ∧ (integer? w.toList).isNone by decide +kernel) s hmem
    · cases h

/-- A number is no word for a truth value. -/
theorem boolOf?_eq_none (h : (double? s.toList).isSome ∨ (integer? s.toList).isSome) :
    boolOf? s = none := by
  rw [Option.eq_none_iff_forall_ne_some]
  intro b hb
  obtain ⟨hdouble, hinteger⟩ := number_eq_none_of_boolOf? hb
  simp [hdouble, hinteger] at h

theorem plainValue_of_isNull (h : isNull s) : plainValue s = .ok .null := by
  have hwords : ∀ w ∈ ["", "~", "null", "Null", "NULL"],
      boolOf? w = none ∧ (double? w.toList).isNone ∧ (integer? w.toList).isNone ∧
        (day? w.toList).isNone := by
    decide +kernel
  obtain ⟨hbool, hdouble, hinteger, hday⟩ := hwords s (of_decide_eq_true h)
  rw [plainValue, hbool, Option.isNone_iff_eq_none.mp hdouble,
    Option.isNone_iff_eq_none.mp hinteger, Option.isNone_iff_eq_none.mp hday]
  dsimp only
  rw [if_pos h]

theorem isVoid_of_day? (h : day? cs = some (.ok v)) : v.isVoid = false := by
  rw [day?] at h
  split at h
  · split at h
    · have hday := Option.some.inj h
      split at hday
      · cases hday
        rfl
      · cases hday
    · cases h
  · cases h

theorem exists_plainValue_isVoid_iff :
    (∃ v, plainValue s = .ok v ∧ v.isVoid) ↔ VoidSpelling s := by
  -- The forms are tried in turn; each of those that match has one value that counts as nothing, or
  -- none.
  constructor
  · rintro ⟨v, hv, hvoid⟩
    rw [plainValue] at hv
    split at hv
    · next b hb =>
        cases hv
        obtain rfl : b = false := by simpa [Value.isVoid] using hvoid
        exact .no hb
    · split at hv
      · next r hr =>
          obtain ⟨x, rfl, rfl⟩ := map_eq_ok_iff.mp hv
          exact .double hr hvoid
      · split at hv
        · next r hr =>
            rw [hv] at hr
            obtain ⟨n, rfl⟩ := exists_int_of_integer? hr
            obtain rfl : n = 0 := by simpa [Value.isVoid] using hvoid
            exact .integer (integer?_eq_zero_iff.mp hr)
        · split at hv
          · next r hr =>
              rw [hv] at hr
              cases hvoid.symm.trans (isVoid_of_day? hr)
          · split at hv
            · next h => exact .null h
            · next h =>
                -- the empty text is a spelling of null
                cases hv
                obtain rfl : s = "" :=
                  Text.string.inj (Text.eq_empty_of_isEmpty (t := .string s) hvoid)
                exact absurd rfl h
  -- and each of the spellings is matched by no form in front of its own
  · rintro (h | h | h | ⟨h, hx⟩)
    · exact ⟨.null, plainValue_of_isNull h, rfl⟩
    · refine ⟨.bool false, ?_, rfl⟩
      rw [plainValue, h]
    · refine ⟨.int 0, ?_, rfl⟩
      have hinteger := integer?_eq_zero_iff.mpr h
      rw [plainValue, boolOf?_eq_none (.inr (hinteger ▸ rfl)), double?_eq_none h.not_mem_point,
        hinteger]
    · refine ⟨.float _, ?_, hx⟩
      rw [plainValue, boolOf?_eq_none (.inl (h ▸ rfl)), h]
      rfl

/-- The text is read as a plain scalar. -/
def ReadsPlain (readYaml : Reader) (s : String) : Prop :=
  ∀ v, readYaml s = .ok v ↔ plainValue s = .ok v

theorem ReadsPlain.exists_isVoid_iff {readYaml : Reader} (h : ReadsPlain readYaml s) :
    (∃ v, readYaml s = .ok v ∧ v.isVoid) ↔ VoidSpelling s := by
  rw [← exists_plainValue_isVoid_iff]
  exact exists_congr fun v => and_congr_left' (h v)

end Yaml

end Feedforward
