import Feedforward.Json.Writing
import Feedforward.Proofs.Network.Answer
import Feedforward.Proofs.Sorting.Permutation
import Feedforward.Value.Text

/-!
# What JSON is written

A value is written iff JSON has a form for all that is in it, all of its integers have texts and the
keys of each of its mappings have a common order (`writable`). How it is spread over lines does not
matter for this, and neither does what stands around it. What is written consists of printable ASCII
characters, and of line breaks where it is spread over lines (`isLine_of_writeAt`).
-/

namespace Feedforward.Json

/-! ## What can be written -/

def keyWritable : Key → Bool
  | .other _ => false
  | k => k.hasText

mutual

/-- The value can be written. -/
def writable : Value → Bool
  | .int n => Text.isWritable n
  | .other _ => false
  | .list items => itemsWritable items
  | .map entries => ordered (entries.map (·.1)) && entriesWritable entries
  | _ => true

def itemsWritable : List Value → Bool
  | [] => true
  | v :: rest => writable v && itemsWritable rest

def entriesWritable : List (Key × Value) → Bool
  | [] => true
  | (k, v) :: rest => keyWritable k && writable v && entriesWritable rest

end

theorem itemsWritable_iff {items : List Value} :
    itemsWritable items ↔ ∀ v ∈ items, writable v := by
  induction items with
  | nil => simp [itemsWritable]
  | cons v rest ih => simp [itemsWritable, ih]

@[simp] theorem entriesWritable_iff {entries : List (Key × Value)} :
    entriesWritable entries ↔ ∀ e ∈ entries, keyWritable e.1 ∧ writable e.2 := by
  induction entries with
  | nil => simp [entriesWritable]
  | cons e rest ih => simp [entriesWritable, ih, and_assoc]

theorem exists_writeInt_iff {n : Int} : (∃ s, writeInt n = .ok s) ↔ Text.isWritable n := by
  rw [writeInt]
  split <;> simp_all

/-- Keys are written unless JSON has no form for them, or they are integers with too many digits. -/
theorem exists_keyText_iff {k : Key} : (∃ t, keyText k = .ok t) ↔ keyWritable k := by
  cases k with
  | int n =>
      rw [show keyWritable (.int n) = Text.isWritable n from rfl, ← exists_writeInt_iff, keyText]
      cases writeInt n <;> simp [Except.map]
  | _ => simp [keyText, keyWritable, Key.hasText]

theorem writeEntry_eq_ok_iff {k : Key} {value : Except WriteError String} {s : String} :
    writeEntry k value = .ok s ↔
      ∃ t text, keyText k = .ok t ∧ value = .ok text ∧ s = writeText t ++ ": " ++ text := by
  simp only [writeEntry, bind_eq_ok_iff]
  constructor
  · rintro ⟨t, ht, text, htext, hs⟩
    exact ⟨t, text, ht, htext, (Except.ok.inj hs).symm⟩
  · rintro ⟨t, text, ht, htext, rfl⟩
    exact ⟨t, ht, text, htext, rfl⟩

/-- An entry is written if its key and its value are. -/
theorem exists_writeEntry_iff {k : Key} {value : Except WriteError String} :
    (∃ s, writeEntry k value = .ok s) ↔ keyWritable k ∧ ∃ text, value = .ok text := by
  simp only [writeEntry_eq_ok_iff, ← exists_keyText_iff]
  constructor
  · rintro ⟨s, t, text, ht, htext, -⟩
    exact ⟨⟨t, ht⟩, text, htext⟩
  · rintro ⟨⟨t, ht⟩, text, htext⟩
    exact ⟨_, t, text, ht, htext, rfl⟩

/-- Sorting the entries only brings them in another order. -/
theorem exists_arrange_iff {entries : List (Key × Except WriteError String)} :
    (∃ ss, arrange entries = .ok ss) ↔
      ordered (entries.map (·.1)) ∧ ∀ e ∈ entries, ∃ s, writeEntry e.1 e.2 = .ok s := by
  have hperm := Sorting.sortBy_perm (fun a b : Key × Except WriteError String => keyBefore a.1 b.1)
    entries
  rw [arrange]
  split
  · next hordered =>
      constructor
      · rintro ⟨ss, hss⟩
        exact ⟨hordered, fun e he => exists_of_mapM_eq_ok hss e (hperm.mem_iff.mpr he)⟩
      · rintro ⟨-, hall⟩
        exact exists_mapM_eq_ok fun e he => hall e (hperm.mem_iff.mp he)
  · next hordered => simp [hordered]

theorem writeEntries_eq_map (l : Spread) (level : Nat) (entries : List (Key × Value)) :
    writeEntries l level entries = entries.map fun e => (e.1, writeAt l level e.2) := by
  induction entries with
  | nil => rfl
  | cons e rest ih => rw [writeEntries, ih, List.map_cons]

@[simp] theorem map_fst_writeEntries (l : Spread) (level : Nat) (entries : List (Key × Value)) :
    (writeEntries l level entries).map (·.1) = entries.map (·.1) := by
  rw [writeEntries_eq_map, List.map_map]
  rfl

theorem writeItems_congr {l : Spread} {level : Nat} {items items' : List Value}
    (h : List.Forall₂ (fun v v' => writeAt l level v' = writeAt l level v) items items') :
    writeItems l level items' = writeItems l level items := by
  induction h with
  | nil => rfl
  | cons hfirst _ ih => rw [writeItems, writeItems, hfirst, ih]

mutual

/-- The level has no influence on whether a value is written. -/
theorem exists_writeAt_iff (l : Spread) (level : Nat) :
    (v : Value) → ((∃ s, writeAt l level v = .ok s) ↔ writable v)
  | .null => by simp [writeAt, writable]
  | .bool b => by simp [writeAt, writable]
  | .int n => by rw [writeAt, writable, exists_writeInt_iff]
  | .float x => by simp [writeAt, writable]
  | .str t => by simp [writeAt, writable]
  | .other x => by simp [writeAt, writable]
  | .list items => by
      rw [writable, ← exists_writeItems_iff l (level + 1) items, writeAt]
      simp only [bind_eq_ok_iff]
      exact ⟨fun ⟨_, ss, hss, _⟩ => ⟨ss, hss⟩, fun ⟨ss, hss⟩ => ⟨_, ss, hss, rfl⟩⟩
  | .map entries => by
      have hentries := forall_writeEntry_iff l (level + 1) entries
      rw [writable, Bool.and_eq_true, ← hentries, ← map_fst_writeEntries l (level + 1) entries,
        ← exists_arrange_iff, writeAt]
      simp only [bind_eq_ok_iff]
      exact ⟨fun ⟨_, ss, hss, _⟩ => ⟨ss, hss⟩, fun ⟨ss, hss⟩ => ⟨_, ss, hss, rfl⟩⟩

theorem exists_writeItems_iff (l : Spread) (level : Nat) :
    (items : List Value) → ((∃ ss, writeItems l level items = .ok ss) ↔ itemsWritable items)
  | [] => by simp [writeItems, itemsWritable]
  | v :: rest => by
      rw [itemsWritable, Bool.and_eq_true, ← exists_writeAt_iff l level v,
        ← exists_writeItems_iff l level rest, writeItems]
      simp only [bind_eq_ok_iff]
      exact ⟨fun ⟨_, s, hs, ss, hss, _⟩ => ⟨⟨s, hs⟩, ss, hss⟩,
        fun ⟨⟨s, hs⟩, ss, hss⟩ => ⟨_, s, hs, ss, hss, rfl⟩⟩

theorem forall_writeEntry_iff (l : Spread) (level : Nat) :
    (entries : List (Key × Value)) →
      ((∀ e ∈ writeEntries l level entries, ∃ s, writeEntry e.1 e.2 = .ok s) ↔
        entriesWritable entries)
  | [] => by simp [writeEntries, entriesWritable]
  | (k, v) :: rest => by
      rw [writeEntries, List.forall_mem_cons, exists_writeEntry_iff, exists_writeAt_iff l level v,
        forall_writeEntry_iff l level rest, entriesWritable, Bool.and_eq_true, Bool.and_eq_true]

end

/-- What is written in one way is written in every other. -/
theorem exists_write_iff {l : Spread} {v : Value} : (∃ s, write l v = .ok s) ↔ writable v :=
  exists_writeAt_iff l 0 v

/-- The keys of a record are texts, so that only its values count. -/
@[simp] theorem writable_record {fields : List (String × Value)} :
    writable (.record fields) ↔ ∀ f ∈ fields, writable f.2 := by
  have hordered : ordered ((fields.map fun f => ((.str f.1 : Key), f.2)).map (·.1)) := by
    simp [ordered, List.all_map]
  rw [Value.record, writable, Bool.and_eq_true, entriesWritable_iff]
  simp only [hordered, true_and, List.forall_mem_map, keyWritable, Key.hasText]

/-! ## What is written on one line -/

/-- Printable ASCII characters, no line breaks. -/
def IsLine (s : String) : Prop := ∀ c ∈ s.toList, ' ' ≤ c ∧ c ≤ '~'

instance (s : String) : Decidable (IsLine s) :=
  List.decidableBAll (fun c => ' ' ≤ c ∧ c ≤ '~') s.toList

section Lines

variable {s t : String}

theorem IsLine.not_mem_newline (h : IsLine s) : '\n' ∉ s.toList :=
  fun hmem => absurd (h _ hmem).1 (by decide)

theorem IsLine.append (hs : IsLine s) (ht : IsLine t) : IsLine (s ++ t) := by
  intro c hc
  rw [String.toList_append, List.mem_append] at hc
  exact hc.elim (hs c) (ht c)

theorem isLine_join {ss : List String} (h : ∀ s ∈ ss, IsLine s) : IsLine (String.join ss) := by
  intro c hc
  rw [String.toList_join, List.mem_flatMap] at hc
  obtain ⟨s, hs, hc⟩ := hc
  exact h s hs c hc

theorem isLine_intercalate {ss : List String} (hs : IsLine s) (h : ∀ t ∈ ss, IsLine t) :
    IsLine (s.intercalate ss) := by
  induction ss with
  | nil => simp [IsLine]
  | cons t rest ih =>
      obtain ⟨ht, hrest⟩ := List.forall_mem_cons.mp h
      match rest with
      | [] => simpa using ht
      | u :: rest =>
          rw [String.intercalate_cons_cons]
          exact (ht.append hs).append (ih hrest)

theorem isLine_ofList {cs : List Char} :
    IsLine (String.ofList cs) ↔ ∀ c ∈ cs, ' ' ≤ c ∧ c ≤ '~' := by
  rw [IsLine, String.toList_ofList]

theorem digitChar_mem : ∀ d < 16, ' ' ≤ Nat.digitChar d ∧ Nat.digitChar d ≤ '~' := by decide

/-- Digits of bases up to sixteen are printable. -/
theorem toDigits_mem {base : Nat} (hbase : 1 < base) (hdigit : base ≤ 16) (n : Nat) :
    ∀ c ∈ Nat.toDigits base n, ' ' ≤ c ∧ c ≤ '~' := by
  induction n using Nat.strongRecOn with
  | ind n ih =>
      rw [Nat.toDigits_eq_if hbase]
      split
      · exact List.forall_mem_singleton.mpr (digitChar_mem n (by omega))
      · next hle =>
          have hlast : n % base < base := Nat.mod_lt n (by omega)
          refine List.forall_mem_append.mpr ⟨ih _ (Nat.div_lt_self (by omega) hbase), ?_⟩
          exact List.forall_mem_singleton.mpr (digitChar_mem _ (by omega))

theorem replicate_zero_mem (n : Nat) : ∀ c ∈ List.replicate n '0', ' ' ≤ c ∧ c ≤ '~' := by
  intro c hc
  rw [List.eq_of_mem_replicate hc]
  decide

theorem isLine_hexadecimal (width n : Nat) : IsLine (Text.hexadecimal width n) :=
  isLine_ofList.mpr
    (List.forall_mem_append.mpr ⟨replicate_zero_mem _, toDigits_mem (by decide) (by decide) n⟩)

theorem isLine_escapeUnit (n : Nat) : IsLine (escapeUnit n) :=
  .append (by decide) (isLine_hexadecimal 4 n)

/-- A control character becomes an escape. -/
theorem isLine_escapeChar (c : Char) : IsLine (escapeChar c) := by
  unfold escapeChar
  repeat' split
  all_goals try decide
  · next h =>
      intro d hd
      simp_all
  · exact isLine_escapeUnit _
  · exact (isLine_escapeUnit _).append (isLine_escapeUnit _)

/-- Everything that is no printable ASCII character is escaped. -/
theorem isLine_writeText (t : Text) : IsLine (writeText t) := by
  refine .append (.append (by decide) (isLine_join ?_)) (by decide)
  simp only [List.forall_mem_map]
  intro n _
  rw [escape]
  split
  · exact isLine_escapeUnit n
  · exact isLine_escapeChar n.char

theorem isLine_natRepr (n : Nat) : IsLine n.repr := by
  rw [Nat.repr_eq_ofList_toDigits, isLine_ofList]
  exact toDigits_mem (by decide) (by decide) n

theorem isLine_toString (n : Int) : IsLine (toString n) := by
  cases n with
  | ofNat n => exact isLine_natRepr n
  | negSucc n => exact .append (by decide) (isLine_natRepr (n + 1))

/-- Digits, a point, a sign and the mark of an exponent. -/
theorem isLine_decimal (l : DecimalLayout) (x : Decimal) : IsLine (l.write x) := by
  have hdigits := toDigits_mem (by decide : 1 < 10) (by decide) x.digits
  have hall : IsLine (String.ofList (Nat.toDigits 10 x.digits)) := isLine_ofList.mpr hdigits
  have htake (n : Nat) : IsLine (String.ofList ((Nat.toDigits 10 x.digits).take n)) :=
    isLine_ofList.mpr fun c hc => hdigits c (List.mem_of_mem_take hc)
  have hdrop (n : Nat) : IsLine (String.ofList ((Nat.toDigits 10 x.digits).drop n)) :=
    isLine_ofList.mpr fun c hc => hdigits c (List.mem_of_mem_drop hc)
  have hzeros (n : Nat) : IsLine (DecimalLayout.zeros n) := isLine_ofList.mpr (replicate_zero_mem n)
  have hexponent (n : Nat) : IsLine (String.ofList (Nat.toDigits 10 n)) :=
    isLine_ofList.mpr (toDigits_mem (by decide) (by decide) n)
  have hpoint (p : Prop) [Decidable p] : IsLine (if p then "" else ".") := by split <;> decide
  have hsign (p : Prop) [Decidable p] : IsLine (if p then "-" else "+") := by split <;> decide
  unfold DecimalLayout.write
  -- the layout of the number decides which of the parts are written
  extract_lets
  split
  · split
    · exact .append (.append (by decide) (hzeros _)) hall
    · split
      · exact .append (.append hall (hzeros _)) (by decide)
      · exact .append (.append (htake _) (by decide)) (hdrop _)
  · refine .append (.append (.append (.append (.append (.append (htake 1) (hpoint _)) (hdrop 1))
      ?_) (hsign _)) (hzeros _)) (hexponent _)
    decide

theorem isLine_binary64 (x : Binary64) : IsLine (x.text words) := by
  rw [Binary64.text]
  split
  · decide
  · refine .append ?_ ?_
    · split <;> decide
    · split
      · decide
      · exact isLine_decimal _ _

theorem isLine_writeInt {n : Int} {s : String} (h : writeInt n = .ok s) : IsLine s := by
  rw [writeInt] at h
  split at h
  · rw [← Except.ok.inj h]
    exact isLine_toString n
  · cases h

theorem isLine_enclose {level : Nat} {items : List String} (hs : IsLine s) (ht : IsLine t)
    (hitems : ∀ item ∈ items, IsLine item) :
    IsLine (Spread.oneLine.enclose level s t items) := by
  rw [Spread.enclose]
  split
  · exact hs.append ht
  · exact (hs.append (isLine_intercalate (by decide) hitems)).append ht

/-- Putting entries in order makes no line breaks. -/
theorem isLine_arrange {entries : List (Key × Except WriteError String)} {ss : List String}
    (hentries : ∀ e ∈ entries, ∀ text, e.2 = .ok text → IsLine text)
    (h : arrange entries = .ok ss) : ∀ s ∈ ss, IsLine s := by
  have hperm := Sorting.sortBy_perm (fun a b : Key × Except WriteError String => keyBefore a.1 b.1)
    entries
  rw [arrange] at h
  split at h
  · intro s hs
    obtain ⟨e, he, hentry⟩ := exists_of_mem_mapM h s hs
    obtain ⟨t, text, -, htext, rfl⟩ := writeEntry_eq_ok_iff.mp hentry
    exact ((isLine_writeText t).append (by decide)).append
      (hentries e (hperm.mem_iff.mp he) text htext)
  · cases h

end Lines

mutual

/-- No line break comes into a text that is written on one line: whatever is spread over lines has
none, and texts escape theirs. -/
theorem isLine_writeAt (level : Nat) :
    (v : Value) → ∀ s, writeAt .oneLine level v = .ok s → IsLine s
  | .null => by
      intro s h
      rw [← Except.ok.inj h]
      decide
  | .bool b => by
      intro s h
      rw [← Except.ok.inj h]
      cases b <;> decide
  | .int n => by
      intro s h
      rw [writeAt] at h
      exact isLine_writeInt h
  | .float x => by
      intro s h
      rw [← Except.ok.inj h]
      exact isLine_binary64 x
  | .str t => by
      intro s h
      rw [← Except.ok.inj h]
      exact isLine_writeText t
  | .other x => by
      intro s h
      cases h
  | .list items => by
      intro s h
      rw [writeAt] at h
      obtain ⟨ss, hss, hs⟩ := bind_eq_ok_iff.mp h
      rw [← Except.ok.inj hs]
      exact isLine_enclose (by decide) (by decide) (isLine_writeItems (level + 1) items ss hss)
  | .map entries => by
      intro s h
      rw [writeAt] at h
      obtain ⟨ss, hss, hs⟩ := bind_eq_ok_iff.mp h
      rw [← Except.ok.inj hs]
      refine isLine_enclose (by decide) (by decide) (isLine_arrange ?_ hss)
      exact isLine_writeEntries (level + 1) entries

theorem isLine_writeItems (level : Nat) :
    (items : List Value) → ∀ ss, writeItems .oneLine level items = .ok ss → ∀ s ∈ ss, IsLine s
  | [] => by
      intro ss h
      rw [← Except.ok.inj h]
      exact List.forall_mem_nil _
  | v :: rest => by
      intro ss h
      rw [writeItems] at h
      obtain ⟨s, hs, h⟩ := bind_eq_ok_iff.mp h
      obtain ⟨others, hothers, h⟩ := bind_eq_ok_iff.mp h
      rw [← Except.ok.inj h]
      exact List.forall_mem_cons.mpr
        ⟨isLine_writeAt level v s hs, isLine_writeItems level rest others hothers⟩

theorem isLine_writeEntries (level : Nat) :
    (entries : List (Key × Value)) → ∀ e ∈ writeEntries .oneLine level entries,
      ∀ text, e.2 = .ok text → IsLine text
  | [] => List.forall_mem_nil _
  | (k, v) :: rest => by
      rw [writeEntries]
      exact List.forall_mem_cons.mpr
        ⟨isLine_writeAt level v, isLine_writeEntries level rest⟩

end

/-- What is written without spreading it takes one line. -/
theorem isLine_write {v : Value} {s : String} (h : write .oneLine v = .ok s) : IsLine s :=
  isLine_writeAt 0 v s h

end Feedforward.Json
