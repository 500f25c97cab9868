import ShellDoc.Proofs.FileAccess
import ShellDoc.Proofs.JsonNumbers

/-!
# The values of JSON

JSON has no dates and no keys but texts.  `decoded v` is the value that the compact form of `v`
denotes: the dates in it are texts, and so are the keys, and of equal keys the last value counts.
Reading the compact form gives this value (`read_write`), for every value without an integer that
has too many digits.

The values that JSON has (`IsJson`) are their own decoding, and they are just the values that the
reader gives (`isJson_iff`).
-/

namespace ShellDoc.Json

open Decimal (Binary64)

/-! ## The value that a written form denotes -/

mutual

/-- The value that the compact form of a value denotes. -/
def decoded : Value → Value
  | .date d => .text d.display
  | .moment m => .text m.display
  | .list vs => .list (decodedItems vs)
  | .mapping es => .ofFields (.ofPairs (decodedEntries es))
  | v => v

def decodedItems : List Value → List Value
  | [] => []
  | v :: vs => decoded v :: decodedItems vs

def decodedEntries : List (Value × Value) → Fields Value
  | [] => []
  | (k, v) :: es => (keyText k, decoded v) :: decodedEntries es

end

theorem decodedItems_eq_map (vs : List Value) : decodedItems vs = vs.map decoded := by
  induction vs with
  | nil => rfl
  | cons v vs ih => rw [decodedItems, ih, List.map_cons]

theorem decodedEntries_eq_map (es : List (Value × Value)) :
    decodedEntries es = es.map fun e => (keyText e.1, decoded e.2) := by
  induction es with
  | nil => rfl
  | cons e es ih => rw [decodedEntries, ih, List.map_cons]

/-- A value whose numbers can be written and read: an integer has no more digits than the reader
takes. -/
inductive Writable : Value → Prop
  | null : Writable .null
  | bool (b : Bool) : Writable (.bool b)
  | int {n : ℤ} (h : n.natAbs < Nat.pow 10 Decimal.digitLimit) : Writable (.int n)
  | real {x : Binary64} (h : x.Canonical) : Writable (.real x)
  | text (s : Text) : Writable (.text s)
  | date (d : Date) : Writable (.date d)
  | moment (m : Moment) : Writable (.moment m)
  | list {vs : List Value} (h : ∀ v ∈ vs, Writable v) : Writable (.list vs)
  | mapping {es : List (Value × Value)} (h : ∀ e ∈ es, Writable e.2) : Writable (.mapping es)

/-! ## The compact form -/

theorem readsItems_writeItems {vs : List Value} (hne : vs ≠ [])
    (h : ∀ v ∈ vs, Reads (decoded v) (write v)) :
    ReadsItems (vs.map decoded) (writeItems vs ++ [']']) := by
  induction vs with
  | nil => exact absurd rfl hne
  | cons v vs ih =>
      rw [List.forall_mem_cons] at h
      cases vs with
      | nil => exact .last h.1 isSpace_nil
      | cons next vs =>
          have hcons := ReadsItems.cons h.1 isSpace_nil isSpace_space
            (ih (List.cons_ne_nil next vs) h.2)
          simpa [writeItems_cons_cons] using hcons

theorem reads_write_list {vs : List Value} (h : ∀ v ∈ vs, Reads (decoded v) (write v)) :
    Reads (decoded (.list vs)) (write (.list vs)) := by
  rw [decoded, decodedItems_eq_map]
  cases vs with
  | nil => exact reads_list_nil
  | cons v vs =>
      have hitems := readsItems_writeItems (List.cons_ne_nil v vs) h
      simpa [write_list] using Reads.list isSpace_nil hitems

theorem readsEntries_writeEntries {es : List (Value × Value)} (hne : es ≠ [])
    (h : ∀ e ∈ es, Reads (decoded e.2) (write e.2)) :
    ReadsEntries (es.map fun e => (keyText e.1, decoded e.2)) (writeEntries es ++ ['\x7d']) := by
  induction es with
  | nil => exact absurd rfl hne
  | cons e es ih =>
      rw [List.forall_mem_cons] at h
      cases es with
      | nil =>
          have hlast : ReadsEntries [(keyText e.1, decoded e.2)] _ :=
            .last h.1 isSpace_space isSpace_nil
          simpa [writeEntries_singleton] using hlast
      | cons next es =>
          have hcons : ReadsEntries ((keyText e.1, decoded e.2) :: _) _ :=
            .cons h.1 isSpace_space isSpace_nil isSpace_space (ih (List.cons_ne_nil next es) h.2)
          simpa [writeEntries_cons_cons] using hcons

theorem reads_mapping_nil : Reads (.mapping []) ['\x7b', '\x7d'] where
  starts := ⟨'\x7b', _, rfl, by decide, by decide, by decide⟩
  value fuel position tail _ h := by
    obtain ⟨fuel, rfl⟩ : ∃ k, fuel = k + 1 := Nat.exists_eq_add_one.mpr (by simp at h; omega)
    rfl

theorem reads_write_mapping {es : List (Value × Value)}
    (h : ∀ e ∈ es, Reads (decoded e.2) (write e.2)) :
    Reads (decoded (.mapping es)) (write (.mapping es)) := by
  rw [decoded, decodedEntries_eq_map]
  cases es with
  | nil => exact reads_mapping_nil
  | cons e es =>
      have hentries := readsEntries_writeEntries (List.cons_ne_nil e es) h
      have hmapping := Reads.mapping isSpace_nil hentries
      rw [mapping_putFields] at hmapping
      simpa [write_mapping] using hmapping

/-- The compact form of a value is a way to write its decoding. -/
theorem reads_write {v : Value} (h : Writable v) : Reads (decoded v) (write v) := by
  induction h with
  | null => exact reads_word (w := ("null", .null)) (by simp [words])
  | bool b =>
      cases b with
      | false => exact reads_word (w := ("false", .bool false)) (by simp [words])
      | true => exact reads_word (w := ("true", .bool true)) (by simp [words])
  | int h => exact reads_ofInt h
  | real h => exact reads_write_real h
  | text s => exact reads_text s
  | date d => exact reads_text d.display
  | moment m => exact reads_text m.display
  | list _ ih => exact reads_write_list ih
  | mapping _ ih => exact reads_write_mapping ih

/-! ## The characters of the compact form -/

theorem visible_of_digits {s : Text} (h : ∀ c ∈ s, c.isDigit = true) : Visible s := by
  intro c hc
  have := toNat_of_isDigit (h c hc)
  omega

theorem visible_replicate_zero (k : ℕ) : Visible (List.replicate k '0') := by
  intro c hc
  rw [List.eq_of_mem_replicate hc]
  decide

theorem visible_ofNat (n : ℕ) : Visible (Text.ofNat n) :=
  visible_of_digits (Text.isNumeral_toDigits n).digits

theorem visible_ofInt (n : ℤ) : Visible (Text.ofInt n) := by
  rw [Text.ofInt]
  split
  · exact visible_cons.mpr ⟨by decide, visible_ofNat _⟩
  · exact visible_ofNat _

theorem Visible.of_subset {s t : Text} (ht : Visible t) (h : s ⊆ t) : Visible s :=
  fun c hc => ht c (h hc)

theorem visible_shortest (m : ℕ) (e : ℤ) : Visible (Decimal.shortest m e).digits := by
  rw [Decimal.shortest]
  split
  · decide
  · exact visible_of_digits fun c hc => Decimal.isDigit_of_mem_withoutTrailingZeros hc

theorem visible_positional {d : Decimal.Digits} (h : Visible d.digits) : Visible d.positional := by
  rw [Decimal.Digits.positional]
  dsimp only
  split_ifs
  · simp [visible_replicate_zero, h]
  · simp [visible_replicate_zero, h]
  · simp [h.of_subset (List.take_subset _ _), h.of_subset (List.drop_subset _ _)]

theorem visible_exponentText (e : ℤ) : Visible (Decimal.exponentText e) := by
  rw [Decimal.exponentText]
  split_ifs <;> simp [visible_replicate_zero, visible_ofNat]

theorem visible_scientific {d : Decimal.Digits} (h : Visible d.digits) : Visible d.scientific := by
  rw [Decimal.Digits.scientific]
  refine visible_append.mpr ⟨?_, visible_exponentText _⟩
  split
  · decide
  · rename_i hd
    exact hd ▸ h
  · rename_i hd
    rw [hd, visible_cons] at h
    exact visible_cons.mpr ⟨h.1, visible_cons.mpr ⟨by decide, h.2⟩⟩

theorem visible_write_real (x : Binary64) : Visible (numberFormat.write x) := by
  match x with
  | .nan => decide
  | .infinite true => decide
  | .infinite false => decide
  | .finite negative m e =>
      rw [Decimal.NumberFormat.write]
      refine visible_append.mpr ⟨?_, ?_⟩
      · cases negative <;> decide
      · split
        · exact visible_positional (visible_shortest m e)
        · exact visible_scientific (visible_shortest m e)

mutual

/-- Only visible ASCII characters are written. -/
theorem visible_write : ∀ v, Visible (write v)
  | .null => by decide
  | .bool true => by decide
  | .bool false => by decide
  | .int n => visible_ofInt n
  | .real x => visible_write_real x
  | .text s => visible_writeText s
  | .date d => visible_writeText d.display
  | .moment m => visible_writeText m.display
  | .list vs => by simp [write_list, visible_writeItems vs]
  | .mapping es => by simp [write_mapping, visible_writeEntries es]

theorem visible_writeItems : ∀ vs, Visible (writeItems vs)
  | [] => visible_nil
  | [v] => visible_write v
  | v :: w :: vs => by simp [writeItems_cons_cons, visible_write v, visible_writeItems (w :: vs)]

theorem visible_writeEntries : ∀ es, Visible (writeEntries es)
  | [] => visible_nil
  | [(k, v)] => by simp [writeEntries_singleton, visible_write v]
  | (k, v) :: e :: es => by
      simp [writeEntries_cons_cons, visible_write v, visible_writeEntries (e :: es)]

end

/-! ## The values of JSON -/

/-- A value that a JSON text can denote. -/
inductive IsJson : Value → Prop
  | null : IsJson .null
  | bool (b : Bool) : IsJson (.bool b)
  | int {n : ℤ} (h : n.natAbs < Nat.pow 10 Decimal.digitLimit) : IsJson (.int n)
  | real {x : Binary64} (h : x.Canonical) : IsJson (.real x)
  | text (s : Text) : IsJson (.text s)
  | list {vs : List Value} (h : ∀ v ∈ vs, IsJson v) : IsJson (.list vs)
  | mapping {fs : Fields Value} (hnames : fs.names.Nodup) (h : ∀ f ∈ fs, IsJson f.2) :
      IsJson (.mapping (fs.map fun f => (.text f.1, f.2)))

/-- The entries of an object: each name once, with a value of JSON. -/
def IsRecord (es : List (Value × Value)) : Prop :=
  ∃ fs : Fields Value, es = (fs.map fun f => (.text f.1, f.2)) ∧ fs.names.Nodup ∧
    ∀ f ∈ fs, IsJson f.2

theorem isRecord_nil : IsRecord [] := ⟨[], rfl, List.nodup_nil, nofun⟩

theorem isJson_mapping_iff {es : List (Value × Value)} : IsJson (.mapping es) ↔ IsRecord es := by
  constructor
  · rintro (_ | _ | _ | _ | _ | _ | ⟨hnames, h⟩)
    exact ⟨_, rfl, hnames, h⟩
  · rintro ⟨fs, rfl, hnames, h⟩
    exact .mapping hnames h

theorem IsRecord.putEntry {es : List (Value × Value)} (h : IsRecord es) (name : Text) {v : Value}
    (hv : IsJson v) : IsRecord (Value.putEntry es (.text name) v) := by
  obtain ⟨fs, rfl, hnames, h⟩ := h
  exact ⟨fs.put name v, putEntry_entries fs name v, Fields.nodup_names_put hnames name v,
    Fields.forall_mem_put hv h⟩

theorem IsJson.writable {v : Value} (h : IsJson v) : Writable v := by
  induction h with
  | null => exact .null
  | bool b => exact .bool b
  | int h => exact .int h
  | real h => exact .real h
  | text s => exact .text s
  | list _ ih => exact .list ih
  | mapping _ _ ih =>
      refine .mapping fun e he => ?_
      obtain ⟨f, hf, rfl⟩ := List.mem_map.mp he
      exact ih f hf

/-- A value of JSON is its own decoding. -/
theorem IsJson.decoded_eq {v : Value} (h : IsJson v) : decoded v = v := by
  induction h with
  | null => rfl
  | bool b => rfl
  | int _ => rfl
  | real _ => rfl
  | text s => rfl
  | @list vs _ ih =>
      rw [decoded, decodedItems_eq_map, List.map_congr_left ih, List.map_id']
  | @mapping fs hnames _ ih =>
      have hentries : (fs.map fun f => (Value.text f.1, f.2)).map
          (fun e => (keyText e.1, decoded e.2)) = fs := by
        rw [List.map_map]
        refine (List.map_congr_left fun f hf => ?_).trans (List.map_id fs)
        exact Prod.ext rfl (ih f hf)
      rw [decoded, decodedEntries_eq_map, hentries, Fields.ofPairs_of_nodup hnames]
      rfl

theorem writable_ofFields {fs : Fields Value} (h : ∀ f ∈ fs, Writable f.2) :
    Writable (.ofFields fs) :=
  .mapping (List.forall_mem_map.mpr h)

theorem isJson_ofFields {fs : Fields Value} (hnames : fs.names.Nodup)
    (h : ∀ f ∈ fs, IsJson f.2) : IsJson (.ofFields fs) :=
  .mapping hnames h

/-- Fields with different names are decoded one by one. -/
theorem decoded_ofFields {fs : Fields Value} (hnames : fs.names.Nodup) :
    decoded (.ofFields fs) = .ofFields (fs.map fun f => (f.1, decoded f.2)) := by
  have hdecoded : Fields.names (fs.map fun f => (f.1, decoded f.2)) = fs.names := by
    rw [Fields.names, List.map_map]
    rfl
  have hpairs := Fields.ofPairs_of_nodup (hdecoded ▸ hnames)
  rw [Value.ofFields, decoded, decodedEntries_eq_map, List.map_map]
  exact congrArg Value.ofFields hpairs

/-! ## What the reader gives -/

theorem isJson_of_mem_words : ∀ w ∈ words, IsJson w.2 := by
  simp only [words, List.forall_mem_cons, List.not_mem_nil, false_implies, implies_true, and_true]
  exact ⟨.null, .bool true, .bool false, .real trivial, .real trivial, .real trivial⟩

/-- An integer that is read has so few digits that it can be written. -/
theorem isJson_of_value {n : Number} {v : Value} (h : n.value = .ok v) : IsJson v := by
  unfold Number.value at h
  split at h
  · split at h
    · cases h
    · rename_i k hk
      cases h
      obtain ⟨-, -, hlength, rfl⟩ := Decimal.readNumeral_eq_ok_iff.mp hk
      have hlt := Text.decimalNumber_lt_of_length_le hlength
      refine .int ?_
      split
      · rw [Int.natAbs_neg, Int.ofNat_eq_natCast, Int.natAbs_natCast]
        exact hlt
      · rw [Int.ofNat_eq_natCast, Int.natAbs_natCast]
        exact hlt
  · cases h
    exact .real (Binary64.canonical_ofDecimal _ _ _)

theorem isJson_of_readAtom {c c' : Cursor} {v : Value} (h : readAtom c = .ok (v, c')) :
    IsJson v := by
  rw [readAtom] at h
  split at h
  · rename_i w v' hword
    cases h
    exact isJson_of_mem_words _ (List.mem_of_find?_eq_some hword)
  · split at h
    · cases h
    · obtain ⟨v', hvalue, h⟩ := map_eq_ok_iff.mp h
      cases h
      exact isJson_of_value hvalue

/-- The three readers give values of JSON with so much fuel. -/
structure GivesJson (fuel : Nat) : Prop where
  value : ∀ {c c' v}, readValue fuel c = .ok (v, c') → IsJson v
  items : ∀ {c c' vs}, readItems fuel c = .ok (vs, c') → ∀ v ∈ vs, IsJson v
  entries : ∀ {before c c' es}, readEntries fuel before c = .ok (es, c') → IsRecord before →
    IsRecord es

namespace GivesJson

variable {fuel : Nat} {c c' : Cursor}

theorem value_succ (ih : GivesJson fuel) {v : Value}
    (h : readValue (fuel + 1) c = .ok (v, c')) : IsJson v := by
  rw [readValue] at h
  split at h
  · cases h
  · dsimp only at h
    split_ifs at h
    · obtain ⟨r, -, h⟩ := map_eq_ok_iff.mp h
      cases h
      exact .text _
    · cases h
      exact .list fun v hv => absurd hv List.not_mem_nil
    · obtain ⟨r, hitems, h⟩ := map_eq_ok_iff.mp h
      cases h
      exact .list (ih.items hitems)
    · cases h
      exact isJson_mapping_iff.mpr isRecord_nil
    · obtain ⟨r, hentries, h⟩ := map_eq_ok_iff.mp h
      cases h
      exact isJson_mapping_iff.mpr (ih.entries hentries isRecord_nil)
    · exact isJson_of_readAtom h

theorem items_succ (ih : GivesJson fuel) {vs : List Value}
    (h : readItems (fuel + 1) c = .ok (vs, c')) : ∀ v ∈ vs, IsJson v := by
  rw [readItems] at h
  split at h
  · cases h
  · rename_i v c₁ hvalue
    have hv := ih.value hvalue
    dsimp only at h
    split at h
    · cases h
      exact List.forall_mem_singleton.mpr hv
    · obtain ⟨r, hitems, h⟩ := map_eq_ok_iff.mp h
      cases h
      exact List.forall_mem_cons.mpr ⟨hv, ih.items hitems⟩
    · cases h

theorem entries_succ (ih : GivesJson fuel) {before es : List (Value × Value)}
    (h : readEntries (fuel + 1) before c = .ok (es, c')) (hbefore : IsRecord before) :
    IsRecord es := by
  rw [readEntries] at h
  split_ifs at h
  · split at h
    · cases h
    · rename_i name c₁ _
      dsimp only at h
      split_ifs at h
      · split at h
        · cases h
        · rename_i v c₂ hvalue
          have hput := hbefore.putEntry name (ih.value hvalue)
          split at h
          · cases h
            exact hput
          · exact ih.entries h hput
          · cases h
      · cases h
  · cases h

end GivesJson

/-- The induction is on the fuel, which all three readers hand down. -/
theorem givesJson (fuel : Nat) : GivesJson fuel := by
  induction fuel with
  | zero => exact ⟨nofun, nofun, nofun⟩
  | succ fuel ih => exact ⟨ih.value_succ, ih.items_succ, ih.entries_succ⟩

theorem isJson_of_read {s : Text} {v : Value} (h : read s = .ok v) : IsJson v := by
  rw [read] at h
  split_ifs at h
  · cases h
  · split at h
    · cases h
    · rename_i v' c hvalue
      dsimp only at h
      split_ifs at h
      · cases h
        exact (givesJson _).value hvalue
      · cases h

/-- Reading the compact form of a value gives its decoding. -/
theorem read_write {v : Value} (h : Writable v) : read (write v) = .ok (decoded v) := by
  refine read_of_reads (reads_write h) fun hmark => ?_
  have hvisible := visible_write v _ (List.mem_of_head? hmark)
  exact absurd hvisible (by decide)

/-- A value of JSON reads back as it is. -/
theorem IsJson.read_write {v : Value} (h : IsJson v) : read (write v) = .ok v := by
  rw [Json.read_write h.writable, h.decoded_eq]

/-- The values of JSON are just those that the reader gives. -/
theorem isJson_iff {v : Value} : IsJson v ↔ ∃ s, read s = .ok v := by
  constructor
  · intro h
    exact ⟨write v, h.read_write⟩
  · rintro ⟨s, h⟩
    exact isJson_of_read h

end ShellDoc.Json
