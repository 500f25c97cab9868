import ShellDoc.Path.NaturalOrder
import ShellDoc.Proofs.FileAccess
import Mathlib.Data.List.Lex
import Mathlib.Data.List.Nodup
import Mathlib.Data.Prod.Lex
import Mathlib.Data.Char

/-!
# The natural order

The keys of names are compared text by text and number by number, which is the lexicographic order
of linear orders (`SortKey.le_iff`).  So any two keys can be compared, and paths with different keys
have exactly one order: sorting gives the same list in whatever order they come
(`naturalSort_of_perm`).
-/

namespace ShellDoc

theorem Text.le_iff {s u : Text} : le s u = true ↔ s ≤ u := by
  rw [← not_lt]
  induction s generalizing u with
  | nil => simp [le]
  | cons c s ih =>
      cases u with
      | nil => simp [le]
      | cons d u =>
          rw [List.cons_lt_cons_iff]
          by_cases h : c = d
          · simp [le, h, ih]
          · have hle : (decide (c.toNat ≤ d.toNat) = true) ↔ ¬ d < c := by
              rw [not_lt, decide_eq_true_eq]
              rfl
            have hne : ¬ d = c := fun e => h e.symm
            rw [le, if_neg h, hle]
            simp [hne]

namespace Path

namespace SortKey

/-- The linear order of the keys, as that of a text and the numbers with their texts. -/
def toOrder (k : SortKey) : Text ×ₗ List (ℕ ×ₗ Text) := toLex (k.first, k.rest.map toLex)

theorem toOrder_injective : Function.Injective toOrder := by
  rintro ⟨first, rest⟩ ⟨first', rest'⟩ h
  obtain ⟨hfirst, hrest⟩ := Prod.ext_iff.mp (toLex_inj.mp h)
  have hinjective : Function.Injective (List.map (toLex : ℕ × Text → ℕ ×ₗ Text)) :=
    List.map_injective_iff.mpr toLex.injective
  cases hfirst
  cases hinjective hrest
  rfl

theorem restLe_iff {xs ys : List (Nat × Text)} :
    restLe xs ys = true ↔ xs.map (toLex : ℕ × Text → ℕ ×ₗ Text) ≤ ys.map toLex := by
  rw [← not_lt]
  induction xs generalizing ys with
  | nil => simp [restLe]
  | cons x xs ih =>
      cases ys with
      | nil => simp [restLe]
      | cons y ys =>
          obtain ⟨m, s⟩ := x
          obtain ⟨n, u⟩ := y
          rw [List.map_cons, List.map_cons, List.cons_lt_cons_iff, Prod.Lex.toLex_lt_toLex, restLe]
          by_cases hnumber : m = n
          · by_cases htext : s = u
            · simp [hnumber, htext, ih]
            · have hne : ¬ u = s := fun e => htext e.symm
              simp [hnumber, htext, hne, Text.le_iff]
          · have hne : ¬ n = m := fun e => hnumber e.symm
            have hlt : m < n ↔ m ≤ n := (Ne.le_iff_lt hnumber).symm
            simp [hnumber, hne, hlt]

theorem le_iff {a b : SortKey} : le a b = true ↔ a.toOrder ≤ b.toOrder := by
  rw [toOrder, toOrder, Prod.Lex.toLex_le_toLex, le]
  by_cases h : a.first = b.first
  · simp [h, restLe_iff]
  · simp [h, Text.le_iff, Ne.le_iff_lt h]

theorem le_total (a b : SortKey) : (le a b || le b a) = true := by
  rw [Bool.or_eq_true, le_iff, le_iff]
  exact LinearOrder.le_total _ _

theorem le_trans {a b c : SortKey} (h : le a b = true) (h' : le b c = true) : le a c = true := by
  rw [le_iff] at h h' ⊢
  exact h.trans h'

theorem le_antisymm {a b : SortKey} (h : le a b = true) (h' : le b a = true) : a = b := by
  rw [le_iff] at h h'
  exact toOrder_injective (h.antisymm h')

end SortKey

/-! ## Sorting -/

/-- The key of a path, and an empty one where there is none. -/
def keyOf (p : Path) : SortKey := p.sortKey.toOption.getD ⟨[], []⟩

theorem sortKey_eq_ok {p : Path} (h : ∃ k, p.sortKey = .ok k) : p.sortKey = .ok p.keyOf := by
  obtain ⟨k, hk⟩ := h
  rw [keyOf, hk]
  rfl

theorem keyed_eq_ok_iff {ps : List Path} {keyed : List (SortKey × Path)} :
    (ps.mapM fun p => do
        let k ← p.sortKey
        pure (k, p)) = .ok keyed ↔
      (∀ p ∈ ps, ∃ k, p.sortKey = .ok k) ∧ keyed = ps.map fun p => (p.keyOf, p) := by
  induction ps generalizing keyed with
  | nil => simp [pure, Except.pure, eq_comm]
  | cons p ps ih =>
      rw [List.mapM_cons, bind_eq_ok_iff]
      simp only [bind_eq_ok_iff, ih, List.forall_mem_cons, List.map_cons]
      constructor
      · rintro ⟨_, ⟨k, hk, hfirst⟩, rest, ⟨hkeys, rfl⟩, hkeyed⟩
        cases hfirst
        cases hkeyed
        refine ⟨⟨⟨k, hk⟩, hkeys⟩, ?_⟩
        rw [keyOf, hk]
        rfl
      · rintro ⟨⟨hkey, hkeys⟩, rfl⟩
        exact ⟨_, ⟨_, sortKey_eq_ok hkey, rfl⟩, _, ⟨hkeys, rfl⟩, rfl⟩

/-- Paths can be sorted when each of them has a key. -/
theorem naturalSort_eq_ok_iff {ps sorted : List Path} :
    naturalSort ps = .ok sorted ↔
      (∀ p ∈ ps, ∃ k, p.sortKey = .ok k) ∧
        sorted = ((ps.map fun p => (p.keyOf, p)).mergeSort
          fun a b => SortKey.le a.1 b.1).map Prod.snd := by
  rw [naturalSort, bind_eq_ok_iff]
  simp only [keyed_eq_ok_iff]
  constructor
  · rintro ⟨_, ⟨hkeys, rfl⟩, hsorted⟩
    cases hsorted
    exact ⟨hkeys, rfl⟩
  · rintro ⟨hkeys, rfl⟩
    exact ⟨_, ⟨hkeys, rfl⟩, rfl⟩

/-- Sorting neither adds nor drops a path. -/
theorem naturalSort_perm {ps sorted : List Path} (h : naturalSort ps = .ok sorted) :
    sorted.Perm ps := by
  obtain ⟨-, rfl⟩ := naturalSort_eq_ok_iff.mp h
  have hsorted := (List.mergeSort_perm (ps.map fun p => (p.keyOf, p))
    fun a b => SortKey.le a.1 b.1).map Prod.snd
  rw [List.map_map] at hsorted
  exact hsorted.trans (List.Perm.of_eq (List.map_id ps))

theorem pairwise_mergeSort_keyed (ps : List Path) :
    ((ps.map fun p => (p.keyOf, p)).mergeSort fun a b => SortKey.le a.1 b.1).Pairwise
      fun a b => SortKey.le a.1 b.1 = true := by
  apply List.pairwise_mergeSort
  · exact fun _ _ _ hab hbc => SortKey.le_trans hab hbc
  · exact fun a b => SortKey.le_total a.1 b.1

/-- Sorted paths are in the order of their keys. -/
theorem naturalSort_pairwise {ps sorted : List Path} (h : naturalSort ps = .ok sorted) :
    sorted.Pairwise fun p q => SortKey.le p.keyOf q.keyOf = true := by
  obtain ⟨-, rfl⟩ := naturalSort_eq_ok_iff.mp h
  rw [List.pairwise_map]
  refine (pairwise_mergeSort_keyed ps).imp_of_mem ?_
  intro a b ha hb hab
  obtain ⟨p, -, rfl⟩ := List.mem_map.mp (List.mem_mergeSort.mp ha)
  obtain ⟨q, -, rfl⟩ := List.mem_map.mp (List.mem_mergeSort.mp hb)
  exact hab

/-- Paths that cannot be sorted have one among them without a key. -/
theorem naturalSort_eq_error {ps : List Path} {f : Decimal.NumeralFault}
    (h : naturalSort ps = .error f) : ∃ p ∈ ps, p.sortKey = .error f := by
  obtain hkeyed | ⟨keyed, -, hsorted⟩ := bind_eq_error_iff.mp h
  · obtain ⟨front, p, back, rfl, -, hp⟩ := mapM_eq_error_iff.mp hkeyed
    obtain hp | ⟨k, -, hp⟩ := bind_eq_error_iff.mp hp
    · exact ⟨p, by simp, hp⟩
    · cases hp
  · cases hsorted

/-- Paths with different keys have the same order in whatever order they come. -/
theorem naturalSort_of_perm {ps qs sorted : List Path} (hperm : ps.Perm qs)
    (hkeys : (ps.map sortKey).Nodup) (h : naturalSort ps = .ok sorted) :
    naturalSort qs = .ok sorted := by
  obtain ⟨hdefined, rfl⟩ := naturalSort_eq_ok_iff.mp h
  refine naturalSort_eq_ok_iff.mpr ⟨fun p hp => hdefined p (hperm.mem_iff.mpr hp), ?_⟩
  have hsame : (ps.map fun p => (p.keyOf, p)).Perm (qs.map fun p => (p.keyOf, p)) := hperm.map _
  congr 1
  refine List.Perm.eq_of_pairwise ?_ (pairwise_mergeSort_keyed ps) (pairwise_mergeSort_keyed qs)
    (((List.mergeSort_perm _ _).trans hsame).trans (List.mergeSort_perm _ _).symm)
  -- Neither of two paths comes behind the other only if they have the same key.
  intro a b ha hb hab hba
  obtain ⟨p, hp, rfl⟩ := List.mem_map.mp (List.mem_mergeSort.mp ha)
  obtain ⟨q, hq, rfl⟩ := List.mem_map.mp (List.mem_mergeSort.mp hb)
  have hkey : p.sortKey = q.sortKey := by
    rw [sortKey_eq_ok (hdefined p hp), sortKey_eq_ok (hdefined q (hperm.mem_iff.mpr hq))]
    exact congrArg _ (SortKey.le_antisymm hab hba)
  rw [List.inj_on_of_nodup_map hkeys hp (hperm.mem_iff.mpr hq) hkey]

end Path

end ShellDoc
