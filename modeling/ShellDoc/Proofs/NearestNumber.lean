import ShellDoc.Decimal.Binary64
import Mathlib.Algebra.Order.Field.Power
import Mathlib.Algebra.Order.Field.Rat
import Mathlib.Tactic.FieldSimp
import Mathlib.Tactic.Linarith
import Mathlib.Tactic.Positivity
import Mathlib.Tactic.Ring

/-!
# The nearest binary number

`RoundsTo x m e` says that the rational `x` lies in the interval of the numbers that round to
`m · 2 ^ e`.  It reaches half a unit to each side, but only a quarter below a power of two, where
the next number is closer; the two ends belong to it if `m` is even.

A quotient in the interval of a number in canonical form rounds to that number
(`ofRatio_of_roundsTo`), and so does a decimal (`ofDecimal_of_roundsTo`).  The argument is about the
exponent: it is the one of the number, except for a quotient below a power of two, whose significand
is then rounded up to `2 ^ 53`.
-/

namespace ShellDoc.Decimal

/-! ## Powers and quotients -/

theorem natCast_pow_toNat (b : ℕ) {e : ℤ} (h : 0 ≤ e) :
    ((Nat.pow b e.toNat : ℕ) : ℚ) = (b : ℚ) ^ e := by
  rw [Nat.pow_eq, Nat.cast_pow, ← zpow_natCast, Int.toNat_of_nonneg h]

section

variable (num : ℕ) {den : ℕ} (hden : 0 < den)

include hden

theorem scaledBy_pos (e : ℤ) : 0 < (scaledBy num den e).2 := by
  rw [scaledBy]
  split
  · exact Nat.mul_pos hden (Nat.pow_pos (by decide))
  · exact hden

theorem scaledBy_div (e : ℤ) :
    ((scaledBy num den e).1 : ℚ) / (scaledBy num den e).2 = num / den / 2 ^ e := by
  have hden' : (den : ℚ) ≠ 0 := by exact_mod_cast hden.ne'
  rw [scaledBy]
  split_ifs with he
  · rw [Nat.cast_mul, natCast_pow_toNat 2 he, Nat.cast_ofNat, div_mul_eq_div_div]
  · rw [Nat.cast_mul, natCast_pow_toNat 2 (by omega), Nat.cast_ofNat, zpow_neg]
    field_simp

end

theorem Binary64.ratio_pos (m : ℕ) (e : ℤ) : 0 < (ratio m e).2 := by
  rw [ratio]
  split
  · exact Nat.one_pos
  · exact Nat.pow_pos (by decide)

theorem Binary64.ratio_div (m : ℕ) (e : ℤ) :
    ((ratio m e).1 : ℚ) / (ratio m e).2 = m * 2 ^ e := by
  rw [ratio]
  split_ifs with he
  · rw [Nat.cast_mul, natCast_pow_toNat 2 he, Nat.cast_ofNat, Nat.cast_one, div_one]
  · rw [natCast_pow_toNat 2 (by omega), Nat.cast_ofNat, zpow_neg, div_inv_eq_mul]

/-! ## The nearest natural number -/

/-- The natural number `k` is nearest to `x`, and an even one if there are two. -/
structure Nearest (x : ℚ) (k : ℕ) : Prop where
  lower : k - 1 / 2 ≤ x
  upper : x ≤ k + 1 / 2
  even : k % 2 = 0 ∨ k - 1 / 2 < x ∧ x < k + 1 / 2

theorem Nearest.le_of_nearest {x : ℚ} {k l : ℕ} (hk : Nearest x k) (hl : Nearest x l) : k ≤ l := by
  by_contra hlt
  have hnext : k = l + 1 := by
    have hle : (k : ℚ) ≤ l + 1 := by linarith [hk.lower, hl.upper]
    have hle' : k ≤ l + 1 := by exact_mod_cast hle
    omega
  -- Then `x` lies half-way between the two, which cannot both be even.
  have hcast : (k : ℚ) = l + 1 := by exact_mod_cast hnext
  have hkeven : k % 2 = 0 := hk.even.resolve_right fun h => by linarith [h.1, hl.upper]
  have hleven : l % 2 = 0 := hl.even.resolve_right fun h => by linarith [h.2, hk.lower]
  omega

theorem Nearest.unique {x : ℚ} {k l : ℕ} (hk : Nearest x k) (hl : Nearest x l) : k = l :=
  Nat.le_antisymm (hk.le_of_nearest hl) (hl.le_of_nearest hk)

theorem natCast_div (num : ℕ) {den : ℕ} (hden : 0 < den) :
    (num : ℚ) / den = (num / den : ℕ) + ((num % den : ℕ) : ℚ) / den := by
  have hden' : (den : ℚ) ≠ 0 := by exact_mod_cast hden.ne'
  have hdivision : (num : ℚ) = den * (num / den : ℕ) + (num % den : ℕ) := by
    exact_mod_cast (Nat.div_add_mod num den).symm
  rw [div_eq_iff hden', add_mul, div_mul_cancel₀ _ hden', mul_comm, ← hdivision]

theorem nearest_roundHalfEven (num : ℕ) {den : ℕ} (hden : 0 < den) :
    Nearest (num / den) (roundHalfEven num den) := by
  have hden' : (0 : ℚ) < den := by exact_mod_cast hden
  have hrest : ((num % den : ℕ) : ℚ) / den < 1 := by
    rw [div_lt_one hden']
    exact_mod_cast Nat.mod_lt num hden
  have hnonneg : 0 ≤ ((num % den : ℕ) : ℚ) / den := by positivity
  rw [natCast_div num hden, roundHalfEven]
  rcases Nat.lt_trichotomy (2 * (num % den)) den with hlt | heq | hgt
  · have hhalf : ((num % den : ℕ) : ℚ) / den < 1 / 2 := by
      rw [div_lt_div_iff₀ hden' (by norm_num)]
      exact_mod_cast (by omega : num % den * 2 < 1 * den)
    simp only [hlt, decide_true, Bool.true_or, if_true]
    exact ⟨by linarith, by linarith, .inr ⟨by linarith, by linarith⟩⟩
  · have hhalf : ((num % den : ℕ) : ℚ) / den = 1 / 2 := by
      rw [div_eq_div_iff hden'.ne' (by norm_num)]
      exact_mod_cast (by omega : num % den * 2 = 1 * den)
    rw [hhalf]
    by_cases heven : num / den % 2 = 0
    · simp only [heq, lt_irrefl, decide_false, Bool.false_or, decide_true, heven, Bool.and_self,
        if_true]
      exact ⟨by linarith, le_rfl, .inl heven⟩
    · simp only [heq, lt_irrefl, decide_false, Bool.false_or, heven, Bool.and_false,
        Bool.false_eq_true, if_false]
      refine ⟨?_, ?_, .inl (by omega)⟩ <;> push_cast <;> linarith
  · have hhalf : 1 / 2 < ((num % den : ℕ) : ℚ) / den := by
      rw [div_lt_div_iff₀ (by norm_num) hden']
      exact_mod_cast (by omega : 1 * den < num % den * 2)
    have hnot : ¬ (decide (2 * (num % den) < den) ||
        (decide (2 * (num % den) = den) && decide (num / den % 2 = 0))) = true := by
      simp only [Bool.or_eq_true, Bool.and_eq_true, decide_eq_true_eq]
      omega
    rw [if_neg hnot]
    refine ⟨?_, ?_, .inr ⟨?_, ?_⟩⟩ <;> push_cast <;> linarith

/-! ## The exponent of a quotient -/

theorem natCast_log2 {n : ℕ} (h : 0 < n) :
    (2 : ℚ) ^ (n.log2 : ℤ) ≤ n ∧ (n : ℚ) < 2 ^ ((n.log2 : ℤ) + 1) := by
  have hlow := Nat.log2_self_le h.ne'
  have hhigh := @Nat.lt_log2_self n
  have hexponent : ((n.log2 : ℤ) + 1) = ((n.log2 + 1 : ℕ) : ℤ) := by push_cast; rfl
  rw [hexponent, zpow_natCast, zpow_natCast]
  exact ⟨by exact_mod_cast hlow, by exact_mod_cast hhigh⟩

section

variable {num den : ℕ} (hnum : 0 < num) (hden : 0 < den)

include hnum hden

/-- The logarithms leave a factor of four for a quotient. -/
theorem div_bounds_log2 :
    (2 : ℚ) ^ ((num.log2 : ℤ) - den.log2 - 1) < num / den ∧
      (num : ℚ) / den < 2 ^ ((num.log2 : ℤ) - den.log2 + 1) := by
  have hden' : (0 : ℚ) < den := by exact_mod_cast hden
  obtain ⟨hnumLow, hnumHigh⟩ := natCast_log2 hnum
  obtain ⟨hdenLow, hdenHigh⟩ := natCast_log2 hden
  have htwo : (2 : ℚ) ≠ 0 := two_ne_zero
  constructor
  · rw [lt_div_iff₀ hden']
    calc (2 : ℚ) ^ ((num.log2 : ℤ) - den.log2 - 1) * den
        < 2 ^ ((num.log2 : ℤ) - den.log2 - 1) * 2 ^ ((den.log2 : ℤ) + 1) :=
          mul_lt_mul_of_pos_left hdenHigh (by positivity)
      _ = 2 ^ (num.log2 : ℤ) := by rw [← zpow_add₀ htwo]; congr 1; ring
      _ ≤ num := hnumLow
  · rw [div_lt_iff₀ hden']
    calc (num : ℚ) < 2 ^ ((num.log2 : ℤ) + 1) := hnumHigh
      _ = 2 ^ ((num.log2 : ℤ) - den.log2 + 1) * 2 ^ (den.log2 : ℤ) := by
          rw [← zpow_add₀ htwo]; congr 1; ring
      _ ≤ 2 ^ ((num.log2 : ℤ) - den.log2 + 1) * den :=
          mul_le_mul_of_nonneg_left hdenLow (by positivity)

/-- The exponent puts the quotient between `2 ^ 52` and `2 ^ 53` units. -/
theorem quotientExponent_bounds :
    (2 : ℚ) ^ (Binary64.quotientExponent num den + 52) ≤ num / den ∧
      (num : ℚ) / den < 2 ^ (Binary64.quotientExponent num den + 53) := by
  obtain ⟨hlow, hhigh⟩ := div_bounds_log2 hnum hden
  have hscaled := scaledBy_div num hden ((num.log2 : ℤ) - den.log2 - 52)
  have hpos : (0 : ℚ) < (scaledBy num den ((num.log2 : ℤ) - den.log2 - 52)).2 := by
    exact_mod_cast scaledBy_pos num hden _
  have hunit : (2 : ℚ) ^ ((num.log2 : ℤ) - den.log2) =
      2 ^ 52 * 2 ^ ((num.log2 : ℤ) - den.log2 - 52) := by
    rw [← zpow_natCast, ← zpow_add₀ two_ne_zero]
    congr 1
    push_cast
    ring
  have htest : (scaledBy num den ((num.log2 : ℤ) - den.log2 - 52)).1 <
      (scaledBy num den ((num.log2 : ℤ) - den.log2 - 52)).2 * Nat.pow 2 52 ↔
        (num : ℚ) / den < 2 ^ ((num.log2 : ℤ) - den.log2) := by
    rw [hunit, ← div_lt_iff₀ (by positivity), ← hscaled, div_lt_iff₀ hpos, mul_comm]
    exact_mod_cast Iff.rfl
  simp only [Binary64.quotientExponent, Int.ofNat_eq_natCast]
  split_ifs with h
  · rw [htest] at h
    exact ⟨(zpow_le_zpow_right₀ one_le_two (by omega)).trans hlow.le,
      h.trans_le (zpow_le_zpow_right₀ one_le_two (by omega))⟩
  · rw [htest, not_lt] at h
    exact ⟨(zpow_le_zpow_right₀ one_le_two (by omega)).trans h,
      hhigh.trans_le (zpow_le_zpow_right₀ one_le_two (by omega))⟩

theorem quotientExponent_le_iff {e : ℤ} :
    Binary64.quotientExponent num den ≤ e ↔ (num : ℚ) / den / 2 ^ e < 2 ^ 53 := by
  obtain ⟨hlow, hhigh⟩ := quotientExponent_bounds hnum hden
  have hunit : (2 : ℚ) ^ 53 * 2 ^ e = 2 ^ (e + 53) := by
    rw [← zpow_natCast, ← zpow_add₀ two_ne_zero]
    congr 1
    push_cast
    ring
  rw [div_lt_iff₀ (by positivity), hunit]
  constructor
  · intro h
    exact hhigh.trans_le (zpow_le_zpow_right₀ one_le_two (by omega))
  · intro h
    have hlt := (zpow_lt_zpow_iff_right₀ one_lt_two).mp (hlow.trans_lt h)
    omega

theorem le_quotientExponent_iff {e : ℤ} :
    e ≤ Binary64.quotientExponent num den ↔ (2 : ℚ) ^ 52 ≤ num / den / 2 ^ e := by
  obtain ⟨hlow, hhigh⟩ := quotientExponent_bounds hnum hden
  have hunit : (2 : ℚ) ^ 52 * 2 ^ e = 2 ^ (e + 52) := by
    rw [← zpow_natCast, ← zpow_add₀ two_ne_zero]
    congr 1
    push_cast
    ring
  rw [le_div_iff₀ (by positivity), hunit]
  constructor
  · intro h
    exact (zpow_le_zpow_right₀ one_le_two (by omega)).trans hlow
  · intro h
    have hlt := (zpow_lt_zpow_iff_right₀ one_lt_two).mp (h.trans_lt hhigh)
    omega

end

/-! ## Canonical form -/

/-- The significand and the exponent are the ones by which a number is represented. -/
structure InForm (m : ℕ) (e : ℤ) : Prop where
  lt : m < 2 ^ 53
  least : Binary64.leastExponent ≤ e
  greatest : e ≤ Binary64.greatestExponent
  full : 2 ^ 52 ≤ m ∨ e = Binary64.leastExponent

/-- A number that is finite is represented in the only way there is. -/
def Binary64.Canonical : Binary64 → Prop
  | .finite _ m e => InForm m e
  | _ => True

namespace Binary64

theorem canonical_zero (negative : Bool) : (zero negative).Canonical :=
  ⟨by decide, le_rfl, by decide, .inr rfl⟩

theorem ofRounded_of_ne (negative : Bool) {m : ℕ} {e : ℤ} (hm : m ≠ 2 ^ 53)
    (he : e ≤ greatestExponent) : ofRounded negative m e = .finite negative m e := by
  simp only [ofRounded, Nat.pow_eq, if_neg hm, gt_iff_lt, if_neg he.not_gt]

theorem ofRounded_carry (negative : Bool) {e : ℤ} (he : e < greatestExponent) :
    ofRounded negative (2 ^ 53) e = .finite negative (2 ^ 52) (e + 1) := by
  have hle : ¬ greatestExponent < e + 1 := by omega
  simp only [ofRounded, Nat.pow_eq, if_true, gt_iff_lt, if_neg hle]

theorem canonical_ofRounded (negative : Bool) {m : ℕ} {e : ℤ} (hm : m ≤ 2 ^ 53)
    (he : leastExponent ≤ e) (hfull : 2 ^ 52 ≤ m ∨ e = leastExponent) :
    (ofRounded negative m e).Canonical := by
  simp only [ofRounded, Nat.pow_eq]
  split_ifs with hcarry hlarge hlarge
  · trivial
  · exact ⟨(by decide : 2 ^ 52 < 2 ^ 53), by omega, by simpa using hlarge, .inl le_rfl⟩
  · trivial
  · exact ⟨by omega, he, by simpa using hlarge, hfull⟩

theorem canonical_ofRatio (negative : Bool) (num : ℕ) {den : ℕ} (hden : 0 < den) :
    (ofRatio negative num den).Canonical := by
  rw [ofRatio]
  split_ifs with hzero
  · exact canonical_zero negative
  · have hnum : 0 < num := Nat.pos_of_ne_zero hzero
    dsimp only
    set e := max (quotientExponent num den) leastExponent with he
    have hnearest := nearest_roundHalfEven (scaledBy num den e).1 (scaledBy_pos num hden e)
    rw [scaledBy_div num hden e] at hnearest
    have hlt := (quotientExponent_le_iff hnum hden).mp (le_max_left _ leastExponent)
    rw [← he] at hlt
    refine canonical_ofRounded negative ?_ (le_max_right _ _) ?_
    · have hle :
          (roundHalfEven (scaledBy num den e).1 (scaledBy num den e).2 : ℚ) < 2 ^ 53 + 1 := by
        linarith [hnearest.lower]
      exact Nat.lt_succ_iff.mp (by exact_mod_cast hle)
    · rcases le_total leastExponent (quotientExponent num den) with hle | hle
      · left
        have hge := (le_quotientExponent_iff hnum hden).mp (he.trans (max_eq_left hle)).le
        have hlt' :
            (2 : ℚ) ^ 52 < roundHalfEven (scaledBy num den e).1 (scaledBy num den e).2 + 1 := by
          linarith [hnearest.upper]
        exact Nat.lt_succ_iff.mp (by exact_mod_cast hlt')
      · exact .inr (max_eq_right hle)

theorem canonical_ofDecimal (negative : Bool) (digits : ℕ) (exponent : ℤ) :
    (ofDecimal negative digits exponent).Canonical := by
  simp only [ofDecimal]
  split_ifs
  · exact canonical_zero negative
  · trivial
  · exact canonical_zero negative
  · exact canonical_ofRatio negative _ Nat.one_pos
  · exact canonical_ofRatio negative _ (Nat.pow_pos (by decide))

end Binary64

/-! ## The interval around a number -/

/-- How far the numbers that round to `m · 2 ^ e` reach below it, in units. -/
def reachBelow (m : ℕ) (e : ℤ) : ℚ :=
  if m = 2 ^ 52 ∧ Binary64.leastExponent < e then 1 / 4 else 1 / 2

/-- The rational `x` rounds to `m · 2 ^ e`. -/
structure RoundsTo (x : ℚ) (m : ℕ) (e : ℤ) : Prop where
  lower : (m - reachBelow m e) * 2 ^ e ≤ x
  upper : x ≤ (m + 1 / 2) * 2 ^ e
  even : m % 2 = 0 ∨ (m - reachBelow m e) * 2 ^ e < x ∧ x < (m + 1 / 2) * 2 ^ e

theorem reachBelow_le (m : ℕ) (e : ℤ) : reachBelow m e ≤ 1 / 2 := by
  rw [reachBelow]
  split_ifs <;> norm_num

theorem reachBelow_pos (m : ℕ) (e : ℤ) : 0 < reachBelow m e := by
  rw [reachBelow]
  split_ifs <;> norm_num

theorem RoundsTo.nearest {x : ℚ} {m : ℕ} {e : ℤ} (h : RoundsTo x m e) : Nearest (x / 2 ^ e) m := by
  have hunit : (0 : ℚ) < 2 ^ e := by positivity
  have hreach := reachBelow_le m e
  obtain ⟨hlower, hupper, heven⟩ := h
  rw [← le_div_iff₀ hunit, ← lt_div_iff₀ hunit, ← div_lt_iff₀ hunit] at *
  rw [← div_le_iff₀ hunit] at hupper
  exact ⟨by linarith, hupper, heven.imp_right fun h => ⟨by linarith [h.1], h.2⟩⟩

/-- Below a power of two, half of the unit counts: there the significand is rounded up to
`2 ^ 53`. -/
theorem RoundsTo.nearest_half {x : ℚ} {m : ℕ} {e : ℤ} (h : RoundsTo x m e)
    (hm : m = 2 ^ 52 ∧ Binary64.leastExponent < e) (hbelow : x / 2 ^ e < 2 ^ 52) :
    Nearest (x / 2 ^ (e - 1)) (2 ^ 53) := by
  have hunit : (0 : ℚ) < 2 ^ e := by positivity
  have hlower := h.lower
  rw [reachBelow, if_pos hm, ← le_div_iff₀ hunit, hm.1] at hlower
  have hdouble : x / 2 ^ (e - 1) = 2 * (x / 2 ^ e) := by
    rw [zpow_sub_one₀ two_ne_zero]
    field_simp
  rw [hdouble]
  push_cast at hlower ⊢
  exact ⟨by linarith, by linarith, .inl (by decide)⟩

namespace Binary64

variable {num den m : ℕ} {e : ℤ}

/-- A quotient in the interval around a number rounds to it. -/
theorem ofRatio_of_roundsTo (negative : Bool) (hnum : 0 < num) (hden : 0 < den)
    (hform : InForm m e) (h : RoundsTo (num / den) m e) :
    ofRatio negative num den = .finite negative m e := by
  have hround (e : ℤ) {k : ℕ} (hk : Nearest (num / den / 2 ^ e) k) :
      roundHalfEven (scaledBy num den e).1 (scaledBy num den e).2 = k := by
    have hnearest := nearest_roundHalfEven (scaledBy num den e).1 (scaledBy_pos num hden e)
    rw [scaledBy_div num hden e] at hnearest
    exact hnearest.unique hk
  have hlt : (num : ℚ) / den / 2 ^ e < 2 ^ 53 := by
    have hm : (m : ℚ) + 1 ≤ 2 ^ 53 := by exact_mod_cast hform.lt
    linarith [h.nearest.upper]
  have hle := (quotientExponent_le_iff hnum hden).mpr hlt
  rw [ofRatio, if_neg hnum.ne']
  dsimp only
  by_cases hbelow : leastExponent < e ∧ (num : ℚ) / den / 2 ^ e < 2 ^ 52
  -- The quotient lies below the power of two that it rounds to.
  · have hm : m = 2 ^ 52 := by
      have hgreat : (m : ℚ) < 2 ^ 52 + 1 := by linarith [h.nearest.lower, hbelow.2]
      have hgreat' : m < 2 ^ 52 + 1 := by exact_mod_cast hgreat
      have hfull := hform.full.resolve_right hbelow.1.ne'
      omega
    have hnearest := h.nearest_half ⟨hm, hbelow.1⟩ hbelow.2
    have hbefore := mt (le_quotientExponent_iff hnum hden).mp (not_le.mpr hbelow.2)
    have hhalf : e - 1 ≤ quotientExponent num den := by
      refine (le_quotientExponent_iff hnum hden).mpr ?_
      have hlower := hnearest.lower
      push_cast at hlower
      linarith
    have hexponent : max (quotientExponent num den) leastExponent = e - 1 := by
      have hleast := hbelow.1
      omega
    have hgreatest := hform.greatest
    rw [hexponent, hround (e - 1) hnearest, ofRounded_carry negative (by omega), hm,
      Int.sub_add_cancel]
  · have hexponent : max (quotientExponent num den) leastExponent = e := by
      have hleast := hform.least
      rcases hleast.eq_or_lt with heq | hlt
      · omega
      · have hge : (2 : ℚ) ^ 52 ≤ num / den / 2 ^ e := not_lt.mp fun h => hbelow ⟨hlt, h⟩
        have hge' := (le_quotientExponent_iff hnum hden).mpr hge
        omega
    rw [hexponent, hround e h.nearest, ofRounded_of_ne negative hform.lt.ne hform.greatest]

end Binary64

/-! ## Decimals -/

theorem length_toDigits_bounds {n : ℕ} (h : 0 < n) :
    (10 : ℚ) ^ (((Nat.toDigits 10 n).length : ℤ) - 1) ≤ n ∧
      (n : ℚ) < 10 ^ ((Nat.toDigits 10 n).length : ℤ) := by
  obtain ⟨k, hk⟩ := Nat.exists_eq_add_one.mpr (Nat.length_toDigits_pos (b := 10) (n := n))
  have hhigh := (Nat.length_toDigits_le_iff (n := n) (k := k + 1) (by decide) (by omega)).mp hk.le
  have hlow : 10 ^ k ≤ n := by
    rcases Nat.eq_zero_or_pos k with rfl | hpos
    · exact h
    · exact not_lt.mp fun hlt =>
        absurd ((Nat.length_toDigits_le_iff (b := 10) (by decide) hpos).mpr hlt) (by omega)
  rw [hk, Nat.cast_succ, add_sub_cancel_right, zpow_natCast, ← Nat.cast_succ, zpow_natCast]
  exact ⟨by exact_mod_cast hlow, by exact_mod_cast hhigh⟩

/-- Eight is less than ten. -/
theorem two_zpow_le_ten_zpow {e k : ℤ} (hk : 0 ≤ k) (he : e ≤ 3 * k) : (2 : ℚ) ^ e ≤ 10 ^ k :=
  calc (2 : ℚ) ^ e ≤ 2 ^ (3 * k) := zpow_le_zpow_right₀ one_le_two he
    _ = 8 ^ k := by rw [zpow_mul]; norm_num
    _ ≤ 10 ^ k := zpow_le_zpow_left₀ hk (by norm_num) (by norm_num)

theorem RoundsTo.lt_ten_zpow {x : ℚ} {m : ℕ} {e : ℤ} (h : RoundsTo x m e) (hform : InForm m e) :
    x < 10 ^ (400 : ℤ) := by
  have hm : (m : ℚ) + 1 ≤ 2 ^ 53 := by exact_mod_cast hform.lt
  have hunit : (0 : ℚ) < 2 ^ e := by positivity
  calc x ≤ (m + 1 / 2) * 2 ^ e := h.upper
    _ < 2 ^ 53 * 2 ^ e := mul_lt_mul_of_pos_right (by linarith) hunit
    _ = 2 ^ (53 + e) := by rw [zpow_add₀ two_ne_zero]; norm_num
    _ ≤ 10 ^ (400 : ℤ) := two_zpow_le_ten_zpow (by decide) (by
        have hgreatest := hform.greatest
        rw [Binary64.greatestExponent] at hgreatest
        omega)

theorem RoundsTo.ten_zpow_lt {x : ℚ} {m : ℕ} {e : ℤ} (h : RoundsTo x m e) (hm : 0 < m)
    (hform : InForm m e) : 10 ^ (-400 : ℤ) < x := by
  have hm' : (1 : ℚ) ≤ m := by exact_mod_cast hm
  have hunit : (0 : ℚ) < 2 ^ e := by positivity
  have hreach := reachBelow_le m e
  calc (10 : ℚ) ^ (-400 : ℤ) < 10 ^ (-399 : ℤ) := zpow_lt_zpow_right₀ (by norm_num) (by decide)
    _ ≤ 2 ^ (e - 1) := by
        rw [zpow_neg, inv_le_comm₀ (by positivity) (by positivity), ← zpow_neg]
        refine two_zpow_le_ten_zpow (by decide) ?_
        have hleast := hform.least
        rw [Binary64.leastExponent] at hleast
        omega
    _ = 1 / 2 * 2 ^ e := by rw [zpow_sub_one₀ two_ne_zero]; ring
    _ ≤ (m - reachBelow m e) * 2 ^ e := mul_le_mul_of_nonneg_right (by linarith) hunit.le
    _ ≤ x := h.lower

namespace Binary64

/-- A decimal in the interval around a number rounds to it: such decimals are far from the orders of
magnitude that count as zero or infinite. -/
theorem ofDecimal_of_roundsTo (negative : Bool) {digits m : ℕ} {exponent e : ℤ}
    (hdigits : 0 < digits) (hm : 0 < m) (hform : InForm m e)
    (h : RoundsTo (digits * 10 ^ exponent) m e) :
    ofDecimal negative digits exponent = .finite negative m e := by
  obtain ⟨hlow, hhigh⟩ := length_toDigits_bounds hdigits
  have hten : (10 : ℚ) ≠ 0 := by norm_num
  have hpower : (0 : ℚ) < 10 ^ exponent := by positivity
  have hnotLarge : ¬ ((Nat.toDigits 10 digits).length : ℤ) + exponent > 400 := by
    intro hlarge
    have hle : (10 : ℚ) ^ (400 : ℤ) ≤ digits * 10 ^ exponent :=
      calc (10 : ℚ) ^ (400 : ℤ)
          ≤ 10 ^ (((Nat.toDigits 10 digits).length : ℤ) - 1 + exponent) :=
            zpow_le_zpow_right₀ (by norm_num) (by omega)
        _ = 10 ^ (((Nat.toDigits 10 digits).length : ℤ) - 1) * 10 ^ exponent := zpow_add₀ hten _ _
        _ ≤ digits * 10 ^ exponent := mul_le_mul_of_nonneg_right hlow hpower.le
    exact absurd (h.lt_ten_zpow hform) (not_lt.mpr hle)
  have hnotSmall : ¬ ((Nat.toDigits 10 digits).length : ℤ) + exponent < -400 := by
    intro hsmall
    have hlt : digits * 10 ^ exponent < (10 : ℚ) ^ (-400 : ℤ) :=
      calc (digits : ℚ) * 10 ^ exponent
          < 10 ^ ((Nat.toDigits 10 digits).length : ℤ) * 10 ^ exponent :=
            mul_lt_mul_of_pos_right hhigh hpower
        _ = 10 ^ (((Nat.toDigits 10 digits).length : ℤ) + exponent) := (zpow_add₀ hten _ _).symm
        _ ≤ 10 ^ (-400 : ℤ) := zpow_le_zpow_right₀ (by norm_num) (by omega)
    exact absurd (h.ten_zpow_lt hm hform) (not_lt.mpr hlt.le)
  simp only [ofDecimal, if_neg hdigits.ne', Int.ofNat_eq_natCast, if_neg hnotLarge,
    if_neg hnotSmall]
  split_ifs with hexponent
  · refine ofRatio_of_roundsTo negative (Nat.mul_pos hdigits (Nat.pow_pos (by decide)))
      Nat.one_pos hform ?_
    rwa [Nat.cast_mul, natCast_pow_toNat 10 hexponent, Nat.cast_one, div_one]
  · refine ofRatio_of_roundsTo negative hdigits (Nat.pow_pos (by decide)) hform ?_
    rwa [natCast_pow_toNat 10 (by omega), zpow_neg, div_inv_eq_mul]

end Binary64

end ShellDoc.Decimal
