import ShellDoc.Decimal.Shortest
import ShellDoc.Proofs.NearestNumber
import Mathlib.Data.List.Induction
import Mathlib.Data.List.TakeWhile
import Mathlib.Data.Nat.Cast.Order.Field

/-!
# Shortest digits read back

The digits of a number denote a decimal in the interval around it, so that reading them gives the
number again (`ofDecimal_of_shortest`).  The search tries one digit, two digits and so on, and takes
only decimals inside the interval.  It ends with success because a grid of seventeen digits is finer
than the interval is wide (`isSome_onGrid?_seventeen`), so that one of the two points of the grid
next to the number lies inside.
-/

namespace ShellDoc.Decimal

/-! ## The interval of the search -/

section Around

variable {m : ℕ} (e : ℤ)

theorem around_den_pos (m : ℕ) : 0 < (Interval.around m e).den :=
  Binary64.ratio_pos 1 (e - 2)

/-- The interval counts in quarters of a unit. -/
theorem quarter_div : ((Binary64.ratio 1 (e - 2)).1 : ℚ) / (Binary64.ratio 1 (e - 2)).2 =
    2 ^ e / 4 := by
  rw [Binary64.ratio_div, zpow_sub₀ two_ne_zero]
  norm_num

theorem around_value (m : ℕ) :
    ((Interval.around m e).value : ℚ) / (Interval.around m e).den = m * 2 ^ e := by
  simp only [Interval.around]
  rw [Nat.cast_mul, mul_div_assoc, quarter_div]
  push_cast
  ring

theorem around_high (m : ℕ) :
    ((Interval.around m e).high : ℚ) / (Interval.around m e).den = (m + 1 / 2) * 2 ^ e := by
  simp only [Interval.around]
  rw [Nat.cast_mul, mul_div_assoc, quarter_div]
  push_cast
  ring

theorem around_low (hm : 0 < m) :
    ((Interval.around m e).low : ℚ) / (Interval.around m e).den =
      (m - reachBelow m e) * 2 ^ e := by
  simp only [Interval.around, reachBelow, Nat.pow_eq, Bool.and_eq_true, decide_eq_true_eq,
    gt_iff_lt]
  split_ifs with h
  · rw [Nat.cast_mul, mul_div_assoc, quarter_div, Nat.cast_sub (by omega)]
    push_cast
    ring
  · rw [Nat.cast_mul, mul_div_assoc, quarter_div, Nat.cast_sub (by omega)]
    push_cast
    ring

/-- The test of the search is whether a decimal rounds to the number. -/
theorem holds_around_iff (hm : 0 < m) (n : ℕ) {scale : ℕ} (hscale : 0 < scale) :
    (Interval.around m e).holds n scale = true ↔ RoundsTo (n / scale) m e := by
  have hden : (0 : ℚ) < (Interval.around m e).den := by exact_mod_cast around_den_pos e m
  have hscale' : (0 : ℚ) < scale := by exact_mod_cast hscale
  have hlow : (m - reachBelow m e) * 2 ^ e ≤ n / scale ↔
      (Interval.around m e).low * scale ≤ n * (Interval.around m e).den := by
    rw [← around_low e hm, div_le_div_iff₀ hden hscale']
    exact_mod_cast Iff.rfl
  have hlow' : (m - reachBelow m e) * 2 ^ e < n / scale ↔
      (Interval.around m e).low * scale < n * (Interval.around m e).den := by
    rw [← around_low e hm, div_lt_div_iff₀ hden hscale']
    exact_mod_cast Iff.rfl
  have hhigh : (n : ℚ) / scale ≤ (m + 1 / 2) * 2 ^ e ↔
      n * (Interval.around m e).den ≤ (Interval.around m e).high * scale := by
    rw [← around_high e, div_le_div_iff₀ hscale' hden]
    exact_mod_cast Iff.rfl
  have hhigh' : (n : ℚ) / scale < (m + 1 / 2) * 2 ^ e ↔
      n * (Interval.around m e).den < (Interval.around m e).high * scale := by
    rw [← around_high e, div_lt_div_iff₀ hscale' hden]
    exact_mod_cast Iff.rfl
  have hclosed : (Interval.around m e).closed = decide (m % 2 = 0) := rfl
  simp only [Interval.holds, hclosed, decide_eq_true_eq]
  split_ifs with heven
  · simp only [Bool.and_eq_true, decide_eq_true_eq, ← hlow, ← hhigh]
    exact ⟨fun h => ⟨h.1, h.2, .inl heven⟩, fun h => ⟨h.lower, h.upper⟩⟩
  · simp only [Bool.and_eq_true, decide_eq_true_eq, ← hlow', ← hhigh']
    exact ⟨fun h => ⟨h.1.le, h.2.le, .inr h⟩, fun h => h.even.resolve_left heven⟩

end Around

theorem RoundsTo.of_between {x : ℚ} {m : ℕ} {e : ℤ} (hlow : (m - reachBelow m e) * 2 ^ e < x)
    (hhigh : x < (m + 1 / 2) * 2 ^ e) : RoundsTo x m e :=
  ⟨hlow.le, hhigh.le, .inr ⟨hlow, hhigh⟩⟩

/-! ## The grid of the decimals with a last place -/

section Grid

variable {m : ℕ} {e k : ℤ}

theorem grid_div (n : ℕ) (k : ℤ) :
    ((n * Nat.pow 10 k.toNat : ℕ) : ℚ) / (Nat.pow 10 (-k).toNat : ℕ) = n * 10 ^ k := by
  rcases le_total 0 k with hk | hk
  · rw [Nat.cast_mul, natCast_pow_toNat 10 hk, Int.toNat_of_nonpos (Int.neg_nonpos_of_nonneg hk)]
    simp
  · rw [natCast_pow_toNat 10 (by omega), Int.toNat_of_nonpos hk, zpow_neg]
    simp

theorem holds_grid_iff (hm : 0 < m) (n : ℕ) :
    (Interval.around m e).holds (n * Nat.pow 10 k.toNat) (Nat.pow 10 (-k).toNat) = true ↔
      RoundsTo (n * 10 ^ k) m e := by
  have hscale : 0 < Nat.pow 10 (-k).toNat := Nat.pow_pos (by decide)
  rw [holds_around_iff e hm _ hscale, grid_div]

theorem roundsTo_of_onGrid? (hm : 0 < m) {n : ℕ}
    (h : (Interval.around m e).onGrid? k = some n) : RoundsTo (n * 10 ^ k) m e := by
  rw [← holds_grid_iff hm]
  simp only [Interval.onGrid?] at h
  split at h <;> simp only [Option.some.injEq, reduceCtorEq] at h
  next hbelow habove =>
    subst h
    split_ifs
    · exact hbelow
    · exact habove
  next hbelow _ => exact h ▸ hbelow
  next habove => exact h ▸ habove

/-- The number lies between two neighbours on the grid. -/
theorem grid_bounds (m : ℕ) (e k : ℤ) :
    let i := Interval.around m e
    let n := i.value * Nat.pow 10 (-k).toNat / (i.den * Nat.pow 10 k.toNat)
    (n : ℚ) * 10 ^ k ≤ m * 2 ^ e ∧ m * 2 ^ e < ((n + 1 : ℕ) : ℚ) * 10 ^ k := by
  intro i n
  have hstep : 0 < i.den * Nat.pow 10 k.toNat :=
    Nat.mul_pos (around_den_pos e m) (Nat.pow_pos (by decide))
  have hden : (0 : ℚ) < i.den := by exact_mod_cast around_den_pos e m
  have hscale : (0 : ℚ) < (Nat.pow 10 (-k).toNat : ℕ) := by
    exact_mod_cast Nat.pow_pos (n := (-k).toNat) (by decide : 0 < 10)
  rw [← around_value e m, ← grid_div n k, ← grid_div (n + 1) k, div_le_div_iff₀ hscale hden,
    div_lt_div_iff₀ hden hscale]
  constructor
  · have hle : n * (i.den * Nat.pow 10 k.toNat) ≤ i.value * Nat.pow 10 (-k).toNat :=
      Nat.div_mul_le_self _ _
    rw [Nat.mul_comm i.den, ← Nat.mul_assoc] at hle
    exact_mod_cast hle
  · have hlt : i.value * Nat.pow 10 (-k).toNat < i.den * Nat.pow 10 k.toNat * (n + 1) :=
      Nat.lt_mul_div_succ _ hstep
    rw [Nat.mul_comm (i.den * _), Nat.mul_comm i.den, ← Nat.mul_assoc] at hlt
    exact_mod_cast hlt

/-- A grid that is finer than the interval is wide has a point in it. -/
theorem isSome_onGrid? (hm : 0 < m) (h : (10 : ℚ) ^ k < (1 / 2 + reachBelow m e) * 2 ^ e) :
    ((Interval.around m e).onGrid? k).isSome := by
  obtain ⟨hbelow, habove⟩ := grid_bounds m e k
  have hunit : (0 : ℚ) < 2 ^ e := by positivity
  have hreach := reachBelow_pos m e
  simp only [Interval.onGrid?]
  set n := (Interval.around m e).value * Nat.pow 10 (-k).toNat /
    ((Interval.around m e).den * Nat.pow 10 k.toNat)
  have hinside : RoundsTo (n * 10 ^ k) m e ∨ RoundsTo ((n + 1 : ℕ) * 10 ^ k) m e := by
    by_cases hlow : (m - reachBelow m e) * 2 ^ e < n * 10 ^ k
    · exact .inl (.of_between hlow (by nlinarith))
    · refine .inr (.of_between (by nlinarith) ?_)
      push_cast
      linarith
  rw [← holds_grid_iff hm, ← holds_grid_iff hm] at hinside
  rcases hinside with hinside | hinside
  · rw [hinside]
    split <;> simp_all
  · rw [hinside]
    split <;> simp_all

end Grid

/-! ## The search -/

theorem magnitude_le {num den : ℕ} (hnum : 0 < num) (hden : 0 < den) :
    (10 : ℚ) ^ (magnitude num den - 1) ≤ num / den := by
  have hnum' : (0 : ℚ) < num := by exact_mod_cast hnum
  have hden' : (0 : ℚ) < den := by exact_mod_cast hden
  simp only [magnitude, Int.ofNat_eq_natCast]
  split_ifs with hle
  · exact (length_toDigits_bounds (Nat.div_pos hle hden)).1.trans Nat.cast_div_le
  · have hceil : den ≤ (den + num - 1) / num * num := by
      have hlt := Nat.lt_div_mul_add (a := den + num - 1) hnum
      omega
    have htwo : 2 ≤ (den + num - 1) / num := by
      rw [Nat.le_div_iff_mul_le hnum]
      omega
    have hupper := (length_toDigits_bounds (n := (den + num - 1) / num - 1) (by omega)).2
    have hupper' : (((den + num - 1) / num : ℕ) : ℚ) ≤
        10 ^ ((Nat.toDigits 10 ((den + num - 1) / num - 1)).length : ℤ) := by
      rw [zpow_natCast] at hupper ⊢
      have hlt : (den + num - 1) / num - 1 <
          10 ^ (Nat.toDigits 10 ((den + num - 1) / num - 1)).length := by exact_mod_cast hupper
      exact_mod_cast (by omega : (den + num - 1) / num ≤
        10 ^ (Nat.toDigits 10 ((den + num - 1) / num - 1)).length)
    rw [sub_sub_cancel_left, zpow_neg, le_div_iff₀ hden', inv_mul_le_iff₀ (by positivity)]
    calc (den : ℚ) ≤ ((den + num - 1) / num : ℕ) * num := by exact_mod_cast hceil
      _ ≤ _ := mul_le_mul_of_nonneg_right hupper' hnum'.le

section Search

variable {m : ℕ} {e : ℤ}

theorem around_value_pos (hm : 0 < m) : 0 < (Interval.around m e).value :=
  Nat.mul_pos (by omega) (by
    rw [Binary64.ratio]
    split
    · exact Nat.mul_pos Nat.one_pos (Nat.pow_pos (by decide))
    · exact Nat.one_pos)

/-- Seventeen digits are enough: the last of them counts less than the interval is wide. -/
theorem isSome_onGrid?_seventeen (hm : 0 < m) (hlt : m < 2 ^ 53) :
    ((Interval.around m e).onGrid?
      (magnitude (Interval.around m e).value (Interval.around m e).den - 17)).isSome := by
  refine isSome_onGrid? hm ?_
  have hunit : (0 : ℚ) < 2 ^ e := by positivity
  have hmagnitude := magnitude_le (around_value_pos (e := e) hm) (around_den_pos e m)
  rw [around_value] at hmagnitude
  have hwide : (m : ℚ) / 10 ^ 16 < 1 / 2 + reachBelow m e := by
    rw [reachBelow]
    split_ifs with h
    · rw [h.1]
      norm_num
    · have hlt' : (m : ℚ) < 2 ^ 53 := by exact_mod_cast hlt
      rw [div_lt_iff₀ (by norm_num)]
      linarith
  set point := magnitude (Interval.around m e).value (Interval.around m e).den
  calc (10 : ℚ) ^ (point - 17) = 10 ^ (point - 1) / 10 ^ 16 := by
        rw [← zpow_natCast, ← zpow_sub₀ (by norm_num)]
        congr 1
        push_cast
        ring
    _ ≤ m * 2 ^ e / 10 ^ 16 := by gcongr
    _ = m / 10 ^ 16 * 2 ^ e := by ring
    _ < (1 / 2 + reachBelow m e) * 2 ^ e := mul_lt_mul_of_pos_right hwide hunit

/-- A search that comes to a grid with a point in the interval finds one. -/
theorem roundsTo_search (hm : 0 < m) (point : ℤ) (fuel : ℕ) {count : ℕ} (hfuel : 0 < fuel)
    (h : ((Interval.around m e).onGrid? (point - (count + fuel - 1 : ℕ))).isSome) :
    RoundsTo (((Interval.around m e).search point count fuel).1 *
      10 ^ ((Interval.around m e).search point count fuel).2) m e := by
  induction fuel generalizing count with
  | zero => exact absurd hfuel (lt_irrefl 0)
  | succ fuel ih =>
      simp only [Interval.search, Int.ofNat_eq_natCast]
      cases hfound : (Interval.around m e).onGrid? (point - count) with
      | some n => exact roundsTo_of_onGrid? hm hfound
      | none =>
          rcases Nat.eq_zero_or_pos fuel with rfl | hpos
          · simp [hfound] at h
          · exact ih hpos (by rwa [show count + 1 + fuel - 1 = count + (fuel + 1) - 1 by omega])

theorem roundsTo_found (hm : 0 < m) (hlt : m < 2 ^ 53) :
    let i := Interval.around m e
    let found := i.search (magnitude i.value i.den) 1 17
    RoundsTo (found.1 * 10 ^ found.2) m e :=
  roundsTo_search hm _ 17 (by decide) (isSome_onGrid?_seventeen hm hlt)

end Search

end ShellDoc.Decimal

/-! ## Numerals -/

namespace ShellDoc.Text

theorem decimalNumber_append (s t : Text) :
    decimalNumber (s ++ t) = decimalNumber s * 10 ^ t.length + decimalNumber t := by
  induction t using List.reverseRecOn with
  | nil => simp
  | append_singleton t c ih =>
      rw [← List.append_assoc, decimalNumber_append_singleton, decimalNumber_append_singleton, ih,
        List.length_append, List.length_singleton, Nat.pow_succ]
      ring

theorem decimalNumber_replicate_zero (k : ℕ) : decimalNumber (List.replicate k '0') = 0 := by
  induction k with
  | zero => rfl
  | succ k ih => rw [List.replicate_succ', decimalNumber_append_singleton, ih]; rfl

theorem decimalValue?_digitChar : ∀ d < 10, decimalValue? d.digitChar = some d := by decide

theorem decimalNumber_toDigits (n : ℕ) : decimalNumber (Nat.toDigits 10 n) = n := by
  induction n using Nat.strongRecOn with
  | ind n ih =>
      by_cases h : n < 10
      · rw [Nat.toDigits_of_lt_base h, ← List.nil_append [n.digitChar],
          decimalNumber_append_singleton, decimalValue?_digitChar n h, decimalNumber_nil,
          Option.getD_some, Nat.mul_zero, Nat.zero_add]
      · rw [Nat.toDigits_of_base_le (by decide) (not_lt.mp h), decimalNumber_append_singleton,
          ih _ (by omega), decimalValue?_digitChar _ (Nat.mod_lt n (by decide)), Option.getD_some]
        omega

theorem decimalValue?_getD_lt (c : Char) : (decimalValue? c).getD 0 < 10 := by
  rw [decimalValue?]
  split_ifs with hascii hrange
  · simp only [Bool.and_eq_true, decide_eq_true_eq] at hrange
    rw [Option.getD_some]
    omega
  · decide
  · cases hzero : zeros.find? fun z => z ≤ c.toNat && c.toNat < z + 10 with
    | none => exact Nat.zero_lt_succ 9
    | some z =>
        have hz := List.find?_some hzero
        simp only [Bool.and_eq_true, decide_eq_true_eq] at hz
        rw [Option.map_some, Option.getD_some]
        omega

theorem decimalNumber_lt_of_length_le {s : Text} {k : Nat} (h : s.length ≤ k) :
    decimalNumber s < Nat.pow 10 k := by
  induction s using List.reverseRecOn generalizing k with
  | nil => exact Nat.pow_pos (by decide)
  | append_singleton s c ih =>
      rw [List.length_append, List.length_singleton] at h
      obtain ⟨k, rfl⟩ : ∃ j, k = j + 1 := Nat.exists_eq_add_one.mpr (by omega)
      have hfront := ih (Nat.le_of_succ_le_succ h)
      have hdigit := decimalValue?_getD_lt c
      have hpow : Nat.pow 10 (k + 1) = Nat.pow 10 k * 10 := rfl
      rw [decimalNumber_append_singleton, hpow]
      omega

/-- A numeral in ASCII digits that does not begin with a zero without need. -/
structure IsNumeral (s : Text) : Prop where
  ne_nil : s ≠ []
  digits : ∀ c ∈ s, c.isDigit = true
  head : s.head? = some '0' → s = ['0']

theorem isNumeral_zero : IsNumeral ['0'] :=
  ⟨List.cons_ne_nil _ _, List.forall_mem_singleton.mpr rfl, fun _ => rfl⟩

theorem head?_toDigits_ne {n : ℕ} (h : 0 < n) : (Nat.toDigits 10 n).head? ≠ some '0' := by
  induction n using Nat.strongRecOn with
  | ind n ih =>
      by_cases hlt : n < 10
      · have hdigit : ∀ d < 10, 0 < d → d.digitChar ≠ '0' := by decide
        rw [Nat.toDigits_of_lt_base hlt]
        simpa using hdigit n hlt h
      · rw [Nat.toDigits_of_base_le (by decide) (not_lt.mp hlt), List.head?_append]
        have hne : Nat.toDigits 10 (n / 10) ≠ [] :=
          List.length_pos_iff.mp Nat.length_toDigits_pos
        have hfront := ih (n / 10) (by omega) (by omega)
        cases hd : Nat.toDigits 10 (n / 10) with
        | nil => exact absurd hd hne
        | cons d ds => rw [hd] at hfront; simpa using hfront

theorem isNumeral_toDigits (n : ℕ) : IsNumeral (Nat.toDigits 10 n) where
  ne_nil := List.length_pos_iff.mp Nat.length_toDigits_pos
  digits _ hc := Nat.isDigit_of_mem_toDigits (by decide) (by decide) hc
  head h := by
    rcases Nat.eq_zero_or_pos n with rfl | hpos
    · rfl
    · exact absurd h (head?_toDigits_ne hpos)

end ShellDoc.Text

namespace ShellDoc.Decimal

/-! ## The digits that are written -/

theorem withoutTrailingZeros_append (s : Text) :
    ∃ k, s = withoutTrailingZeros s ++ List.replicate k '0' := by
  refine ⟨(s.reverse.takeWhile (· = '0')).length, ?_⟩
  have hzeros : s.reverse.takeWhile (· = '0') =
      List.replicate (s.reverse.takeWhile (· = '0')).length '0' :=
    List.eq_replicate_iff.mpr ⟨rfl, fun c hc => by simpa using List.mem_takeWhile_imp hc⟩
  have hsplit := congrArg List.reverse
    (List.takeWhile_append_dropWhile (p := (· = '0')) (l := s.reverse))
  rw [List.reverse_append, List.reverse_reverse, hzeros, List.reverse_replicate] at hsplit
  exact hsplit.symm

/-- The zeros that are dropped count as places. -/
theorem withoutTrailingZeros_toDigits (n : ℕ) (k : ℤ) :
    let written := Nat.toDigits 10 n
    (Text.decimalNumber (withoutTrailingZeros written) : ℚ) *
      10 ^ (written.length + k - (withoutTrailingZeros written).length) = n * 10 ^ k := by
  intro written
  obtain ⟨zeros, hwritten⟩ := withoutTrailingZeros_append written
  have hnumber := congrArg Text.decimalNumber hwritten
  have hlength := congrArg List.length hwritten
  rw [Text.decimalNumber_toDigits, Text.decimalNumber_append, Text.decimalNumber_replicate_zero,
    List.length_replicate, Nat.add_zero] at hnumber
  rw [List.length_append, List.length_replicate] at hlength
  have hplaces : (written.length : ℤ) + k - (withoutTrailingZeros written).length = zeros + k := by
    omega
  rw [hplaces, zpow_add₀ (by norm_num), zpow_natCast, ← mul_assoc]
  congr 1
  exact_mod_cast hnumber.symm

/-- What is left of the digits of a number other than zero still begins as the number does. -/
theorem head?_withoutTrailingZeros {n : ℕ} (h : 0 < n) :
    ∃ c ∈ (withoutTrailingZeros (Nat.toDigits 10 n)).head?, c ≠ '0' := by
  obtain ⟨zeros, hwritten⟩ := withoutTrailingZeros_append (Nat.toDigits 10 n)
  cases hleft : withoutTrailingZeros (Nat.toDigits 10 n) with
  | nil =>
      have hnumber := Text.decimalNumber_toDigits n
      rw [hwritten, hleft, List.nil_append, Text.decimalNumber_replicate_zero] at hnumber
      exact absurd hnumber h.ne
  | cons c s =>
      refine ⟨c, rfl, fun hc => Text.head?_toDigits_ne h ?_⟩
      rw [hwritten, hleft, hc]
      rfl

theorem isDigit_of_mem_withoutTrailingZeros {n : ℕ} {c : Char}
    (hc : c ∈ withoutTrailingZeros (Nat.toDigits 10 n)) : c.isDigit = true := by
  obtain ⟨zeros, hwritten⟩ := withoutTrailingZeros_append (Nat.toDigits 10 n)
  refine (Text.isNumeral_toDigits n).digits c ?_
  rw [hwritten]
  exact List.mem_append_left _ hc

/-- The number that digits with a point denote. -/
def Digits.value (d : Digits) : ℚ :=
  Text.decimalNumber d.digits * 10 ^ (d.point - d.digits.length)

section Shortest

variable {m : ℕ} {e : ℤ}

/-- Only the digits of zero begin with a zero. -/
theorem head?_shortest (hm : 0 < m) (hlt : m < 2 ^ 53) :
    ∃ c ∈ (shortest m e).digits.head?, c ≠ '0' := by
  rw [shortest, if_neg hm.ne']
  refine head?_withoutTrailingZeros ?_
  by_contra hzero
  have hfound := (roundsTo_found (e := e) hm hlt).lower
  rw [Nat.eq_zero_of_not_pos hzero, Nat.cast_zero, zero_mul] at hfound
  have hm' : (1 : ℚ) ≤ m := by exact_mod_cast hm
  have hreach := reachBelow_le m e
  have hunit : (0 : ℚ) < 2 ^ e := by positivity
  exact absurd hfound (not_le.mpr (mul_pos (by linarith) hunit))

theorem isNumeral_shortest (hlt : m < 2 ^ 53) : Text.IsNumeral (shortest m e).digits := by
  rcases Nat.eq_zero_or_pos m with rfl | hm
  · exact Text.isNumeral_zero
  · obtain ⟨c, hc, hne⟩ := head?_shortest (e := e) hm hlt
    refine ⟨fun hnil => ?_, fun c hc => ?_, fun hzero => ?_⟩
    · rw [hnil] at hc
      cases hc
    · rw [shortest, if_neg hm.ne'] at hc
      exact isDigit_of_mem_withoutTrailingZeros hc
    · rw [hzero] at hc
      cases hc
      exact absurd rfl hne

theorem point_shortest (hlt : m < 2 ^ 53) (h : (shortest m e).digits = ['0']) :
    (shortest m e).point = 1 := by
  rcases Nat.eq_zero_or_pos m with rfl | hm
  · rfl
  · obtain ⟨c, hc, hne⟩ := head?_shortest (e := e) hm hlt
    rw [h] at hc
    cases hc
    exact absurd rfl hne

theorem roundsTo_shortest (hm : 0 < m) (hlt : m < 2 ^ 53) :
    RoundsTo (shortest m e).value m e := by
  have hfound := roundsTo_found (e := e) hm hlt
  dsimp only at hfound
  rw [← withoutTrailingZeros_toDigits] at hfound
  simpa only [shortest, if_neg hm.ne', Digits.value, Int.ofNat_eq_natCast] using hfound

/-- Every decimal with the value of the shortest digits reads as the number. -/
theorem ofDecimal_of_shortest (negative : Bool) (hform : InForm m e) {digits : ℕ} {exponent : ℤ}
    (h : (digits : ℚ) * 10 ^ exponent = (shortest m e).value) :
    Binary64.ofDecimal negative digits exponent = .finite negative m e := by
  rcases Nat.eq_zero_or_pos m with rfl | hm
  · have hzero : (digits : ℚ) * 10 ^ exponent = 0 := by
      rw [h, shortest, if_pos rfl]
      exact mul_eq_zero_of_left Nat.cast_zero _
    have hdigits : digits = 0 := by
      have hpower : (10 : ℚ) ^ exponent ≠ 0 := by positivity
      exact_mod_cast (mul_eq_zero.mp hzero).resolve_right hpower
    have he := hform.full.resolve_left (by decide)
    rw [Binary64.ofDecimal, hdigits, he]
    rfl
  · have hrounds := roundsTo_shortest (e := e) hm hform.lt
    rw [← h] at hrounds
    refine Binary64.ofDecimal_of_roundsTo negative ?_ hm hform hrounds
    by_contra hzero
    have hlower := hrounds.ten_zpow_lt hm hform
    rw [Nat.eq_zero_of_not_pos hzero, Nat.cast_zero, zero_mul] at hlower
    exact absurd hlower (not_lt.mpr (by positivity))

end Shortest

end ShellDoc.Decimal
