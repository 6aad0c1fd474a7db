import Mathlib.Algebra.Order.Field.Power
import Mathlib.Algebra.Order.Ring.Rat
import Mathlib.Tactic.FieldSimp
import Mathlib.Tactic.Linarith
import Mathlib.Tactic.NormNum
import Mathlib.Tactic.Positivity
import Mathlib.Tactic.Ring
import SearchCriteria.Number.Binary64

/-!
# Rounding to the nearest double

The double of a fraction is the nearest one there is, a tie goes to the even mantissa, and from half
a step above the greatest double on it is infinite.  The exponent is chosen so that the fraction, in
units of the last place, is below `2 ^ 53` and, unless the exponent is the least one, not below
`2 ^ 52`: then doubles on a coarser grid are among the multiples of the unit, and doubles on a finer
one are further away than the least mantissa of the grid.
-/

namespace SearchCriteria

/-! ## Quotients -/

/-- A natural number nearest to a fraction, an even one if there are two. -/
structure NearestTo (x : ℚ) (m : ℕ) : Prop where
  within : |x - m| ≤ 1 / 2
  even (h : |x - m| = 1 / 2) : Even m

/-- Up to a half is left away. -/
theorem nearestTo_of_le_half {t : ℚ} {m : ℕ} (h0 : 0 ≤ t) (h : t ≤ 1 / 2)
    (heven : t = 1 / 2 → Even m) : NearestTo (m + t) m := by
  have hdist : |(m : ℚ) + t - m| = t := by rw [add_sub_cancel_left, abs_of_nonneg h0]
  exact ⟨hdist.trans_le h, fun hhalf ↦ heven (hdist.symm.trans hhalf)⟩

/-- A half or more counts as one. -/
theorem nearestTo_succ_of_half_le {t : ℚ} {m : ℕ} (h1 : t ≤ 1) (h : 1 / 2 ≤ t)
    (hodd : t = 1 / 2 → Odd m) : NearestTo (m + t) (m + 1) := by
  have hdist : |(m : ℚ) + t - (m + 1 : ℕ)| = 1 - t := by
    rw [abs_sub_comm, abs_of_nonneg] <;> push_cast <;> linarith
  refine ⟨by rw [hdist]; linarith, fun hhalf ↦ (hodd ?_).add_one⟩
  rw [hdist] at hhalf
  linarith

theorem nearestTo_divideToNearest (num : ℕ) {den : ℕ} (hden : 0 < den) :
    NearestTo (num / den) (divideToNearest num den) := by
  have hd : (0 : ℚ) < den := by exact_mod_cast hden
  have hnum : (num : ℚ) = den * (num / den : ℕ) + (num % den : ℕ) := by
    exact_mod_cast (Nat.div_add_mod num den).symm
  have hrest : (num % den : ℕ) < (den : ℚ) := by exact_mod_cast Nat.mod_lt num hden
  unfold divideToNearest
  dsimp only
  generalize num / den = quotient at *
  generalize num % den = rest at *
  -- the rest in units of the denominator
  obtain ⟨t, ht⟩ : ∃ t : ℚ, t = rest / den := ⟨_, rfl⟩
  have hx : (num : ℚ) / den = quotient + t := by
    rw [hnum, ht, add_div, mul_div_cancel_left₀ _ hd.ne']
  have hhalf : t = 1 / 2 ↔ 2 * rest = den := by
    rw [ht, div_eq_iff hd.ne', ← Nat.cast_inj (R := ℚ)]
    push_cast
    constructor <;> intro h <;> linarith
  have hless : 1 / 2 < t ↔ den < 2 * rest := by
    rw [ht, lt_div_iff₀ hd, ← Nat.cast_lt (α := ℚ)]
    push_cast
    constructor <;> intro h <;> linarith
  have ht0 : 0 ≤ t := by rw [ht]; positivity
  have ht1 : t < 1 := by rw [ht, div_lt_one hd]; exact hrest
  have hrounds : (decide (den < 2 * rest) || (decide (2 * rest = den) && decide (quotient % 2 = 1)))
      = true ↔ 1 / 2 < t ∨ t = 1 / 2 ∧ quotient % 2 = 1 := by
    rw [hhalf, hless]
    simp
  rw [hx]
  split
  · rename_i hup
    rcases hrounds.mp hup with hlt | ⟨heq, hodd⟩
    · exact nearestTo_succ_of_half_le ht1.le hlt.le fun heq ↦ absurd heq hlt.ne'
    · exact nearestTo_succ_of_half_le ht1.le heq.ge fun _ ↦ Nat.odd_iff.mpr hodd
  · rename_i hkeep
    obtain ⟨hle, hparity⟩ := not_or.mp (mt hrounds.mpr hkeep)
    refine nearestTo_of_le_half ht0 (not_lt.mp hle) fun heq ↦ ?_
    have hodd : quotient % 2 ≠ 1 := fun hodd ↦ hparity ⟨heq, hodd⟩
    exact Nat.even_iff.mpr (by omega)

/-- No other integer is nearer, and none is as near unless the nearest one is even. -/
theorem NearestTo.nearest {x : ℚ} {m : ℕ} (h : NearestTo x m) (n : ℕ) :
    |x - m| ≤ |x - n| ∧ (|x - m| = |x - n| → n ≠ m → Even m) := by
  by_cases hn : n = m
  · rw [hn]
    exact ⟨le_rfl, fun _ hne ↦ absurd rfl hne⟩
  · have hapart : (1 : ℚ) ≤ |(n : ℚ) - m| := by
      have : (1 : ℤ) ≤ |(n : ℤ) - m| := Int.one_le_abs (sub_ne_zero.mpr (by exact_mod_cast hn))
      exact_mod_cast this
    have htriangle : |(n : ℚ) - m| ≤ |x - n| + |x - m| := by
      rw [abs_sub_comm x n]
      exact abs_sub_le _ _ _
    have hwithin := h.within
    refine ⟨by linarith, fun heq _ ↦ h.even ?_⟩
    linarith

/-! ## Scaling -/

theorem scaleByTwo_pos (num : ℕ) {den : ℕ} (h : 0 < den) (k : ℤ) :
    0 < (scaleByTwo num den k).2 := by
  cases k with
  | ofNat k => exact h
  | negSucc k => exact Nat.mul_pos h (Nat.two_pow_pos _)

theorem scaleByTwo_eq (num den : ℕ) (k : ℤ) :
    ((scaleByTwo num den k).1 : ℚ) / (scaleByTwo num den k).2 = num / den * 2 ^ k := by
  cases k with
  | ofNat k =>
    change ((num * 2 ^ k : ℕ) : ℚ) / den = num / den * 2 ^ (k : ℤ)
    rw [zpow_natCast]
    push_cast
    ring
  | negSucc k =>
    change (num : ℚ) / ((den * 2 ^ (k + 1) : ℕ) : ℚ) = num / den * 2 ^ (Int.negSucc k)
    rw [zpow_negSucc]
    push_cast
    rw [div_mul_eq_div_mul_one_div, one_div]

namespace Binary64

theorem magnitude_eq (m : ℕ) (e : ℤ) : magnitude m e = m * 2 ^ e := by
  cases e with
  | ofNat k =>
    change ((m * 2 ^ k : ℕ) : ℚ) = m * 2 ^ (k : ℤ)
    rw [zpow_natCast]
    push_cast
    rfl
  | negSucc k =>
    change mkRat m (2 ^ (k + 1)) = m * 2 ^ (Int.negSucc k)
    rw [zpow_negSucc, Rat.mkRat_eq_div]
    push_cast
    rw [div_eq_mul_inv]

/-! ## The grid of a fraction -/

variable {num den : ℕ}

theorem two_zpow_log2_le {n : ℕ} (h : 0 < n) : (2 : ℚ) ^ (n.log2 : ℤ) ≤ n := by
  rw [zpow_natCast]
  exact_mod_cast Nat.log2_self_le h.ne'

theorem lt_two_zpow_log2 (n : ℕ) : (n : ℚ) < 2 ^ ((n.log2 : ℤ) + 1) := by
  have h := Nat.lt_log2_self (n := n)
  have hcast : ((n.log2 : ℤ) + 1) = ((n.log2 + 1 : ℕ) : ℤ) := by push_cast; rfl
  rw [hcast, zpow_natCast]
  exact_mod_cast h

/-- The guess from the lengths of numerator and denominator is right, or one too much. -/
theorem guess_bounds (hn : 0 < num) (hd : 0 < den) :
    (2 : ℚ) ^ ((num.log2 : ℤ) - den.log2 - 1) ≤ num / den ∧
      (num : ℚ) / den < 2 ^ ((num.log2 : ℤ) - den.log2 + 1) := by
  have hden : (0 : ℚ) < den := by exact_mod_cast hd
  constructor
  · rw [le_div_iff₀ hden]
    calc (2 : ℚ) ^ ((num.log2 : ℤ) - den.log2 - 1) * den
        ≤ 2 ^ ((num.log2 : ℤ) - den.log2 - 1) * 2 ^ ((den.log2 : ℤ) + 1) := by
          gcongr
          exact (lt_two_zpow_log2 den).le
      _ = 2 ^ (num.log2 : ℤ) := by
          rw [← zpow_add₀ two_ne_zero]
          ring_nf
      _ ≤ num := two_zpow_log2_le hn
  · rw [div_lt_iff₀ hden]
    calc (num : ℚ) < 2 ^ ((num.log2 : ℤ) + 1) := lt_two_zpow_log2 num
      _ = 2 ^ ((num.log2 : ℤ) - den.log2 + 1) * 2 ^ (den.log2 : ℤ) := by
          rw [← zpow_add₀ two_ne_zero]
          ring_nf
      _ ≤ 2 ^ ((num.log2 : ℤ) - den.log2 + 1) * den := by
          gcongr
          exact two_zpow_log2_le hd

/-- The exponent of the grid, from the binary logarithm of the fraction. -/
theorem exists_gridExponent_eq (hn : 0 < num) (hd : 0 < den) :
    ∃ k : ℤ, gridExponent num den = max (k - 52) (-1074) ∧ (2 : ℚ) ^ k ≤ num / den ∧
      (num : ℚ) / den < 2 ^ (k + 1) := by
  obtain ⟨hlow, hhigh⟩ := guess_bounds hn hd
  unfold gridExponent
  generalize (num.log2 : ℤ) - den.log2 = guess at *
  have hpos : (0 : ℚ) < (scaleByTwo num den (-guess)).2 := by
    exact_mod_cast scaleByTwo_pos num hd (-guess)
  have hguess : (scaleByTwo num den (-guess)).2 ≤ (scaleByTwo num den (-guess)).1 ↔
      (2 : ℚ) ^ guess ≤ num / den := by
    rw [← Nat.cast_le (α := ℚ), ← one_le_div hpos, scaleByTwo_eq, zpow_neg, ← div_eq_mul_inv,
      one_le_div (by positivity)]
  dsimp only
  split
  · rename_i h
    exact ⟨guess, rfl, hguess.mp h, hhigh⟩
  · rename_i h
    refine ⟨guess - 1, rfl, hlow, ?_⟩
    rw [sub_add_cancel]
    exact not_le.mp (mt hguess.mpr h)

/-- In units of the grid a fraction is below `2 ^ 53`, and not below `2 ^ 52` unless the exponent is
the least one. -/
structure OnGrid (value : ℚ) (e : ℤ) : Prop where
  least_le : -1074 ≤ e
  lt : value < 2 ^ (e + 53)
  le : e = -1074 ∨ (2 : ℚ) ^ (e + 52) ≤ value

theorem onGrid_gridExponent (hn : 0 < num) (hd : 0 < den) :
    OnGrid (num / den) (gridExponent num den) := by
  obtain ⟨k, hk, hlow, hhigh⟩ := exists_gridExponent_eq hn hd
  rw [hk]
  refine ⟨le_max_right _ _, hhigh.trans_le ?_, ?_⟩
  · exact zpow_le_zpow_right₀ one_le_two (by omega)
  · rcases le_total (k - 52) (-1074) with h | h
    · exact .inl (max_eq_right h)
    · rw [max_eq_left h, sub_add_cancel]
      exact .inr hlow

/-! ## Rounding -/

/-- The form of the finite doubles. -/
structure Proper (m : ℕ) (e : ℤ) : Prop where
  lt : m < 2 ^ 53
  least_le : -1074 ≤ e
  le_greatest : e ≤ 971
  least : 2 ^ 52 ≤ m ∨ e = -1074

/-- Half a step above the greatest double. -/
def limit : ℚ := 2 ^ 1024 - 2 ^ 970

/-- The double that a magnitude rounds to: infinite from the limit on, a nearest one below it, and
with an even mantissa if there is another one as near. -/
structure Rounds (negative : Bool) (value : ℚ) (x : Binary64) : Prop where
  infinite (h : limit ≤ value) : x = .infinite negative
  finite (h : value < limit) : ∃ m e, x = .finite negative m e ∧ Proper m e ∧
    ∀ n k, Proper n k → |value - magnitude m e| ≤ |value - magnitude n k| ∧
      (|value - magnitude m e| = |value - magnitude n k| → magnitude n k ≠ magnitude m e → Even m)

variable {value : ℚ} {m n : ℕ} {e k : ℤ}

theorem abs_sub_magnitude (value : ℚ) (m : ℕ) (e : ℤ) :
    |value - magnitude m e| = |value * 2 ^ (-e) - m| * 2 ^ e := by
  have hpos : (0 : ℚ) < 2 ^ e := by positivity
  have hinv : (2 : ℚ) ^ (-e) * 2 ^ e = 1 := by
    rw [← zpow_add₀ two_ne_zero, neg_add_cancel, zpow_zero]
  have hfactor : value - magnitude m e = (value * 2 ^ (-e) - m) * 2 ^ e := by
    rw [magnitude_eq, sub_mul, mul_assoc, hinv, mul_one]
  rw [hfactor, abs_mul, abs_of_pos hpos]

/-- A double on a coarser grid is a multiple of the unit. -/
theorem exists_magnitude_eq (n : ℕ) (h : e ≤ k) :
    ∃ multiple : ℕ, magnitude n k = magnitude multiple e := by
  obtain ⟨j, rfl⟩ := Int.le.dest h
  refine ⟨n * 2 ^ j, ?_⟩
  rw [magnitude_eq, magnitude_eq, zpow_add₀ two_ne_zero, zpow_natCast]
  push_cast
  ring

theorem magnitude_inj : magnitude m e = magnitude n e ↔ m = n := by
  rw [magnitude_eq, magnitude_eq, mul_left_inj' (by positivity), Nat.cast_inj]

/-- Among the multiples of the unit the rounded quotient is nearest. -/
theorem nearest_multiple (hm : NearestTo (value * 2 ^ (-e)) m) (n : ℕ) :
    |value - magnitude m e| ≤ |value - magnitude n e| ∧
      (|value - magnitude m e| = |value - magnitude n e| → magnitude n e ≠ magnitude m e →
        Even m) := by
  have hpos : (0 : ℚ) < 2 ^ e := by positivity
  obtain ⟨hle, heven⟩ := hm.nearest n
  rw [abs_sub_magnitude, abs_sub_magnitude]
  refine ⟨mul_le_mul_of_nonneg_right hle hpos.le, fun heq hne ↦ ?_⟩
  exact heven (mul_right_cancel₀ hpos.ne' heq) (mt magnitude_inj.mpr hne)

/-- A double on a finer grid is below the fraction, and further away than the least mantissa. -/
theorem further_of_finer (hgrid : OnGrid value e) (hm : NearestTo (value * 2 ^ (-e)) m)
    (hn : Proper n k) (h : k < e) : |value - magnitude m e| < |value - magnitude n k| := by
  have hlow : (2 : ℚ) ^ (e + 52) ≤ value := by
    refine hgrid.le.resolve_left ?_
    have := hn.least_le
    omega
  have hless : magnitude n k < 2 ^ (e + 52) := by
    calc magnitude n k = n * 2 ^ k := magnitude_eq n k
      _ < 2 ^ 53 * 2 ^ k := by
          gcongr
          exact_mod_cast hn.lt
      _ = 2 ^ (k + 53) := by rw [zpow_add₀ two_ne_zero, mul_comm]; rfl
      _ ≤ 2 ^ (e + 52) := zpow_le_zpow_right₀ one_le_two (by omega)
  have hleast : magnitude (2 ^ 52) e = 2 ^ (e + 52) := by
    rw [magnitude_eq, zpow_add₀ two_ne_zero, mul_comm]
    push_cast
    rfl
  calc |value - magnitude m e| ≤ |value - magnitude (2 ^ 52) e| := (nearest_multiple hm _).1
    _ = value - 2 ^ (e + 52) := by rw [hleast, abs_of_nonneg (sub_nonneg.mpr hlow)]
    _ < value - magnitude n k := by linarith
    _ ≤ |value - magnitude n k| := le_abs_self _

/-- The rounded quotient on the grid is a nearest double. -/
theorem nearest_of_onGrid (hgrid : OnGrid value e) (hm : NearestTo (value * 2 ^ (-e)) m)
    (hn : Proper n k) :
    |value - magnitude m e| ≤ |value - magnitude n k| ∧
      (|value - magnitude m e| = |value - magnitude n k| → magnitude n k ≠ magnitude m e →
        Even m) := by
  rcases le_or_gt e k with h | h
  · obtain ⟨multiple, hmultiple⟩ := exists_magnitude_eq n h
    rw [hmultiple]
    exact nearest_multiple hm multiple
  · have hfurther := further_of_finer hgrid hm hn h
    exact ⟨hfurther.le, fun heq ↦ absurd heq hfurther.ne⟩

/-! ## Mantissas on the grid -/

theorem scaled_lt (hgrid : OnGrid value e) : value * 2 ^ (-e) < 2 ^ 53 := by
  have hinv : (2 : ℚ) ^ (e + 53) * 2 ^ (-e) = 2 ^ 53 := by
    rw [← zpow_add₀ two_ne_zero, add_neg_cancel_comm]
    rfl
  rw [← hinv]
  exact mul_lt_mul_of_pos_right hgrid.lt (by positivity)

theorem mantissa_le (hgrid : OnGrid value e) (hm : NearestTo (value * 2 ^ (-e)) m) :
    m ≤ 2 ^ 53 := by
  have hwithin := (abs_le.mp hm.within).1
  have hlt := scaled_lt hgrid
  have : (m : ℚ) < (2 ^ 53 + 1 : ℕ) := by
    push_cast
    linarith
  exact Nat.lt_succ_iff.mp (by exact_mod_cast this)

theorem le_mantissa (hgrid : OnGrid value e) (hm : NearestTo (value * 2 ^ (-e)) m) :
    2 ^ 52 ≤ m ∨ e = -1074 := by
  refine hgrid.le.symm.imp_left fun hlow ↦ ?_
  have hwithin := (abs_le.mp hm.within).2
  have hinv : (2 : ℚ) ^ (e + 52) * 2 ^ (-e) = 2 ^ 52 := by
    rw [← zpow_add₀ two_ne_zero, add_neg_cancel_comm]
    rfl
  have hscaled : (2 : ℚ) ^ 52 ≤ value * 2 ^ (-e) := by
    rw [← hinv]
    exact mul_le_mul_of_nonneg_right hlow (by positivity)
  have : ((2 ^ 52 : ℕ) : ℚ) < (m + 1 : ℕ) := by
    push_cast
    linarith
  exact Nat.lt_succ_iff.mp (by exact_mod_cast this)

/-! ## The limit -/

theorem limit_eq : limit = (2 ^ 53 - 1 / 2) * 2 ^ (971 : ℤ) := by
  have hgreatest : (2 : ℚ) ^ 1024 = 2 ^ 53 * 2 ^ 971 := by rw [← pow_add]
  have hstep : (2 : ℚ) ^ 971 = 2 * 2 ^ 970 := by rw [← pow_succ']
  have hcast : (2 : ℚ) ^ (971 : ℤ) = 2 ^ 971 := rfl
  rw [limit, hgreatest, hcast, hstep]
  generalize (2 : ℚ) ^ 970 = half
  ring

theorem limit_lt : limit < 2 ^ (1024 : ℤ) := sub_lt_self _ (by positivity)

theorem le_limit : (2 : ℚ) ^ (1023 : ℤ) ≤ limit := by
  have hcast : (2 : ℚ) ^ (1023 : ℤ) = 2 ^ 52 * 2 ^ (971 : ℤ) := by
    rw [← zpow_natCast, ← zpow_add₀ two_ne_zero]
    rfl
  rw [limit_eq, hcast]
  gcongr
  norm_num

/-- The mantissa that does not fit is the one from the limit on. -/
theorem limit_le_iff_of_greatest (hm : NearestTo (value * 2 ^ (-971 : ℤ)) m) (hle : m ≤ 2 ^ 53) :
    limit ≤ value ↔ m = 2 ^ 53 := by
  have hscaled : limit ≤ value ↔ 2 ^ 53 - 1 / 2 ≤ value * 2 ^ (-971 : ℤ) := by
    rw [limit_eq, zpow_neg, ← div_eq_mul_inv, le_div_iff₀ (by positivity)]
  rw [hscaled]
  generalize value * 2 ^ (-971 : ℤ) = scaled at hm
  obtain ⟨hlow, hhigh⟩ := abs_le.mp hm.within
  constructor
  · intro h
    by_contra hne
    have hless : m + 1 ≤ 2 ^ 53 := by omega
    have hcast : (m : ℚ) + 1 ≤ 2 ^ 53 := by exact_mod_cast hless
    -- only the greatest mantissa is as near as half a step, and that one is odd
    have hgreatest : (m : ℚ) + 1 = 2 ^ 53 := by linarith
    have hodd : m + 1 = 2 ^ 53 := by exact_mod_cast hgreatest
    have heven : Even m := hm.even (by rw [abs_of_nonneg] <;> linarith)
    obtain rfl : m = 2 ^ 53 - 1 := by omega
    exact absurd heven (by decide)
  · rintro rfl
    push_cast at hlow
    linarith

theorem limit_le_iff (hgrid : OnGrid value e) (hm : NearestTo (value * 2 ^ (-e)) m) :
    limit ≤ value ↔ 971 < e ∨ e = 971 ∧ m = 2 ^ 53 := by
  rcases lt_trichotomy e 971 with h | rfl | h
  · have hless : value < limit := by
      refine hgrid.lt.trans_le (le_trans ?_ le_limit)
      exact zpow_le_zpow_right₀ one_le_two (by omega)
    refine iff_of_false (not_le.mpr hless) ?_
    omega
  · rw [limit_le_iff_of_greatest hm (mantissa_le hgrid hm)]
    simp
  · have hmore : limit ≤ value := by
      refine limit_lt.le.trans (le_trans ?_ (hgrid.le.resolve_left (by omega)))
      exact zpow_le_zpow_right₀ one_le_two (by omega)
    exact iff_of_true hmore (.inl h)

/-! ## Correctness -/

theorem rounds_zero (negative : Bool) : Rounds negative 0 (.finite negative 0 (-1074)) where
  infinite h := absurd h (not_le.mpr (lt_of_lt_of_le (by positivity) le_limit))
  finite _ := by
    refine ⟨0, -1074, rfl, ⟨by norm_num, le_rfl, by norm_num, .inr rfl⟩, fun n k _ ↦ ?_⟩
    rw [magnitude_eq 0, Nat.cast_zero, zero_mul, sub_zero, abs_zero]
    exact ⟨abs_nonneg _, fun _ _ ↦ Even.zero⟩

/-- A mantissa that does not fit is carried into the exponent. -/
theorem exists_carried (hle : m ≤ 2 ^ 53) (hleast : 2 ^ 52 ≤ m ∨ e = -1074) (he : -1074 ≤ e) :
    ∃ n k, (if m = Nat.pow 2 53 then (Nat.pow 2 52, e + 1) else (m, e)) = (n, k) ∧
      magnitude n k = magnitude m e ∧ (Even m → Even n) ∧ (k ≤ 971 → Proper n k) ∧
      (971 < k ↔ 971 < e ∨ e = 971 ∧ m = 2 ^ 53) := by
  by_cases hm : m = 2 ^ 53
  · refine ⟨2 ^ 52, e + 1, if_pos hm, ?_, fun _ ↦ by decide, fun hk ↦ ?_, ?_⟩
    · rw [hm, magnitude_eq, magnitude_eq, zpow_add_one₀ two_ne_zero]
      push_cast
      ring
    · exact ⟨by norm_num, by omega, hk, .inl le_rfl⟩
    · simp only [hm, and_true]
      omega
  · refine ⟨m, e, if_neg hm, rfl, id, fun hk ↦ ?_, ?_⟩
    · exact ⟨lt_of_le_of_ne hle hm, he, hk, hleast⟩
    · simp only [hm, and_false, or_false]

/-- A fraction rounds to a nearest double. -/
theorem rounds_ofRatio (negative : Bool) (num : ℕ) {den : ℕ} (hd : 0 < den) :
    Rounds negative (num / den) (ofRatio negative num den) := by
  unfold ofRatio
  split
  · rename_i hzero
    rw [hzero, Nat.cast_zero, zero_div]
    exact rounds_zero negative
  rename_i hnum
  have hgrid := onGrid_gridExponent (Nat.pos_of_ne_zero hnum) hd
  have hm := nearestTo_divideToNearest (scaleByTwo num den (-gridExponent num den)).1
    (scaleByTwo_pos num hd (-gridExponent num den))
  rw [scaleByTwo_eq] at hm
  dsimp only
  generalize gridExponent num den = e at *
  generalize divideToNearest _ _ = m at *
  obtain ⟨n, k, hcarried, hvalue, heven, hproper, hgreat⟩ :=
    exists_carried (mantissa_le hgrid hm) (le_mantissa hgrid hm) hgrid.least_le
  rw [hcarried]
  rw [← limit_le_iff hgrid hm] at hgreat
  refine ⟨fun h ↦ if_pos (hgreat.mpr h), fun h ↦ ?_⟩
  have hk : ¬ 971 < k := fun hk ↦ not_le.mpr h (hgreat.mp hk)
  refine ⟨n, k, if_neg hk, hproper (not_lt.mp hk), fun j i hj ↦ ?_⟩
  rw [hvalue]
  obtain ⟨hle, htie⟩ := nearest_of_onGrid hgrid hm hj
  exact ⟨hle, fun heq hne ↦ heven (htie heq hne)⟩

/-- So does a decimal. -/
theorem rounds_ofDecimal (negative : Bool) (digits : ℕ) (e : ℤ) :
    Rounds negative (digits * 10 ^ e) (ofDecimal negative digits e) := by
  cases e with
  | ofNat k =>
    have h := rounds_ofRatio negative (digits * 10 ^ k) Nat.one_pos
    rw [Nat.cast_one, div_one] at h
    push_cast at h
    exact h
  | negSucc k =>
    have h := rounds_ofRatio negative digits (Nat.pow_pos (n := k + 1) (by norm_num : 0 < 10))
    push_cast at h
    rw [zpow_negSucc, ← div_eq_mul_inv]
    exact h

end Binary64

end SearchCriteria
