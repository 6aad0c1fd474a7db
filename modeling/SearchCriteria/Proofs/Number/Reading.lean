import Mathlib.Data.List.TakeWhile
import SearchCriteria.Number.Numeral
import SearchCriteria.Proofs.Number.Rounding

/-!
# Reading fractions

A fraction is read as the double nearest to the number that its digits write.  The blanks around it
are cut off before, but not those that separate information: text with one of them is never read.
-/

namespace SearchCriteria.Numeral

open Text

/-- `D+` -/
def IsNumber (cs : List Char) : Prop := cs ≠ [] ∧ ∀ c ∈ cs, isDigit c = true

instance (cs : List Char) : Decidable (IsNumber cs) :=
  decidable_of_iff (cs ≠ [] ∧ cs.all isDigit = true)
    (and_congr_right fun _ ↦ List.all_eq_true)

/-- `D*.D+`, before and behind the point. -/
structure IsFraction (cs whole fraction : List Char) : Prop where
  eq : cs = whole ++ '.' :: fraction
  whole : ∀ c ∈ whole, isDigit c = true
  fraction : IsNumber fraction

theorem not_isDigit_point : isDigit '.' = false := by decide

variable {cs whole fraction : List Char} {c : Char}

/-- The information separators are blank, but no margin of a numeral. -/
def isSeparator (c : Char) : Bool := 0x1C ≤ c.toNat && c.toNat ≤ 0x1F

theorem not_isMargin_of_isSeparator (h : isSeparator c = true) : isMargin c = false := by
  rw [isMargin, show (decide _ && decide _) = true from h, Bool.not_true, Bool.and_false]

theorem isMargin_of_not_isSeparator (h : isSeparator c = false) : isMargin c = isBlankChar c := by
  rw [isMargin, show (decide _ && decide _) = false from h, Bool.not_false, Bool.and_true]

theorem not_isDigit_of_isSeparator (h : isSeparator c = true) : isDigit c = false := by
  have hzeros : ∀ z ∈ digitZeros, 0x30 ≤ z := by decide
  have hlast : c.toNat ≤ 0x1F := by simpa using (Bool.and_eq_true_iff.mp h).2
  rw [isDigit, digit?, Option.isSome_map, ← Bool.not_eq_true, List.find?_isSome]
  rintro ⟨z, hz, hrange⟩
  have hfirst := hzeros z hz
  simp only [Bool.and_eq_true, decide_eq_true_eq] at hrange
  omega

theorem dropWhile_congr {p q : Char → Bool} (h : ∀ c ∈ cs, p c = q c) :
    cs.dropWhile p = cs.dropWhile q := by
  induction cs with
  | nil => rfl
  | cons c cs ih =>
    obtain ⟨hc, hcs⟩ := List.forall_mem_cons.mp h
    rw [List.dropWhile_cons, List.dropWhile_cons, hc, ih hcs]

theorem mem_dropWhile {p : Char → Bool} (h : c ∈ cs) (hc : p c = false) : c ∈ cs.dropWhile p := by
  rw [← List.takeWhile_append_dropWhile (p := p) (l := cs)] at h
  rcases List.mem_append.mp h with h | h
  · exact absurd (List.mem_takeWhile_imp h) (Bool.eq_false_iff.mp hc)
  · exact h

/-- Without separators a margin is what is blank. -/
theorem trim_eq_strip (h : ∀ c ∈ cs, isSeparator c = false) : trim cs = strip cs := by
  have hagree : ∀ c ∈ cs, isMargin c = isBlankChar c := fun c hc ↦
    isMargin_of_not_isSeparator (h c hc)
  have hrest : ∀ c ∈ (cs.dropWhile isBlankChar).reverse, isMargin c = isBlankChar c := fun c hc ↦
    hagree c ((List.dropWhile_sublist _).mem (List.mem_reverse.mp hc))
  rw [trim, strip, dropWhile_congr hagree, dropWhile_congr hrest]

/-- What is no margin stays. -/
theorem mem_trim (h : c ∈ cs) (hc : isMargin c = false) : c ∈ trim cs :=
  List.mem_reverse.mpr (mem_dropWhile (List.mem_reverse.mpr (mem_dropWhile h hc)) hc)

theorem pointed?_eq_some_iff :
    pointed? cs = some (whole, fraction) ↔ IsFraction cs whole fraction := by
  unfold pointed?
  constructor
  · intro h
    split at h
    · rename_i rest hrest
      split at h
      · rename_i hdigits
        obtain ⟨rfl, rfl⟩ := Prod.mk.inj (Option.some.inj h)
        have hsplit := List.takeWhile_append_dropWhile (p := isDigit) (l := cs)
        rw [hrest] at hsplit
        refine ⟨hsplit.symm, fun c hc ↦ List.mem_takeWhile_imp hc, ?_⟩
        simpa [IsNumber] using hdigits
      · cases h
    · cases h
  · rintro ⟨rfl, hwhole, hfraction⟩
    have hdrop : (whole ++ '.' :: fraction).dropWhile isDigit = '.' :: fraction := by
      rw [List.dropWhile_append_of_pos hwhole, List.dropWhile_cons, not_isDigit_point]
      rfl
    have htake : (whole ++ '.' :: fraction).takeWhile isDigit = whole := by
      rw [List.takeWhile_append_of_pos hwhole, List.takeWhile_cons, not_isDigit_point]
      exact List.append_nil _
    have hdigits : (!fraction.isEmpty && fraction.all isDigit) = true := by
      simpa [IsNumber] using hfraction
    rw [hdrop, htake]
    exact if_pos hdigits

/-- The number that digits around a point write. -/
def written (whole fraction : List Char) : ℚ :=
  digitsValue whole + digitsValue fraction / 10 ^ fraction.length

theorem foldl_digits (n : ℕ) (cs : List Char) :
    cs.foldl (fun n c ↦ 10 * n + (digit? c).getD 0) n = n * 10 ^ cs.length + digitsValue cs := by
  unfold digitsValue
  induction cs generalizing n with
  | nil => simp
  | cons c cs ih =>
    rw [List.foldl_cons, List.foldl_cons, ih, ih (10 * 0 + _), List.length_cons]
    ring

theorem digitsValue_append (xs ys : List Char) :
    digitsValue (xs ++ ys) = digitsValue xs * 10 ^ ys.length + digitsValue ys := by
  rw [digitsValue, List.foldl_append, foldl_digits]
  rfl

theorem written_eq (whole fraction : List Char) :
    (digitsValue (whole ++ fraction) : ℚ) * 10 ^ (-(fraction.length : ℤ)) =
      written whole fraction := by
  rw [digitsValue_append, written, zpow_neg, zpow_natCast, ← div_eq_mul_inv]
  push_cast
  rw [add_div, mul_div_cancel_right₀ _ (by positivity)]

/-- A fraction without separators around it is read as the double nearest to what it writes. -/
theorem exists_fraction? (h : ∀ c ∈ cs, isSeparator c = false)
    (hfraction : IsFraction (strip cs) whole fraction) :
    ∃ x, fraction? cs = some x ∧ Binary64.Rounds false (written whole fraction) x := by
  refine ⟨_, ?_, written_eq whole fraction ▸ Binary64.rounds_ofDecimal false _ _⟩
  rw [fraction?, trim_eq_strip h, pointed?_eq_some_iff.mpr hfraction]
  rfl

/-- Nothing with a separator is read. -/
theorem fraction?_eq_none (h : c ∈ cs) (hc : isSeparator c = true) : fraction? cs = none := by
  have hnone : pointed? (trim cs) = none := by
    rw [Option.eq_none_iff_forall_ne_some]
    rintro ⟨whole, fraction⟩ hpointed
    obtain ⟨heq, hwhole, hfraction⟩ := pointed?_eq_some_iff.mp hpointed
    have hmem := mem_trim h (not_isMargin_of_isSeparator hc)
    have hdigit := not_isDigit_of_isSeparator hc
    rw [heq, List.mem_append, List.mem_cons] at hmem
    rcases hmem with hmem | rfl | hmem
    · exact Bool.false_ne_true (hdigit.symm.trans (hwhole c hmem))
    · exact absurd hc (by decide)
    · exact Bool.false_ne_true (hdigit.symm.trans (hfraction.2 c hmem))
  rw [fraction?, hnone]
  rfl

end SearchCriteria.Numeral
