import SearchCriteria.Proofs.Number.Reading
import SearchCriteria.Proofs.Search.Modes
import SearchCriteria.Proofs.Text.Pattern

/-!
# The grammar of join modes

Text is a mode if it is one of the names or, without the blanks around it, a count or a row of
conditions, cut in whatever way.  A fraction becomes the double nearest to it.  The blanks around a
fraction are those of a numeral, though, and the four information separators are none of them:
a fraction between such blanks has the form, and cannot be read.
-/

namespace SearchCriteria

open Text

/-! ## Forms -/

namespace JoinMode

open Numeral (IsNumber IsFraction not_isDigit_point written isSeparator)

/-- `-?D+%?` -/
def IsCount (cs : List Char) : Prop :=
  ∃ sign digits percent, cs = sign ++ digits ++ percent ∧ (sign = [] ∨ sign = ['-']) ∧
    IsNumber digits ∧ (percent = [] ∨ percent = ['%'])

/-- `D+<-?D+%?W*` -/
def IsCondition (cs : List Char) : Prop :=
  ∃ digits count blanks, cs = digits ++ '<' :: (count ++ blanks) ∧ IsNumber digits ∧
    IsCount count ∧ ∀ c ∈ blanks, isBlankChar c = true

/-- One condition or more, with nothing between them. -/
def IsConditions (cs : List Char) : Prop :=
  ∃ parts ≠ [], cs = List.flatten parts ∧ ∀ part ∈ parts, IsCondition part

variable {cs whole fraction : List Char} {s : String}

open Text.Pattern (Matches matches_seq_iff matches_alt_iff matches_optional_iff matches_char_iff
  matches_plus_iff matches_star_one_iff matches_plus_one_iff)

theorem matches_number_iff : Matches (.plus (.one .digit)) cs ↔ IsNumber cs := matches_plus_one_iff

theorem matches_countPattern_iff : Matches countPattern cs ↔ IsCount cs := by
  simp only [countPattern, matches_seq_iff, matches_optional_iff, matches_char_iff,
    matches_number_iff]
  constructor
  · rintro ⟨sign, _, rfl, hsign, digits, percent, rfl, hdigits, hpercent⟩
    exact ⟨sign, digits, percent, (List.append_assoc _ _ _).symm, hsign, hdigits, hpercent⟩
  · rintro ⟨sign, digits, percent, rfl, hsign, hdigits, hpercent⟩
    exact ⟨sign, _, List.append_assoc _ _ _, hsign, digits, percent, rfl, hdigits, hpercent⟩

theorem matches_conditionPattern_iff : Matches conditionPattern cs ↔ IsCondition cs := by
  simp only [conditionPattern, matches_seq_iff, matches_char_iff, matches_number_iff,
    matches_countPattern_iff, matches_star_one_iff]
  constructor
  · rintro ⟨digits, _, rfl, hdigits, _, _, rfl, rfl, count, blanks, rfl, hcount, hblanks⟩
    exact ⟨digits, count, blanks, rfl, hdigits, hcount, hblanks⟩
  · rintro ⟨digits, count, blanks, rfl, hdigits, hcount, hblanks⟩
    exact ⟨digits, _, rfl, hdigits, ['<'], _, rfl, rfl, count, blanks, rfl, hcount, hblanks⟩

theorem matches_minimumPattern_iff :
    Matches minimumPattern cs ↔ IsCount cs ∨ IsConditions cs := by
  simp only [minimumPattern, matches_alt_iff, matches_countPattern_iff, matches_plus_iff,
    matches_conditionPattern_iff, IsConditions]

theorem matches_fractionPattern_iff :
    Matches fractionPattern cs ↔ ∃ whole fraction, IsFraction cs whole fraction := by
  simp only [fractionPattern, matches_seq_iff, matches_char_iff, matches_number_iff,
    matches_star_one_iff]
  constructor
  · rintro ⟨whole, _, rfl, hwhole, _, fraction, rfl, rfl, hfraction⟩
    exact ⟨whole, fraction, rfl, hwhole, hfraction⟩
  · rintro ⟨whole, fraction, rfl, hwhole, hfraction⟩
    exact ⟨whole, _, rfl, hwhole, ['.'], fraction, rfl, rfl, hfraction⟩

/-! ## Forms apart -/

theorem point_not_mem_of_digits (h : ∀ c ∈ cs, isDigit c = true) : '.' ∉ cs := fun hmem ↦
  Bool.false_ne_true (not_isDigit_point.symm.trans (h '.' hmem))

theorem IsCount.point_not_mem (h : IsCount cs) : '.' ∉ cs := by
  obtain ⟨sign, digits, percent, rfl, hsign, hdigits, hpercent⟩ := h
  have hmiddle := point_not_mem_of_digits hdigits.2
  rcases hsign with rfl | rfl <;> rcases hpercent with rfl | rfl <;> simpa using hmiddle

theorem IsCondition.point_not_mem (h : IsCondition cs) : '.' ∉ cs := by
  obtain ⟨digits, count, blanks, rfl, hdigits, hcount, hblanks⟩ := h
  have hfirst := point_not_mem_of_digits hdigits.2
  have hlast : '.' ∉ blanks := fun hmem ↦ absurd (hblanks '.' hmem) (by decide)
  simpa [hfirst, hlast] using hcount.point_not_mem

theorem IsConditions.point_not_mem (h : IsConditions cs) : '.' ∉ cs := by
  obtain ⟨parts, -, rfl, hparts⟩ := h
  intro hmem
  obtain ⟨part, hpart, hpoint⟩ := List.mem_flatten.mp hmem
  exact (hparts part hpart).point_not_mem hpoint

theorem name_point_not_mem (m : JoinMode) : '.' ∉ strip m.name.toList := by
  cases m <;> decide

theorem point_mem_of_fraction (h : IsFraction cs whole fraction) : '.' ∈ cs := by
  rw [h.eq]
  exact List.mem_append_right _ List.mem_cons_self

/-! ## What is accepted -/

/-- What text stands for. -/
theorem checkText_eq (s : String) :
    checkText s =
      if (ofName? s).isSome || minimumPattern.accepts (strip s.toList) then .ok (.text s)
      else if fractionPattern.accepts (strip s.toList) then
        (Numeral.fraction? s.toList).elim (.error (.unreadable s)) fun x ↦ .ok (.real x)
      else .error (.invalid (.text s)) := by
  unfold checkText
  dsimp only
  cases Numeral.fraction? s.toList <;> rfl

theorem stays_iff :
    ((ofName? s).isSome || minimumPattern.accepts (strip s.toList)) = true ↔
      (∃ m : JoinMode, s = m.name) ∨ IsCount (strip s.toList) ∨ IsConditions (strip s.toList) := by
  rw [Bool.or_eq_true, Text.Pattern.accepts_iff, matches_minimumPattern_iff]
  refine or_congr_left ⟨fun h ↦ ?_, ?_⟩
  · obtain ⟨m, hm⟩ := Option.isSome_iff_exists.mp h
    exact ⟨m, eq_name_of_ofName? hm⟩
  · rintro ⟨m, rfl⟩
    rw [ofName?_name]
    rfl

/-- No text is a fraction and stays as it is. -/
theorem not_stays_of_fraction (h : IsFraction (strip s.toList) whole fraction) :
    ¬ ((∃ m : JoinMode, s = m.name) ∨ IsCount (strip s.toList) ∨
      IsConditions (strip s.toList)) := by
  have hpoint := point_mem_of_fraction h
  rintro (⟨m, rfl⟩ | hcount | hconditions)
  · exact name_point_not_mem m hpoint
  · exact hcount.point_not_mem hpoint
  · exact hconditions.point_not_mem hpoint

theorem checkText_of_fraction (h : IsFraction (strip s.toList) whole fraction) :
    checkText s =
      (Numeral.fraction? s.toList).elim (.error (.unreadable s)) fun x ↦ .ok (.real x) := by
  have haccepts := (Text.Pattern.accepts_iff _ _).mpr
    (matches_fractionPattern_iff.mpr ⟨whole, fraction, h⟩)
  rw [checkText_eq, if_neg (mt stays_iff.mp (not_stays_of_fraction h)), if_pos haccepts]

/--
Values are checked against the grammar.  The names, and text that is a count or a row of conditions
without the blanks around it, stay as they are; a fraction becomes the double nearest to what it
writes, unless a separator stands around it, which is never read; other text is refused.  Numbers
stay as they are, other values are refused, and what is accepted is accepted again as it is.
-/
theorem check_grammar (s : String) (v mode : Value) :
    ((∃ m : JoinMode, s = m.name) ∨ IsCount (strip s.toList) ∨ IsConditions (strip s.toList) →
      check (.text s) = .ok (.text s)) ∧
    (∀ whole fraction, IsFraction (strip s.toList) whole fraction →
      ((∀ c ∈ s.toList, isSeparator c = false) →
        ∃ x, check (.text s) = .ok (.real x) ∧
          Binary64.Rounds false (written whole fraction) x) ∧
      ((∃ c ∈ s.toList, isSeparator c = true) →
        check (.text s) = .error (.unreadable s))) ∧
    (¬ ((∃ m : JoinMode, s = m.name) ∨ IsCount (strip s.toList) ∨
        IsConditions (strip s.toList)) →
      (¬ ∃ whole fraction, IsFraction (strip s.toList) whole fraction) →
      check (.text s) = .error (.invalid (.text s))) ∧
    (∀ i, check (.int i) = .ok (.int i)) ∧ (∀ x, check (.real x) = .ok (.real x)) ∧
    ((∀ s, v ≠ .text s) → (∀ i, v ≠ .int i) → (∀ x, v ≠ .real x) →
      check v = .error (.invalid v)) ∧
    (check v = .ok mode → check mode = .ok mode) := by
  refine ⟨fun h ↦ ?_, fun whole fraction h ↦ ⟨fun hplain ↦ ?_, ?_⟩, fun hstays hother ↦ ?_,
    fun _ ↦ rfl, fun _ ↦ rfl, fun htext hint hreal ↦ ?_, check_of_check⟩
  · exact (checkText_eq s).trans (if_pos (stays_iff.mpr h))
  · obtain ⟨x, hx, hrounds⟩ := Numeral.exists_fraction? hplain h
    refine ⟨x, ?_, hrounds⟩
    change checkText s = _
    rw [checkText_of_fraction h, hx]
    rfl
  · rintro ⟨c, hmem, hc⟩
    change checkText s = _
    rw [checkText_of_fraction h, Numeral.fraction?_eq_none hmem hc]
    rfl
  · change checkText s = _
    have hrefused := mt ((Text.Pattern.accepts_iff _ _).trans matches_fractionPattern_iff).mp hother
    rw [checkText_eq, if_neg (mt stays_iff.mp hstays), if_neg hrefused]
  · cases v with
    | text s => exact absurd rfl (htext s)
    | int i => exact absurd rfl (hint i)
    | real x => exact absurd rfl (hreal x)
    | _ => rfl

/-- Two conditions with nothing between them stay, and one and a half is read. -/
theorem check_grammar_of_row :
    let row := " 3<905<4"
    let number := "1.5\n"
    IsConditions (strip row.toList) ∧ IsFraction (strip number.toList) ['1'] ['5'] ∧
      check (.text row) = .ok (.text row) ∧
      ∃ x, check (.text number) = .ok (.real x) ∧ Binary64.Rounds false (3 / 2) x := by
  intro row number
  have hcount {digits : List Char} (h : IsNumber digits) : IsCount digits :=
    ⟨[], digits, [], (List.append_nil _).symm, .inl rfl, h, .inl rfl⟩
  have hcondition {digits count : List Char} (hdigits : IsNumber digits) (h : IsNumber count) :
      IsCondition (digits ++ '<' :: (count ++ [])) :=
    ⟨digits, count, [], rfl, hdigits, hcount h, fun _ h ↦ absurd h List.not_mem_nil⟩
  have hrow : IsConditions (strip row.toList) := by
    refine ⟨[['3', '<', '9', '0'], ['5', '<', '4']], List.cons_ne_nil _ _, by decide, ?_⟩
    refine List.forall_mem_cons.mpr ⟨?_, List.forall_mem_singleton.mpr ?_⟩
    · exact hcondition (by decide : IsNumber ['3']) (by decide : IsNumber ['9', '0'])
    · exact hcondition (by decide : IsNumber ['5']) (by decide : IsNumber ['4'])
  have hfraction : IsFraction (strip number.toList) ['1'] ['5'] :=
    ⟨by decide, List.all_eq_true.mp rfl, by decide⟩
  obtain ⟨hstays, -⟩ := check_grammar row (.text row) (.text row)
  obtain ⟨-, hread, -⟩ := check_grammar number (.text number) (.text number)
  obtain ⟨x, hx, hrounds⟩ := (hread _ _ hfraction).1 (by simp [number, isSeparator])
  have hone : digitsValue ['1'] = 1 := by decide
  have hfive : digitsValue ['5'] = 5 := by decide
  have hwritten : written ['1'] ['5'] = 3 / 2 := by
    rw [written, hone, hfive]
    norm_num
  exact ⟨hrow, hfraction, hstays (.inr (.inr hrow)), x, hx, hwritten ▸ hrounds⟩

/-- A half behind a separator has the form of a fraction, and is not read. -/
theorem fraction_behind_separator :
    let s := "\x1c.5"
    IsFraction (strip s.toList) [] ['5'] ∧ check (.text s) = .error (.unreadable s) := by
  intro s
  have hfraction : IsFraction (strip s.toList) [] ['5'] :=
    ⟨by decide, fun _ h ↦ absurd h List.not_mem_nil, by decide⟩
  refine ⟨hfraction, (checkText_of_fraction hfraction).trans ?_⟩
  have hseparator : '\x1c' ∈ s.toList := by decide
  rw [Numeral.fraction?_eq_none hseparator (by decide)]
  rfl

end JoinMode

end SearchCriteria
