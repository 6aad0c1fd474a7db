import SearchCriteria.Text.Pattern

/-!
# What patterns describe

One equation for each way to put a pattern together.  A repetition describes the texts that can be
cut into parts that its body describes, in whatever way.
-/

namespace SearchCriteria.Text.Pattern

variable {p q : Pattern} {cls : CharClass} {c : Char} {cs : List Char}

theorem matches_empty_iff : Matches .empty cs ↔ cs = [] := by
  constructor
  · rintro ⟨⟩
    rfl
  · rintro rfl
    exact .empty

theorem matches_one_iff : Matches (.one cls) cs ↔ ∃ c, cs = [c] ∧ cls.contains c = true := by
  constructor
  · intro h
    cases h with
    | one h => exact ⟨_, rfl, h⟩
  · rintro ⟨c, rfl, h⟩
    exact .one h

theorem matches_char_iff : Matches (char c) cs ↔ cs = [c] := by
  simp [char, matches_one_iff, CharClass.contains]

theorem matches_seq_iff :
    Matches (.seq p q) cs ↔ ∃ xs ys, cs = xs ++ ys ∧ Matches p xs ∧ Matches q ys := by
  constructor
  · intro h
    cases h with
    | seq hp hq => exact ⟨_, _, rfl, hp, hq⟩
  · rintro ⟨xs, ys, rfl, hp, hq⟩
    exact .seq hp hq

theorem matches_alt_iff : Matches (.alt p q) cs ↔ Matches p cs ∨ Matches q cs := by
  constructor
  · intro h
    cases h with
    | left h => exact .inl h
    | right h => exact .inr h
  · rintro (h | h)
    · exact .left h
    · exact .right h

theorem matches_optional_iff : Matches (optional p) cs ↔ cs = [] ∨ Matches p cs :=
  matches_alt_iff.trans (or_congr_left matches_empty_iff)

theorem exists_parts_of_star (h : Matches (.star p) cs) :
    ∃ parts, cs = List.flatten parts ∧ ∀ part ∈ parts, Matches p part := by
  generalize hq : Pattern.star p = q at h
  induction h with
  | done => exact ⟨[], rfl, fun _ h ↦ absurd h List.not_mem_nil⟩
  | @more _ xs ys hp _ _ ih =>
    cases hq
    obtain ⟨parts, rfl, hparts⟩ := ih rfl
    exact ⟨xs :: parts, rfl, List.forall_mem_cons.mpr ⟨hp, hparts⟩⟩
  | _ => cases hq

theorem matches_star_flatten {parts : List (List Char)} (h : ∀ part ∈ parts, Matches p part) :
    Matches (.star p) parts.flatten := by
  induction parts with
  | nil => exact .done
  | cons part parts ih =>
    obtain ⟨hpart, hparts⟩ := List.forall_mem_cons.mp h
    exact .more hpart (ih hparts)

theorem matches_star_iff :
    Matches (.star p) cs ↔ ∃ parts, cs = List.flatten parts ∧ ∀ part ∈ parts, Matches p part := by
  refine ⟨exists_parts_of_star, ?_⟩
  rintro ⟨parts, rfl, h⟩
  exact matches_star_flatten h

theorem matches_plus_iff :
    Matches (plus p) cs ↔
      ∃ parts ≠ [], cs = List.flatten parts ∧ ∀ part ∈ parts, Matches p part := by
  rw [plus, matches_seq_iff]
  constructor
  · rintro ⟨xs, ys, rfl, hxs, hys⟩
    obtain ⟨parts, rfl, hparts⟩ := matches_star_iff.mp hys
    exact ⟨xs :: parts, List.cons_ne_nil _ _, rfl, List.forall_mem_cons.mpr ⟨hxs, hparts⟩⟩
  · rintro ⟨_ | ⟨part, parts⟩, hne, rfl, h⟩
    · exact absurd rfl hne
    · obtain ⟨hpart, hparts⟩ := List.forall_mem_cons.mp h
      exact ⟨part, parts.flatten, rfl, hpart, matches_star_iff.mpr ⟨parts, rfl, hparts⟩⟩

/-- A row of characters of a class. -/
theorem matches_star_one_iff :
    Matches (.star (.one cls)) cs ↔ ∀ c ∈ cs, cls.contains c = true := by
  constructor
  · intro h
    obtain ⟨parts, rfl, hparts⟩ := matches_star_iff.mp h
    intro c hc
    obtain ⟨part, hpart, hc⟩ := List.mem_flatten.mp hc
    obtain ⟨d, rfl, hd⟩ := matches_one_iff.mp (hparts part hpart)
    exact List.mem_singleton.mp hc ▸ hd
  · intro h
    induction cs with
    | nil => exact .done
    | cons c cs ih =>
      obtain ⟨hc, hcs⟩ := List.forall_mem_cons.mp h
      exact .more (.one hc) (ih hcs)

theorem matches_plus_one_iff :
    Matches (plus (.one cls)) cs ↔ cs ≠ [] ∧ ∀ c ∈ cs, cls.contains c = true := by
  rw [plus, matches_seq_iff]
  constructor
  · rintro ⟨xs, ys, rfl, hxs, hys⟩
    obtain ⟨c, rfl, hc⟩ := matches_one_iff.mp hxs
    exact ⟨List.cons_ne_nil _ _, List.forall_mem_cons.mpr ⟨hc, matches_star_one_iff.mp hys⟩⟩
  · rintro ⟨hne, h⟩
    cases cs with
    | nil => exact absurd rfl hne
    | cons c cs =>
      obtain ⟨hc, hcs⟩ := List.forall_mem_cons.mp h
      exact ⟨[c], cs, rfl, .one hc, matches_star_one_iff.mpr hcs⟩

end SearchCriteria.Text.Pattern
