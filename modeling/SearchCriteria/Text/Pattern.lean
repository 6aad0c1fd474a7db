import SearchCriteria.Text.Blank
import SearchCriteria.Text.Digit

/-!
# Regular patterns

`Pattern.accepts` decides `Pattern.Matches` by following all partial derivatives at once.
-/

namespace SearchCriteria.Text

inductive CharClass where
  | digit
  | blank
  | exactly (c : Char)
deriving DecidableEq

def CharClass.contains : CharClass → Char → Bool
  | .digit, c => isDigit c
  | .blank, c => isBlankChar c
  | .exactly d, c => c == d

inductive Pattern where
  | empty
  | one (cls : CharClass)
  | seq (first second : Pattern)
  | alt (left right : Pattern)
  | star (body : Pattern)
deriving DecidableEq

namespace Pattern

def char (c : Char) : Pattern := .one (.exactly c)

def plus (p : Pattern) : Pattern := .seq p (.star p)

def optional (p : Pattern) : Pattern := .alt .empty p

/-- The texts that a pattern describes. -/
inductive Matches : Pattern → List Char → Prop where
  | empty : Matches .empty []
  | one {cls : CharClass} {c : Char} (h : cls.contains c = true) : Matches (.one cls) [c]
  | seq {p q : Pattern} {xs ys : List Char} (hp : Matches p xs) (hq : Matches q ys) :
      Matches (.seq p q) (xs ++ ys)
  | left {p q : Pattern} {xs : List Char} (h : Matches p xs) : Matches (.alt p q) xs
  | right {p q : Pattern} {xs : List Char} (h : Matches q xs) : Matches (.alt p q) xs
  | done {p : Pattern} : Matches (.star p) []
  | more {p : Pattern} {xs ys : List Char} (hp : Matches p xs) (hs : Matches (.star p) ys) :
      Matches (.star p) (xs ++ ys)

/-- Whether the empty text is described. -/
def nullable : Pattern → Bool
  | .empty => true
  | .one _ => false
  | .seq p q => p.nullable && q.nullable
  | .alt p q => p.nullable || q.nullable
  | .star _ => true

/-- What may follow a first character. -/
def after (c : Char) : Pattern → List Pattern
  | .empty => []
  | .one cls => if cls.contains c then [.empty] else []
  | .seq p q => (after c p).map (.seq · q) ++ if p.nullable then after c q else []
  | .alt p q => after c p ++ after c q
  | .star p => (after c p).map (.seq · (.star p))

def acceptsAny : List Pattern → List Char → Bool
  | ps, [] => ps.any nullable
  | ps, c :: cs => acceptsAny (ps.flatMap (after c)).eraseDups cs

/-- Whether the whole text is described. -/
def accepts (p : Pattern) (cs : List Char) : Bool := acceptsAny [p] cs

theorem nullable_iff (p : Pattern) : p.nullable = true ↔ Matches p [] := by
  induction p with
  | empty => exact ⟨fun _ => .empty, fun _ => rfl⟩
  | one cls => exact ⟨(nomatch ·), (nomatch ·)⟩
  | seq p q ihp ihq =>
    rw [nullable, Bool.and_eq_true, ihp, ihq]
    constructor
    · rintro ⟨hp, hq⟩
      exact .seq hp hq
    · intro h
      generalize hcs : ([] : List Char) = cs at h
      cases h with
      | seq hp hq =>
        obtain ⟨rfl, rfl⟩ := List.append_eq_nil_iff.1 hcs.symm
        exact ⟨hp, hq⟩
  | alt p q ihp ihq =>
    rw [nullable, Bool.or_eq_true, ihp, ihq]
    constructor
    · rintro (h | h)
      · exact .left h
      · exact .right h
    · intro h
      cases h with
      | left h => exact .inl h
      | right h => exact .inr h
  | star p => exact ⟨fun _ => .done, fun _ => rfl⟩

theorem matches_star_cons {p : Pattern} {c : Char} {cs : List Char}
    (h : Matches (.star p) (c :: cs)) :
    ∃ xs ys, cs = xs ++ ys ∧ Matches p (c :: xs) ∧ Matches (.star p) ys := by
  generalize hq : Pattern.star p = q at h
  generalize hcs : c :: cs = text at h
  induction h with
  | @more _ xs ys hp _ _ ihs =>
    cases hq
    cases xs with
    | nil => exact ihs rfl hcs
    | cons x xs =>
      obtain ⟨rfl, rfl⟩ := List.cons.inj hcs
      exact ⟨xs, ys, rfl, hp, ‹_›⟩
  | _ => simp_all

theorem exists_mem_after_iff (p : Pattern) (c : Char) (cs : List Char) :
    (∃ q ∈ after c p, Matches q cs) ↔ Matches p (c :: cs) := by
  induction p generalizing cs with
  | empty =>
    constructor
    · rintro ⟨q, hq, _⟩
      exact nomatch hq
    · intro h
      exact nomatch h
  | one cls =>
    constructor
    · rintro ⟨q, hq, h⟩
      by_cases hc : cls.contains c = true
      · simp only [after, hc, if_true, List.mem_singleton] at hq
        subst hq
        cases h
        exact .one hc
      · simp [after, hc] at hq
    · intro h
      cases h with
      | one hc => exact ⟨.empty, by simp [after, hc], .empty⟩
  | alt p q ihp ihq =>
    constructor
    · rintro ⟨r, hr, h⟩
      rcases List.mem_append.1 hr with hr | hr
      · exact .left ((ihp cs).1 ⟨r, hr, h⟩)
      · exact .right ((ihq cs).1 ⟨r, hr, h⟩)
    · intro h
      cases h with
      | left h =>
        obtain ⟨r, hr, h⟩ := (ihp cs).2 h
        exact ⟨r, List.mem_append.2 (.inl hr), h⟩
      | right h =>
        obtain ⟨r, hr, h⟩ := (ihq cs).2 h
        exact ⟨r, List.mem_append.2 (.inr hr), h⟩
  | seq p q ihp ihq =>
    constructor
    · rintro ⟨r, hr, h⟩
      rcases List.mem_append.1 hr with hr | hr
      · obtain ⟨p', hp', rfl⟩ := List.mem_map.1 hr
        cases h with
        | seq hp hq => exact .seq ((ihp _).1 ⟨p', hp', hp⟩) hq
      · by_cases hn : p.nullable = true
        · rw [if_pos hn] at hr
          exact .seq ((nullable_iff p).1 hn) ((ihq cs).1 ⟨r, hr, h⟩)
        · simp [hn] at hr
    · intro h
      generalize hcs : c :: cs = text at h
      cases h with
      | @seq _ _ xs ys hp hq =>
        cases xs with
        | nil =>
          obtain rfl : c :: cs = ys := hcs
          obtain ⟨r, hr, h⟩ := (ihq cs).2 hq
          refine ⟨r, List.mem_append.2 (.inr ?_), h⟩
          rwa [if_pos ((nullable_iff p).2 hp)]
        | cons x xs =>
          obtain ⟨rfl, rfl⟩ := List.cons.inj hcs
          obtain ⟨r, hr, h⟩ := (ihp xs).2 hp
          refine ⟨.seq r q, List.mem_append.2 (.inl ?_), .seq h hq⟩
          exact List.mem_map.2 ⟨r, hr, rfl⟩
  | star p ih =>
    constructor
    · rintro ⟨r, hr, h⟩
      obtain ⟨p', hp', rfl⟩ := List.mem_map.1 hr
      cases h with
      | seq hp hs => exact .more ((ih _).1 ⟨p', hp', hp⟩) hs
    · intro h
      obtain ⟨xs, ys, rfl, hp, hs⟩ := matches_star_cons h
      obtain ⟨r, hr, h⟩ := (ih xs).2 hp
      exact ⟨.seq r (.star p), List.mem_map.2 ⟨r, hr, rfl⟩, .seq h hs⟩

theorem acceptsAny_iff (ps : List Pattern) (cs : List Char) :
    acceptsAny ps cs = true ↔ ∃ p ∈ ps, Matches p cs := by
  induction cs generalizing ps with
  | nil => simp [acceptsAny, nullable_iff]
  | cons c cs ih =>
    rw [acceptsAny, ih]
    constructor
    · rintro ⟨q, hq, h⟩
      obtain ⟨p, hp, hq⟩ := List.mem_flatMap.1 (List.mem_eraseDups.1 hq)
      exact ⟨p, hp, (exists_mem_after_iff p c cs).1 ⟨q, hq, h⟩⟩
    · rintro ⟨p, hp, h⟩
      obtain ⟨q, hq, h⟩ := (exists_mem_after_iff p c cs).2 h
      exact ⟨q, List.mem_eraseDups.2 (List.mem_flatMap.2 ⟨p, hp, hq⟩), h⟩

theorem accepts_iff (p : Pattern) (cs : List Char) : p.accepts cs = true ↔ Matches p cs := by
  simp [accepts, acceptsAny_iff]

end Pattern

end SearchCriteria.Text
