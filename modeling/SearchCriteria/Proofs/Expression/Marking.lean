import SearchCriteria.Proofs.Expression.Truth

/-!
# Marked fragments

A marker goes into the body of a fragment's only key, or beside its keys, and what is marked already
is left as it is.  Without its markers a marked fragment is what it was, whatever it held: a raw
fragment can have markers of its own, one in the place where the marker goes, or nothing at all.
-/

namespace SearchCriteria

open Mapping (entry)
open Fragment (cacheKey)
open Judgement (bare)

theorem Mapping.eraseText_putText (mapping : Mapping) (name : String) (value : Value) :
    (mapping.putText name value).eraseText name = mapping.eraseText name := by
  induction mapping with
  | nil => simp [putText, eraseText, Association.put, Association.erase]
  | cons e rest ih =>
    obtain ⟨k, v⟩ := e
    simp only [putText, eraseText, Association.erase] at ih
    cases hk : k.sameText (.text name) with
    | true => simp [putText, eraseText, Association.put, Association.erase, hk]
    | false => simp [putText, eraseText, Association.put, Association.erase, hk, ih]

namespace Fragment

variable {fragment : Mapping}

/-- The marker is among the keys of the fragment, or in the body of its only key. -/
def IsMarked (fragment : Mapping) : Prop :=
  fragment.getText? cacheKey = some (.bool true) ∨
    ∃ key body, fragment = [(key, .map body)] ∧
      Mapping.getText? body cacheKey = some (.bool true)

theorem isMarked_marked (fragment : Mapping) : IsMarked (marked fragment) := by
  unfold marked
  split
  · exact .inr ⟨_, _, rfl, getText?_putText _ _⟩
  · exact .inl (getText?_putText _ _)

theorem isMarked_cachedNegation (fragment : Mapping) : IsMarked (cachedNegation fragment) :=
  .inl rfl

/-- A body is not the marker. -/
theorem getText?_lone_ne (key : Value) (body : Mapping) :
    Mapping.getText? [(key, .map body)] cacheKey ≠ some (.bool true) := by
  cases hkey : key.sameText (.text cacheKey) <;>
    simp [Mapping.getText?, Association.get?, hkey]

/-- What is marked is left as it is. -/
theorem IsMarked.marked_eq (h : IsMarked fragment) : marked fragment = fragment := by
  rcases h with h | ⟨key, body, rfl, h⟩
  · have hlone : ∀ key body, fragment ≠ [(key, .map body)] := by
      rintro key body rfl
      exact getText?_lone_ne key body h
    rw [marked_of_not_lone hlone]
    exact Association.put_eq_self h
  · exact congrArg (fun b ↦ [(key, Value.map b)]) (Association.put_eq_self h)

/-- A marker is all that is put into a fragment. -/
theorem bare_marked (fragment : Mapping) : bare (marked fragment) = bare fragment := by
  unfold marked
  split
  · exact Judgement.bare_lone _ (Mapping.eraseText_putText _ _ _)
  · rw [bare, Mapping.eraseText_putText, bare]

end Fragment

namespace Expression

variable {e : Expression} {fragment : Mapping}

theorem isMarked_render (h : (cached e).render = .ok fragment) : Fragment.IsMarked fragment := by
  rcases render_cached_eq_ok h with ⟨_, f, -, -, rfl⟩ | ⟨f, -, rfl⟩
  · exact Fragment.isMarked_cachedNegation f
  · exact Fragment.isMarked_marked f

theorem render_cached_cached (e : Expression) : (cached (cached e)).render = (cached e).render := by
  have hne : ∀ node, cached e ≠ .not node := by rintro node ⟨⟩
  rw [render_cached_of_ne_not hne]
  cases h : (cached e).render with
  | error => rfl
  | ok f => exact congrArg Except.ok (isMarked_render h).marked_eq

/--
Marking adds the marker, once.  A marker over a marker adds nothing, and over a negation it comes to
what a negation of it comes to, the marker beside the negated filter.  Over any other node it leaves
a fragment that has the marker, and without markers is the one there was, in the same order.
-/
theorem cached_adds_marker (e : Expression) :
    (cached (cached e)).render = (cached e).render ∧
    (cached (.not e)).render = (Expression.not (.cached e)).render ∧
    (e.Renderable → ∃ f g, e.render = .ok f ∧ (cached e).render = .ok g ∧
      (cached (.not e)).render =
        .ok [entry "not" (.map [entry "filter" (.map f)]), entry "_cache" (.bool true)] ∧
      Fragment.IsMarked g ∧ ((∀ node, e ≠ .not node) → bare g = bare f)) := by
  refine ⟨render_cached_cached e, rfl, fun h ↦ ?_⟩
  obtain ⟨f, hf⟩ := e.exists_render_iff.mpr h
  have hcached : (cached e).Renderable := h
  obtain ⟨g, hg⟩ := (cached e).exists_render_iff.mpr hcached
  refine ⟨f, g, hf, hg, bind_eq_ok.mpr ⟨f, hf, rfl⟩, isMarked_render hg, fun hne ↦ ?_⟩
  rw [render_cached_of_ne_not hne, hf] at hg
  obtain rfl := Except.ok.inj hg
  exact Fragment.bare_marked f

/-- A raw fragment may have a marker of its own, which is then the marker. -/
theorem cached_adds_marker_of_raw :
    let body : Mapping := [entry "_cache" (.bool false), entry "field" (.text "views")]
    let e : Expression := .raw [entry "exists" (.map body)]
    e.Renderable ∧
    ∃ g, (cached e).render = .ok g ∧ (cached (cached e)).render = .ok g ∧
      Fragment.IsMarked g ∧ bare g = [entry "exists" (.map [entry "field" (.text "views")])] := by
  intro body e
  obtain ⟨honce, -, hmarked⟩ := cached_adds_marker e
  obtain ⟨f, g, hf, hg, -, hmarker, hbare⟩ := hmarked trivial
  obtain rfl := Except.ok.inj hf
  have hne : ∀ node, e ≠ .not node := by simp [e]
  exact ⟨trivial, g, hg, honce.trans hg, hmarker, (hbare hne).trans rfl⟩

end Expression

end SearchCriteria
