import SearchCriteria.Expression.Render
import SearchCriteria.Proofs.Patch

/-!
# What can be rendered

A node renders unless there is a base node somewhere in it, or a script whose parameters do not come
down to a mapping.  A mapping does, and so do pairs whose names can be keys.
-/

namespace SearchCriteria

mutual

/-- No base node is in the node, and the parameters of every script can be read. -/
def Expression.Renderable : Expression → Prop
  | .base => False
  | .script _ params => params.truthy = true → ∃ named, Mapping.ofValue params = .ok named
  | .and nodes | .or nodes => RenderableNodes nodes
  | .not node | .cached node => node.Renderable
  | .term _ _ | .range _ _ | .present _ | .raw _ | .lookup _ => True
termination_by structural e => e

def RenderableNodes : List Expression → Prop
  | [] => True
  | e :: es => e.Renderable ∧ RenderableNodes es
termination_by structural es => es

end

theorem exists_scriptBody_iff (source : String) (params : Value) :
    (∃ body, scriptBody source params = .ok body) ↔
      (params.truthy = true → ∃ named, Mapping.ofValue params = .ok named) := by
  unfold scriptBody
  cases params.truthy with
  | false => simp
  | true =>
    cases Mapping.ofValue params with
    | error => simp [bind, Except.bind]
    | ok => simp [bind, Except.bind, pure, Except.pure]

/-- What is made of a fragment that is there leaves it to the fragment whether it is there. -/
theorem exists_bind_pure {α β ε : Type} (x : Except ε α) (f : α → β) :
    (∃ b, (do return f (← x)) = Except.ok b) ↔ ∃ a, x = .ok a := by
  cases x <;> simp [bind, Except.bind, pure, Except.pure]

mutual

/-- A node renders exactly if it is renderable. -/
theorem Expression.exists_render_iff : ∀ e : Expression, (∃ f, e.render = .ok f) ↔ e.Renderable
  | .base => by simp [Expression.render, Expression.Renderable]
  | .term _ _ | .range _ _ | .present _ | .raw _ | .lookup _ => by
    simp [Expression.render, Expression.Renderable]
  | .script source params => by
    rw [Expression.Renderable, ← exists_scriptBody_iff source]
    exact exists_bind_pure _ _
  | .and nodes | .or nodes => by
    rw [Expression.Renderable, ← exists_renderNodes_iff nodes]
    exact exists_bind_pure _ _
  | .not node => by
    rw [Expression.Renderable]
    cases node with
    -- a negation and a marker render to one fragment together
    | cached inner =>
      rw [Expression.Renderable, ← inner.exists_render_iff]
      exact exists_bind_pure _ _
    | _ =>
      rw [← Expression.exists_render_iff]
      exact exists_bind_pure _ _
  | .cached node => by
    rw [Expression.Renderable]
    cases node with
    | not inner =>
      rw [Expression.Renderable, ← inner.exists_render_iff]
      exact exists_bind_pure _ _
    | _ =>
      rw [← Expression.exists_render_iff]
      exact exists_bind_pure _ _

theorem exists_renderNodes_iff : ∀ es : List Expression,
    (∃ fs, renderNodes es = .ok fs) ↔ RenderableNodes es
  | [] => by simp [renderNodes, RenderableNodes]
  | e :: es => by
    rw [RenderableNodes, ← e.exists_render_iff, ← exists_renderNodes_iff es, renderNodes]
    constructor
    · rintro ⟨fs, h⟩
      obtain ⟨f, hf, h⟩ := bind_eq_ok.mp h
      obtain ⟨rest, hrest, -⟩ := bind_eq_ok.mp h
      exact ⟨⟨f, hf⟩, rest, hrest⟩
    · rintro ⟨⟨f, hf⟩, rest, hrest⟩
      exact ⟨f :: rest, bind_eq_ok.mpr ⟨f, hf, bind_eq_ok.mpr ⟨rest, hrest, rfl⟩⟩⟩

end

/-- Nodes in a row render one after the other. -/
theorem renderNodes_append (xs ys : List Expression) :
    renderNodes (xs ++ ys) = do
      let fs ← renderNodes xs
      let gs ← renderNodes ys
      return fs ++ gs := by
  induction xs with
  | nil =>
    rw [List.nil_append, renderNodes]
    cases renderNodes ys <;> rfl
  | cons x xs ih =>
    rw [List.cons_append, renderNodes, renderNodes, ih]
    cases x.render with
    | error => rfl
    | ok f =>
      cases renderNodes xs with
      | error => rfl
      | ok fs => cases renderNodes ys <;> rfl

/-! ## Negations and markers -/

/-- The marker is beside the keys unless there is one key, with a body to hold it. -/
theorem Fragment.marked_of_not_lone {fragment : Mapping}
    (h : ∀ key body, fragment ≠ [(key, .map body)]) :
    marked fragment = fragment.putText cacheKey (.bool true) := by
  unfold marked
  split
  · exact absurd rfl (h _ _)
  · rfl

/-- A negation is rendered with the marker that it may be about, or by itself. -/
theorem Expression.render_not_eq_ok {node : Expression} {fragment : Mapping}
    (h : (Expression.not node).render = .ok fragment) :
    (∃ inner f, node = .cached inner ∧ inner.render = .ok f ∧
      fragment = Fragment.cachedNegation f) ∨
    ∃ f, node.render = .ok f ∧ fragment = Fragment.negation f := by
  cases node with
  | cached inner =>
    obtain ⟨f, hf, h⟩ := bind_eq_ok.mp h
    exact .inl ⟨inner, f, rfl, hf, (Except.ok.inj h).symm⟩
  | _ =>
    obtain ⟨f, hf, h⟩ := bind_eq_ok.mp h
    exact .inr ⟨f, hf, (Except.ok.inj h).symm⟩

theorem Expression.render_cached_eq_ok {node : Expression} {fragment : Mapping}
    (h : (Expression.cached node).render = .ok fragment) :
    (∃ inner f, node = .not inner ∧ inner.render = .ok f ∧
      fragment = Fragment.cachedNegation f) ∨
    ∃ f, node.render = .ok f ∧ fragment = Fragment.marked f := by
  cases node with
  | not inner =>
    obtain ⟨f, hf, h⟩ := bind_eq_ok.mp h
    exact .inl ⟨inner, f, rfl, hf, (Except.ok.inj h).symm⟩
  | _ =>
    obtain ⟨f, hf, h⟩ := bind_eq_ok.mp h
    exact .inr ⟨f, hf, (Except.ok.inj h).symm⟩

theorem Expression.render_not_of_ne_cached {x : Expression} (h : ∀ e, x ≠ .cached e) :
    (Expression.not x).render = do return Fragment.negation (← x.render) := by
  cases x with
  | cached e => exact absurd rfl (h e)
  | _ => rfl

theorem Expression.render_cached_of_ne_not {x : Expression} (h : ∀ e, x ≠ .not e) :
    (Expression.cached x).render = do return Fragment.marked (← x.render) := by
  cases x with
  | not e => exact absurd rfl (h e)
  | _ => rfl

/-! ## Entries -/

namespace Value

/-- Two parts, the first of them fit to be a name. -/
def IsEntry (v : Value) : Prop :=
  ∃ name value, v.elements? = some [name, value] ∧ name.unhashable? = none

/-- A mapping, or entries in any collection. -/
def GivesEntries : Value → Prop
  | .map _ => True
  | v => ∃ entries, v.elements? = some entries ∧ ∀ e ∈ entries, e.IsEntry

/-- A list or a tuple of a name and a value. -/
def IsPair : Value → Prop
  | .list [name, _] | .tuple [name, _] => name.unhashable? = none
  | _ => False

/-- A mapping, or a row of pairs. -/
def Paired : Value → Prop
  | .map _ => True
  | .list pairs | .tuple pairs => ∀ p ∈ pairs, p.IsPair
  | _ => False

theorem IsPair.isEntry {p : Value} (h : p.IsPair) : p.IsEntry := by
  unfold IsPair at h
  split at h
  · exact ⟨_, _, rfl, h⟩
  · exact ⟨_, _, rfl, h⟩
  · exact h.elim

theorem Paired.givesEntries {v : Value} (h : v.Paired) : v.GivesEntries := by
  cases v with
  | map => trivial
  | list pairs | tuple pairs => exact ⟨pairs, rfl, fun p hp ↦ (h p hp).isEntry⟩
  | _ => exact h.elim

/-! ### Reading entries -/

/-- The two parts of a pair, in the order in which it yields them. -/
def parts? (v : Value) : Option (Value × Value) :=
  match v.elements? with
  | some [name, value] => some (name, value)
  | _ => none

theorem isEntry_iff {v : Value} : v.IsEntry ↔ ∃ e, v.parts? = some e ∧ e.1.unhashable? = none := by
  unfold parts?
  constructor
  · rintro ⟨name, value, h, hname⟩
    exact ⟨(name, value), by rw [h], hname⟩
  · rintro ⟨e, h, hname⟩
    split at h
    · rename_i helements
      obtain rfl := Option.some.inj h
      exact ⟨_, _, helements, hname⟩
    · cases h

end Value

namespace Mapping

variable {m n : Mapping} {ps : List Value} {v : Value}

theorem entryOf_eq_ok_iff {p : Value} {e : Value × Value} {i : Nat} :
    entryOf i p = .ok e ↔ p.parts? = some e := by
  unfold entryOf Value.parts?
  split <;> simp_all

theorem insert_eq_ok_iff {key value : Value} :
    m.insert key value = .ok n ↔ key.unhashable? = none ∧ n = m.put key value := by
  unfold insert
  rw [bind_eq_ok, ← Value.requireHashable_eq_ok_iff]
  constructor
  · rintro ⟨⟨⟩, hkey, hn⟩
    exact ⟨hkey, (Except.ok.inj hn).symm⟩
  · rintro ⟨hkey, rfl⟩
    exact ⟨(), hkey, rfl⟩

/-- Each has to be a pair, with a name that can be a key, and goes over the ones before it. -/
theorem putPairs_eq_ok_iff {i : Nat} : m.putPairs i ps = .ok n ↔
    (∀ p ∈ ps, p.IsEntry) ∧ n = m.overlay (ps.filterMap Value.parts?) := by
  induction ps generalizing m n i with
  | nil =>
    refine ⟨fun h ↦ ⟨fun _ hp ↦ absurd hp List.not_mem_nil, (Except.ok.inj h).symm⟩, ?_⟩
    rintro ⟨-, rfl⟩
    rfl
  | cons p ps ih =>
    rw [putPairs, bind_eq_ok, List.forall_mem_cons, Value.isEntry_iff]
    constructor
    · rintro ⟨e, he, h⟩
      obtain ⟨_, hput, h⟩ := bind_eq_ok.mp h
      obtain ⟨hname, rfl⟩ := insert_eq_ok_iff.mp hput
      obtain ⟨hrest, rfl⟩ := ih.mp h
      have hparts := entryOf_eq_ok_iff.mp he
      rw [List.filterMap_cons_some hparts]
      exact ⟨⟨⟨e, hparts, hname⟩, hrest⟩, rfl⟩
    · rintro ⟨⟨⟨e, hparts, hname⟩, hrest⟩, rfl⟩
      rw [List.filterMap_cons_some hparts]
      refine ⟨e, entryOf_eq_ok_iff.mpr hparts, bind_eq_ok.mpr ⟨_, ?_, ih.mpr ⟨hrest, rfl⟩⟩⟩
      exact insert_eq_ok_iff.mpr ⟨hname, rfl⟩

/-- What is read of anything but a mapping is made of its pairs. -/
theorem ofValue_eq_ok_iff (h : v.elements? = some ps) (hmap : ∀ entries, v ≠ .map entries) :
    ofValue v = .ok n ↔
      (∀ p ∈ ps, p.IsEntry) ∧ n = overlay [] (ps.filterMap Value.parts?) := by
  have hread : ofValue v = putPairs [] 0 ps := by
    cases v with
    | map entries => exact absurd rfl (hmap entries)
    | _ =>
      change (do putPairs [] 0 (← Value.elements _)) = _
      rw [Value.elements, h]
      rfl
  rw [hread, putPairs_eq_ok_iff]

theorem exists_ofValue_iff (h : v.elements? = some ps) (hmap : ∀ entries, v ≠ .map entries) :
    (∃ m, ofValue v = .ok m) ↔ ∀ p ∈ ps, p.IsEntry := by
  simp only [ofValue_eq_ok_iff h hmap, exists_and_left, exists_eq, and_true]

end Mapping

theorem Value.GivesEntries.exists_ofValue {v : Value} (h : v.GivesEntries) :
    ∃ m, Mapping.ofValue v = .ok m := by
  cases v with
  | map entries => exact ⟨entries, rfl⟩
  | _ =>
    obtain ⟨entries, helements, hentries⟩ := h
    exact (Mapping.exists_ofValue_iff helements (by nofun)).mpr hentries

/-! ## Sound nodes -/

mutual

/-- No base node is in the node, and the parameters of every script are paired. -/
def Expression.Sound : Expression → Prop
  | .base => False
  | .script _ params => params.Paired
  | .and nodes | .or nodes => SoundNodes nodes
  | .not node | .cached node => node.Sound
  | .term _ _ | .range _ _ | .present _ | .raw _ | .lookup _ => True
termination_by structural e => e

def SoundNodes : List Expression → Prop
  | [] => True
  | e :: es => e.Sound ∧ SoundNodes es
termination_by structural es => es

end

mutual

theorem Expression.Sound.renderable : ∀ {e : Expression}, e.Sound → e.Renderable
  | .base, h => h.elim
  | .script _ _, h => fun _ ↦ h.givesEntries.exists_ofValue
  | .and _, h | .or _, h => SoundNodes.renderable h
  | .not node, h | .cached node, h => Expression.Sound.renderable (e := node) h
  | .term _ _, _ | .range _ _, _ | .present _, _ | .raw _, _ | .lookup _, _ => trivial

theorem SoundNodes.renderable : ∀ {es : List Expression}, SoundNodes es → RenderableNodes es
  | [], _ => trivial
  | _ :: _, ⟨he, hes⟩ => ⟨he.renderable, SoundNodes.renderable hes⟩

end

end SearchCriteria
