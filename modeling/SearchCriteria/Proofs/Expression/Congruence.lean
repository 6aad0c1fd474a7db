import SearchCriteria.Proofs.Expression.Agreement
import SearchCriteria.Proofs.Expression.Operators

/-!
# Nodes that are alike, put together

Equality of nodes is a congruence: alike nodes stand for alike fragments, and they still do so when
an operator has put the same node beside both of them, has negated both or has marked both.  Where
one of them cannot be rendered the other cannot either.  What carries this through the operators is
that they look at the kind of a node, which equality does not change, and that a row of fragments is
joined in the order of the nodes.
-/

namespace SearchCriteria

open Mapping (entry)

/-! ## Outcomes -/

/-- Results that are related, or no result on either side. -/
inductive SameOutcome {α : Type} (r : α → α → Prop) : Except Fault α → Except Fault α → Prop
  | ok {a b : α} (h : r a b) : SameOutcome r (.ok a) (.ok b)
  | error (s t : Fault) : SameOutcome r (.error s) (.error t)

namespace SameOutcome

variable {α β : Type} {r : α → α → Prop} {s : β → β → Prop} {x y : Except Fault α}

theorem of_iff (hiff : (∃ a, x = .ok a) ↔ ∃ b, y = .ok b)
    (h : ∀ a b, x = .ok a → y = .ok b → r a b) : SameOutcome r x y := by
  cases x with
  | ok a =>
    obtain ⟨b, rfl⟩ := hiff.mp ⟨a, rfl⟩
    exact .ok (h a b rfl rfl)
  | error t =>
    cases y with
    | ok b => exact nomatch hiff.mpr ⟨b, rfl⟩
    | error => exact .error _ _

theorem exists_of_ok {a : α} (h : SameOutcome r x y) (hx : x = .ok a) :
    ∃ b, y = .ok b ∧ r a b := by
  cases h with
  | ok h =>
    obtain rfl := Except.ok.inj hx
    exact ⟨_, rfl, h⟩
  | error => cases hx

/-- What is made of both results in the same way has the same outcome again. -/
theorem map (h : SameOutcome r x y) {w : α → β} (hw : ∀ a b, r a b → s (w a) (w b)) :
    SameOutcome s (do return w (← x)) (do return w (← y)) := by
  cases h with
  | ok h => exact .ok (hw _ _ h)
  | error => exact .error _ _

end SameOutcome

/-! ## What can be rendered -/

mutual

/-- Of nodes that are alike, both can be rendered or neither can. -/
theorem Expression.renderable_congr : ∀ {a b : Expression},
    a.WithParams (Value.ParamsNamed Value.DecidedName) → a.Alike b →
      (a.Renderable ↔ b.Renderable)
  | .base, b, _, h
  | .term _ _, b, _, h
  | .range _ _, b, _, h
  | .present _, b, _, h
  | .raw _, b, _, h
  | .lookup _, b, _, h => by
    -- nothing but the kind decides
    cases b <;> first
      | exact Iff.rfl
      | cases h
  | .script _ v, b, hwith, h => by
    cases b with
    | script =>
      obtain ⟨-, hparams⟩ := Bool.and_eq_true_iff.mp h
      -- parameters that do not count are not read at all
      have htruthy := Value.Alike.truthy_eq hparams
      have hread := Mapping.exists_ofValue_congr hwith hparams
      rw [Expression.Renderable, Expression.Renderable, htruthy, hread]
    | _ => cases h
  | .and xs, b, hwith, h => by
    cases b with
    | and ys => exact @renderableNodes_congr xs ys hwith h
    | _ => cases h
  | .or xs, b, hwith, h => by
    cases b with
    | or ys => exact @renderableNodes_congr xs ys hwith h
    | _ => cases h
  | .not node, _, hwith, h => by
    obtain ⟨other, rfl, hnode⟩ := h.exists_not
    exact Expression.renderable_congr (a := node) (b := other) hwith hnode
  | .cached node, _, hwith, h => by
    obtain ⟨other, rfl, hnode⟩ := h.exists_cached
    exact Expression.renderable_congr (a := node) (b := other) hwith hnode

theorem renderableNodes_congr : ∀ {xs ys : List Expression},
    WithParamsNodes (Value.ParamsNamed Value.DecidedName) xs → agreeNodes false xs ys = true →
      (RenderableNodes xs ↔ RenderableNodes ys)
  | [], [], _, _ => Iff.rfl
  | [], _ :: _, _, h | _ :: _, [], _, h => nomatch h
  | _ :: _, _ :: _, ⟨hx, hxs⟩, h => by
    obtain ⟨hxy, hrest⟩ := Bool.and_eq_true_iff.mp h
    rw [RenderableNodes, RenderableNodes, Expression.renderable_congr hx hxy,
      renderableNodes_congr hxs hrest]

end

/-! ## Operands -/

namespace Expression

variable {a b : Expression} {P : Value → Prop}

/-- Equality does not look across kinds. -/
theorem Alike.kind_eq (h : a.Alike b) : a.kind = b.kind := by
  cases a <;> cases b <;> first
    | rfl
    | cases h

theorem agreeNodes_singleton (h : a.Alike b) : agreeNodes false [a] [b] = true :=
  Bool.and_eq_true_iff.mpr ⟨h, rfl⟩

theorem Alike.conjuncts (h : a.Alike b) : agreeNodes false a.conjuncts b.conjuncts = true := by
  by_cases hkind : a.kind = "And"
  · obtain ⟨xs, rfl⟩ := exists_and_of_kind hkind
    obtain ⟨ys, rfl⟩ := exists_and_of_kind (h.kind_eq.symm.trans hkind)
    exact h
  · rw [conjuncts_of_kind_ne hkind, conjuncts_of_kind_ne (h.kind_eq ▸ hkind)]
    exact agreeNodes_singleton h

theorem Alike.disjuncts (h : a.Alike b) : agreeNodes false a.disjuncts b.disjuncts = true := by
  by_cases hkind : a.kind = "Or"
  · obtain ⟨xs, rfl⟩ := exists_or_of_kind hkind
    obtain ⟨ys, rfl⟩ := exists_or_of_kind (h.kind_eq.symm.trans hkind)
    exact h
  · rw [disjuncts_of_kind_ne hkind, disjuncts_of_kind_ne (h.kind_eq ▸ hkind)]
    exact agreeNodes_singleton h

theorem Alike.negate (h : a.Alike b) : a.negate.Alike b.negate := by
  by_cases hkind : a.kind = "Not"
  · obtain ⟨x, rfl⟩ := exists_not_of_kind hkind
    obtain ⟨y, rfl, hxy⟩ := h.exists_not
    exact hxy
  · rw [negate_of_kind_ne hkind, negate_of_kind_ne (h.kind_eq ▸ hkind)]
    exact h

theorem Alike.markCached (h : a.Alike b) : a.markCached.Alike b.markCached := by
  by_cases hkind : a.kind = "Cached"
  · obtain ⟨x, rfl⟩ := exists_cached_of_kind hkind
    obtain ⟨y, rfl, -⟩ := h.exists_cached
    exact h
  · rw [markCached_of_kind_ne hkind, markCached_of_kind_ne (h.kind_eq ▸ hkind)]
    exact h

theorem WithParams.conjuncts (h : a.WithParams P) : WithParamsNodes P a.conjuncts := by
  cases a with
  | and => exact h
  | _ => exact ⟨h, trivial⟩

theorem WithParams.disjuncts (h : a.WithParams P) : WithParamsNodes P a.disjuncts := by
  cases a with
  | or => exact h
  | _ => exact ⟨h, trivial⟩

theorem WithParams.negate (h : a.WithParams P) : a.negate.WithParams P := by
  cases a <;> exact h

theorem WithParams.markCached (h : a.WithParams P) : a.markCached.WithParams P := by
  cases a <;> exact h

end Expression

/-! ## Rendering -/

/-- Rendered, the nodes are equal mappings, or neither of them can be rendered. -/
def Expression.RendersLike (a b : Expression) : Prop :=
  SameOutcome Mapping.Alike a.render b.render

section Rendering

variable {a b : Expression} {xs ys : List Expression}

theorem Expression.rendersLike
    (ha : a.WithParams (Value.ParamsNamed Value.DecidedName)) (h : a.Alike b) :
    a.RendersLike b := by
  have hexact := ha.mono fun _ ↦ Value.ParamsNamed.exact
  refine .of_iff ?_ fun f g hf hg ↦ Expression.alike_render hexact h hf hg
  rw [exists_render_iff, exists_render_iff]
  exact renderable_congr ha h

theorem sameOutcome_renderNodes
    (hxs : WithParamsNodes (Value.ParamsNamed Value.DecidedName) xs)
    (h : agreeNodes false xs ys = true) :
    SameOutcome (List.Forall₂ Mapping.Alike) (renderNodes xs) (renderNodes ys) := by
  have hexact := hxs.mono fun _ ↦ Value.ParamsNamed.exact
  refine .of_iff ?_ fun fs gs hfs hgs ↦ alike_renderNodes hexact h hfs hgs
  rw [exists_renderNodes_iff, exists_renderNodes_iff]
  exact renderableNodes_congr hxs h

/-- The same nodes behind rows that render to alike fragments leave them so. -/
theorem SameOutcome.append
    (h : SameOutcome (List.Forall₂ Mapping.Alike) (renderNodes xs) (renderNodes ys))
    (zs : List Expression) : SameOutcome (List.Forall₂ Mapping.Alike) (renderNodes (xs ++ zs))
      (renderNodes (ys ++ zs)) := by
  rw [renderNodes_append, renderNodes_append]
  generalize renderNodes xs = x at h ⊢
  generalize renderNodes ys = y at h ⊢
  cases h with
  | ok h =>
    cases renderNodes zs with
    | ok hs => exact .ok (List.rel_append h (List.forall₂_same.mpr fun f _ ↦ Mapping.Alike.refl f))
    | error => exact .error _ _
  | error => exact .error _ _

theorem SameOutcome.group
    (h : SameOutcome (List.Forall₂ Mapping.Alike) (renderNodes xs) (renderNodes ys))
    (mode : JoinMode) :
    SameOutcome Mapping.Alike (do return Fragment.group mode (← renderNodes xs))
      (do return Fragment.group mode (← renderNodes ys)) :=
  h.map fun _ _ ↦ Fragment.alike_group mode

end Rendering

namespace Expression

variable {a b : Expression}

/--
Equality of nodes is a congruence for rendering.  Nodes that are equal render to equal mappings, or
neither can be rendered, and so do the conjunctions and disjunctions of them with any node, their
negations and what marking them gives.  The keys of raw fragments have to be distinct, as those of
any mapping are, and equality has to tell how scripts and ranges are read.  For the parameters of a
script that means that no pair is a mapping or a set of two, pairs in a set have different names, and
a name is the same key as whatever it is equal to, and fit to be one if that is; for a range, that no
end given as a mapping or a set has the name of a bound for its value.
-/
theorem render_congruence (ha : a.WithParams (Value.ParamsNamed Value.DecidedName))
    (h : Value.equal (.node a) (.node b) = true) :
    a.RendersLike b ∧
    (∀ c : Expression, (a.conjoin c).RendersLike (b.conjoin c)) ∧
    (∀ c : Expression, (a.disjoin c).RendersLike (b.disjoin c)) ∧
    a.negate.RendersLike b.negate ∧
    a.markCached.RendersLike b.markCached ∧
    (a.Renderable →
      ∃ f g, a.render = .ok f ∧ b.render = .ok g ∧ Value.equal (.map f) (.map g) = true) := by
  have hab : a.Alike b := h
  have hconjuncts := sameOutcome_renderNodes ha.conjuncts hab.conjuncts
  have hdisjuncts := sameOutcome_renderNodes ha.disjuncts hab.disjuncts
  refine ⟨rendersLike ha hab, fun c ↦ (hconjuncts.append c.conjuncts).group .and,
    fun c ↦ (hdisjuncts.append c.disjuncts).group .or,
    rendersLike ha.negate hab.negate, rendersLike ha.markCached hab.markCached,
    fun hrenderable ↦ ?_⟩
  obtain ⟨f, hf⟩ := a.exists_render_iff.mpr hrenderable
  obtain ⟨g, hg, hfg⟩ := (rendersLike ha hab).exists_of_ok hf
  exact ⟨f, g, hf, hg, hfg⟩

/-- Numbers of equal worth and entries in another order, under a marker and in the parameters. -/
theorem render_congruence_of_orders :
    let pair (name : String) (v : Value) : Value := .tuple [.text name, v]
    let node (v : Value) (params : List Value) (body : Mapping) : Expression :=
      .and [.not (.term "a" v), .script "doc.a > n" (.tuple params), .cached (.raw body)]
    let a := node (.int 1) [pair "n" (.bool true)] [entry "x" (.int 1), entry "y" (.int 0)]
    let b := node (.bool true) [pair "n" (.int 1)] [entry "y" (.bool false), entry "x" (.int 1)]
    a.WithParams (Value.ParamsNamed Value.DecidedName) ∧
    Value.equal (.node a) (.node b) = true ∧ a.Renderable ∧
    (∀ c : Expression, (a.conjoin c).RendersLike (b.conjoin c)) ∧
    ∃ f g, a.render = .ok f ∧ b.render = .ok g ∧ Value.equal (.map f) (.map g) = true := by
  intro pair node a b
  have hbody : Mapping.Proper [entry "x" (.int 1), entry "y" (.int 0)] :=
    ⟨Mapping.distinctKeys_cons.mpr ⟨rfl, Mapping.distinctKeys_single "y" (.int 0)⟩, nofun⟩
  have ha : a.WithParams (Value.ParamsNamed Value.DecidedName) := by
    refine ⟨trivial, ?_, hbody, trivial⟩
    exact List.forall_mem_singleton.mpr (Value.decidedName_text "n")
  have hab : Value.equal (.node a) (.node b) = true := by decide
  have hrenderable : a.Renderable := ⟨trivial, fun _ ↦ ⟨_, rfl⟩, trivial, trivial⟩
  obtain ⟨-, hconjoin, -, -, -, hrender⟩ := render_congruence ha hab
  exact ⟨ha, hab, hrenderable, hconjoin, hrender hrenderable⟩

/--
A pair that is a mapping is read in its own order, which equality does not see: among the parameters
of a script, and as an end of a range whose parts both name a bound.
-/
theorem render_not_congruent_of_mapping_pair :
    let script (pair : Mapping) := buildScript (.text "s") (.tuple [.map pair])
    let range (pair : Mapping) := buildRange (.text "f") (.tuple [.map pair])
    let pairs : List (Except Fault Expression × Except Fault Expression) :=
      [(script [entry "a" (.int 1), entry "b" (.int 2)],
          script [entry "b" (.int 2), entry "a" (.int 1)]),
        (range [entry "gt" (.int 1), entry "lt" (.int 2)],
          range [entry "lt" (.int 2), entry "gt" (.int 1)])]
    ∀ p ∈ pairs, ∃ a b f g, p.1 = .ok a ∧ p.2 = .ok b ∧ Value.equal (.node a) (.node b) = true ∧
      a.render = .ok f ∧ b.render = .ok g ∧ Value.equal (.map f) (.map g) = false := by
  intro script range pairs
  simp only [pairs, script, range, List.forall_mem_cons]
  exact ⟨⟨_, _, _, _, rfl, rfl, rfl, rfl, rfl, rfl⟩, ⟨_, _, _, _, rfl, rfl, rfl, rfl, rfl, rfl⟩,
    fun _ h ↦ absurd h List.not_mem_nil⟩

end Expression

end SearchCriteria
