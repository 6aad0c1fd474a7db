import Mathlib.Algebra.Free
import SearchCriteria.Proofs.Expression.Building
import SearchCriteria.Proofs.Request.Grouping

/-!
# Nodes put together by operators

Operators keep a tree in normal form: no node in it has a child of its own kind.  Each of them looks
no further than at the kind of its operands, and that is enough because the operands are in normal
form themselves.  A conjunction of nodes is the list of them, whatever the brackets were, and so is
a disjunction.
-/

namespace SearchCriteria.Expression

variable {a b e : Expression}

/-! ## Kinds -/

theorem exists_and_of_kind (h : e.kind = "And") : ∃ nodes, e = .and nodes := by
  cases e with
  | and nodes => exact ⟨nodes, rfl⟩
  | _ => simp [kind] at h

theorem exists_or_of_kind (h : e.kind = "Or") : ∃ nodes, e = .or nodes := by
  cases e with
  | or nodes => exact ⟨nodes, rfl⟩
  | _ => simp [kind] at h

theorem exists_not_of_kind (h : e.kind = "Not") : ∃ node, e = .not node := by
  cases e with
  | not node => exact ⟨node, rfl⟩
  | _ => simp [kind] at h

theorem exists_cached_of_kind (h : e.kind = "Cached") : ∃ node, e = .cached node := by
  cases e with
  | cached node => exact ⟨node, rfl⟩
  | _ => simp [kind] at h

theorem conjuncts_of_kind_ne (h : e.kind ≠ "And") : e.conjuncts = [e] := by
  cases e with
  | and => exact absurd rfl h
  | _ => rfl

theorem disjuncts_of_kind_ne (h : e.kind ≠ "Or") : e.disjuncts = [e] := by
  cases e with
  | or => exact absurd rfl h
  | _ => rfl

theorem negate_of_kind_ne (h : e.kind ≠ "Not") : e.negate = .not e := by
  cases e with
  | not => exact absurd rfl h
  | _ => rfl

theorem markCached_of_kind_ne (h : e.kind ≠ "Cached") : e.markCached = .cached e := by
  cases e with
  | cached => exact absurd rfl h
  | _ => rfl

/-! ## Normal forms -/

/-- No node that occurs in the node has a child of its own kind. -/
def Normal : Expression → Prop := Everywhere fun n ↦ ∀ child ∈ n.children, child.kind ≠ n.kind

theorem normal_iff :
    e.Normal ↔ ∀ child ∈ e.children, child.kind ≠ e.kind ∧ child.Normal := by
  rw [Normal, everywhere_iff, ← forall₂_and]

theorem normal_condition (c : Condition) : c.toExpression.Normal := by
  obtain ⟨test, negated⟩ := c
  have htest : test.toExpression.Normal ∧ test.toExpression.kind ≠ "Not" := by
    cases test <;> exact ⟨normal_iff.mpr (by simp [FieldTest.toExpression, children]),
      by simp [FieldTest.toExpression, kind]⟩
  cases negated with
  | false => exact htest.1
  | true => exact normal_iff.mpr (List.forall_mem_singleton.mpr ⟨htest.2, htest.1⟩)

theorem Normal.conjuncts (h : e.Normal) : ∀ n ∈ e.conjuncts, n.kind ≠ "And" ∧ n.Normal := by
  by_cases hkind : e.kind = "And"
  · obtain ⟨nodes, rfl⟩ := exists_and_of_kind hkind
    exact normal_iff.mp h
  · rw [conjuncts_of_kind_ne hkind]
    exact List.forall_mem_singleton.mpr ⟨hkind, h⟩

theorem Normal.disjuncts (h : e.Normal) : ∀ n ∈ e.disjuncts, n.kind ≠ "Or" ∧ n.Normal := by
  by_cases hkind : e.kind = "Or"
  · obtain ⟨nodes, rfl⟩ := exists_or_of_kind hkind
    exact normal_iff.mp h
  · rw [disjuncts_of_kind_ne hkind]
    exact List.forall_mem_singleton.mpr ⟨hkind, h⟩

theorem Normal.conjoin (ha : a.Normal) (hb : b.Normal) : (a.conjoin b).Normal :=
  normal_iff.mpr (List.forall_mem_append.mpr ⟨ha.conjuncts, hb.conjuncts⟩)

theorem Normal.disjoin (ha : a.Normal) (hb : b.Normal) : (a.disjoin b).Normal :=
  normal_iff.mpr (List.forall_mem_append.mpr ⟨ha.disjuncts, hb.disjuncts⟩)

/-- A negation of a node in normal form negates nothing that is a negation. -/
theorem Normal.of_not (h : (Expression.not e).Normal) : e.kind ≠ "Not" ∧ e.Normal :=
  normal_iff.mp h e (List.mem_singleton_self e)

theorem Normal.negate (h : e.Normal) : e.negate.Normal := by
  by_cases hkind : e.kind = "Not"
  · obtain ⟨node, rfl⟩ := exists_not_of_kind hkind
    exact h.of_not.2
  · rw [negate_of_kind_ne hkind]
    exact normal_iff.mpr (List.forall_mem_singleton.mpr ⟨hkind, h⟩)

theorem Normal.markCached (h : e.Normal) : e.markCached.Normal := by
  by_cases hkind : e.kind = "Cached"
  · obtain ⟨node, rfl⟩ := exists_cached_of_kind hkind
    exact h
  · rw [markCached_of_kind_ne hkind]
    exact normal_iff.mpr (List.forall_mem_singleton.mpr ⟨hkind, h⟩)

/-- Negating twice undoes the negation that is there, or the one that was made. -/
theorem Normal.negate_negate (h : e.Normal) : e.negate.negate = e := by
  by_cases hkind : e.kind = "Not"
  · obtain ⟨node, rfl⟩ := exists_not_of_kind hkind
    exact negate_of_kind_ne h.of_not.1
  · rw [negate_of_kind_ne hkind, negate_not]

/-! ## Composed nodes -/

/-- A node that no operator has made. -/
def IsLeaf : Expression → Prop
  | .term _ _ | .range _ _ | .present _ | .script _ _ | .raw _ | .lookup _ => True
  | .base | .and _ | .or _ | .not _ | .cached _ => False

/-- The nodes that operators make of leaves; the second operand can be a mapping. -/
inductive Composed : Expression → Prop
  | leaf {e : Expression} (h : e.IsLeaf) : Composed e
  | conjoin {a e : Expression} {value : Value} (ha : Composed a)
      (hvalue : ∀ n, value = .node n → Composed n) (h : a.conjoinValue value = .ok e) : Composed e
  | disjoin {a e : Expression} {value : Value} (ha : Composed a)
      (hvalue : ∀ n, value = .node n → Composed n) (h : a.disjoinValue value = .ok e) : Composed e
  | negate {e : Expression} (he : Composed e) : Composed e.negate
  | markCached {e : Expression} (he : Composed e) : Composed e.markCached

theorem IsLeaf.normal (h : e.IsLeaf) : e.Normal := by
  cases e with
  | term | range | present | script | raw => exact normal_iff.mpr (by simp [children])
  | lookup lookups =>
    refine normal_iff.mpr (List.forall_mem_map.mpr fun c _ ↦ ⟨?_, normal_condition c⟩)
    obtain ⟨test, negated⟩ := c
    cases negated <;> cases test <;>
      simp [Condition.toExpression, FieldTest.toExpression, kind]
  | base | and | or | not | cached => exact h.elim

theorem Composed.normal (h : e.Composed) : e.Normal := by
  have hraw (fragment : Mapping) : (raw fragment).Normal := IsLeaf.normal trivial
  induction h with
  | leaf h => exact h.normal
  | conjoin _ _ h iha ihvalue =>
    obtain ⟨n, hn, h⟩ := bind_eq_ok.mp h
    obtain rfl := Except.ok.inj h
    exact iha.conjoin (of_ofValue hraw ihvalue hn)
  | disjoin _ _ h iha ihvalue =>
    obtain ⟨n, hn, h⟩ := bind_eq_ok.mp h
    obtain rfl := Except.ok.inj h
    exact iha.disjoin (of_ofValue hraw ihvalue hn)
  | negate _ ih => exact ih.negate
  | markCached _ ih => exact ih.markCached

/-! ## Brackets -/

theorem conjoin_assoc (a b c : Expression) : (a.conjoin b).conjoin c = a.conjoin (b.conjoin c) :=
  congrArg Expression.and (List.append_assoc _ _ _)

theorem disjoin_assoc (a b c : Expression) : (a.disjoin b).disjoin c = a.disjoin (b.disjoin c) :=
  congrArg Expression.or (List.append_assoc _ _ _)

/-- Nodes put together by an operator, bracketed as the tree says. -/
def combined (operator : Expression → Expression → Expression) :
    FreeMagma Expression → Expression
  | .of e => e
  | .mul s t => operator (combined operator s) (combined operator t)

/-- The nodes between the brackets, in order. -/
def operands : FreeMagma Expression → List Expression
  | .of e => [e]
  | .mul s t => operands s ++ operands t

theorem conjuncts_combined : ∀ {t : FreeMagma Expression},
    (∀ n ∈ operands t, n.kind ≠ "And") → (combined conjoin t).conjuncts = operands t
  | .of e, h => conjuncts_of_kind_ne (h e (List.mem_singleton_self e))
  | .mul _ _, h =>
    congrArg₂ (· ++ ·) (conjuncts_combined (List.forall_mem_append.mp h).1)
      (conjuncts_combined (List.forall_mem_append.mp h).2)

theorem disjuncts_combined : ∀ {t : FreeMagma Expression},
    (∀ n ∈ operands t, n.kind ≠ "Or") → (combined disjoin t).disjuncts = operands t
  | .of e, h => disjuncts_of_kind_ne (h e (List.mem_singleton_self e))
  | .mul _ _, h =>
    congrArg₂ (· ++ ·) (disjuncts_combined (List.forall_mem_append.mp h).1)
      (disjuncts_combined (List.forall_mem_append.mp h).2)

/-- The nodes rendered in order and joined as filters under a mode. -/
def joinedAs (mode : JoinMode) (nodes : List Expression) : Except Fault (Option Value) := do
  Join.join .filters (.text mode.name) ((← renderNodes nodes).map .map)

theorem joinedAs_eq {mode : JoinMode} (hmode : mode = .and ∨ mode = .or)
    (nodes : List Expression) :
    joinedAs mode nodes = do return Fragment.part (Fragment.group mode (← renderNodes nodes)) := by
  rw [joinedAs]
  cases renderNodes nodes with
  | error => rfl
  | ok fragments => exact Join.join_group hmode fragments

theorem joinedAs_singleton {mode : JoinMode} (hmode : mode = .and ∨ mode = .or)
    (e : Expression) : joinedAs mode [e] = e.part := by
  rw [joinedAs_eq hmode, renderNodes, part]
  cases e.render with
  | error => rfl
  | ok f => exact congrArg (fun g ↦ Except.ok (Fragment.part g)) (Fragment.group_singleton mode f)

/-- Every node is the join of its conjuncts. -/
theorem part_eq_joinedAs_conjuncts (e : Expression) : e.part = joinedAs .and e.conjuncts := by
  by_cases hkind : e.kind = "And"
  · obtain ⟨nodes, rfl⟩ := exists_and_of_kind hkind
    rw [joinedAs_eq (.inl rfl), part, render, conjuncts]
    cases renderNodes nodes <;> rfl
  · rw [conjuncts_of_kind_ne hkind, joinedAs_singleton (.inl rfl)]

theorem part_eq_joinedAs_disjuncts (e : Expression) : e.part = joinedAs .or e.disjuncts := by
  by_cases hkind : e.kind = "Or"
  · obtain ⟨nodes, rfl⟩ := exists_or_of_kind hkind
    rw [joinedAs_eq (.inr rfl), part, render, disjuncts]
    cases renderNodes nodes <;> rfl
  · rw [disjuncts_of_kind_ne hkind, joinedAs_singleton (.inr rfl)]

/--
What operators make of leaves is in normal form, and negating it twice gives it back.  Conjunctions
and disjunctions can be bracketed in any way: they are the same nodes, and when none of the operands
is one itself they render to the operands' fragments joined in order.
-/
theorem operators_normal (e a b c : Expression) (t : FreeMagma Expression) :
    (e.Composed → e.Normal ∧ e.negate.negate = e) ∧
    (a.conjoin b).conjoin c = a.conjoin (b.conjoin c) ∧
    (a.disjoin b).disjoin c = a.disjoin (b.disjoin c) ∧
    ((∀ n ∈ operands t, n.kind ≠ "And") →
      (combined conjoin t).part = joinedAs .and (operands t)) ∧
    ((∀ n ∈ operands t, n.kind ≠ "Or") →
      (combined disjoin t).part = joinedAs .or (operands t)) := by
  refine ⟨fun h ↦ ⟨h.normal, h.normal.negate_negate⟩, conjoin_assoc a b c, disjoin_assoc a b c,
    fun h ↦ ?_, fun h ↦ ?_⟩
  · rw [part_eq_joinedAs_conjuncts, conjuncts_combined h]
  · rw [part_eq_joinedAs_disjuncts, disjuncts_combined h]

/-- A negated conjunction under a marker, and three operands of which one holds nothing. -/
theorem operators_normal_of_brackets :
    let x : Expression := .term "a" (.int 1)
    let y : Expression := .lookup [("b__ne", .int 2)]
    let z : Expression := .raw []
    let e : Expression := (x.conjoin (y.disjoin z)).negate.markCached.negate
    let t : FreeMagma Expression := .mul (.of y.negate) (.mul (.of (y.disjoin x)) (.of z))
    e.Composed ∧ (e.Normal ∧ e.negate.negate = e) ∧
      (∀ n ∈ operands t, n.kind ≠ "And") ∧
      (combined conjoin t).part = joinedAs .and [.not y, .or [y, x], z] := by
  intro x y z e t
  have hx : x.Composed := .leaf trivial
  have hy : y.Composed := .leaf trivial
  have hmap : ∀ n, Value.map [] = .node n → n.Composed := nofun
  have hyz : (y.disjoin z).Composed := .disjoin hy hmap rfl
  have hnode : ∀ n, Value.node (y.disjoin z) = .node n → n.Composed :=
    fun n hn ↦ Value.node.inj hn ▸ hyz
  have hxyz : (x.conjoin (y.disjoin z)).Composed := .conjoin hx hnode rfl
  have he : e.Composed := hxyz.negate.markCached.negate
  have hkinds : ∀ n ∈ operands t, n.kind ≠ "And" := by
    simp [t, operands, x, y, z, negate, disjoin, kind]
  obtain ⟨hnormal, -, -, hand, -⟩ := operators_normal e x y z t
  exact ⟨he, hnormal he, hkinds, hand hkinds⟩

end SearchCriteria.Expression
