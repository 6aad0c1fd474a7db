import SearchCriteria.Proofs.Expression.Truth

/-!
# Collapsing a lone clause

A group of one clause, or a lookup node for one, renders as the clause does.  So wherever it stands
in a tree, it can be replaced by the clause — except right under a negation or a marker that looks
into its child: `Exposes` says where one does.

That the exceptions are needed is told by a weight.  A cacheable negation is heavier than the
fragment that a negation or a marker makes of a clause as a whole, and whatever surrounds the two
keeps the heavier one heavier.
-/

namespace SearchCriteria

open Mapping (entry)
open Fragment (cacheKey)

/-! ## Fragments by weight -/

mutual

/-- The entries in a value at any depth, markers aside; what is under a filter counts twice. -/
def Value.weight : Value → Nat
  | .list items | .tuple items | .set _ items => weightOfItems items
  | .map entries => weightOfEntries entries
  | .null | .bool _ | .int _ | .real _ | .text _ | .node _ => 0
termination_by structural v => v

def weightOfItems : List Value → Nat
  | [] => 0
  | v :: vs => v.weight + weightOfItems vs
termination_by structural vs => vs

def weightOfEntries : List (Value × Value) → Nat
  | [] => 0
  | (key, value) :: entries =>
    (if key.isText cacheKey then 0
      else if key.isText "filter" then 2 * value.weight + 1 else value.weight + 1) +
      weightOfEntries entries
termination_by structural entries => entries

end

theorem weightOfItems_append (xs ys : List Value) :
    weightOfItems (xs ++ ys) = weightOfItems xs + weightOfItems ys := by
  induction xs with
  | nil => simp [weightOfItems]
  | cons x xs ih => simp [weightOfItems, ih, Nat.add_assoc]

namespace Fragment

theorem weight_negation (fragment : Mapping) :
    weightOfEntries (negation fragment) = weightOfEntries fragment + 1 := rfl

theorem weight_cachedNegation (fragment : Mapping) :
    weightOfEntries (cachedNegation fragment) = 2 * weightOfEntries fragment + 2 := rfl

/-- The marker itself has no weight, nor has what it overwrites. -/
theorem weight_putText_marker (mapping : Mapping) (value : Value) :
    weightOfEntries (mapping.putText cacheKey value) = weightOfEntries mapping := by
  induction mapping with
  | nil => rfl
  | cons e rest ih =>
    obtain ⟨key, v⟩ := e
    rw [Mapping.putText, Association.put]
    split
    · rename_i hkey
      have hmarker : key.isText cacheKey = true := by
        cases key with
        | text => exact hkey
        | _ => cases hkey
      simp [weightOfEntries, hmarker]
    · rw [weightOfEntries, weightOfEntries]
      exact congrArg _ ih

theorem weight_marked (fragment : Mapping) :
    weightOfEntries (marked fragment) = weightOfEntries fragment := by
  unfold marked
  split
  · simp only [weightOfEntries, Value.weight, weight_putText_marker]
  · exact weight_putText_marker _ _

/-- Among the parts of a group, one that is there stands alone or has the other ones around it. -/
theorem group_around (mode : JoinMode) (before behind : List Mapping) :
    (∀ f, f ≠ [] → group mode (before ++ f :: behind) = f) ∨
    ∃ xs ys : List Value, ∀ f, f ≠ [] → group mode (before ++ f :: behind) =
      [entry mode.name (.map [entry "filters" (.list (xs ++ .map f :: ys))])] := by
  have hfilter : ∀ f : Mapping, f ≠ [] → group mode (before ++ f :: behind) =
      group mode (before.filter (!·.isEmpty) ++ f :: behind.filter (!·.isEmpty)) := by
    intro f hf
    simp [group, hf, List.filter_filter]
  have hpresent : ∀ f : Mapping, f ≠ [] →
      ∀ g ∈ before.filter (!·.isEmpty) ++ f :: behind.filter (!·.isEmpty), g ≠ [] := by
    intro f hf g hg
    simp only [List.mem_append, List.mem_cons, List.mem_filter] at hg
    rcases hg with ⟨-, hg⟩ | rfl | ⟨-, hg⟩
    · simpa using hg
    · exact hf
    · simpa using hg
  generalize before.filter (!·.isEmpty) = xs at *
  generalize behind.filter (!·.isEmpty) = ys at *
  by_cases hlone : xs = [] ∧ ys = []
  · obtain ⟨rfl, rfl⟩ := hlone
    refine .inl fun f hf ↦ ?_
    rw [hfilter f hf]
    simp [group, hf, Joined.of]
  · refine .inr ⟨xs.map .map, ys.map .map, fun f hf ↦ ?_⟩
    rw [hfilter f hf]
    rcases group_eq mode (hpresent f hf) with ⟨g, heq, -⟩ | hnil | heq
    · rcases List.append_eq_singleton_iff.mp heq with ⟨hxs, hys⟩ | ⟨-, hys⟩
      · exact absurd ⟨hxs, (List.cons.inj hys).2⟩ hlone
      · cases hys
    · simp at hnil
    · rw [heq, List.map_append, List.map_cons]

/-- The heavier part makes the heavier group. -/
theorem weight_group_lt (mode : JoinMode) (before behind : List Mapping) {f g : Mapping}
    (hf : f ≠ []) (hlt : weightOfEntries f < weightOfEntries g) :
    group mode (before ++ f :: behind) ≠ [] ∧
      weightOfEntries (group mode (before ++ f :: behind)) <
        weightOfEntries (group mode (before ++ g :: behind)) := by
  have hg : g ≠ [] := by
    rintro rfl
    exact absurd hlt (Nat.not_lt_zero _)
  rcases group_around mode before behind with hlone | ⟨xs, ys, hseveral⟩
  · rw [hlone f hf, hlone g hg]
    exact ⟨hf, hlt⟩
  · rw [hseveral f hf, hseveral g hg]
    refine ⟨List.cons_ne_nil _ _, ?_⟩
    have hmode : (Value.text mode.name).isText cacheKey = false ∧
        (Value.text mode.name).isText "filter" = false := by cases mode <;> decide
    simp only [weightOfEntries, entry, hmode, Value.weight, weightOfItems_append, weightOfItems]
    simp only [Value.isText, String.reduceBEq, cacheKey, Bool.false_eq_true, if_false]
    omega

end Fragment

namespace Expression

/-! ## Contexts -/

/-- A node with a hole in it. -/
inductive Context where
  | hole
  | and (before : List Expression) (inner : Context) (behind : List Expression)
  | or (before : List Expression) (inner : Context) (behind : List Expression)
  | not (inner : Context)
  | cached (inner : Context)

namespace Context

/-- The node that comes of putting one into the hole. -/
def fill : Context → Expression → Expression
  | .hole, x => x
  | .and before inner behind, x => .and (before ++ inner.fill x :: behind)
  | .or before inner behind, x => .or (before ++ inner.fill x :: behind)
  | .not inner, x => .not (inner.fill x)
  | .cached inner, x => .cached (inner.fill x)

/--
A negation or a marker right above the hole looks into the node there.  One that is taken together
with a marker or a negation right above itself does not.
-/
def Exposes : Context → Expression → Prop
  | .hole, _ => False
  | .and _ inner _, x | .or _ inner _, x => inner.Exposes x
  | .not (.cached inner), x | .cached (.not inner), x => inner.Exposes x
  | .not .hole, .cached _ | .cached .hole, .not _ => True
  | .not inner, x | .cached inner, x => inner.Exposes x

end Context

/-- A group or a lookup node that comes down to one node. -/
inductive Lone (x : Expression) : Expression → Prop
  | and {before behind} (hbefore : ∀ e ∈ before, e = .raw []) (hbehind : ∀ e ∈ behind, e = .raw []) :
      Lone x (.and (before ++ x :: behind))
  | or {before behind} (hbefore : ∀ e ∈ before, e = .raw []) (hbehind : ∀ e ∈ behind, e = .raw []) :
      Lone x (.or (before ++ x :: behind))
  | lookup {lookups} (h : Lookups.nodes lookups = [x]) : Lone x (.lookup lookups)

/-! ## Rendering around a hole -/

theorem renderNodes_around {before behind : List Expression} {e : Expression}
    {fragments : List Mapping} : renderNodes (before ++ e :: behind) = .ok fragments ↔
      ∃ fs f gs, renderNodes before = .ok fs ∧ e.render = .ok f ∧ renderNodes behind = .ok gs ∧
        fragments = fs ++ f :: gs := by
  rw [renderNodes_append, renderNodes]
  simp only [bind_eq_ok, pure, Except.pure, Except.ok.injEq]
  grind

theorem renderNodes_around_congr {before behind : List Expression} {e d : Expression}
    (h : e.render = d.render) :
    renderNodes (before ++ e :: behind) = renderNodes (before ++ d :: behind) := by
  rw [renderNodes_append, renderNodes_append, renderNodes, renderNodes, h]

theorem renderNodes_empty {nodes : List Expression} (h : ∀ e ∈ nodes, e = .raw []) :
    renderNodes nodes = .ok (nodes.map fun _ ↦ []) := by
  induction nodes with
  | nil => rfl
  | cons e nodes ih =>
    obtain ⟨rfl, hnodes⟩ := List.forall_mem_cons.mp h
    rw [renderNodes, ih hnodes]
    rfl

/-! ## Lone clauses -/

section Lone

variable {x y : Expression} {f : Mapping}

theorem Lone.ne_cached (h : Lone x y) (e : Expression) : y ≠ .cached e := by
  cases h <;> exact nofun

theorem Lone.ne_not (h : Lone x y) (e : Expression) : y ≠ .not e := by
  cases h <;> exact nofun

/-- A lone fragment stands for itself among any number of empty ones. -/
theorem group_renderNodes_lone {before behind : List Expression}
    (hbefore : ∀ e ∈ before, e = .raw []) (hbehind : ∀ e ∈ behind, e = .raw [])
    (hx : x.render = .ok f) (hf : f ≠ []) (mode : JoinMode) :
    (do return Fragment.group mode (← renderNodes (before ++ x :: behind))) = Except.ok f := by
  have hnodes := renderNodes_around.mpr
    ⟨_, _, _, renderNodes_empty hbefore, hx, renderNodes_empty hbehind, rfl⟩
  refine bind_eq_ok.mpr ⟨_, hnodes, congrArg Except.ok ?_⟩
  simp [Fragment.group, hf, Joined.of]

theorem Lone.render (h : Lone x y) (hx : x.render = .ok f) (hf : f ≠ []) : y.render = .ok f := by
  cases h with
  | and hbefore hbehind => exact group_renderNodes_lone hbefore hbehind hx hf .and
  | or hbefore hbehind => exact group_renderNodes_lone hbefore hbehind hx hf .or
  | @lookup lookups h =>
    obtain ⟨c, hc, hcx⟩ := List.map_eq_singleton_iff.mp h
    rw [← hcx, render_condition] at hx
    obtain rfl := Except.ok.inj hx
    change Except.ok (Fragment.allOf (lookups.conditions.map Condition.fragment)) = _
    rw [hc]
    simp [Fragment.allOf, Fragment.group, hf, Joined.of]

/-- Where nothing looks into the hole, a lone clause can stand for what comes down to it. -/
theorem render_fill_eq (h : Lone x y) (hx : x.render = .ok f) (hf : f ≠ []) :
    ∀ {C : Context}, ¬ C.Exposes x → (C.fill y).render = (C.fill x).render
  | .hole, _ => (h.render hx hf).trans hx.symm
  | .and before inner behind, hexposes =>
    congrArg (fun r ↦ do return Fragment.allOf (← r))
      (renderNodes_around_congr (render_fill_eq h hx hf (C := inner) hexposes))
  | .or before inner behind, hexposes =>
    congrArg (fun r ↦ do return Fragment.anyOf (← r))
      (renderNodes_around_congr (render_fill_eq h hx hf (C := inner) hexposes))
  | .not inner, hexposes => by
    cases inner with
    | hole =>
      have hne : ∀ e, x ≠ .cached e := by
        rintro e rfl
        exact hexposes trivial
      change (Expression.not y).render = (Expression.not x).render
      rw [render_not_of_ne_cached h.ne_cached, render_not_of_ne_cached hne, h.render hx hf, hx]
    | cached inner =>
      exact congrArg (fun r ↦ do return Fragment.cachedNegation (← r))
        (render_fill_eq h hx hf (C := inner) hexposes)
    | and before inner behind =>
      exact congrArg (fun r ↦ do return Fragment.negation (← r))
        (render_fill_eq h hx hf (C := .and before inner behind) hexposes)
    | or before inner behind =>
      exact congrArg (fun r ↦ do return Fragment.negation (← r))
        (render_fill_eq h hx hf (C := .or before inner behind) hexposes)
    | not inner =>
      exact congrArg (fun r ↦ do return Fragment.negation (← r))
        (render_fill_eq h hx hf (C := .not inner) hexposes)
  | .cached inner, hexposes => by
    cases inner with
    | hole =>
      have hne : ∀ e, x ≠ .not e := by
        rintro e rfl
        exact hexposes trivial
      change (Expression.cached y).render = (Expression.cached x).render
      rw [render_cached_of_ne_not h.ne_not, render_cached_of_ne_not hne, h.render hx hf, hx]
    | not inner =>
      exact congrArg (fun r ↦ do return Fragment.cachedNegation (← r))
        (render_fill_eq h hx hf (C := inner) hexposes)
    | and before inner behind =>
      exact congrArg (fun r ↦ do return Fragment.marked (← r))
        (render_fill_eq h hx hf (C := .and before inner behind) hexposes)
    | or before inner behind =>
      exact congrArg (fun r ↦ do return Fragment.marked (← r))
        (render_fill_eq h hx hf (C := .or before inner behind) hexposes)
    | cached inner =>
      exact congrArg (fun r ↦ do return Fragment.marked (← r))
        (render_fill_eq h hx hf (C := .cached inner) hexposes)

/-! ## Where something looks into the hole -/

/-- If both render, the first fragment holds something and is the lighter one. -/
def Lighter (r s : Except Fault Mapping) : Prop :=
  ∀ a b, r = .ok a → s = .ok b → a ≠ [] ∧ weightOfEntries a < weightOfEntries b

theorem Lighter.map {r s : Except Fault Mapping} (h : Lighter r s) {wrap : Mapping → Mapping}
    (hne : ∀ a, wrap a ≠ [])
    (hlt : ∀ a b, weightOfEntries a < weightOfEntries b →
      weightOfEntries (wrap a) < weightOfEntries (wrap b)) :
    Lighter (do return wrap (← r)) (do return wrap (← s)) := by
  intro a b ha hb
  obtain ⟨c, hc, ha⟩ := bind_eq_ok.mp ha
  obtain ⟨d, hd, hb⟩ := bind_eq_ok.mp hb
  obtain rfl := Except.ok.inj ha
  obtain rfl := Except.ok.inj hb
  exact ⟨hne c, hlt c d (h c d hc hd).2⟩

theorem Lighter.negation {r s : Except Fault Mapping} (h : Lighter r s) :
    Lighter (do return Fragment.negation (← r)) (do return Fragment.negation (← s)) :=
  h.map (fun _ ↦ List.cons_ne_nil _ _) fun a b hlt ↦ by
    rw [Fragment.weight_negation, Fragment.weight_negation]
    omega

theorem Lighter.cachedNegation {r s : Except Fault Mapping} (h : Lighter r s) :
    Lighter (do return Fragment.cachedNegation (← r))
      (do return Fragment.cachedNegation (← s)) :=
  h.map (fun _ ↦ List.cons_ne_nil _ _) fun a b hlt ↦ by
    rw [Fragment.weight_cachedNegation, Fragment.weight_cachedNegation]
    omega

theorem Lighter.marked {r s : Except Fault Mapping} (h : Lighter r s) :
    Lighter (do return Fragment.marked (← r)) (do return Fragment.marked (← s)) :=
  h.map Fragment.marked_ne_nil fun a b hlt ↦ by
    rw [Fragment.weight_marked, Fragment.weight_marked]
    exact hlt

theorem Lighter.group {d e : Expression} (h : Lighter d.render e.render) (mode : JoinMode)
    (before behind : List Expression) :
    Lighter (do return Fragment.group mode (← renderNodes (before ++ d :: behind)))
      (do return Fragment.group mode (← renderNodes (before ++ e :: behind))) := by
  intro a b ha hb
  obtain ⟨as, has, ha⟩ := bind_eq_ok.mp ha
  obtain ⟨bs, hbs, hb⟩ := bind_eq_ok.mp hb
  obtain rfl := Except.ok.inj ha
  obtain rfl := Except.ok.inj hb
  obtain ⟨fs, f, gs, hfs, hf, hgs, rfl⟩ := renderNodes_around.mp has
  obtain ⟨fs', g, gs', hfs', hg, hgs', rfl⟩ := renderNodes_around.mp hbs
  -- what is around the hole renders alike
  obtain rfl := Except.ok.inj (hfs.symm.trans hfs')
  obtain rfl := Except.ok.inj (hgs.symm.trans hgs')
  obtain ⟨hne, hlt⟩ := h f g hf hg
  exact Fragment.weight_group_lt mode fs gs hne hlt

/-- A negation is heavier than what it negates, marked or not. -/
theorem weight_lt_not : ∀ {x : Expression} {a b : Mapping}, x.render = .ok a →
    (Expression.not x).render = .ok b → weightOfEntries a < weightOfEntries b
  | x, a, b, ha, hb => by
    rcases render_not_eq_ok hb with ⟨inner, f, rfl, hf, rfl⟩ | ⟨f, hf, rfl⟩
    · rw [Fragment.weight_cachedNegation]
      rcases render_cached_eq_ok ha with ⟨node, g, rfl, hg, rfl⟩ | ⟨g, hg, rfl⟩
      · have hlt := weight_lt_not hg hf
        rw [Fragment.weight_cachedNegation]
        omega
      · obtain rfl := Except.ok.inj (hf.symm.trans hg)
        rw [Fragment.weight_marked]
        omega
    · obtain rfl := Except.ok.inj (hf.symm.trans ha)
      rw [Fragment.weight_negation]
      exact Nat.lt_succ_self _

/-- A negation makes more of a marked clause than of what comes down to it. -/
theorem Lone.lighter_not {z : Expression} (h : Lone (.cached z) y)
    (hx : (Expression.cached z).render = .ok f) (hf : f ≠ []) :
    Lighter (Expression.not y).render (Expression.not (.cached z)).render := by
  intro a b ha hb
  rw [render_not_of_ne_cached h.ne_cached, h.render hx hf] at ha
  obtain rfl := Except.ok.inj ha
  obtain ⟨g, hg, hb⟩ := bind_eq_ok.mp hb
  obtain rfl := Except.ok.inj hb
  refine ⟨List.cons_ne_nil _ _, ?_⟩
  rw [Fragment.weight_negation, Fragment.weight_cachedNegation]
  rcases render_cached_eq_ok hx with ⟨w, k, rfl, hk, rfl⟩ | ⟨k, hk, rfl⟩
  · have hlt := weight_lt_not hk hg
    rw [Fragment.weight_cachedNegation]
    omega
  · obtain rfl := Except.ok.inj (hg.symm.trans hk)
    rw [Fragment.weight_marked]
    omega

/-- A marker makes more of a negated clause than of what comes down to it. -/
theorem Lone.lighter_cached {z : Expression} (h : Lone (.not z) y) (hz : ∀ e, z ≠ .cached e)
    (hx : (Expression.not z).render = .ok f) (hf : f ≠ []) :
    Lighter (Expression.cached y).render (Expression.cached (.not z)).render := by
  intro a b ha hb
  rw [render_cached_of_ne_not h.ne_not, h.render hx hf] at ha
  obtain rfl := Except.ok.inj ha
  rw [render_not_of_ne_cached hz] at hx
  obtain ⟨g, hg, hx⟩ := bind_eq_ok.mp hx
  obtain rfl := Except.ok.inj hx
  obtain ⟨k, hk, hb⟩ := bind_eq_ok.mp hb
  obtain rfl := Except.ok.inj hb
  obtain rfl := Except.ok.inj (hg.symm.trans hk)
  refine ⟨Fragment.marked_ne_nil _, ?_⟩
  rw [Fragment.weight_marked, Fragment.weight_negation, Fragment.weight_cachedNegation]
  omega

/-- Whatever is around a wrapper that looks into the hole, the difference shows. -/
theorem lighter_fill (h : Lone x y) (hx : x.render = .ok f) (hf : f ≠ [])
    (hmarked : ∀ e, x ≠ .not (.cached e)) :
    ∀ {C : Context}, C.Exposes x → Lighter (C.fill y).render (C.fill x).render
  | .hole, hexposes => hexposes.elim
  | .and before inner behind, hexposes =>
    (lighter_fill h hx hf hmarked (C := inner) hexposes).group .and before behind
  | .or before inner behind, hexposes =>
    (lighter_fill h hx hf hmarked (C := inner) hexposes).group .or before behind
  | .not inner, hexposes => by
    cases inner with
    | hole =>
      cases x with
      | cached z => exact h.lighter_not hx hf
      | _ => exact hexposes.elim
    | cached inner => exact (lighter_fill h hx hf hmarked (C := inner) hexposes).cachedNegation
    | and before inner behind =>
      exact (lighter_fill h hx hf hmarked (C := .and before inner behind) hexposes).negation
    | or before inner behind =>
      exact (lighter_fill h hx hf hmarked (C := .or before inner behind) hexposes).negation
    | not inner => exact (lighter_fill h hx hf hmarked (C := .not inner) hexposes).negation
  | .cached inner, hexposes => by
    cases inner with
    | hole =>
      cases x with
      | not z => exact h.lighter_cached (fun e he ↦ hmarked e (congrArg _ he)) hx hf
      | _ => exact hexposes.elim
    | not inner => exact (lighter_fill h hx hf hmarked (C := inner) hexposes).cachedNegation
    | and before inner behind =>
      exact (lighter_fill h hx hf hmarked (C := .and before inner behind) hexposes).marked
    | or before inner behind =>
      exact (lighter_fill h hx hf hmarked (C := .or before inner behind) hexposes).marked
    | cached inner => exact (lighter_fill h hx hf hmarked (C := .cached inner) hexposes).marked

end Lone

/--
Collapsing a lone clause is transparent wherever nothing looks into it.  Whatever comes down to a
node that renders to a fragment that holds something renders alike in every context, unless a
negation right above it looks for a marker and finds one, or a marker looks for a negation and finds
one.  There the context renders to another fragment; only for a negation of a marked node, which a
marker may find marked as it is, can the two be the same.
-/
theorem collapse_transparent {x y : Expression} {f : Mapping} (hx : x.render = .ok f) (hf : f ≠ [])
    (hlone : Lone x y) (C : Context) :
    (¬ C.Exposes x → (C.fill y).render = (C.fill x).render) ∧
    (C.Exposes x → (∀ e, x ≠ .not (.cached e)) →
      ∀ g, (C.fill x).render = .ok g → (C.fill y).render ≠ .ok g) := by
  refine ⟨render_fill_eq hlone hx hf, fun hexposes hmarked g hg hy ↦ ?_⟩
  exact absurd (lighter_fill hlone hx hf hmarked hexposes g g hy hg).2 (Nat.lt_irrefl _)

/-- A lookup for an unequal value, among other filters and under a marker of a negation. -/
theorem collapse_transparent_of_lookup :
    let x : Expression := .not (.term "a" (.int 1))
    let y : Expression := .lookup [("a__ne", .int 1)]
    let choice : Context := .or [.present "b"] (.and [] .hole [.raw []]) [.raw []]
    ((Context.cached (.not .hole)).fill y).render =
        ((Context.cached (.not .hole)).fill x).render ∧
      (choice.fill y).render = (choice.fill x).render ∧
      (Expression.cached y).render ≠ (Expression.cached x).render := by
  intro x y choice
  have hx : x.render = .ok (Fragment.negation (Fragment.term "a" (.int 1))) := rfl
  have hlone : Lone x y := .lookup rfl
  have hne : Fragment.negation (Fragment.term "a" (.int 1)) ≠ [] := List.cons_ne_nil _ _
  refine ⟨(collapse_transparent hx hne hlone _).1 id,
    (collapse_transparent hx hne hlone choice).1 id, fun heq ↦ ?_⟩
  exact (collapse_transparent hx hne hlone (.cached .hole)).2 trivial (by simp [x]) _ rfl heq

/--
Right under a marker, a lookup for an unequal value is not rendered as the negated term is that it
comes down to.
-/
theorem collapse_not_transparent :
    let x : Expression := .not (.term "a" (.int 1))
    let y : Expression := .lookup [("a__ne", .int 1)]
    let C : Context := .cached .hole
    let test : Value := .map (Fragment.term "a" (.int 1))
    (∃ f, x.render = .ok f ∧ f ≠ []) ∧ Lone x y ∧
      (C.fill x).render =
        .ok [entry "not" (.map [entry "filter" test]), entry "_cache" (.bool true)] ∧
      (C.fill y).render =
        .ok [entry "not" (.map [entry "term" (.map [entry "a" (.int 1)]),
          entry "_cache" (.bool true)])] ∧
      (C.fill y).render ≠ (C.fill x).render := by
  intro x y C test
  refine ⟨⟨_, rfl, List.cons_ne_nil _ _⟩, .lookup rfl, rfl, rfl, fun heq ↦ ?_⟩
  exact absurd (congrArg (fun r ↦ r.toOption.map List.length) heq) (by decide)

end Expression

end SearchCriteria
