import SearchCriteria.Proofs.Expression.Parameters

/-!
# Nodes that are alike

Nodes that are alike render to fragments that are alike.  In three places rendering looks at more
than equality does.  The parameters of a script are read in the order in which they stand, which
equality does not see in a set or in a pair that is itself a mapping; neither does it see which part
of such a pair comes first in a range; and a marker goes into a fragment by key, so the keys there
have to be distinct, as those of any mapping are.
-/

namespace SearchCriteria

open Association (Matched)
open Mapping (alike_single distinctKeys_single)

/-- Nodes that are equal. -/
def Expression.Alike (a b : Expression) : Prop := a.agrees false b = true

theorem Value.Alike.exists_node {a : Expression} {w : Value} (h : (Value.node a).Alike w) :
    ∃ b, w = .node b ∧ a.Alike b := by
  cases w with
  | node b => exact ⟨b, rfl, h⟩
  | _ => cases h

/-! ## What equality decides -/

/--
Equality tells which part of the pair is the bound. A mapping or a set has its parts in an order that
equality does not see, so the value there must not name a bound as well.
-/
def Limit.Decided : Limit Value → Prop
  | ⟨_, value, .map _ _⟩ | ⟨_, value, .set _⟩ => ∀ c : Bound, value.isText c.name = false
  | ⟨_, _, .tuple⟩ | ⟨_, _, .list⟩ => True

/-- Distinct keys, also in the body that a marker is put into. -/
structure Mapping.Proper (m : Mapping) : Prop where
  distinct : m.DistinctKeys
  inside (key : Value) (body : Mapping) (h : m = [(key, .map body)]) : body.DistinctKeys

mutual

/--
The parameters of every script in the node are such, its ranges are decided, and its raw fragments
are proper.
-/
def Expression.WithParams (P : Value → Prop) : Expression → Prop
  | .script _ params => P params
  | .range _ limits => ∀ l ∈ limits, l.Decided
  | .raw fragment => Mapping.Proper fragment
  | .and nodes | .or nodes => WithParamsNodes P nodes
  | .not node | .cached node => node.WithParams P
  | .base | .term _ _ | .present _ | .lookup _ => True
termination_by structural e => e

def WithParamsNodes (P : Value → Prop) : List Expression → Prop
  | [] => True
  | e :: es => e.WithParams P ∧ WithParamsNodes P es
termination_by structural es => es

end

section WithParams

variable {P Q : Value → Prop}

mutual

theorem Expression.WithParams.mono (hPQ : ∀ v, P v → Q v) : ∀ {e : Expression},
    e.WithParams P → e.WithParams Q
  | .script _ params, h => hPQ params h
  | .raw _, h | .range _ _, h => h
  | .and _, h | .or _, h => WithParamsNodes.mono hPQ h
  | .not node, h | .cached node, h => Expression.WithParams.mono hPQ (e := node) h
  | .base, _ | .term _ _, _ | .present _, _ | .lookup _, _ => trivial

theorem WithParamsNodes.mono (hPQ : ∀ v, P v → Q v) : ∀ {es : List Expression},
    WithParamsNodes P es → WithParamsNodes Q es
  | [], _ => trivial
  | _ :: _, ⟨he, hes⟩ => ⟨he.mono hPQ, WithParamsNodes.mono hPQ hes⟩

end

end WithParams

/-! ## Scripts -/

theorem alike_scriptBody {source : String} {v w : Value} {f g : Mapping}
    (hv : v.ParamsNamed Value.ExactName) (h : v.Alike w) (hf : scriptBody source v = .ok f)
    (hg : scriptBody source w = .ok g) : f.Alike g := by
  unfold scriptBody at hf hg
  rw [← h.truthy_eq] at hg
  split at hf
  · rename_i htruthy
    rw [if_pos htruthy] at hg
    obtain ⟨m, hm, hf⟩ := bind_eq_ok.mp hf
    obtain ⟨n, hn, hg⟩ := bind_eq_ok.mp hg
    obtain rfl := Except.ok.inj hf
    obtain rfl := Except.ok.inj hg
    have hmn : m.Alike n := Mapping.alike_ofValue hv h hm hn
    exact (alike_single "params" (Value.alike_map_iff.mpr hmn)).cons
      (Mapping.entryAlike_entry "script" (Value.Alike.refl (.text source)))
  · rename_i htruthy
    rw [if_neg htruthy] at hg
    obtain rfl := Except.ok.inj hf
    obtain rfl := Except.ok.inj hg
    exact Mapping.Alike.refl _

/-! ## Fragments -/

namespace Fragment

variable {v w : Value} {f g : Mapping}

theorem alike_term (field : String) (h : v.Alike w) : (term field v).Alike (term field w) := by
  cases v with
  | tuple =>
    obtain ⟨_, rfl, hitems⟩ := h.exists_tuple
    exact alike_single "terms" (alike_single field (Value.alike_list_iff.mpr hitems))
  | _ =>
    cases w with
    | tuple => cases h
    | _ => exact alike_single "term" (alike_single field h)

/-- The ends of a range by name. -/
def ends (ls : List (Limit Value)) : List (Bound × Value) := ls.map fun l ↦ (l.bound, l.value)

theorem alike_limits {ls ms : List (Limit Value)}
    (h : List.Forall₂ (Matched Value.Alike) (ends ls) (ends ms)) :
    (limits ls).Alike (limits ms) := by
  refine Mapping.alike_of_forall₂ ?_
  rw [limits, limits, List.forall₂_map_left_iff, List.forall₂_map_right_iff]
  refine (Association.forall₂_ofList h).imp ?_
  rintro ⟨bound, v⟩ ⟨_, w⟩ ⟨rfl, hvw⟩
  exact Mapping.entryAlike_entry bound.name hvw

theorem alike_range (field : String) {ls ms : List (Limit Value)}
    (h : List.Forall₂ (Matched Value.Alike) (ends ls) (ends ms)) :
    (range field ls).Alike (range field ms) :=
  alike_single "range" (alike_single field (Value.alike_map_iff.mpr (alike_limits h)))

theorem alike_negation (h : f.Alike g) : (negation f).Alike (negation g) :=
  alike_single "not" (Value.alike_map_iff.mpr h)

theorem alike_cachedNegation (h : f.Alike g) : (cachedNegation f).Alike (cachedNegation g) := by
  have hfilter : (Mapping.single "filter" (.map f)).Alike (Mapping.single "filter" (.map g)) :=
    alike_single "filter" (Value.alike_map_iff.mpr h)
  exact (Mapping.Alike.refl (Mapping.single cacheKey (.bool true))).cons
    (Mapping.entryAlike_entry "not" (Value.alike_map_iff.mpr hfilter))

theorem forall₂_map_alike {fs gs : List Mapping} (h : List.Forall₂ Mapping.Alike fs gs) :
    List.Forall₂ Value.Alike (fs.map .map) (gs.map .map) := by
  rw [List.forall₂_map_left_iff, List.forall₂_map_right_iff]
  exact h.imp fun _ _ hfg ↦ Value.alike_map_iff.mpr hfg

/-- Fragments that are alike are empty alike, so a group leaves out the same ones. -/
theorem alike_group (mode : JoinMode) {fs gs : List Mapping}
    (h : List.Forall₂ Mapping.Alike fs gs) : (group mode fs).Alike (group mode gs) := by
  have hfilter : List.Forall₂ Mapping.Alike (fs.filter (!·.isEmpty)) (gs.filter (!·.isEmpty)) :=
    List.rel_filter (fun f g hfg ↦ by
      change (!f.isEmpty) = true ↔ (!g.isEmpty) = true
      rw [isEmpty_of_agreeEntries hfg]) h
  unfold group
  generalize fs.filter (!·.isEmpty) = present at hfilter ⊢
  generalize gs.filter (!·.isEmpty) = others at hfilter ⊢
  cases hfilter with
  | nil => exact Mapping.Alike.refl []
  | cons hfg hrest =>
    cases hrest with
    | nil => exact hfg
    | cons hfg' hrest =>
      have hlist := Value.alike_list_iff.mpr (forall₂_map_alike (.cons hfg (.cons hfg' hrest)))
      exact alike_single mode.name (alike_single "filters" hlist)

/-- The only entry of a mapping has a partner, which is the only one too. -/
theorem exists_of_alike_lone {key : Value} {body : Mapping}
    (h : Mapping.Alike [(key, .map body)] g) :
    ∃ other inner, g = [(other, .map inner)] ∧ key.sameKey other = true ∧ body.Alike inner := by
  obtain ⟨l, hperm, hl⟩ := exists_perm_of_agreeEntries h
  cases hl with
  | @cons _ e _ _ he hrest =>
    cases hrest
    obtain ⟨hkey, hvalue⟩ := entryAlike_iff.mp he
    obtain ⟨inner, hinner, hbody⟩ := hvalue.exists_map
    obtain ⟨other, _⟩ := e
    obtain rfl := hinner
    exact ⟨other, inner, (List.singleton_perm.mp hperm).symm, hkey, hbody⟩

/-- A marker goes into the same place of fragments that are alike. -/
theorem alike_marked (hf : f.Proper) (h : f.Alike g) : (marked f).Alike (marked g) := by
  by_cases hlone : ∃ key body, f = [(key, .map body)]
  · obtain ⟨key, body, rfl⟩ := hlone
    obtain ⟨other, inner, rfl, hkey, hbody⟩ := exists_of_alike_lone h
    have hmarked := hbody.putText (Value.Alike.refl (.bool true)) (hf.inside key body rfl) cacheKey
    exact (Mapping.Alike.refl []).cons
      (entryAlike_iff.mpr ⟨hkey, Value.alike_map_iff.mpr hmarked⟩)
  · have hother : ∀ key body, g ≠ [(key, .map body)] := by
      rintro key body rfl
      obtain ⟨other, inner, heq, -, -⟩ := exists_of_alike_lone h.symm
      exact hlone ⟨other, inner, heq⟩
    rw [marked_of_not_lone fun key body heq ↦ hlone ⟨key, body, heq⟩, marked_of_not_lone hother]
    exact h.putText (Value.Alike.refl (.bool true)) hf.distinct cacheKey

end Fragment

/-! ## Lookups -/

theorem Value.agrees_termValue {asKey : Bool} {v w : Value} (h : v.agrees asKey w = true) :
    v.termValue.agrees asKey w.termValue = true := by
  cases v with
  | list =>
    cases w with
    | list => exact h
    | _ => cases h
  | _ =>
    cases w with
    | list => cases h
    | _ => exact h

namespace Lookups

variable {ls ms all others : Lookups}

theorem matched_of_agreeLookups {asKey : Bool} (h : agreeLookups asKey ls ms = true) :
    List.Forall₂ (Matched fun v w ↦ v.agrees asKey w = true) ls ms := by
  induction ls generalizing ms with
  | nil =>
    cases ms with
    | nil => exact .nil
    | cons => cases h
  | cons l ls ih =>
    cases ms with
    | nil => cases h
    | cons m ms =>
      obtain ⟨hboth, hrest⟩ := Bool.and_eq_true_iff.mp h
      obtain ⟨hkey, hvalue⟩ := Bool.and_eq_true_iff.mp hboth
      exact .cons ⟨eq_of_beq hkey, hvalue⟩ (ih hrest)

theorem matched_bounds {r : Value → Value → Prop} (h : List.Forall₂ (Matched r) all others)
    (field : String) : List.Forall₂ (Matched r) (all.bounds field) (others.bounds field) := by
  refine Association.forall₂_ofList (List.rel_filterMap ?_ h)
  rintro ⟨key, v⟩ ⟨_, w⟩ ⟨rfl, hvw⟩
  dsimp only
  obtain ⟨name, operator⟩ := LookupKey.read key
  cases operator with
  | bound =>
    dsimp only
    split
    · exact .some ⟨rfl, hvw⟩
    · exact .none
  | _ => exact .none

theorem alike_rangeOn (h : List.Forall₂ (Matched Value.Alike) all others) (field : String) :
    (all.rangeOn field).fragment.Alike (others.rangeOn field).fragment := by
  refine Fragment.alike_range field ?_
  rw [Fragment.ends, Fragment.ends, List.map_map, List.map_map]
  simpa only [Function.comp_def, List.map_id'] using matched_bounds h field

/-- The conditions of lookups that are alike have fragments that are alike. -/
theorem alike_conditionsFrom (hall : List.Forall₂ (Matched Value.Alike) all others)
    (h : List.Forall₂ (Matched Value.Alike) ls ms) (ranged : List String) :
    List.Forall₂ (fun c d ↦ c.fragment.Alike d.fragment) (all.conditionsFrom ranged ls)
      (others.conditionsFrom ranged ms) := by
  induction h generalizing ranged with
  | nil => exact .nil
  | @cons l m _ _ hlm _ ih =>
    obtain ⟨key, v⟩ := l
    obtain ⟨_, w⟩ := m
    obtain ⟨rfl, hvw⟩ := hlm
    have hterm : ∀ field, (Fragment.term field v.termValue).Alike
        (Fragment.term field w.termValue) := fun field ↦
      Fragment.alike_term field (Value.agrees_termValue hvw)
    simp only [conditionsFrom]
    obtain ⟨field, operator⟩ := LookupKey.read key
    cases operator with
    | bound =>
      dsimp only
      split
      · exact ih ranged
      · exact .cons (alike_rangeOn hall field) (ih (field :: ranged))
    | eq | oneOf => exact .cons (hterm field) (ih ranged)
    | ne | noneOf => exact .cons (Fragment.alike_negation (hterm field)) (ih ranged)
    | present =>
      rw [hvw.truthy_eq]
      exact .cons (Mapping.Alike.refl _) (ih ranged)

theorem alike_fragment (h : List.Forall₂ (Matched Value.Alike) ls ms) :
    ls.fragment.Alike ms.fragment := by
  refine Fragment.alike_group .and ?_
  rw [List.forall₂_map_left_iff, List.forall₂_map_right_iff]
  exact alike_conditionsFrom h h []

end Lookups

/-! ## Rendered fragments are proper -/

namespace Fragment

open Mapping (Proper)

variable {f : Mapping}

theorem proper_nil : Proper [] := ⟨.nil, nofun⟩

theorem proper_single (name : String) {body : Mapping} (h : body.DistinctKeys) :
    Proper (Mapping.single name (.map body)) where
  distinct := distinctKeys_single name (.map body)
  inside _ _ heq := by
    cases heq
    exact h

theorem proper_test (t : FieldTest) : t.fragment.Proper := by
  cases t with
  | term field value =>
    cases value with
    | _ => exact proper_single _ (distinctKeys_single field _)
  | range field limits => exact proper_single "range" (distinctKeys_single field _)
  | present field => exact proper_single "exists" (distinctKeys_single "field" (.text field))

theorem proper_negation (h : f.Proper) : (negation f).Proper := proper_single "not" h.distinct

theorem proper_condition (c : Condition) : c.fragment.Proper := by
  obtain ⟨test, negated⟩ := c
  cases negated with
  | false => exact proper_test test
  | true => exact proper_negation (proper_test test)

theorem proper_cachedNegation (f : Mapping) : (cachedNegation f).Proper where
  distinct := Mapping.distinctKeys_cons.mpr ⟨rfl, distinctKeys_single cacheKey (.bool true)⟩
  inside _ _ heq := nomatch heq

theorem proper_group (mode : JoinMode) {fs : List Mapping} (h : ∀ f ∈ fs, Proper f) :
    (group mode fs).Proper := by
  have hpresent : ∀ f ∈ fs.filter (!·.isEmpty), Proper f := fun f hf ↦
    h f (List.mem_of_mem_filter hf)
  unfold group
  generalize fs.filter (!·.isEmpty) = present at hpresent ⊢
  match present with
  | [] => exact proper_nil
  | [f] => exact hpresent f (List.mem_singleton_self f)
  | _ :: _ :: _ => exact proper_single mode.name (distinctKeys_single "filters" _)

/-- A marker leaves a fragment proper. -/
theorem proper_marked (h : f.Proper) : (marked f).Proper := by
  by_cases hlone : ∃ key body, f = [(key, .map body)]
  · obtain ⟨key, body, rfl⟩ := hlone
    refine ⟨List.pairwise_singleton _ _, fun _ _ heq ↦ ?_⟩
    cases heq
    exact (h.inside key body rfl).putText cacheKey (.bool true)
  · rw [marked_of_not_lone fun key body heq ↦ hlone ⟨key, body, heq⟩]
    refine ⟨h.distinct.putText cacheKey (.bool true), fun key body heq ↦ ?_⟩
    -- the marker is among the keys, and has no body
    have hmarker := Association.get?_put_self Value.sameKey_lawful.self (.text cacheKey)
      (.bool true) f
    have hput : Association.put Value.sameKey (.text cacheKey) (.bool true) f =
        f.putText cacheKey (.bool true) := Mapping.put_text f cacheKey (.bool true)
    rw [hput, heq, Association.get?] at hmarker
    split at hmarker
    · cases hmarker
    · cases hmarker

theorem distinctKeys_scriptBody {source : String} {params : Value} {body : Mapping}
    (h : scriptBody source params = .ok body) : body.DistinctKeys := by
  unfold scriptBody at h
  split at h
  · obtain ⟨named, -, h⟩ := bind_eq_ok.mp h
    obtain rfl := Except.ok.inj h
    exact Mapping.distinctKeys_cons.mpr ⟨rfl, distinctKeys_single "params" (.map named)⟩
  · obtain rfl := Except.ok.inj h
    exact distinctKeys_single "script" (.text source)

end Fragment

open Fragment

mutual

theorem Expression.proper_render {P : Value → Prop} : ∀ {e : Expression} {f : Mapping},
    e.WithParams P → e.render = .ok f → f.Proper
  | .base, _, _, h => nomatch h
  | .term field value, _, _, h => by
    obtain rfl := Except.ok.inj h
    exact proper_test (.term field value)
  | .range field limits, _, _, h => by
    obtain rfl := Except.ok.inj h
    exact proper_test (.range field limits)
  | .present field, _, _, h => by
    obtain rfl := Except.ok.inj h
    exact proper_test (.present field)
  | .script source params, _, _, h => by
    obtain ⟨body, hbody, h⟩ := bind_eq_ok.mp h
    obtain rfl := Except.ok.inj h
    exact proper_single "script" (distinctKeys_scriptBody hbody)
  | .raw fragment, _, hwith, h => by
    obtain rfl := Except.ok.inj h
    exact hwith
  | .lookup lookups, _, _, h => by
    obtain rfl := Except.ok.inj h
    refine proper_group .and fun f hf ↦ ?_
    obtain ⟨c, -, rfl⟩ := List.mem_map.mp hf
    exact proper_condition c
  | .and nodes, _, hwith, h | .or nodes, _, hwith, h => by
    obtain ⟨fragments, hfragments, h⟩ := bind_eq_ok.mp h
    obtain rfl := Except.ok.inj h
    exact proper_group _ (proper_renderNodes hwith hfragments)
  | .not node, _, hwith, h => by
    rcases Expression.render_not_eq_ok h with ⟨inner, f, rfl, hf, rfl⟩ | ⟨f, hf, rfl⟩
    · exact proper_cachedNegation f
    · exact proper_negation (Expression.proper_render (e := node) hwith hf)
  | .cached node, _, hwith, h => by
    rcases Expression.render_cached_eq_ok h with ⟨inner, f, rfl, hf, rfl⟩ | ⟨f, hf, rfl⟩
    · exact proper_cachedNegation f
    · exact proper_marked (Expression.proper_render (e := node) hwith hf)

theorem proper_renderNodes {P : Value → Prop} : ∀ {es : List Expression} {fs : List Mapping},
    WithParamsNodes P es → renderNodes es = .ok fs → ∀ f ∈ fs, Mapping.Proper f
  | [], _, _, h => by
    obtain rfl := Except.ok.inj h
    exact fun _ hf ↦ absurd hf List.not_mem_nil
  | e :: es, _, ⟨he, hes⟩, h => by
    obtain ⟨f, hf, h⟩ := bind_eq_ok.mp h
    obtain ⟨fs, hfs, h⟩ := bind_eq_ok.mp h
    obtain rfl := Except.ok.inj h
    exact List.forall_mem_cons.mpr ⟨Expression.proper_render he hf, proper_renderNodes hes hfs⟩

end

/-! ## Rendering -/

namespace Expression

theorem Alike.symm {a b : Expression} (h : a.Alike b) : b.Alike a :=
  Value.Alike.symm (v := .node a) (w := .node b) h

theorem Alike.exists_not {a b : Expression} (h : (Expression.not a).Alike b) :
    ∃ d, b = .not d ∧ a.Alike d := by
  cases b with
  | not d => exact ⟨d, rfl, h⟩
  | _ => cases h

theorem Alike.exists_cached {a b : Expression} (h : (Expression.cached a).Alike b) :
    ∃ d, b = .cached d ∧ a.Alike d := by
  cases b with
  | cached d => exact ⟨d, rfl, h⟩
  | _ => cases h

end Expression

/-- Pairs that agree have the same bound, and values that are alike. -/
theorem Limit.Decided.matched {l m : Limit Value} (hl : l.Decided)
    (h : l.agrees false m = true) : l.bound = m.bound ∧ l.value.Alike m.value := by
  obtain ⟨b, v, form⟩ := l
  obtain ⟨c, w, other⟩ := m
  have hrow : (b == c && v.agrees false w) = true → b = c ∧ v.Alike w := fun h ↦
    (Bool.and_eq_true_iff.mp h).imp_left eq_of_beq
  cases form with
  | tuple =>
    cases other with
    | tuple => exact hrow h
    | _ => cases h
  | list =>
    cases other with
    | list => exact hrow h
    | _ => cases h
  | map p q =>
    cases other with
    | map r s =>
      have hcross : v.isText c.name = false := hl c
      simp only [Limit.agrees, hcross, Bool.false_and, Bool.and_false] at h
      split at h
      · rename_i hplace
        exact ⟨eq_of_beq (Bool.and_eq_true_iff.mp hplace).1,
          Value.alike_of_agrees (Bool.and_eq_true_iff.mp h).1⟩
      · cases h
    | _ => cases h
  | set =>
    cases other with
    | set =>
      have hcross : v.isText c.name = false := hl c
      simp only [Limit.agrees, hcross, Bool.and_false] at h
      split at h
      · rename_i hbound
        exact ⟨eq_of_beq hbound, Value.alike_of_agrees h⟩
      · cases h
    | _ => cases h

theorem ends_of_agreeLimits {ls ms : List (Limit Value)} (hls : ∀ l ∈ ls, l.Decided)
    (h : agreeLimits false ls ms = true) :
    List.Forall₂ (Matched Value.Alike) (ends ls) (ends ms) := by
  induction ls generalizing ms with
  | nil =>
    cases ms with
    | nil => exact .nil
    | cons => cases h
  | cons l ls ih =>
    cases ms with
    | nil => cases h
    | cons m ms =>
      obtain ⟨hl, hls⟩ := List.forall_mem_cons.mp hls
      obtain ⟨hlm, hrest⟩ := Bool.and_eq_true_iff.mp h
      exact .cons (hl.matched hlm) (ih hls hrest)

/-- What is made of two results is related, if the results are there. -/
theorem rel_of_bind {α β : Type} {r : β → β → Prop} {x y : Except Fault α} {w : α → β} {f g : β}
    (hf : (do return w (← x)) = Except.ok f) (hg : (do return w (← y)) = Except.ok g)
    (h : ∀ a b, x = .ok a → y = .ok b → r (w a) (w b)) : r f g := by
  obtain ⟨a, ha, hf⟩ := bind_eq_ok.mp hf
  obtain ⟨b, hb, hg⟩ := bind_eq_ok.mp hg
  obtain rfl := Except.ok.inj hf
  obtain rfl := Except.ok.inj hg
  exact h a b ha hb

open Expression (render_not_of_ne_cached render_cached_of_ne_not)

mutual

/-- Nodes that are alike render to fragments that are alike. -/
theorem Expression.alike_render : ∀ {a b : Expression} {f g : Mapping},
    a.WithParams (Value.ParamsNamed Value.ExactName) → a.Alike b →
      a.render = .ok f → b.render = .ok g → f.Alike g
  | .base, _, _, _, _, _, hf, _ => nomatch hf
  | .term field v, b, _, _, _, h, hf, hg => by
    cases b with
    | term other w =>
      obtain ⟨hfield, hvalue⟩ := Bool.and_eq_true_iff.mp h
      obtain rfl := eq_of_beq hfield
      obtain rfl := Except.ok.inj hf
      obtain rfl := Except.ok.inj hg
      exact alike_term field hvalue
    | _ => cases h
  | .range field ls, b, _, _, hwith, h, hf, hg => by
    cases b with
    | range other ms =>
      obtain ⟨hfield, hlimits⟩ := Bool.and_eq_true_iff.mp h
      obtain rfl := eq_of_beq hfield
      obtain rfl := Except.ok.inj hf
      obtain rfl := Except.ok.inj hg
      exact alike_range field (ends_of_agreeLimits hwith hlimits)
    | _ => cases h
  | .present field, b, _, _, _, h, hf, hg => by
    cases b with
    | present other =>
      obtain rfl : field = other := eq_of_beq h
      obtain rfl := Except.ok.inj (hf.symm.trans hg)
      exact Mapping.Alike.refl _
    | _ => cases h
  | .script source v, b, _, _, hwith, h, hf, hg => by
    cases b with
    | script other w =>
      obtain ⟨hsource, hparams⟩ := Bool.and_eq_true_iff.mp h
      obtain rfl := eq_of_beq hsource
      refine rel_of_bind hf hg fun body body' hbody hbody' ↦ ?_
      have hscript : body.Alike body' := alike_scriptBody hwith hparams hbody hbody'
      exact alike_single "script" (Value.alike_map_iff.mpr hscript)
    | _ => cases h
  | .raw fragment, b, _, _, _, h, hf, hg => by
    cases b with
    | raw other =>
      obtain ⟨hentries, -⟩ := Bool.and_eq_true_iff.mp h
      obtain rfl := Except.ok.inj hf
      obtain rfl := Except.ok.inj hg
      exact hentries
    | _ => cases h
  | .lookup ls, b, _, _, _, h, hf, hg => by
    cases b with
    | lookup ms =>
      obtain rfl := Except.ok.inj hf
      obtain rfl := Except.ok.inj hg
      exact Lookups.alike_fragment (Lookups.matched_of_agreeLookups h)
    | _ => cases h
  | .and xs, b, _, _, hwith, h, hf, hg => by
    cases b with
    | and ys =>
      refine rel_of_bind hf hg fun fs gs hfs hgs ↦ ?_
      exact alike_group .and (@alike_renderNodes xs ys fs gs hwith h hfs hgs)
    | _ => cases h
  | .or xs, b, _, _, hwith, h, hf, hg => by
    cases b with
    | or ys =>
      refine rel_of_bind hf hg fun fs gs hfs hgs ↦ ?_
      exact alike_group .or (@alike_renderNodes xs ys fs gs hwith h hfs hgs)
    | _ => cases h
  | .not node, _, _, _, hwith, h, hf, hg => by
    obtain ⟨other, rfl, hnode⟩ := h.exists_not
    by_cases hcached : ∃ inner, node = .cached inner
    · -- a marker in a negation has its partner there
      obtain ⟨inner, rfl⟩ := hcached
      obtain ⟨_, rfl, hinner⟩ := hnode.exists_cached
      refine rel_of_bind hf hg fun f g hf hg ↦ ?_
      exact alike_cachedNegation (Expression.alike_render (a := inner) hwith hinner hf hg)
    · have hother : ∀ inner, other ≠ .cached inner := by
        rintro inner rfl
        obtain ⟨d, rfl, -⟩ := hnode.symm.exists_cached
        exact hcached ⟨d, rfl⟩
      rw [render_not_of_ne_cached fun inner heq ↦ hcached ⟨inner, heq⟩] at hf
      rw [render_not_of_ne_cached hother] at hg
      refine rel_of_bind hf hg fun f g hf hg ↦ ?_
      exact alike_negation (Expression.alike_render (a := node) hwith hnode hf hg)
  | .cached node, _, _, _, hwith, h, hf, hg => by
    obtain ⟨other, rfl, hnode⟩ := h.exists_cached
    by_cases hnot : ∃ inner, node = .not inner
    · obtain ⟨inner, rfl⟩ := hnot
      obtain ⟨_, rfl, hinner⟩ := hnode.exists_not
      refine rel_of_bind hf hg fun f g hf hg ↦ ?_
      exact alike_cachedNegation (Expression.alike_render (a := inner) hwith hinner hf hg)
    · have hother : ∀ inner, other ≠ .not inner := by
        rintro inner rfl
        obtain ⟨d, rfl, -⟩ := hnode.symm.exists_not
        exact hnot ⟨d, rfl⟩
      rw [render_cached_of_ne_not fun inner heq ↦ hnot ⟨inner, heq⟩] at hf
      rw [render_cached_of_ne_not hother] at hg
      refine rel_of_bind hf hg fun f g hf hg ↦ ?_
      exact alike_marked (Expression.proper_render (e := node) hwith hf)
        (Expression.alike_render (a := node) hwith hnode hf hg)

theorem alike_renderNodes : ∀ {xs ys : List Expression} {fs gs : List Mapping},
    WithParamsNodes (Value.ParamsNamed Value.ExactName) xs → agreeNodes false xs ys = true →
      renderNodes xs = .ok fs → renderNodes ys = .ok gs → List.Forall₂ Mapping.Alike fs gs
  | [], [], _, _, _, _, hfs, hgs => by
    obtain rfl := Except.ok.inj hfs
    obtain rfl := Except.ok.inj hgs
    exact .nil
  | [], _ :: _, _, _, _, h, _, _ | _ :: _, [], _, _, _, h, _, _ => nomatch h
  | x :: xs, y :: ys, _, _, ⟨hx, hxs⟩, h, hfs, hgs => by
    obtain ⟨hxy, hrest⟩ := Bool.and_eq_true_iff.mp h
    obtain ⟨f, hf, hfs⟩ := bind_eq_ok.mp hfs
    obtain ⟨fs, hxsfs, hfs⟩ := bind_eq_ok.mp hfs
    obtain rfl := Except.ok.inj hfs
    obtain ⟨g, hg, hgs⟩ := bind_eq_ok.mp hgs
    obtain ⟨gs, hysgs, hgs⟩ := bind_eq_ok.mp hgs
    obtain rfl := Except.ok.inj hgs
    exact .cons (Expression.alike_render (a := x) hx hxy hf hg)
      (@alike_renderNodes xs ys fs gs hxs hrest hxsfs hysgs)

end

end SearchCriteria
