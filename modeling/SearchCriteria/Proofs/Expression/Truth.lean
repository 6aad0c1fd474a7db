import SearchCriteria.Proofs.Expression.Building
import SearchCriteria.Proofs.Expression.Judgement
import SearchCriteria.Proofs.Expression.Rendering

/-!
# Truth of expressions

The fragment of a node holds exactly if the node does, read as a boolean tree: rendering may
collapse groups, fold a marker into a negation or put it into the body of a fragment, but never
changes what is said.

What carries the induction is that a marker never overwrites anything: wherever a rendered fragment
would take one, there is none yet, or the same one already.
-/

namespace SearchCriteria

open Mapping (entry single)
open Fragment (cacheKey)

/-! ## Fragments without markers of their own -/

namespace Fragment

/-- No marker is among the keys of the fragment, nor in the body of its only key. -/
structure Unmarked (fragment : Mapping) : Prop where
  beside : fragment.getText? cacheKey = none
  inside (key : Value) (body : Mapping) (h : fragment = [(key, .map body)]) :
    body.getText? cacheKey = none

end Fragment

/-- The field that a test is about. -/
def FieldTest.field : FieldTest → String
  | .term field _ | .range field _ | .present field => field

mutual

/-- No field in the node has the marker's name, and raw fragments hold something and no marker. -/
def Expression.Unmarked : Expression → Prop
  | .term field _ | .range field _ | .present field => field ≠ cacheKey
  | .raw fragment => fragment ≠ [] ∧ Fragment.Unmarked fragment
  | .and nodes | .or nodes => UnmarkedNodes nodes
  | .not node | .cached node => node.Unmarked
  | .lookup lookups => ∀ c ∈ Lookups.conditions lookups, c.test.field ≠ cacheKey
  | .base | .script _ _ => True
termination_by structural e => e

def UnmarkedNodes : List Expression → Prop
  | [] => True
  | e :: es => e.Unmarked ∧ UnmarkedNodes es
termination_by structural es => es

end

/-! ## Fragments that take a marker -/

namespace Fragment

/-- There is no marker among the keys, or the one that would be put there. -/
def TakesMarker (mapping : Mapping) : Prop :=
  mapping.getText? cacheKey = none ∨ mapping.getText? cacheKey = some (.bool true)

/-- A fragment that holds something, and takes a marker wherever one can be put. -/
structure Ready (fragment : Mapping) : Prop where
  ne_nil : fragment ≠ []
  beside : TakesMarker fragment
  inside (key : Value) (body : Mapping) (h : fragment = [(key, .map body)]) : TakesMarker body

theorem Unmarked.ready {fragment : Mapping} (h : Unmarked fragment) (hne : fragment ≠ []) :
    Ready fragment where
  ne_nil := hne
  beside := .inl h.beside
  inside key body heq := .inl (h.inside key body heq)

/-- A marker is put at the end, or it is there. -/
theorem TakesMarker.putText_eq {mapping : Mapping} (h : TakesMarker mapping) :
    (mapping.getText? cacheKey = none ∧
      mapping.putText cacheKey (.bool true) = mapping ++ [entry cacheKey (.bool true)]) ∨
    mapping.putText cacheKey (.bool true) = mapping := by
  rcases h with h | h
  · exact .inl ⟨h, Association.put_of_not_holds (Mapping.getText?_eq_none_iff.mp h) _⟩
  · exact .inr (Association.put_eq_self h)

theorem getText?_putText (mapping : Mapping) (value : Value) :
    (mapping.putText cacheKey value).getText? cacheKey = some value := by
  induction mapping with
  | nil => rfl
  | cons e rest ih =>
    obtain ⟨k, v⟩ := e
    cases hk : k.sameText (.text cacheKey) with
    | true => simp [Mapping.putText, Mapping.getText?, Association.put, Association.get?, hk]
    | false =>
      simpa [Mapping.putText, Mapping.getText?, Association.put, Association.get?, hk] using ih

/-- A lone key with a body is no marker. -/
theorem getText?_lone {key : Value} {body : Mapping}
    (h : TakesMarker [(key, .map body)]) (other : Mapping) :
    Mapping.getText? [(key, .map other)] cacheKey = none := by
  cases hk : key.sameText (.text cacheKey) with
  | false => simp [Mapping.getText?, Association.get?, hk]
  | true => simp [TakesMarker, Mapping.getText?, Association.get?, hk] at h

theorem Ready.marked {fragment : Mapping} (h : Ready fragment) : Ready (marked fragment) := by
  refine ⟨marked_ne_nil fragment, ?_, ?_⟩
  all_goals unfold Fragment.marked
  · split
    · rename_i key body
      exact .inl (getText?_lone h.beside _)
    · exact .inr (getText?_putText _ _)
  · intro key body heq
    split at heq
    · cases heq
      exact .inr (getText?_putText _ _)
    · -- the marker is one of the keys, and has no body
      have hmarker := getText?_putText fragment (.bool true)
      rw [heq] at hmarker
      cases hk : key.sameText (.text cacheKey) <;>
        simp [Mapping.getText?, Association.get?, hk] at hmarker

theorem ready_single {name : String} (hname : name ≠ cacheKey) {body : Mapping}
    (hbody : TakesMarker body) : Ready [entry name (.map body)] where
  ne_nil := List.cons_ne_nil _ _
  beside := .inl (by rw [Mapping.getText?_cons_entry, if_neg hname, Mapping.getText?_nil])
  inside key other heq := by
    cases heq
    exact hbody

theorem takesMarker_single {name : String} (hname : name ≠ cacheKey) (value : Value) :
    TakesMarker [entry name value] :=
  .inl (by rw [Mapping.getText?_cons_entry, if_neg hname, Mapping.getText?_nil])

theorem ready_term {field : String} (h : field ≠ cacheKey) (value : Value) :
    Ready (term field value) := by
  unfold term
  split
  · exact ready_single (by decide) (takesMarker_single h _)
  · exact ready_single (by decide) (takesMarker_single h _)

theorem ready_range {field : String} (h : field ≠ cacheKey) (limits : List (Limit Value)) :
    Ready (range field limits) := ready_single (by decide) (takesMarker_single h _)

theorem ready_present (field : String) : Ready (present field) :=
  ready_single (by decide) (takesMarker_single (by decide) _)

theorem ready_test {t : FieldTest} (h : t.field ≠ cacheKey) : Ready t.fragment := by
  cases t with
  | term field value => exact ready_term h value
  | range field limits => exact ready_range h limits
  | present field => exact ready_present field

theorem ready_script {source : String} {params : Value} {body : Mapping}
    (h : scriptBody source params = .ok body) : Ready [entry "script" (.map body)] := by
  refine ready_single (by decide) (.inl ?_)
  unfold scriptBody at h
  split at h
  · obtain ⟨named, -, h⟩ := bind_eq_ok.mp h
    obtain rfl := Except.ok.inj h
    rfl
  · obtain rfl := Except.ok.inj h
    rfl

theorem Ready.negation {fragment : Mapping} (h : Ready fragment) : Ready (negation fragment) :=
  ready_single (by decide) h.beside

theorem ready_cachedNegation (fragment : Mapping) : Ready (cachedNegation fragment) where
  ne_nil := List.cons_ne_nil _ _
  beside := .inr rfl
  inside _ _ heq := nomatch heq

/-- Of fragments that hold something, a lone one stands for itself, and more are grouped. -/
theorem group_eq (mode : JoinMode) {fragments : List Mapping} (h : ∀ f ∈ fragments, f ≠ []) :
    (∃ f, fragments = [f] ∧ group mode fragments = f) ∨ fragments = [] ∨
      group mode fragments =
        [entry mode.name (.map [entry "filters" (.list (fragments.map .map))])] := by
  have hfilter : fragments.filter (!·.isEmpty) = fragments :=
    List.filter_eq_self.mpr fun f hf ↦ by simpa using h f hf
  rw [group, hfilter]
  match fragments with
  | [] => exact .inr (.inl rfl)
  | [f] => exact .inl ⟨f, rfl, rfl⟩
  | f :: g :: rest => exact .inr (.inr rfl)

end Fragment

/-! ## The meaning of rendering -/

namespace Judgement

open Fragment (Ready)

/-- A fragment that takes a marker and says what it should. -/
structure Conveys (J : Judgement) (fragment : Mapping) (truth : Bool) : Prop where
  ready : Ready fragment
  holds : J.holds fragment = truth

variable {J : Judgement} {fragment : Mapping} {truth : Bool}

theorem Conveys.negation (h : J.Conveys fragment truth) :
    J.Conveys (Fragment.negation fragment) !truth where
  ready := h.ready.negation
  holds := (J.holds_not fragment).trans (congrArg _ h.holds)

theorem Conveys.cachedNegation (h : J.Conveys fragment truth) :
    J.Conveys (Fragment.cachedNegation fragment) !truth where
  ready := Fragment.ready_cachedNegation fragment
  holds := (J.holds_cachedNot fragment).trans (congrArg _ h.holds)

theorem holds_marked (h : Ready fragment) :
    J.holds (Fragment.marked fragment) = J.holds fragment := by
  unfold Fragment.marked
  split
  · rename_i key body
    rcases (h.inside key body rfl).putText_eq with ⟨hnone, hput⟩ | hput
    · rw [hput]
      exact J.holds_inside key body hnone
    · rw [hput]
  · rcases h.beside.putText_eq with ⟨hnone, hput⟩ | hput
    · rw [hput]
      exact J.holds_beside _ hnone
    · rw [hput]

theorem Conveys.marked (h : J.Conveys fragment truth) :
    J.Conveys (Fragment.marked fragment) truth where
  ready := h.ready.marked
  holds := (holds_marked h.ready).trans h.holds

theorem conveys_test {t : FieldTest} (h : t.field ≠ cacheKey) :
    J.Conveys t.fragment (J.holds t.fragment) := ⟨Fragment.ready_test h, rfl⟩

theorem conveys_condition {c : Condition} (h : c.test.field ≠ cacheKey) :
    J.Conveys c.fragment (J.ofCondition c) := by
  obtain ⟨test, negated⟩ := c
  cases negated with
  | false => exact conveys_test h
  | true => exact (conveys_test h).negation

variable {fragments : List Mapping} {truths : List Bool}

theorem map_holds_eq (h : List.Forall₂ J.Conveys fragments truths) :
    fragments.map J.holds = truths := by
  induction h with
  | nil => rfl
  | cons hf _ ih => rw [List.map_cons, hf.holds, ih]

theorem ready_of_mem (h : List.Forall₂ J.Conveys fragments truths) : ∀ f ∈ fragments, Ready f := by
  induction h with
  | nil => exact fun _ hf ↦ absurd hf List.not_mem_nil
  | cons hf _ ih => exact List.forall_mem_cons.mpr ⟨hf.ready, ih⟩

/-- A group conveys what the judgement makes of its wrapper, and a lone part what it says itself. -/
theorem conveys_group (mode : JoinMode) (join : (Mapping → Bool) → List Mapping → Bool)
    (hmode : mode.name ≠ cacheKey) (hlone : ∀ f, join J.holds [f] = J.holds f)
    (hgroup : J.holds [entry mode.name (.map [entry "filters" (.list (fragments.map .map))])] =
      join J.holds fragments)
    (h : ∀ f ∈ fragments, Ready f) (hne : fragments ≠ []) :
    J.Conveys (Fragment.group mode fragments) (join J.holds fragments) := by
  rcases Fragment.group_eq mode (fun f hf ↦ (h f hf).ne_nil) with
    ⟨f, rfl, heq⟩ | hnil | heq
  · rw [heq, hlone]
    exact ⟨h f (List.mem_singleton_self f), rfl⟩
  · exact absurd hnil hne
  · rw [heq]
    exact ⟨Fragment.ready_single hmode (Fragment.takesMarker_single (by decide) _), hgroup⟩

theorem conveys_allOf (h : List.Forall₂ J.Conveys fragments truths) (hne : fragments ≠ []) :
    J.Conveys (Fragment.allOf fragments) (truths.all id) := by
  have hgroup := conveys_group .and (fun p fs ↦ fs.all p) (by decide) (fun f ↦ by simp)
    (J.holds_and fragments) (ready_of_mem h) hne
  rw [← map_holds_eq h, List.all_map]
  exact hgroup

theorem conveys_anyOf (h : List.Forall₂ J.Conveys fragments truths) (hne : fragments ≠ []) :
    J.Conveys (Fragment.anyOf fragments) (truths.any id) := by
  have hgroup := conveys_group .or (fun p fs ↦ fs.any p) (by decide) (fun f ↦ by simp)
    (J.holds_or fragments) (ready_of_mem h) hne
  rw [← map_holds_eq h, List.any_map]
  exact hgroup

end Judgement

/-- The first lookup always gives a condition. -/
theorem Lookups.conditions_ne_nil {lookups : Lookups} (h : lookups ≠ []) :
    lookups.conditions ≠ [] := by
  cases lookups with
  | nil => exact absurd rfl h
  | cons l rest =>
    obtain ⟨key, value⟩ := l
    unfold conditions conditionsFrom
    split <;> simp

theorem renderNodes_ne_nil {nodes : List Expression} {fragments : List Mapping}
    (h : renderNodes nodes = .ok fragments) (hne : nodes ≠ []) : fragments ≠ [] := by
  cases nodes with
  | nil => exact absurd rfl hne
  | cons e es =>
    obtain ⟨_, -, h⟩ := bind_eq_ok.mp h
    obtain ⟨_, -, h⟩ := bind_eq_ok.mp h
    obtain rfl := Except.ok.inj h
    exact List.cons_ne_nil _ _

theorem Lookups.conveys_fragment (J : Judgement) {lookups : Lookups} (hne : lookups ≠ [])
    (h : ∀ c ∈ lookups.conditions, c.test.field ≠ cacheKey) :
    J.Conveys lookups.fragment (lookups.conditions.all J.ofCondition) := by
  have hall : List.Forall₂ J.Conveys (lookups.conditions.map Condition.fragment)
      (lookups.conditions.map J.ofCondition) := by
    rw [List.forall₂_map_left_iff, List.forall₂_map_right_iff, List.forall₂_same]
    exact fun c hc ↦ Judgement.conveys_condition (h c hc)
  have hfragments : lookups.conditions.map Condition.fragment ≠ [] := by
    simpa using conditions_ne_nil hne
  have hconveys := Judgement.conveys_allOf hall hfragments
  rw [List.all_map] at hconveys
  exact hconveys

mutual

/-- A node's fragment says what the tree says. -/
theorem Expression.conveys_render (J : Judgement) : ∀ {e : Expression} {fragment},
    e.render = .ok fragment → e.Grounded → e.Unmarked → J.Conveys fragment (e.truth J)
  | .base, _, h, _, _ => nomatch h
  | .term field value, _, h, _, hu => by
    obtain rfl := Except.ok.inj h
    exact ⟨Fragment.ready_term hu value, rfl⟩
  | .range field limits, _, h, _, hu => by
    obtain rfl := Except.ok.inj h
    exact ⟨Fragment.ready_range hu limits, rfl⟩
  | .present field, _, h, _, _ => by
    obtain rfl := Except.ok.inj h
    exact ⟨Fragment.ready_present field, rfl⟩
  | .raw fragment, _, h, _, hu => by
    obtain rfl := Except.ok.inj h
    exact ⟨hu.2.ready hu.1, rfl⟩
  | .script source params, fragment, h, _, _ => by
    have htruth : (Expression.script source params).truth J = J.ofFragment (.ok fragment) :=
      congrArg J.ofFragment h
    obtain ⟨body, hbody, h⟩ := bind_eq_ok.mp h
    obtain rfl := Except.ok.inj h
    exact ⟨Fragment.ready_script hbody, htruth.symm⟩
  | .lookup lookups, _, h, hg, hu => by
    obtain rfl := Except.ok.inj h
    exact Lookups.conveys_fragment J hg hu
  | .and nodes, _, h, hg, hu => by
    obtain ⟨fragments, hfragments, h⟩ := bind_eq_ok.mp h
    obtain rfl := Except.ok.inj h
    exact Judgement.conveys_allOf (conveys_renderNodes J hfragments hg.2 hu)
      (renderNodes_ne_nil hfragments hg.1)
  | .or nodes, _, h, hg, hu => by
    obtain ⟨fragments, hfragments, h⟩ := bind_eq_ok.mp h
    obtain rfl := Except.ok.inj h
    exact Judgement.conveys_anyOf (conveys_renderNodes J hfragments hg.2 hu)
      (renderNodes_ne_nil hfragments hg.1)
  | .not node, _, h, hg, hu => by
    rcases Expression.render_not_eq_ok h with ⟨inner, f, rfl, hf, rfl⟩ | ⟨f, hf, rfl⟩
    · exact (inner.conveys_render J hf hg hu).cachedNegation
    · exact (node.conveys_render J hf hg hu).negation
  | .cached node, _, h, hg, hu => by
    rcases Expression.render_cached_eq_ok h with ⟨inner, f, rfl, hf, rfl⟩ | ⟨f, hf, rfl⟩
    · exact (inner.conveys_render J hf hg hu).cachedNegation
    · exact (node.conveys_render J hf hg hu).marked

theorem conveys_renderNodes (J : Judgement) : ∀ {es : List Expression} {fragments},
    renderNodes es = .ok fragments → GroundedNodes es → UnmarkedNodes es →
      List.Forall₂ J.Conveys fragments (truths J es)
  | [], _, h, _, _ => by
    obtain rfl := Except.ok.inj h
    exact .nil
  | e :: es, _, h, hg, hu => by
    obtain ⟨fragment, hfragment, h⟩ := bind_eq_ok.mp h
    obtain ⟨rest, hrest, h⟩ := bind_eq_ok.mp h
    obtain rfl := Except.ok.inj h
    exact .cons (e.conveys_render J hfragment hg.1 hu.1)
      (conveys_renderNodes J hrest hg.2 hu.2)

end

/--
Rendering preserves what a tree says.  For every node that is built without a marker of its own, in
every judgement: its fragment holds exactly if the node does, read off the tree.  There is a
fragment unless the parameters of some script do not come down to a mapping.
-/
theorem Expression.holds_render {e : Expression} (hbuilt : e.Built) (hmarker : e.Unmarked)
    (J : Judgement) :
    ((∃ fragment, e.render = .ok fragment) ↔ e.Renderable) ∧
    ∀ fragment, e.render = .ok fragment → J.holds fragment = e.truth J :=
  ⟨e.exists_render_iff, fun _ h ↦ (e.conveys_render J h hbuilt.grounded hmarker).holds⟩

/-- A marked choice between lookups and a negation that is marked inside, where a leaf holds if it
asks for a place. -/
theorem Expression.holds_render_of_marked_choice :
    let lookups : Lookups :=
      [("price__gte", .int 1), ("price__lt", .int 9), ("brand__ne", .text "acme")]
    let place : Mapping := single "geo" (.map (single "near" (.text "here")))
    let node : Expression := .cached (.or [.lookup lookups, .not (.cached (.raw place))])
    let J := Judgement.ofLeaves fun fragment ↦ (fragment.getText? "geo").isSome
    node.Built ∧ node.Unmarked ∧ node.truth J = false ∧
      ∃ fragment, node.render = .ok fragment ∧ J.holds fragment = node.truth J := by
  intro lookups place node J
  have hlookup : Expression.Built (.lookup lookups) :=
    have h : buildLookup (lookups.map fun l ↦ entry l.1 l.2) = .ok (.lookup lookups) := by rfl
    .lookup h
  have hplace : Expression.Built (.raw place) :=
    have h : buildRaw (.map place) = .ok (.raw place) := rfl
    .raw h
  have hbuilt : node.Built :=
    have h : (Expression.lookup lookups).disjoinValue (.node (.not (.cached (.raw place)))) =
        .ok (.or [.lookup lookups, .not (.cached (.raw place))]) := rfl
    .cached (.disjoin hlookup (fun n hn ↦ Value.node.inj hn ▸ .not (.cached hplace)) h)
  have hmarker : node.Unmarked :=
    ⟨show ∀ c ∈ lookups.conditions, c.test.field ≠ cacheKey by decide,
      ⟨List.cons_ne_nil _ _, rfl, fun _ _ h ↦ by
        obtain ⟨-, rfl⟩ := Prod.mk.inj (List.cons.inj h).1 |>.imp_right Value.map.inj
        rfl⟩, trivial⟩
  have hprice : J.holds (lookups.rangeOn "price").fragment = false :=
    Judgement.judge_of_no_reading rfl
  have hgeo : J.holds place = true := Judgement.judge_of_no_reading rfl
  have htruth : node.truth J = false := by
    have hlookups : (Expression.lookup lookups).truth J = false :=
      show ((J.holds (lookups.rangeOn "price").fragment && _) : Bool) = false by
        rw [hprice, Bool.false_and]
    change ((Expression.lookup lookups).truth J || (!J.holds place || false)) = false
    rw [hlookups, hgeo]
    rfl
  obtain ⟨hrender, hholds⟩ := node.holds_render hbuilt hmarker J
  obtain ⟨fragment, hfragment⟩ := hrender.mpr ⟨trivial, trivial, trivial⟩
  exact ⟨hbuilt, hmarker, htruth, fragment, hfragment, hholds fragment hfragment⟩

end SearchCriteria
