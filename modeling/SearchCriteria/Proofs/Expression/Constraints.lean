import SearchCriteria.Proofs.Expression.Resolving

/-!
# What becomes of the lookups

Every lookup is a constraint of its own.  The nodes that lookups resolve to express exactly those
that are kept, and a document passes the lookups together if it passes each kept one alone.  A
lookup that is not kept gives an end that a later one, under another spelling of the same field,
gives another value: nothing is left of it.
-/

namespace SearchCriteria

open Mapping (entry)

/-! ## Documents -/

namespace Judgement

variable {J : Judgement} {fragments : List Mapping}

theorem holds_allOf (J : Judgement) (h : ∀ f ∈ fragments, f ≠ []) (hne : fragments ≠ []) :
    J.holds (Fragment.allOf fragments) = fragments.all J.holds := by
  rcases Fragment.group_eq .and h with ⟨f, rfl, heq⟩ | hnil | heq
  · rw [Fragment.allOf, heq, List.all_cons, List.all_nil, Bool.and_true]
  · exact absurd hnil hne
  · rw [Fragment.allOf, heq]
    exact J.holds_and fragments

/-- A range is read as the conjunction of its ends. -/
def ReadsRanges (J : Judgement) : Prop :=
  ∀ field (limits : List (Limit Value)), limits ≠ [] → (limits.map (·.bound)).Nodup →
    J.holds (Fragment.range field limits) =
      limits.all fun limit ↦ J.holds (Fragment.range field [limit])

/-- The lookups can be built, and their fragment holds. -/
def Passes (J : Judgement) (given : Mapping) : Prop :=
  ∃ node fragment, Expression.buildLookup given = .ok node ∧ node.render = .ok fragment ∧
    J.holds fragment = true

/-- A document that is told what it has under a field: a fragment of ends holds if every end does,
and no other leaf does. -/
def ofEnds (test : String → Value → Value → Bool) : Judgement :=
  ofLeaves fun
    | [(.text "range", .map [(.text field, .map ends)])] => ends.all fun e ↦ test field e.1 e.2
    | _ => false

theorem limits_eq {limits : List (Limit Value)} (h : (limits.map (·.bound)).Nodup) :
    Fragment.limits limits = limits.map fun limit ↦ entry limit.bound.name limit.value := by
  have hdistinct : Association.DistinctKeys (· == ·)
      (limits.map fun limit ↦ (limit.bound, limit.value)) := by
    rw [Association.DistinctKeys, Association.keys, List.map_map]
    exact h.imp fun hab ↦ beq_eq_false_iff_ne.mpr hab
  rw [Fragment.limits, Association.ofList, Association.nil_overlay hdistinct, List.map_map]
  rfl

theorem bare_range (field : String) (limits : List (Limit Value)) :
    bare (Fragment.range field limits) =
      if field = Fragment.cacheKey then [entry "range" (.map [])]
      else Fragment.range field limits := by
  have hrange : Value.sameText (.text "range") (.text Fragment.cacheKey) = false := by decide
  rw [Fragment.range, bare]
  simp only [Mapping.single, Mapping.eraseText, Association.erase, List.filter_cons,
    List.filter_nil, entry, hrange, Value.sameText_text, Bool.not_false, if_true]
  by_cases hfield : field = Fragment.cacheKey <;> simp [hfield]

theorem holds_ofEnds (test : String → Value → Value → Bool) (field : String)
    {limits : List (Limit Value)} (h : (limits.map (·.bound)).Nodup) :
    (ofEnds test).holds (Fragment.range field limits) =
      if field = Fragment.cacheKey then false
      else limits.all fun limit ↦ test field (.text limit.bound.name) limit.value := by
  have hbare := bare_range field limits
  split at hbare <;> rename_i hfield
  · have hreading : reading? (Fragment.range field limits) = none := by rw [reading?, hbare]; rfl
    refine (judge_of_no_reading hreading).trans ?_
    rw [hbare, if_pos hfield]
    rfl
  · have hreading : reading? (Fragment.range field limits) = none := by rw [reading?, hbare]; rfl
    refine (judge_of_no_reading hreading).trans ?_
    rw [hbare, if_neg hfield]
    change (Fragment.limits limits).all (fun e ↦ test field e.1 e.2) = _
    rw [limits_eq h, List.all_map]
    rfl

/-- A document that is told what it has under a field reads ranges as conjunctions. -/
theorem readsRanges_ofEnds (test : String → Value → Value → Bool) :
    (ofEnds test).ReadsRanges := by
  intro field limits hne hdistinct
  have hsingle (limit : Limit Value) : (ofEnds test).holds (Fragment.range field [limit]) =
      if field = Fragment.cacheKey then false
      else test field (.text limit.bound.name) limit.value := by
    rw [holds_ofEnds test field (by simp), List.all_cons, List.all_nil,
      Bool.and_true]
  rw [holds_ofEnds test field hdistinct]
  simp only [hsingle]
  split
  · obtain ⟨limit, rest, rfl⟩ := List.exists_cons_of_ne_nil hne
    rfl
  · rfl

end Judgement

/-! ## What a lookup says -/

namespace Lookups

variable {lookups : Lookups} {l m : String × Value} {field : String} {bound : Bound}
  {c : Condition} {J : Judgement}

/-- A node that says what the lookup does. -/
inductive Expresses : String × Value → Expression → Prop
  | equal {key value field} (h : (LookupKey.read key) = (field, .eq)) :
    Expresses (key, value) (.term field value.termValue)
  | unequal {key value field} (h : LookupKey.read key = (field, .ne)) :
    Expresses (key, value) (.not (.term field value.termValue))
  | among {key value field} (h : LookupKey.read key = (field, .oneOf)) :
    Expresses (key, value) (.term field value.termValue)
  | notAmong {key value field} (h : LookupKey.read key = (field, .noneOf)) :
    Expresses (key, value) (.not (.term field value.termValue))
  | present {key field} (h : LookupKey.read key = (field, .present)) :
    Expresses (key, .bool true) (.present field)
  | absent {key field} (h : LookupKey.read key = (field, .present)) :
    Expresses (key, .bool false) (.not (.present field))
  | bounded {key value field bound limits} (h : LookupKey.read key = (field, .bound bound))
    (hlimit : ⟨bound, value, .tuple⟩ ∈ limits) : Expresses (key, value) (.range field limits)

theorem expresses_toExpression (h : condition? l = some c) (hsound : ¬ Malformed l) :
    Expresses l c.toExpression := by
  obtain ⟨key, value⟩ := l
  unfold condition? at h
  split at h <;> rename_i hread <;> cases h
  · exact .equal hread
  · exact .among hread
  · exact .unequal hread
  · exact .notAmong hread
  · have hbool : ∃ b, value = .bool b := by
      by_contra hvalue
      push Not at hvalue
      exact hsound (.notBool (congrArg Prod.snd hread) hvalue)
    obtain ⟨b, rfl⟩ := hbool
    cases b with
    | true => exact .present hread
    | false => exact .absent hread

theorem kept_of_condition (h : condition? l = some c) : lookups.Kept l := by
  intro field bound hread
  rw [condition?_of_end hread] at h
  cases h

theorem kept_congr (hread : LookupKey.read l.1 = LookupKey.read m.1) (hvalue : l.2 = m.2) :
    lookups.Kept l ↔ lookups.Kept m := by
  rw [Kept, Kept, lastLike?, lastLike?, hread, hvalue]

/-- The limits of a range are the ends in the table of its field. -/
theorem range_mem_nodes_iff {limits : List (Limit Value)} :
    .range field limits ∈ lookups.nodes ↔
      HasRange lookups field ∧ limits = limitsOf (lookups.bounds field) := by
  constructor
  · intro h
    obtain ⟨c, hc, hnode⟩ := List.mem_map.mp h
    rcases mem_conditionsFrom_iff.mp hc with ⟨l, -, hl⟩ | ⟨name, rfl, -, hrange⟩
    · have hother := isRangeOn_of_condition hl field
      rw [hnode, Expression.isRangeOn, beq_self_eq_true] at hother
      cases hother
    · obtain ⟨rfl, rfl⟩ := Expression.range.inj hnode
      exact ⟨hrange, rfl⟩
  · rintro ⟨hrange, rfl⟩
    exact List.mem_map_of_mem (rangeOn_mem_conditions_iff.mpr hrange)

theorem mem_limitsOf_iff {ends : List (Bound × Value)} {value : Value} :
    ⟨bound, value, .tuple⟩ ∈ limitsOf ends ↔ (bound, value) ∈ ends := by
  simp [limitsOf]

/-- The nodes of accepted lookups express the lookups that are kept. -/
theorem exists_expresses_iff (h : lookups.check = .ok ()) (hl : l ∈ lookups) :
    (∃ node ∈ lookups.nodes, Expresses l node) ↔ lookups.Kept l := by
  rcases gives_end_or_condition l with ⟨field, bound, hread⟩ | ⟨c, hc⟩
  · constructor
    · rintro ⟨node, hnode, hexpresses⟩
      cases hexpresses
      case bounded key value name other limits hother hlimit =>
        obtain ⟨-, rfl⟩ := range_mem_nodes_iff.mp hnode
        obtain ⟨m, -, hm, hvalue, hkept⟩ := mem_bounds_iff.mp (mem_limitsOf_iff.mp hlimit)
        exact (kept_congr (hother.trans hm.symm) hvalue.symm).mpr hkept
      all_goals
        rename_i hother
        cases hread.symm.trans hother
    · intro hkept
      refine ⟨_, range_mem_nodes_iff.mpr ⟨⟨l, hl, bound, hread⟩, rfl⟩, .bounded hread ?_⟩
      exact mem_limitsOf_iff.mpr (mem_bounds_iff.mpr ⟨l, hl, hread, rfl, hkept⟩)
  · have hkept : lookups.Kept l := kept_of_condition hc
    have hnode : c ∈ lookups.conditions := mem_conditionsFrom_iff.mpr (.inl ⟨l, hl, hc⟩)
    refine iff_of_true ⟨c.toExpression, List.mem_map_of_mem hnode, ?_⟩ hkept
    exact expresses_toExpression hc (sound_of_check h hl hkept)

/-! ## Lookups together and alone -/

theorem fragment_of_condition (h : condition? l = some c) : Lookups.fragment [l] = c.fragment := by
  rw [fragment, conditions, conditionsFrom_of_condition h]
  exact Fragment.group_singleton _ _

theorem fragment_of_end (h : LookupKey.read l.1 = (field, .bound bound)) :
    Lookups.fragment [l] = Fragment.range field [⟨bound, l.2, .tuple⟩] := by
  have hends : endsOn [l] field = [(bound, l.2)] := by
    rw [endsOn_cons_of_end h, if_pos rfl]
    rfl
  have hbounds : bounds [l] field = [(bound, l.2)] := by
    rw [bounds_eq_endsOn (by simp [hends]), hends]
  rw [fragment, conditions, conditionsFrom_of_end h]
  refine (Fragment.group_singleton _ _).trans ?_
  change Fragment.range field (limitsOf (bounds [l] field)) = _
  rw [hbounds]
  rfl

/-- The one range of a field holds if every end in the table does. -/
theorem holds_rangeOn_iff (hJ : J.ReadsRanges) (h : HasRange lookups field) :
    J.holds (Fragment.range field (limitsOf (lookups.bounds field))) = true ↔
      ∀ bound value, (bound, value) ∈ lookups.bounds field →
        J.holds (Fragment.range field [⟨bound, value, .tuple⟩]) = true := by
  have hne : limitsOf (lookups.bounds field) ≠ [] := by simpa [limitsOf] using bounds_ne_nil h
  have hdistinct : ((limitsOf (lookups.bounds field)).map (·.bound)).Nodup := by
    rw [limitsOf, List.map_map]
    exact (lookups.distinctKeys_bounds field).imp fun hab ↦ ne_of_beq_false hab
  rw [hJ field _ hne hdistinct]
  simp [limitsOf]

/-- Lookups hold together if each one that is kept holds alone. -/
theorem holds_fragment_iff (hJ : J.ReadsRanges) (hne : lookups ≠ []) :
    J.holds lookups.fragment = true ↔
      ∀ l ∈ lookups, lookups.Kept l → J.holds (Lookups.fragment [l]) = true := by
  have hall : J.holds lookups.fragment = true ↔
      ∀ c ∈ lookups.conditions, J.holds c.fragment = true := by
    rw [fragment, J.holds_allOf (by simp [Condition.fragment_ne_nil])
      (by simpa using conditions_ne_nil hne), List.all_map, List.all_eq_true]
    rfl
  rw [hall]
  constructor
  · intro h l hl hkept
    rcases gives_end_or_condition l with ⟨field, bound, hread⟩ | ⟨c, hc⟩
    · have hrange : HasRange lookups field := ⟨l, hl, bound, hread⟩
      rw [fragment_of_end hread]
      exact (holds_rangeOn_iff hJ hrange).mp (h _ (rangeOn_mem_conditions_iff.mpr hrange)) bound l.2
        (mem_bounds_iff.mpr ⟨l, hl, hread, rfl, hkept⟩)
    · rw [fragment_of_condition hc]
      exact h c (mem_conditionsFrom_iff.mpr (.inl ⟨l, hl, hc⟩))
  · intro h c hc
    rcases mem_conditionsFrom_iff.mp hc with ⟨l, hl, hc⟩ | ⟨field, rfl, -, hrange⟩
    · rw [← fragment_of_condition hc]
      exact h l hl (kept_of_condition hc)
    · refine (holds_rangeOn_iff hJ hrange).mpr fun bound value hmem ↦ ?_
      obtain ⟨l, hl, hread, rfl, hkept⟩ := mem_bounds_iff.mp hmem
      rw [← fragment_of_end hread]
      exact h l hl hkept

end Lookups

theorem entry_injective : Function.Injective fun l : String × Value ↦ entry l.1 l.2 := by
  intro l m h
  obtain ⟨hkey, hvalue⟩ := Prod.mk.inj h
  exact Prod.ext (Value.text.inj hkey) hvalue

theorem Expression.buildLookup_eq_ok_iff {lookups : Lookups} {node : Expression} :
    buildLookup (lookups.map fun l ↦ entry l.1 l.2) = .ok node ↔
      lookups ≠ [] ∧ (∀ l ∈ lookups, l.1 ≠ "self") ∧ lookups.check = .ok () ∧
        node = .lookup lookups := by
  constructor
  · intro h
    obtain ⟨named, hnamed, hbuild⟩ := bind_eq_ok.mp h
    obtain ⟨hgiven, hself⟩ := namedValues_eq_ok_iff.mp hnamed
    obtain rfl := List.map_injective_iff.mpr entry_injective hgiven
    have hne : lookups ≠ [] := by
      rintro rfl
      cases hbuild
    rw [buildLookup_eq_check hne hself] at h
    obtain ⟨hcheck, hnode⟩ := check_bind_eq_ok.mp h
    exact ⟨hne, hself, hcheck, (Except.ok.inj hnode).symm⟩
  · rintro ⟨hne, hself, hcheck, rfl⟩
    rw [buildLookup_eq_check hne hself, hcheck]
    rfl

theorem Judgement.passes_iff {J : Judgement} {lookups : Lookups} {node : Expression}
    (h : Expression.buildLookup (lookups.map fun l ↦ entry l.1 l.2) = .ok node) :
    J.Passes (lookups.map fun l ↦ entry l.1 l.2) ↔ J.holds lookups.fragment = true := by
  obtain ⟨-, -, -, rfl⟩ := Expression.buildLookup_eq_ok_iff.mp h
  constructor
  · rintro ⟨node, fragment, hnode, hfragment, hholds⟩
    obtain rfl := Except.ok.inj (h.symm.trans hnode)
    obtain rfl := Except.ok.inj hfragment
    exact hholds
  · exact fun hholds ↦ ⟨_, _, h, rfl, hholds⟩

/--
What becomes of the lookups that a node is built from.  The nodes that they resolve to express
exactly those that are kept, and in every document that reads a range as the conjunction of its ends
the lookups pass together if each kept one passes alone.  All of them are kept, unless two of them
give one end of one field.
-/
theorem Expression.lookups_kept {lookups : Lookups} {node : Expression}
    (h : buildLookup (lookups.map fun l ↦ entry l.1 l.2) = .ok node) :
    ∃ nodes, resolveLookup (lookups.map fun l ↦ entry l.1 l.2) = .ok (lookups, nodes) ∧
      (∀ l ∈ lookups, (∃ n ∈ nodes, Lookups.Expresses l n) ↔ lookups.Kept l) ∧
      (∀ J : Judgement, J.ReadsRanges → (J.Passes (lookups.map fun l ↦ entry l.1 l.2) ↔
        ∀ l ∈ lookups, lookups.Kept l → J.Passes [entry l.1 l.2])) ∧
      ((∀ field, ((lookups.endsOn field).map Prod.fst).Nodup) → ∀ l ∈ lookups, lookups.Kept l) := by
  obtain ⟨hne, hself, hcheck, rfl⟩ := buildLookup_eq_ok_iff.mp h
  refine ⟨lookups.nodes, ?_, fun l hl ↦ Lookups.exists_expresses_iff hcheck hl, fun J hJ ↦ ?_,
    fun hdistinct l hl ↦ Lookups.kept_of_nodup hdistinct hl⟩
  · rw [resolveLookup_eq hne hself, hcheck]
    rfl
  · have halone (l : String × Value) (hl : l ∈ lookups) (hkept : lookups.Kept l) :
        J.Passes [entry l.1 l.2] ↔ J.holds (Lookups.fragment [l]) = true := by
      have hbuild : buildLookup ([l].map fun l ↦ entry l.1 l.2) = .ok (.lookup [l]) :=
        buildLookup_eq_ok_iff.mpr ⟨List.cons_ne_nil _ _, List.forall_mem_singleton.mpr (hself l hl),
          Lookups.check_singleton hcheck hl hkept, rfl⟩
      exact Judgement.passes_iff hbuild
    rw [Judgement.passes_iff h, Lookups.holds_fragment_iff hJ hne]
    exact forall₃_congr fun l hl hkept ↦ (halone l hl hkept).symm

/-- Both ends of a price and a brand that is left out: all three are kept, and a price of seven
passes them together and each one alone. -/
theorem Expression.lookups_kept_of_price :
    let lookups : Lookups :=
      [("price__gte", .int 5), ("brand__ne", .text "acme"), ("price__lt", .int 9)]
    let J := Judgement.ofEnds fun _ bound value ↦
      match bound, value with
      | .text "gte", .int n => n ≤ 7
      | .text "lt", .int n => 7 < n
      | _, _ => false
    (∃ node, buildLookup (lookups.map fun l ↦ entry l.1 l.2) = .ok node) ∧ J.ReadsRanges ∧
      J.Passes (lookups.map fun l ↦ entry l.1 l.2) ∧
      ∀ l ∈ lookups, lookups.Kept l ∧ J.Passes [entry l.1 l.2] := by
  intro lookups J
  have hbuild : buildLookup (lookups.map fun l ↦ entry l.1 l.2) = .ok (.lookup lookups) := by rfl
  have hJ : J.ReadsRanges := Judgement.readsRanges_ofEnds _
  have hreads : (lookups.map fun l ↦ LookupKey.read l.1).Nodup := by decide
  obtain ⟨nodes, -, -, hpasses, hkept⟩ := lookups_kept hbuild
  have hgte : J.Passes [entry "price__gte" (.int 5)] := by
    refine ⟨.lookup _, Fragment.range "price" [⟨.gte, .int 5, .tuple⟩], rfl, rfl, ?_⟩
    exact Judgement.holds_ofEnds _ "price" (by simp)
  have hne : J.Passes [entry "brand__ne" (.text "acme")] := by
    refine ⟨.lookup _, Fragment.negation (Fragment.term "brand" (.text "acme")), rfl, rfl, ?_⟩
    have hbrand : J.holds (Fragment.term "brand" (.text "acme")) = false :=
      Judgement.judge_of_no_reading rfl
    exact (J.holds_not _).trans (congrArg (!·) hbrand)
  have hlt : J.Passes [entry "price__lt" (.int 9)] := by
    refine ⟨.lookup _, Fragment.range "price" [⟨.lt, .int 9, .tuple⟩], rfl, rfl, ?_⟩
    exact Judgement.holds_ofEnds _ "price" (by simp)
  have halone : ∀ l ∈ lookups, J.Passes [entry l.1 l.2] := by
    simp only [lookups, List.forall_mem_cons]
    exact ⟨hgte, hne, hlt, fun _ h ↦ absurd h List.not_mem_nil⟩
  refine ⟨⟨_, hbuild⟩, hJ, (hpasses J hJ).mpr fun l hl _ ↦ halone l hl, fun l hl ↦ ?_⟩
  exact ⟨hkept (Lookups.nodup_endsOn hreads) l hl, halone l hl⟩

/-- Two spellings of one field, with two values for one end: the later one is all that is left. -/
theorem Expression.lookup_lost :
    let lookups : Lookups := [("a.b__gt", .int 10), ("a__b__gt", .int 1)]
    let J := Judgement.ofEnds fun _ _ value ↦
      match value with
      | .int n => n < 5
      | _ => false
    (lookups.map Prod.fst).Nodup ∧ J.ReadsRanges ∧
      (∃ nodes, resolveLookup (lookups.map fun l ↦ entry l.1 l.2) = .ok (lookups, nodes) ∧
        ¬ ∃ n ∈ nodes, Lookups.Expresses ("a.b__gt", .int 10) n) ∧
      J.Passes (lookups.map fun l ↦ entry l.1 l.2) ∧ ¬ J.Passes [entry "a.b__gt" (.int 10)] := by
  intro lookups J
  have hbuild : buildLookup (lookups.map fun l ↦ entry l.1 l.2) = .ok (.lookup lookups) := by rfl
  obtain ⟨-, -, hcheck, -⟩ := buildLookup_eq_ok_iff.mp hbuild
  have hresolve : resolveLookup (lookups.map fun l ↦ entry l.1 l.2) =
      .ok (lookups, lookups.nodes) := by rfl
  have hlost : ¬ lookups.Kept ("a.b__gt", .int 10) := by
    intro hkept
    cases hkept "a.b" .gt (by rfl)
  have hholds (n : Int) :
      J.holds (Fragment.range "a.b" [⟨.gt, .int n, .tuple⟩]) = decide (n < 5) := by
    rw [Judgement.holds_ofEnds _ _ (by simp)]
    simp [Fragment.cacheKey]
  have halone : buildLookup ([("a.b__gt", Value.int 10)].map fun l ↦ entry l.1 l.2) =
      .ok (.lookup [("a.b__gt", .int 10)]) := by rfl
  refine ⟨by decide, Judgement.readsRanges_ofEnds _, ⟨lookups.nodes, hresolve, ?_⟩, ?_, ?_⟩
  · exact mt (Lookups.exists_expresses_iff hcheck List.mem_cons_self).mp hlost
  · exact (Judgement.passes_iff hbuild).mpr (hholds 1)
  · intro hpasses
    have hten := (hholds 10).symm.trans ((Judgement.passes_iff halone).mp hpasses)
    exact absurd hten (by decide)

end SearchCriteria
