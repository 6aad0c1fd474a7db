import SearchCriteria.Expression.Build
import SearchCriteria.Proofs.Expression.Lookups

/-!
# What can be built

`Built` lists the ways in which a node comes about: by the classes themselves, by the builders,
which take mappings for raw fragments, and by the operators.  The base node is not among them.
However a node was built, every node that occurs in it has passed the checks of its own kind, those
that lookups come down to included.
-/

namespace SearchCriteria

open Mapping (entry)

/-! ## Values by name -/

/-- Values by name are those of the mapping. -/
theorem Mapping.eq_map_of_named {mapping : Mapping} {entries : List (String × Value)}
    (h : mapping.named = .ok entries) : mapping = entries.map fun e ↦ entry e.1 e.2 := by
  induction mapping generalizing entries with
  | nil =>
    obtain rfl := Except.ok.inj h
    rfl
  | cons e mapping ih =>
    rw [Mapping.named, List.mapM_cons] at h
    obtain ⟨first, hfirst, h⟩ := bind_eq_ok.mp h
    obtain ⟨rest, hrest, h⟩ := bind_eq_ok.mp h
    obtain rfl := Except.ok.inj h
    rw [List.map_cons, ← ih hrest]
    obtain ⟨key, value⟩ := e
    cases key with
    | text name =>
      obtain rfl := Except.ok.inj hfirst
      rfl
    | _ => cases hfirst

/-- Values by name are the entries under texts. -/
theorem Mapping.named_eq_ok_iff {mapping : Mapping} {entries : List (String × Value)} :
    mapping.named = .ok entries ↔ mapping = entries.map fun e ↦ entry e.1 e.2 := by
  refine ⟨eq_map_of_named, ?_⟩
  rintro rfl
  induction entries with
  | nil => rfl
  | cons e entries ih =>
    rw [named] at ih
    rw [named, List.map_cons, List.mapM_cons, ih]
    rfl

/-- Named values are the entries under texts, and none of them is taken. -/
theorem namedValues_eq_ok_iff {call taken : String} {given : Mapping} {options : Lookups} :
    namedValues call taken given = .ok options ↔
      given = (options.map fun o ↦ entry o.1 o.2) ∧ ∀ o ∈ options, o.1 ≠ taken := by
  have htaken : (options.any (·.1 == taken)) = false ↔ ∀ o ∈ options, o.1 ≠ taken := by simp
  rw [← htaken, ← Mapping.named_eq_ok_iff, namedValues]
  cases given.named with
  | error => simp [bind, Except.bind]
  | ok found =>
    change (if found.any (·.1 == taken) = true then _ else Except.ok found) = _ ↔ _
    constructor
    · intro h
      split at h
      · cases h
      · rename_i hfound
        obtain rfl := Except.ok.inj h
        exact ⟨rfl, Bool.eq_false_iff.mpr hfound⟩
    · rintro ⟨hfound, hoptions⟩
      obtain rfl := Except.ok.inj hfound
      rw [hoptions]
      rfl

namespace Expression

/-! ## Ways to build -/

/-- The nodes that constructors, builders and operators lead to. -/
inductive Built : Expression → Prop
  | term {field value e} (h : buildTerm field value = .ok e) : Built e
  | present {field e} (h : buildPresent field = .ok e) : Built e
  | range {field ends e} (h : buildRange field ends = .ok e) : Built e
  | rangeNamed {field ends e} (h : buildRangeNamed field ends = .ok e) : Built e
  | script {source params e} (h : buildScript source params = .ok e) : Built e
  | scriptWith {source params e} (h : buildScriptWith source params = .ok e) : Built e
  | raw {value e} (h : buildRaw value = .ok e) : Built e
  | lookup {given e} (h : buildLookup given = .ok e) : Built e
  | and {nodes e} (hnodes : ∀ n ∈ nodes, Built n) (h : buildAnd nodes = .ok e) : Built e
  | or {nodes e} (hnodes : ∀ n ∈ nodes, Built n) (h : buildOr nodes = .ok e) : Built e
  | not {e} (he : Built e) : Built (.not e)
  | cached {e} (he : Built e) : Built (.cached e)
  | andOf {values e} (hvalues : ∀ n, .node n ∈ values → Built n) (h : andOf values = .ok e) :
      Built e
  | orOf {values e} (hvalues : ∀ n, .node n ∈ values → Built n) (h : orOf values = .ok e) :
      Built e
  | notOf {value e} (hvalue : ∀ n, value = .node n → Built n) (h : notOf value = .ok e) : Built e
  | cachedOf {value e} (hvalue : ∀ n, value = .node n → Built n) (h : cachedOf value = .ok e) :
      Built e
  | conjoin {a value e} (ha : Built a) (hvalue : ∀ n, value = .node n → Built n)
      (h : a.conjoinValue value = .ok e) : Built e
  | disjoin {a value e} (ha : Built a) (hvalue : ∀ n, value = .node n → Built n)
      (h : a.disjoinValue value = .ok e) : Built e
  | negate {e} (he : Built e) : Built e.negate
  | markCached {e} (he : Built e) : Built e.markCached

/-! ## Nodes in a node -/

/-- The nodes right below a node; below lookups are those that they come down to. -/
def children : Expression → List Expression
  | .and nodes | .or nodes => nodes
  | .not node | .cached node => [node]
  | .lookup lookups => Lookups.nodes lookups
  | .base | .term _ _ | .range _ _ | .present _ | .script _ _ | .raw _ => []

/-- The node occurs in another one, at any depth. -/
inductive Occurs (n : Expression) : Expression → Prop
  | here : Occurs n n
  | under {e child : Expression} (hchild : child ∈ e.children) (h : Occurs n child) : Occurs n e

theorem occurs_iff {n e : Expression} :
    Occurs n e ↔ n = e ∨ ∃ child ∈ e.children, Occurs n child := by
  constructor
  · rintro (_ | ⟨hchild, h⟩)
    · exact .inl rfl
    · exact .inr ⟨_, hchild, h⟩
  · rintro (rfl | ⟨child, hchild, h⟩)
    · exact .here
    · exact .under hchild h

/-- Every node that occurs in the node has the property. -/
def Everywhere (P : Expression → Prop) (e : Expression) : Prop := ∀ n, Occurs n e → P n

section Everywhere

variable {P : Expression → Prop} {e n : Expression}

/-- A property holds everywhere in a node if it holds of the node, and everywhere below it. -/
theorem everywhere_iff : e.Everywhere P ↔ P e ∧ ∀ child ∈ e.children, child.Everywhere P := by
  constructor
  · exact fun h ↦ ⟨h e .here, fun child hchild n hn ↦ h n (.under hchild hn)⟩
  · rintro ⟨he, hbelow⟩ n hn
    cases hn with
    | here => exact he
    | under hchild hn => exact hbelow _ hchild n hn

theorem everywhere_of_leaf (h : e.children = []) (he : P e) : e.Everywhere P :=
  everywhere_iff.mpr ⟨he, by simp [h]⟩

theorem Everywhere.occurs (h : e.Everywhere P) (hn : Occurs n e) : n.Everywhere P := by
  induction hn with
  | here => exact h
  | under hchild _ ih => exact ih ((everywhere_iff.mp h).2 _ hchild)

end Everywhere

/-! ## Checks -/

/-- What is checked of a node of each kind, apart from the nodes below it. -/
def Checked : Expression → Prop
  | .base => False
  | .term field _ | .present field => Text.isBlank field = false
  | .range field limits =>
    Text.isBlank field = false ∧ limits ≠ [] ∧ ∀ l ∈ limits, l.value ≠ .null
  | .script source _ => Text.isBlank source = false
  | .and nodes | .or nodes => nodes ≠ []
  | .not _ | .cached _ | .raw _ => True
  | .lookup lookups => lookups ≠ [] ∧ Lookups.check lookups = .ok ()

/-- A negation or a marker checks nothing but the node below it. -/
theorem checked_not_iff {e : Expression} : (Expression.not e).Everywhere Checked ↔
    e.Everywhere Checked := by
  simp [everywhere_iff (e := .not e), Checked, children]

theorem checked_cached_iff {e : Expression} : (Expression.cached e).Everywhere Checked ↔
    e.Everywhere Checked := by
  simp [everywhere_iff (e := .cached e), Checked, children]

theorem requireField_eq_ok {field : Value} {name : String} (h : requireField field = .ok name) :
    Text.isBlank name = false := by
  cases field with
  | text s =>
    obtain ⟨hs, h⟩ := check_bind_eq_ok.mp h
    obtain rfl := Except.ok.inj h
    exact Lookups.requireName_eq_ok_iff.mp hs
  | _ => cases h

theorem unpackPair_eq_ok {v first second : Value} (h : v.unpackPair = .ok (first, second)) :
    v.elements? = some [first, second] := by
  unfold Value.unpackPair at h
  split at h
  case h_4 heq =>
    obtain ⟨rfl, rfl⟩ := Prod.mk.inj (Except.ok.inj h)
    exact heq
  all_goals cases h

/-- The form that is kept of a pair is all there is to it beside its parts. -/
theorem pair_pairForm {pair value : Value} {bound : Bound}
    (h : pair.unpackPair = .ok (.text bound.name, value)) :
    Limit.pair ⟨bound, value, pairForm pair⟩ = pair := by
  have helements := unpackPair_eq_ok h
  cases pair with
  | list | tuple | set =>
    obtain rfl := Option.some.inj helements
    rfl
  | map entries =>
    rcases entries with _ | ⟨⟨_, _⟩, _ | ⟨⟨_, _⟩, _ | _⟩⟩ <;> cases helements
    rfl
  | text s =>
    -- a text yields single characters, and no bound has such a name
    obtain ⟨c, -, -, hc, -⟩ := List.map_eq_cons_iff.mp (Option.some.inj helements)
    have hlength : bound.name.length = 1 := by
      rw [← Value.text.inj hc, String.length_singleton]
    cases bound <;> cases hlength
  | _ => cases helements

/-- An end has the pair that it was read from, and a value. -/
theorem pair_of_readLimit {field : String} {pair : Value} {l : Limit Value}
    (h : readLimit field pair = .ok l) : l.pair = pair ∧ l.value ≠ .null := by
  obtain ⟨⟨name, value⟩, hpair, h⟩ := bind_eq_ok.mp h
  cases name with
  | text s =>
    obtain ⟨bound, hbound, h⟩ := bind_eq_ok.mp h
    obtain ⟨hvalue, h⟩ := check_bind_eq_ok.mp h
    obtain rfl := Except.ok.inj h
    cases hs : Bound.ofName? s with
    | none =>
      rw [hs] at hbound
      cases hbound
    | some b =>
      rw [hs] at hbound
      obtain rfl := Except.ok.inj hbound
      obtain rfl := Bound.name_of_ofName? hs
      exact ⟨pair_pairForm hpair, Lookups.requireLimit_eq_ok_iff.mp hvalue⟩
  | _ => cases h

/-- A range has an end for every pair, and all of them have values. -/
theorem checked_of_rangeOfPairs {field : String} {pairs : List Value} {e : Expression}
    (hfield : Text.isBlank field = false) (h : rangeOfPairs field pairs = .ok e) :
    e.Everywhere Checked := by
  cases pairs with
  | nil => cases h
  | cons pair pairs =>
    obtain ⟨limits, hlimits, h⟩ := bind_eq_ok.mp h
    obtain rfl := Except.ok.inj h
    refine everywhere_of_leaf rfl ⟨hfield, ?_, fun l hl ↦ ?_⟩
    · rw [List.mapM_cons] at hlimits
      obtain ⟨first, -, hlimits⟩ := bind_eq_ok.mp hlimits
      obtain ⟨rest, -, hlimits⟩ := bind_eq_ok.mp hlimits
      obtain rfl := Except.ok.inj hlimits
      exact List.cons_ne_nil first rest
    · obtain ⟨pair, -, hpair⟩ := exists_mem_of_mapM hlimits hl
      exact (pair_of_readLimit hpair).2

theorem checked_of_buildRange {field ends : Value} {e : Expression}
    (h : buildRange field ends = .ok e) : e.Everywhere Checked := by
  obtain ⟨name, hname, h⟩ := bind_eq_ok.mp h
  cases ends with
  | map entries => exact checked_of_rangeOfPairs (requireField_eq_ok hname) h
  | _ =>
    obtain ⟨pairs, -, h⟩ := bind_eq_ok.mp h
    exact checked_of_rangeOfPairs (requireField_eq_ok hname) h

theorem checked_of_buildScript {source params : Value} {e : Expression}
    (h : buildScript source params = .ok e) : e.Everywhere Checked := by
  unfold buildScript at h
  split at h
  · split at h
    · cases h
    · rename_i hsource
      have hchecked (params : Value) : (script _ params).Everywhere Checked :=
        everywhere_of_leaf rfl (Bool.eq_false_iff.mpr hsource)
      split at h
      · obtain rfl := Except.ok.inj h
        exact hchecked _
      · obtain rfl := Except.ok.inj h
        exact hchecked _
  · cases h

theorem checked_of_buildScriptWith {source params : Value} {e : Expression}
    (h : buildScriptWith source params = .ok e) : e.Everywhere Checked := by
  unfold buildScriptWith at h
  split at h
  · exact checked_of_buildScript h
  · split at h
    · exact checked_of_buildScript h
    · cases h

/-- A condition is checked with its test, negated or not. -/
theorem checked_condition {c : Condition} (h : c.test.toExpression.Checked) :
    c.toExpression.Everywhere Checked := by
  obtain ⟨test, negated⟩ := c
  have htest : test.toExpression.Everywhere Checked := by
    cases test with
    | term | range | present => exact everywhere_of_leaf rfl h
  cases negated with
  | false => exact htest
  | true => exact checked_not_iff.mpr htest

/-- What lookups come down to is checked if they are. -/
theorem checked_of_mem_nodes {lookups : Lookups} (h : lookups.check = .ok ()) {n : Expression}
    (hn : n ∈ lookups.nodes) : n.Everywhere Checked := by
  obtain ⟨heach, hvalues⟩ := Lookups.check_eq_ok_iff.mp h
  obtain ⟨hsound, hnamed⟩ := Lookups.sound_of_checkEach heach fun _ h ↦ absurd h List.not_mem_nil
  obtain ⟨c, hc, rfl⟩ := List.mem_map.mp hn
  refine checked_condition ?_
  rcases Lookups.mem_conditionsFrom_iff.mp hc with ⟨l, hl, hown⟩ | ⟨field, rfl, -, hrange⟩
  · have hfield : Text.isBlank (LookupKey.read l.1).1 = false :=
      Bool.eq_false_iff.mpr fun hblank ↦ hsound l hl c hown (.blank hblank)
    unfold Lookups.condition? at hown
    split at hown <;> cases hown <;> simp_all [FieldTest.toExpression, Checked]
  · refine ⟨hnamed field hrange, ?_, List.forall_mem_map.mpr fun limit hlimit hnull ↦ ?_⟩
    · simpa using Lookups.bounds_ne_nil hrange
    · exact hvalues field hrange limit.1 (hnull ▸ hlimit)

theorem checked_of_buildLookup {given : Mapping} {e : Expression}
    (h : buildLookup given = .ok e) : e.Everywhere Checked := by
  obtain ⟨lookups, -, h⟩ := bind_eq_ok.mp h
  split at h
  · cases h
  · rename_i hempty
    obtain ⟨hcheck, h⟩ := check_bind_eq_ok.mp h
    obtain rfl := Except.ok.inj h
    exact everywhere_iff.mpr ⟨⟨by simpa using hempty, hcheck⟩, fun n ↦ checked_of_mem_nodes hcheck⟩

/-- A group of checked nodes is checked if it is built, for then it is not empty. -/
theorem checked_of_buildAnd {nodes : List Expression} {e : Expression}
    (hnodes : ∀ n ∈ nodes, n.Everywhere Checked) (h : buildAnd nodes = .ok e) :
    e.Everywhere Checked := by
  unfold buildAnd at h
  split at h
  · cases h
  · rename_i hempty
    obtain rfl := Except.ok.inj h
    exact everywhere_iff.mpr ⟨by simpa [Checked] using hempty, hnodes⟩

theorem checked_of_buildOr {nodes : List Expression} {e : Expression}
    (hnodes : ∀ n ∈ nodes, n.Everywhere Checked) (h : buildOr nodes = .ok e) :
    e.Everywhere Checked := by
  unfold buildOr at h
  split at h
  · cases h
  · rename_i hempty
    obtain rfl := Except.ok.inj h
    exact everywhere_iff.mpr ⟨by simpa [Checked] using hempty, hnodes⟩

/-- A value that stands for a node is one, or a mapping taken as it is. -/
theorem of_ofValue {P : Expression → Prop} (hraw : ∀ fragment, P (.raw fragment)) {value : Value}
    {e : Expression} (hvalue : ∀ n, value = .node n → P n) (h : ofValue value = .ok e) : P e := by
  cases value with
  | node n =>
    obtain rfl := Except.ok.inj h
    exact hvalue n rfl
  | map fragment =>
    obtain rfl := Except.ok.inj h
    exact hraw fragment
  | _ => cases h

theorem checked_raw (fragment : Mapping) : (raw fragment).Everywhere Checked :=
  everywhere_of_leaf rfl trivial

theorem checked_of_mapM_ofValue {values : List Value} {nodes : List Expression}
    (hvalues : ∀ n, .node n ∈ values → n.Everywhere Checked) (h : values.mapM ofValue = .ok nodes) :
    ∀ n ∈ nodes, n.Everywhere Checked := by
  intro n hn
  obtain ⟨value, hvalue, hof⟩ := exists_mem_of_mapM h hn
  exact of_ofValue checked_raw (fun m hm ↦ hvalues m (hm ▸ hvalue)) hof

theorem checked_conjuncts {e : Expression} (h : e.Everywhere Checked) :
    e.conjuncts ≠ [] ∧ ∀ n ∈ e.conjuncts, n.Everywhere Checked := by
  cases e with
  | and nodes => exact everywhere_iff.mp h
  | _ => exact ⟨List.cons_ne_nil _ _, List.forall_mem_singleton.mpr h⟩

theorem checked_disjuncts {e : Expression} (h : e.Everywhere Checked) :
    e.disjuncts ≠ [] ∧ ∀ n ∈ e.disjuncts, n.Everywhere Checked := by
  cases e with
  | or nodes => exact everywhere_iff.mp h
  | _ => exact ⟨List.cons_ne_nil _ _, List.forall_mem_singleton.mpr h⟩

theorem checked_conjoin {a b : Expression} (ha : a.Everywhere Checked)
    (hb : b.Everywhere Checked) : (a.conjoin b).Everywhere Checked :=
  everywhere_iff.mpr ⟨List.append_ne_nil_of_left_ne_nil (checked_conjuncts ha).1 _,
    List.forall_mem_append.mpr ⟨(checked_conjuncts ha).2, (checked_conjuncts hb).2⟩⟩

theorem checked_disjoin {a b : Expression} (ha : a.Everywhere Checked)
    (hb : b.Everywhere Checked) : (a.disjoin b).Everywhere Checked :=
  everywhere_iff.mpr ⟨List.append_ne_nil_of_left_ne_nil (checked_disjuncts ha).1 _,
    List.forall_mem_append.mpr ⟨(checked_disjuncts ha).2, (checked_disjuncts hb).2⟩⟩

/-- However a node was built, all that occurs in it has been checked. -/
theorem Built.checked {e : Expression} (h : e.Built) : e.Everywhere Checked := by
  induction h with
  | term h | present h =>
    obtain ⟨name, hname, h⟩ := bind_eq_ok.mp h
    obtain rfl := Except.ok.inj h
    exact everywhere_of_leaf rfl (requireField_eq_ok hname)
  | range h => exact checked_of_buildRange h
  | rangeNamed h =>
    obtain ⟨named, -, h⟩ := bind_eq_ok.mp h
    obtain ⟨name, hname, h⟩ := bind_eq_ok.mp h
    exact checked_of_rangeOfPairs (requireField_eq_ok hname) h
  | script h => exact checked_of_buildScript h
  | scriptWith h => exact checked_of_buildScriptWith h
  | @raw value _ h =>
    cases value with
    | map fragment =>
      obtain rfl := Except.ok.inj h
      exact checked_raw fragment
    | _ => cases h
  | lookup h => exact checked_of_buildLookup h
  | and _ h ih => exact checked_of_buildAnd ih h
  | or _ h ih => exact checked_of_buildOr ih h
  | not _ ih => exact checked_not_iff.mpr ih
  | cached _ ih => exact checked_cached_iff.mpr ih
  | andOf _ h ih =>
    obtain ⟨nodes, hnodes, h⟩ := bind_eq_ok.mp h
    exact checked_of_buildAnd (checked_of_mapM_ofValue ih hnodes) h
  | orOf _ h ih =>
    obtain ⟨nodes, hnodes, h⟩ := bind_eq_ok.mp h
    exact checked_of_buildOr (checked_of_mapM_ofValue ih hnodes) h
  | notOf _ h ih =>
    obtain ⟨n, hn, h⟩ := bind_eq_ok.mp h
    obtain rfl := Except.ok.inj h
    exact checked_not_iff.mpr (of_ofValue checked_raw ih hn)
  | cachedOf _ h ih =>
    obtain ⟨n, hn, h⟩ := bind_eq_ok.mp h
    obtain rfl := Except.ok.inj h
    exact checked_cached_iff.mpr (of_ofValue checked_raw ih hn)
  | conjoin _ _ h iha ihvalue =>
    obtain ⟨n, hn, h⟩ := bind_eq_ok.mp h
    obtain rfl := Except.ok.inj h
    exact checked_conjoin iha (of_ofValue checked_raw ihvalue hn)
  | disjoin _ _ h iha ihvalue =>
    obtain ⟨n, hn, h⟩ := bind_eq_ok.mp h
    obtain rfl := Except.ok.inj h
    exact checked_disjoin iha (of_ofValue checked_raw ihvalue hn)
  | @negate e _ ih =>
    cases e with
    | not => exact checked_not_iff.mp ih
    | _ => exact checked_not_iff.mpr ih
  | @markCached e _ ih =>
    cases e with
    | cached => exact ih
    | _ => exact checked_cached_iff.mpr ih

end Expression

/-! ## Groups -/

mutual

/-- No group in the node is empty. -/
def Expression.Grounded : Expression → Prop
  | .and nodes | .or nodes => nodes ≠ [] ∧ GroundedNodes nodes
  | .not node | .cached node => node.Grounded
  | .lookup lookups => lookups ≠ []
  | .base | .term _ _ | .range _ _ | .present _ | .script _ _ | .raw _ => True
termination_by structural e => e

def GroundedNodes : List Expression → Prop
  | [] => True
  | e :: es => e.Grounded ∧ GroundedNodes es
termination_by structural es => es

end

mutual

/-- Where everything is checked, no group is empty. -/
theorem Expression.grounded_of_checked : ∀ {e : Expression},
    e.Everywhere Expression.Checked → e.Grounded
  | .and _, h | .or _, h =>
    ⟨(Expression.everywhere_iff.mp h).1,
      groundedNodes_of_checked (Expression.everywhere_iff.mp h).2⟩
  | .not node, h => Expression.grounded_of_checked (e := node) (Expression.checked_not_iff.mp h)
  | .cached node, h =>
    Expression.grounded_of_checked (e := node) (Expression.checked_cached_iff.mp h)
  | .lookup _, h => (Expression.everywhere_iff.mp h).1.1
  | .base, _ | .term _ _, _ | .range _ _, _ | .present _, _ | .script _ _, _ | .raw _, _ => trivial

theorem groundedNodes_of_checked : ∀ {es : List Expression},
    (∀ e ∈ es, e.Everywhere Expression.Checked) → GroundedNodes es
  | [], _ => trivial
  | _ :: _, h =>
    ⟨Expression.grounded_of_checked (List.forall_mem_cons.mp h).1,
      groundedNodes_of_checked (List.forall_mem_cons.mp h).2⟩

end

/-- However a node was built, none of its groups is empty. -/
theorem Expression.Built.grounded {e : Expression} (h : e.Built) : e.Grounded :=
  Expression.grounded_of_checked h.checked

end SearchCriteria
