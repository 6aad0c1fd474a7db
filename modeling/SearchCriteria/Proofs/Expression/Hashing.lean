import Mathlib.Data.Multiset.Basic
import SearchCriteria.Proofs.Expression.Agreement
import SearchCriteria.Proofs.Value.Texts

/-!
# Hashing of nodes

The hash of a value is put together from the hashes of its parts: a number's from its worth, a
tuple's from those of its items, a node's from those of its fields.  A raw node is hashed by the
literal text of its fragment instead.  What the primitive hashes are is left open, so the results
hold whatever they are.

Values that are the same key have one hash.  Conversely, equal values that are told apart as keys
have different hashes as soon as the hashes of texts and of rows are.
-/

namespace SearchCriteria

open Association (Matched)

/-- The primitive hashes. Those of the members of a set are put together in no order. -/
structure Hashing where
  null : Int
  base : Int
  number : Quantity → Int
  text : String → Int
  row : List Int → Int
  members : Multiset Int → Int

/-! ## Fields -/

/-- A lookup as a pair of its key and its value. -/
def lookupPair (l : String × Value) : Value := .tuple [.text l.1, l.2]

/-- The fields that a node is hashed by, if it is hashed by its fields. -/
def Expression.fields? : Expression → Option (List Value)
  | .base | .raw _ => none
  | .term field value => some [.text field, value]
  | .range field limits => some [.text field, .tuple (limits.map Limit.pair)]
  | .present field => some [.text field]
  | .script source params => some [.text source, params]
  | .and nodes | .or nodes => some [.tuple (nodes.map .node)]
  | .not node | .cached node => some [.node node]
  | .lookup lookups =>
    some [.tuple (lookups.map lookupPair), .tuple ((Lookups.nodes lookups).map .node)]

/-! ## Hashes -/

/-- The hash of a value; `n` holds those of the parts. Lists, mappings and open sets have none. -/
inductive Hashing.Of (H : Hashing) : Value → Int → Prop
  | null : H.Of .null H.null
  | number {v : Value} {q : Quantity} (h : v.quantity? = some q) : H.Of v (H.number q)
  | text (s : String) : H.Of (.text s) (H.text s)
  | tuple {items : List Value} (n : Value → Int) (h : ∀ v ∈ items, H.Of v (n v)) :
      H.Of (.tuple items) (H.row (items.map n))
  | set {items : List Value} (n : Value → Int) (h : ∀ v ∈ items, H.Of v (n v)) :
      H.Of (.set true items) (H.members (items.map n))
  | base : H.Of (.node .base) H.base
  | raw {fragment : Mapping} {s : String} (h : (Value.map fragment).literal? = some s) :
      H.Of (.node (.raw fragment)) (H.text s)
  | fields {e : Expression} {parts : List Value} (n : Value → Int) (he : e.fields? = some parts)
      (h : ∀ v ∈ parts, H.Of v (n v)) : H.Of (.node e) (H.row (parts.map n))

/--
Hashing a value reaches no list, no mapping, no open set and no fragment without a literal text.
-/
inductive Value.Hashable : Value → Prop
  | null : Hashable .null
  | number {v : Value} {q : Quantity} (h : v.quantity? = some q) : Hashable v
  | text (s : String) : Hashable (.text s)
  | tuple {items : List Value} (h : ∀ v ∈ items, Hashable v) : Hashable (.tuple items)
  | set {items : List Value} (h : ∀ v ∈ items, Hashable v) : Hashable (.set true items)
  | base : Hashable (.node .base)
  | raw {fragment : Mapping} {s : String} (h : (Value.map fragment).literal? = some s) :
      Hashable (.node (.raw fragment))
  | fields {e : Expression} {parts : List Value} (he : e.fields? = some parts)
      (h : ∀ v ∈ parts, Hashable v) : Hashable (.node e)

namespace Hashing

variable {H : Hashing}

/-- The hashable values are those that have a hash. -/
theorem hashable_iff {v : Value} : v.Hashable ↔ ∃ n, H.Of v n := by
  constructor
  · intro h
    induction h with
    | null => exact ⟨_, .null⟩
    | number h => exact ⟨_, .number h⟩
    | text s => exact ⟨_, .text s⟩
    | tuple _ ih =>
      choose! n hn using ih
      exact ⟨_, .tuple n hn⟩
    | set _ ih =>
      choose! n hn using ih
      exact ⟨_, .set n hn⟩
    | base => exact ⟨_, .base⟩
    | raw h => exact ⟨_, .raw h⟩
    | fields he _ ih =>
      choose! n hn using ih
      exact ⟨_, .fields n he hn⟩
  · rintro ⟨n, h⟩
    induction h with
    | null => exact .null
    | number h => exact .number h
    | text s => exact .text s
    | tuple _ _ ih => exact .tuple ih
    | set _ _ ih => exact .set ih
    | base => exact .base
    | raw h => exact .raw h
    | fields _ he _ ih => exact .fields he ih

end Hashing

/-! ## What bars a value from being hashed -/

theorem unhashableItem?_eq_none_iff {items : List Value} :
    unhashableItem? items = none ↔ ∀ v ∈ items, v.unhashable? = none := by
  induction items with
  | nil => simp [unhashableItem?]
  | cons v vs ih => simp [unhashableItem?, Option.or_eq_none_iff, ih]

theorem unhashableItem?_nodes (nodes : List Expression) :
    unhashableItem? (nodes.map .node) = unhashableNode? nodes := by
  induction nodes with
  | nil => rfl
  | cons e es ih => simp [unhashableItem?, unhashableNode?, ih, Value.unhashable?]

theorem Limit.unhashable?_eq (l : Limit Value) : l.unhashable? = l.pair.unhashable? := by
  obtain ⟨bound, value, form⟩ := l
  cases form with
  | tuple => exact (Option.or_none : value.unhashable?.or none = _).symm
  | set frozen => cases frozen <;> rfl
  | _ => rfl

theorem unhashableItem?_pairs (limits : List (Limit Value)) :
    unhashableItem? (limits.map Limit.pair) = unhashableLimit? limits := by
  induction limits with
  | nil => rfl
  | cons l ls ih =>
    simp only [List.map_cons, unhashableItem?, unhashableLimit?, ih, Limit.unhashable?_eq]

theorem unhashableItem?_lookups (lookups : Lookups) :
    unhashableItem? (lookups.map lookupPair) = unhashableLookup? lookups := by
  induction lookups with
  | nil => rfl
  | cons l ls ih =>
    simp [unhashableItem?, unhashableLookup?, ih, lookupPair, Value.unhashable?]

/-- What bars a node bars one of its fields. -/
theorem Expression.unhashable?_of_fields {e : Expression} {parts : List Value}
    (he : e.fields? = some parts) (h : ∀ v ∈ parts, v.unhashable? = none) :
    e.unhashable? = none := by
  rw [← unhashableItem?_eq_none_iff] at h
  cases e with
  | base | raw => cases he
  | _ =>
    obtain rfl := Option.some.inj he
    simp only [unhashableItem?, Value.unhashable?, unhashableItem?_nodes, unhashableItem?_pairs,
      unhashableItem?_lookups, Option.none_or, Option.or_none, Option.or_eq_none_iff] at h
    simp [Expression.unhashable?, h]

theorem Value.Hashable.unhashable?_eq_none {v : Value} (h : v.Hashable) :
    v.unhashable? = none := by
  induction h with
  | @number v _ h => cases v <;> first | rfl | cases h
  | raw h => simp [Value.unhashable?, Expression.unhashable?, h]
  | tuple _ ih => exact unhashableItem?_eq_none_iff.mpr ih
  | fields he _ ih => exact Expression.unhashable?_of_fields he ih
  | _ => rfl

/-! ## Fields of nodes that agree -/

theorem agreeItems_nodes (asKey : Bool) (xs ys : List Expression) :
    agreeItems asKey (xs.map .node) (ys.map .node) = agreeNodes asKey xs ys := by
  induction xs generalizing ys with
  | nil => cases ys <;> rfl
  | cons x xs ih =>
    cases ys with
    | nil => rfl
    | cons y ys =>
      rw [List.map_cons, List.map_cons, agreeItems, agreeNodes, ih]
      rfl

theorem agreeItems_pairs (asKey : Bool) (ls ms : List (Limit Value)) :
    agreeItems asKey (ls.map Limit.pair) (ms.map Limit.pair) = agreeLimits asKey ls ms := by
  induction ls generalizing ms with
  | nil => cases ms <;> rfl
  | cons l ls ih =>
    cases ms with
    | nil => rfl
    | cons m ms =>
      rw [List.map_cons, List.map_cons, agreeItems, agreeLimits, ih, Limit.agrees_eq]

theorem agreeItems_lookups (asKey : Bool) (ls ms : Lookups) :
    agreeItems asKey (ls.map lookupPair) (ms.map lookupPair) = agreeLookups asKey ls ms := by
  induction ls generalizing ms with
  | nil => cases ms <;> rfl
  | cons l ls ih =>
    cases ms with
    | nil => rfl
    | cons m ms =>
      rw [List.map_cons, List.map_cons, agreeItems, agreeLookups, ih]
      simp [lookupPair, Value.agrees_tuple, agreeItems, Value.agrees_text]

namespace Lookups

variable {asKey : Bool} {ls ms all others : Lookups}

theorem agrees_rangeOn
    (h : List.Forall₂ (Matched fun v w ↦ v.agrees asKey w = true) all others) (field : String) :
    (all.rangeOn field).toExpression.agrees asKey (others.rangeOn field).toExpression = true := by
  have hlimits : ∀ {xs ys : List (Bound × Value)},
      List.Forall₂ (Matched fun v w ↦ v.agrees asKey w = true) xs ys →
        agreeLimits asKey (xs.map fun x ↦ ⟨x.1, x.2, .tuple⟩)
          (ys.map fun y ↦ ⟨y.1, y.2, .tuple⟩) = true := by
    intro xs ys h
    induction h with
    | nil => rfl
    | cons hxy _ ih => simp [agreeLimits, Limit.agrees, hxy.1, hxy.2, ih]
  simp only [rangeOn, FieldTest.toExpression, Expression.agrees, beq_self_eq_true, Bool.true_and]
  exact hlimits (matched_bounds h field)

/-- Lookups that agree describe nodes that agree. -/
theorem agreeNodes_conditionsFrom
    (hall : List.Forall₂ (Matched fun v w ↦ v.agrees asKey w = true) all others)
    (h : List.Forall₂ (Matched fun v w ↦ v.agrees asKey w = true) ls ms) (ranged : List String) :
    agreeNodes asKey ((all.conditionsFrom ranged ls).map Condition.toExpression)
      ((others.conditionsFrom ranged ms).map Condition.toExpression) = true := by
  induction h generalizing ranged with
  | nil => rfl
  | @cons l m _ _ hlm _ ih =>
    obtain ⟨key, v⟩ := l
    obtain ⟨_, w⟩ := m
    obtain ⟨rfl, hvw⟩ := hlm
    have hterm : ∀ field, (Expression.term field v.termValue).agrees asKey
        (.term field w.termValue) = true := by
      intro field
      simp only [Expression.agrees, beq_self_eq_true, Bool.true_and]
      exact Value.agrees_termValue hvw
    simp only [conditionsFrom]
    obtain ⟨field, operator⟩ := LookupKey.read key
    cases operator with
    | bound =>
      dsimp only
      split
      · exact ih ranged
      · exact Bool.and_eq_true_iff.mpr ⟨agrees_rangeOn hall field, ih (field :: ranged)⟩
    | eq | oneOf | ne | noneOf => exact Bool.and_eq_true_iff.mpr ⟨hterm field, ih ranged⟩
    | present =>
      have htruthy : v.truthy = w.truthy := Value.Alike.truthy_eq (Value.alike_of_agrees hvw)
      dsimp only
      rw [htruthy]
      exact Bool.and_eq_true_iff.mpr ⟨Expression.agrees_self asKey _, ih ranged⟩

theorem agreeNodes_nodes (h : agreeLookups asKey ls ms = true) :
    agreeNodes asKey ls.nodes ms.nodes = true :=
  agreeNodes_conditionsFrom (matched_of_agreeLookups h) (matched_of_agreeLookups h) []

end Lookups

namespace Expression

variable {asKey : Bool} {a b : Expression} {parts others : List Value}

/-- The fields of nodes that agree do. -/
theorem exists_fields_of_agrees (ha : a.fields? = some parts) (h : a.agrees asKey b = true) :
    ∃ others, b.fields? = some others ∧ agreeItems asKey parts others = true := by
  cases a with
  | base | raw => cases ha
  | lookup ls =>
    obtain rfl := Option.some.inj ha
    cases b with
    | lookup ms =>
      have hlookups : agreeLookups asKey ls ms = true := h
      refine ⟨_, rfl, ?_⟩
      simp [agreeItems, Value.agrees_tuple, agreeItems_lookups, agreeItems_nodes, hlookups,
        Lookups.agreeNodes_nodes hlookups]
    | _ => cases h
  | _ =>
    obtain rfl := Option.some.inj ha
    cases b <;> first
      | cases h
      | exact ⟨_, rfl, by
          simpa [agreeItems, Value.agrees_tuple, Value.agrees_text, Value.agrees_node,
            agreeItems_pairs, agreeItems_nodes, Expression.agrees] using h⟩

/-- Equal nodes agree if their fields do. -/
theorem agrees_of_fields (ha : a.fields? = some parts) (hb : b.fields? = some others)
    (hab : a.Alike b) (h : agreeItems asKey parts others = true) : a.agrees asKey b = true := by
  cases a with
  | base | raw => cases ha
  | _ =>
    obtain rfl := Option.some.inj ha
    cases b <;> first
      | cases hab
      | obtain rfl := Option.some.inj hb
        simp only [agreeItems, Value.agrees_tuple, Value.agrees_text, Value.agrees_node,
          agreeItems_pairs, agreeItems_nodes, agreeItems_lookups, Bool.and_true,
          Bool.and_eq_true_iff] at h
        simp [Expression.agrees, h]

end Expression

/-! ## Equal hashes -/

section Rows

variable {α β γ : Type} {r s : α → β → Prop} {f : α → γ} {g : β → γ} {xs : List α} {ys : List β}

theorem map_eq_map_of_forall₂ (h : List.Forall₂ r xs ys)
    (hr : ∀ x ∈ xs, ∀ y ∈ ys, r x y → f x = g y) : xs.map f = ys.map g := by
  induction h with
  | nil => rfl
  | cons hxy _ ih =>
    simp only [List.forall_mem_cons] at hr
    rw [List.map_cons, List.map_cons, hr.1.1 hxy, ih fun x hx ↦ (hr.2 x hx).2]

theorem forall₂_of_map_eq_map (h : List.Forall₂ r xs ys) (heq : xs.map f = ys.map g)
    (hr : ∀ x ∈ xs, ∀ y ∈ ys, r x y → f x = g y → s x y) : List.Forall₂ s xs ys := by
  induction h with
  | nil => exact .nil
  | cons hxy _ ih =>
    obtain ⟨hhead, htail⟩ := List.cons.inj heq
    simp only [List.forall_mem_cons] at hr
    exact .cons (hr.1.1 hxy hhead) (ih htail fun x hx ↦ (hr.2 x hx).2)

end Rows

namespace Hashing.Of

variable {H : Hashing} {a b : Value} {k m n : Int} {items parts : List Value} {e : Expression}

/-! A value of each kind has its hash in one way. -/

theorem eq_null (h : H.Of .null k) : k = H.null := by
  cases h with
  | null => rfl
  | number hq => cases hq

theorem eq_number {q : Quantity} (h : H.Of a k) (hq : a.quantity? = some q) : k = H.number q := by
  cases h with
  | number hq' => rw [Option.some.inj (hq.symm.trans hq')]
  | _ => cases hq

theorem eq_text {s : String} (h : H.Of (.text s) k) : k = H.text s := by
  cases h with
  | text => rfl
  | number hq => cases hq

theorem exists_row (h : H.Of (.tuple items) k) :
    ∃ n : Value → Int, (∀ v ∈ items, H.Of v (n v)) ∧ k = H.row (items.map n) := by
  cases h with
  | tuple n hn => exact ⟨n, hn, rfl⟩
  | number hq => cases hq

theorem exists_members {frozen : Bool} (h : H.Of (.set frozen items) k) :
    ∃ n : Value → Int, (∀ v ∈ items, H.Of v (n v)) ∧ k = H.members (items.map n) := by
  cases h with
  | set n hn => exact ⟨n, hn, rfl⟩
  | number hq => cases hq

theorem eq_base (h : H.Of (.node .base) k) : k = H.base := by
  cases h with
  | base => rfl
  | number hq => cases hq
  | fields _ he => cases he

theorem exists_raw {fragment : Mapping} (h : H.Of (.node (.raw fragment)) k) :
    ∃ s, (Value.map fragment).literal? = some s ∧ k = H.text s := by
  cases h with
  | raw hs => exact ⟨_, hs, rfl⟩
  | number hq => cases hq
  | fields _ he => cases he

theorem exists_fields (h : H.Of (.node e) k) (he : e.fields? = some parts) :
    ∃ n : Value → Int, (∀ v ∈ parts, H.Of v (n v)) ∧ k = H.row (parts.map n) := by
  cases h with
  | fields n he' hn =>
    obtain rfl := Option.some.inj (he.symm.trans he')
    exact ⟨n, hn, rfl⟩
  | number hq => cases hq
  | base | raw => cases he

/-- Values that are the same key have one hash. -/
theorem eq_of_sameKey (ha : H.Of a m) (hab : a.sameKey b = true) (hb : H.Of b n) : m = n := by
  induction ha generalizing b n with
  | null =>
    cases b with
    | null => exact hb.eq_null.symm
    | _ => cases hab
  | @number a q hq =>
    rw [Value.sameKey, Value.agrees_of_quantity (by simp [hq])] at hab
    obtain ⟨q', ha, hb'⟩ := Value.sameQuantity_iff.mp hab
    rw [hb.eq_number hb', Option.some.inj (hq.symm.trans ha)]
  | text s =>
    cases b with
    | text t => rw [hb.eq_text, show s = t from eq_of_beq hab]
    | _ => cases hab
  | tuple n _ ih =>
    cases b with
    | tuple ys =>
      obtain ⟨n', hys, rfl⟩ := hb.exists_row
      congr 1
      exact map_eq_map_of_forall₂ (Value.agreeItems_iff.mp hab) fun v hv w hw hvw ↦
        ih v hv hvw (hys w hw)
    | _ => cases hab
  | set n _ ih =>
    cases b with
    | set _ ys =>
      obtain ⟨n', hys, rfl⟩ := hb.exists_members
      have hmembers : agreeMembers _ ys = true := hab
      rw [agreeMembers_eq_pairsOff] at hmembers
      obtain ⟨l, hperm, hl⟩ := exists_perm_of_pairsOff hmembers
      have hmap : _ = l.map n' := map_eq_map_of_forall₂ hl fun v hv w hw hvw ↦
        ih v hv hvw (hys w (hperm.mem_iff.mp hw))
      rw [hmap, Multiset.coe_eq_coe.mpr (hperm.map n')]
    | _ => cases hab
  | base =>
    cases b with
    | node e =>
      cases e with
      | base => exact hb.eq_base.symm
      | _ => cases hab
    | _ => cases hab
  | @raw fragment s hs =>
    cases b with
    | node e =>
      cases e with
      | raw other =>
        have htexts : (Value.map fragment).literal? = (Value.map other).literal? := by
          simpa using (Bool.and_eq_true_iff.mp hab).2
        obtain ⟨t, ht, rfl⟩ := hb.exists_raw
        rw [Option.some.inj (hs.symm.trans (htexts.trans ht))]
      | _ => cases hab
    | _ => cases hab
  | fields n he _ ih =>
    cases b with
    | node e' =>
      obtain ⟨others, he', hparts⟩ := Expression.exists_fields_of_agrees he hab
      obtain ⟨n', hothers, rfl⟩ := hb.exists_fields he'
      congr 1
      exact map_eq_map_of_forall₂ (Value.agreeItems_iff.mp hparts) fun v hv w hw hvw ↦
        ih v hv hvw (hothers w hw)
    | _ => cases hab

theorem unique (h : H.Of a m) (h' : H.Of a n) : m = n :=
  h.eq_of_sameKey (a.agrees_self true) h'

/-- Equal values of one hash are the same key, if texts and rows are told apart. -/
theorem sameKey_of_alike (htext : Function.Injective H.text) (hrow : Function.Injective H.row)
    (ha : H.Of a n) (hab : a.Alike b) (hb : H.Of b n) : a.sameKey b = true := by
  induction ha generalizing b with
  | null =>
    cases b with
    | null => rfl
    | _ => cases hab
  | @number a q hq =>
    rw [Value.Alike, Value.equal, Value.agrees_of_quantity (by simp [hq])] at hab
    rwa [Value.sameKey, Value.agrees_of_quantity (by simp [hq])]
  | text s =>
    cases b with
    | text t => exact hab
    | _ => cases hab
  | tuple n _ ih =>
    cases b with
    | tuple ys =>
      obtain ⟨n', hys, hrows⟩ := hb.exists_row
      refine Value.agreeItems_iff.mpr ?_
      exact forall₂_of_map_eq_map (Value.alike_tuple_iff.mp hab) (hrow hrows)
        fun v hv w hw hvw heq ↦ ih v hv hvw (heq ▸ hys w hw)
    | _ => cases hab
  | set n _ ih =>
    cases b with
    | set _ ys => exact hab
    | _ => cases hab
  | base =>
    cases b with
    | node e =>
      cases e with
      | base => rfl
      | _ => cases hab
    | _ => cases hab
  | @raw fragment s hs =>
    cases b with
    | node e =>
      cases e with
      | raw other =>
        have hentries : agreeEntries fragment other = true := (Bool.and_eq_true_iff.mp hab).1
        obtain ⟨t, ht, heq⟩ := hb.exists_raw
        refine Bool.and_eq_true_iff.mpr ⟨hentries, ?_⟩
        simp [hs, ht, htext heq]
      | _ => cases hab
    | _ => cases hab
  | fields n he _ ih =>
    cases b with
    | node e' =>
      obtain ⟨others, he', hparts⟩ := Expression.exists_fields_of_agrees he hab
      obtain ⟨n', hothers, hrows⟩ := hb.exists_fields he'
      refine Expression.agrees_of_fields he he' hab (Value.agreeItems_iff.mpr ?_)
      exact forall₂_of_map_eq_map (Value.agreeItems_iff.mp hparts) (hrow hrows)
        fun v hv w hw hvw heq ↦ ih v hv hvw (heq ▸ hothers w hw)
    | _ => cases hab

end Hashing.Of

end SearchCriteria
