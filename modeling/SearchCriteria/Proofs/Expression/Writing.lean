import Mathlib.Algebra.Group.Int.Defs
import Mathlib.Algebra.Group.Nat.Defs
import SearchCriteria.Proofs.Expression.Lookups
import SearchCriteria.Proofs.Expression.Rendering

/-!
# Values that can be written

An integer of too many digits has no text, and nothing that shows one has.  Rendering takes all its
integers from the node, so a value in which every integer is short is written: by itself, inside any
other value, and as the fragment of a node.
-/

namespace SearchCriteria

open Mapping (entry single)

/-- The integers that have a text are those of at most so many digits. -/
theorem Numeral.isSome_write?_iff {i : Int} :
    (write? i).isSome = true ↔ i.natAbs < 10 ^ maxDigits := by
  rw [← Nat.length_toDigits_le_iff (by decide) (by decide), write?]
  split <;> simp [*]

/-- A power of ten has one digit more than its exponent. -/
theorem Numeral.write?_pow_eq_none {n : Nat} (h : maxDigits ≤ n) : write? (10 ^ n) = none := by
  rw [← Option.not_isSome_iff_eq_none, isSome_write?_iff, Int.natAbs_pow, Nat.not_lt]
  exact Nat.pow_le_pow_right (by decide) h

/-! ## Short integers -/

mutual

/-- No integer in the value has too many digits. -/
def Value.Short : Value → Prop
  | .int i => i.natAbs < 10 ^ Numeral.maxDigits
  | .list items | .tuple items | .set _ items => ShortItems items
  | .map entries => ShortEntries entries
  | .node e => e.Short
  | .null | .bool _ | .real _ | .text _ => True
termination_by structural v => v

def Expression.Short : Expression → Prop
  | .term _ value | .script _ value => value.Short
  | .range _ limits => ShortLimits limits
  | .and nodes | .or nodes => ShortNodes nodes
  | .not node | .cached node => node.Short
  | .raw fragment => ShortEntries fragment
  | .lookup lookups => ShortLookups lookups
  | .base | .present _ => True
termination_by structural e => e

def ShortItems : List Value → Prop
  | [] => True
  | v :: vs => v.Short ∧ ShortItems vs
termination_by structural vs => vs

def ShortEntries : List (Value × Value) → Prop
  | [] => True
  | (key, value) :: entries => (key.Short ∧ value.Short) ∧ ShortEntries entries
termination_by structural entries => entries

def Limit.Short : Limit Value → Prop
  | ⟨_, value, .map p q⟩ => p.Short ∧ value.Short ∧ q.Short
  | ⟨_, value, .tuple⟩ | ⟨_, value, .list⟩ | ⟨_, value, .set _⟩ => value.Short
termination_by structural l => l

def ShortLimits : List (Limit Value) → Prop
  | [] => True
  | l :: limits => l.Short ∧ ShortLimits limits
termination_by structural limits => limits

def ShortNodes : List Expression → Prop
  | [] => True
  | e :: es => e.Short ∧ ShortNodes es
termination_by structural es => es

def ShortLookups : List (String × Value) → Prop
  | [] => True
  | (_, value) :: lookups => value.Short ∧ ShortLookups lookups
termination_by structural lookups => lookups

end

theorem shortItems_iff {items : List Value} : ShortItems items ↔ ∀ v ∈ items, v.Short := by
  induction items with
  | nil => simp [ShortItems]
  | cons v vs ih => rw [ShortItems, ih, List.forall_mem_cons]

theorem shortEntries_iff {entries : Mapping} :
    ShortEntries entries ↔ ∀ e ∈ entries, e.1.Short ∧ e.2.Short := by
  induction entries with
  | nil => simp [ShortEntries]
  | cons e es ih => rw [ShortEntries, ih, List.forall_mem_cons]

theorem shortLimits_iff {limits : List (Limit Value)} :
    ShortLimits limits ↔ ∀ l ∈ limits, l.Short := by
  induction limits with
  | nil => simp [ShortLimits]
  | cons l ls ih => rw [ShortLimits, ih, List.forall_mem_cons]

theorem shortLookups_iff {lookups : Lookups} :
    ShortLookups lookups ↔ ∀ l ∈ lookups, l.2.Short := by
  induction lookups with
  | nil => simp [ShortLookups]
  | cons l ls ih => rw [ShortLookups, ih, List.forall_mem_cons]

theorem Limit.Short.value {l : Limit Value} (h : l.Short) : l.value.Short := by
  obtain ⟨bound, value, form⟩ := l
  cases form with
  | map => exact h.2.1
  | _ => exact h

theorem shortEntries_single {name : String} {v : Value} (h : v.Short) :
    ShortEntries (single name v) := ⟨⟨trivial, h⟩, trivial⟩

/-! ## Literal text -/

section Literal

variable {ofLookups : Lookups → Option String}

mutual

/-- Short values have literal texts, as far as the lookup nodes in them have. -/
theorem Value.exists_literalWith (hof : ∀ ls, ShortLookups ls → ∃ s, ofLookups ls = some s) :
    ∀ {v : Value}, v.Short → ∃ s, v.literalWith ofLookups = some s
  | .int _, h => Option.isSome_iff_exists.mp (Numeral.isSome_write?_iff.mpr h)
  | .list _, h | .tuple _, h | .set _ _, h => by
    obtain ⟨texts, htexts⟩ := exists_literalItems hof h
    exact ⟨_, congrArg (Option.map _) htexts⟩
  | .map _, h => by
    obtain ⟨texts, htexts⟩ := exists_literalEntries hof h
    exact ⟨_, congrArg (Option.map _) htexts⟩
  | .node _, h => Expression.exists_literalWith hof h
  | .null, _ | .bool _, _ | .real _, _ | .text _, _ => ⟨_, rfl⟩

theorem Expression.exists_literalWith (hof : ∀ ls, ShortLookups ls → ∃ s, ofLookups ls = some s) :
    ∀ {e : Expression}, e.Short → ∃ s, e.literalWith ofLookups = some s
  | .term _ value, h | .script _ value, h => by
    obtain ⟨s, hs⟩ := Value.exists_literalWith hof (v := value) h
    simp [Expression.literalWith, hs]
  | .range _ limits, h => by
    have hlimits : ShortLimits limits := h
    obtain ⟨texts, htexts⟩ := exists_literalLimits hof hlimits
    simp [Expression.literalWith, htexts]
  | .and nodes, h | .or nodes, h => by
    have hnodes : ShortNodes nodes := h
    obtain ⟨texts, htexts⟩ := exists_literalNodes hof hnodes
    simp [Expression.literalWith, htexts]
  | .not node, h | .cached node, h => by
    obtain ⟨s, hs⟩ := Expression.exists_literalWith hof (e := node) h
    simp [Expression.literalWith, hs]
  | .raw fragment, h => by
    have hfragment : ShortEntries fragment := h
    obtain ⟨texts, htexts⟩ := exists_literalEntries hof hfragment
    simp [Expression.literalWith, htexts]
  | .lookup lookups, h => hof lookups h
  | .base, _ | .present _, _ => ⟨_, rfl⟩

theorem exists_literalItems (hof : ∀ ls, ShortLookups ls → ∃ s, ofLookups ls = some s) :
    ∀ {items : List Value}, ShortItems items → ∃ texts, literalItems ofLookups items = some texts
  | [], _ => ⟨_, rfl⟩
  | v :: vs, ⟨hv, hvs⟩ => by
    obtain ⟨s, hs⟩ := Value.exists_literalWith hof hv
    obtain ⟨texts, htexts⟩ := exists_literalItems hof hvs
    simp [literalItems, hs, htexts]

theorem exists_literalEntries (hof : ∀ ls, ShortLookups ls → ∃ s, ofLookups ls = some s) :
    ∀ {entries : List (Value × Value)}, ShortEntries entries →
      ∃ texts, literalEntries ofLookups entries = some texts
  | [], _ => ⟨_, rfl⟩
  | (key, value) :: entries, ⟨⟨hkey, hvalue⟩, hentries⟩ => by
    obtain ⟨s, hs⟩ := Value.exists_literalWith hof hkey
    obtain ⟨t, ht⟩ := Value.exists_literalWith hof hvalue
    obtain ⟨texts, htexts⟩ := exists_literalEntries hof hentries
    simp [literalEntries, hs, ht, htexts]

theorem Limit.exists_literalWith (hof : ∀ ls, ShortLookups ls → ∃ s, ofLookups ls = some s) :
    ∀ {l : Limit Value}, l.Short → ∃ s, l.literalWith ofLookups = some s
  | ⟨_, value, .tuple⟩, h | ⟨_, value, .list⟩, h | ⟨_, value, .set _⟩, h => by
    obtain ⟨s, hs⟩ := Value.exists_literalWith hof (v := value) h
    simp [Limit.literalWith, hs]
  | ⟨_, value, .map p q⟩, ⟨hp, hvalue, hq⟩ => by
    obtain ⟨s, hs⟩ := Value.exists_literalWith hof hp
    obtain ⟨t, ht⟩ := Value.exists_literalWith hof hvalue
    obtain ⟨u, hu⟩ := Value.exists_literalWith hof hq
    simp [Limit.literalWith, hs, ht, hu]

theorem exists_literalLimits (hof : ∀ ls, ShortLookups ls → ∃ s, ofLookups ls = some s) :
    ∀ {limits : List (Limit Value)}, ShortLimits limits →
      ∃ texts, literalLimits ofLookups limits = some texts
  | [], _ => ⟨_, rfl⟩
  | l :: limits, ⟨hl, hlimits⟩ => by
    obtain ⟨s, hs⟩ := Limit.exists_literalWith hof hl
    obtain ⟨texts, htexts⟩ := exists_literalLimits hof hlimits
    simp [literalLimits, hs, htexts]

theorem exists_literalNodes (hof : ∀ ls, ShortLookups ls → ∃ s, ofLookups ls = some s) :
    ∀ {es : List Expression}, ShortNodes es → ∃ texts, literalNodes ofLookups es = some texts
  | [], _ => ⟨_, rfl⟩
  | e :: es, ⟨he, hes⟩ => by
    obtain ⟨s, hs⟩ := Expression.exists_literalWith hof he
    obtain ⟨texts, htexts⟩ := exists_literalNodes hof hes
    simp [literalNodes, hs, htexts]

end

end Literal

/-! ## Fragments -/

namespace Fragment

variable {f : Mapping} {v : Value}

theorem short_term (field : String) (h : v.Short) : ShortEntries (term field v) := by
  cases v with
  | _ => exact shortEntries_single (shortEntries_single h)

theorem short_range (field : String) {limits : List (Limit Value)}
    (h : ∀ l ∈ limits, l.value.Short) : ShortEntries (range field limits) := by
  refine shortEntries_single (shortEntries_single (shortEntries_iff.mpr ?_))
  have hends : ∀ b ∈ limits.map fun l ↦ (l.bound, l.value), True ∧ b.2.Short :=
    List.forall_mem_map.mpr fun l hl ↦ ⟨trivial, h l hl⟩
  exact List.forall_mem_map.mpr (Association.forall_ofList (P := fun _ ↦ True) hends)

theorem short_negation (h : ShortEntries f) : ShortEntries (negation f) := shortEntries_single h

theorem short_cachedNegation (h : ShortEntries f) : ShortEntries (cachedNegation f) :=
  ⟨⟨trivial, shortEntries_single h⟩, ⟨trivial, trivial⟩, trivial⟩

theorem short_putText (name : String) (h : ShortEntries f) (hv : v.Short) :
    ShortEntries (f.putText name v) :=
  shortEntries_iff.mpr (Association.forall_put (shortEntries_iff.mp h) trivial hv)

theorem short_marked (h : ShortEntries f) : ShortEntries (marked f) := by
  unfold marked
  split
  · obtain ⟨⟨hkey, hbody⟩, -⟩ := h
    exact ⟨⟨hkey, short_putText cacheKey hbody trivial⟩, trivial⟩
  · exact short_putText cacheKey h trivial

theorem short_group (mode : JoinMode) {fs : List Mapping} (h : ∀ f ∈ fs, ShortEntries f) :
    ShortEntries (group mode fs) := by
  have hpresent : ∀ f ∈ fs.filter (!·.isEmpty), ShortEntries f := fun f hf ↦
    h f (List.mem_of_mem_filter hf)
  unfold group
  generalize fs.filter (!·.isEmpty) = present at hpresent ⊢
  match present with
  | [] => trivial
  | [f] => exact hpresent f (List.mem_singleton_self f)
  | f :: g :: rest =>
    have hlist : (Value.list ((f :: g :: rest).map .map)).Short :=
      shortItems_iff.mpr (List.forall_mem_map.mpr hpresent)
    exact shortEntries_single (shortEntries_single hlist)

end Fragment

theorem Value.Short.termValue {v : Value} (h : v.Short) : v.termValue.Short := by
  cases v with
  | _ => exact h

theorem Lookups.short_condition {l : String × Value} {c : Condition} (h : l.2.Short)
    (hc : condition? l = some c) : ShortEntries c.test.fragment := by
  unfold condition? at hc
  split at hc
  case h_5 =>
    obtain rfl := Option.some.inj hc
    exact shortEntries_single (shortEntries_single trivial)
  case h_6 => cases hc
  all_goals
    obtain rfl := Option.some.inj hc
    exact Fragment.short_term _ h.termValue

/-- Short lookups stand for a short fragment. -/
theorem Lookups.short_fragment {lookups : Lookups} (h : ShortLookups lookups) :
    ShortEntries lookups.fragment := by
  rw [shortLookups_iff] at h
  have htest : ∀ c ∈ lookups.conditions, ShortEntries c.test.fragment := by
    intro c hc
    rcases mem_conditionsFrom_iff.mp hc with ⟨l, hl, hcondition⟩ | ⟨field, rfl, -, -⟩
    · exact short_condition (h l hl) hcondition
    · refine Fragment.short_range field (List.forall_mem_map.mpr ?_)
      rintro ⟨bound, value⟩ hb
      obtain ⟨l, hl, -, rfl, -⟩ := mem_bounds_iff.mp hb
      exact h l hl
  refine Fragment.short_group .and (List.forall_mem_map.mpr fun c hc ↦ ?_)
  rw [Condition.fragment]
  split
  · exact Fragment.short_negation (htest c hc)
  · exact htest c hc

/-- Short values have literal texts. -/
theorem Value.Short.exists_literal {v : Value} (h : v.Short) : ∃ s, v.literal? = some s := by
  unfold literal?
  generalize v.lookupDepth = depth
  induction depth generalizing v with
  | zero => exact Value.exists_literalWith (fun _ _ ↦ ⟨_, rfl⟩) h
  | succ depth ih =>
    refine Value.exists_literalWith (fun ls hls ↦ ?_) h
    obtain ⟨s, hs⟩ := ih (v := .map (Lookups.fragment ls)) (Lookups.short_fragment hls)
    simp [hs]

/-! ## Rendering -/

theorem Value.Short.of_elements {v : Value} {items : List Value} (h : v.Short)
    (helements : v.elements? = some items) : ∀ w ∈ items, w.Short := by
  cases v with
  | list | tuple | set =>
    obtain rfl := Option.some.inj helements
    exact shortItems_iff.mp h
  | map =>
    obtain rfl := Option.some.inj helements
    exact List.forall_mem_map.mpr fun e he ↦ (shortEntries_iff.mp h e he).1
  | text =>
    obtain rfl := Option.some.inj helements
    exact List.forall_mem_map.mpr fun _ _ ↦ trivial
  | _ => cases helements

theorem Value.Short.of_parts {v : Value} {e : Value × Value} (h : v.Short)
    (hparts : v.parts? = some e) : e.1.Short ∧ e.2.Short := by
  unfold parts? at hparts
  split at hparts
  · rename_i helements
    obtain rfl := Option.some.inj hparts
    have hitems := h.of_elements helements
    exact ⟨hitems _ (by simp), hitems _ (by simp)⟩
  · cases hparts

theorem Mapping.short_ofValue {v : Value} {m : Mapping} (h : v.Short) (hm : ofValue v = .ok m) :
    ShortEntries m := by
  cases v with
  | map =>
    obtain rfl := Except.ok.inj hm
    exact h
  | list | tuple | set | text =>
    obtain ⟨-, rfl⟩ := (ofValue_eq_ok_iff rfl (by nofun)).mp hm
    refine shortEntries_iff.mpr (Association.forall_ofList fun e he ↦ ?_)
    obtain ⟨p, hp, hparts⟩ := List.mem_filterMap.mp he
    exact (h.of_elements rfl p hp).of_parts hparts
  | _ => cases hm

theorem Fragment.short_scriptBody {source : String} {params : Value} {body : Mapping}
    (h : params.Short) (hbody : scriptBody source params = .ok body) : ShortEntries body := by
  unfold scriptBody at hbody
  split at hbody
  · obtain ⟨named, hnamed, hbody⟩ := bind_eq_ok.mp hbody
    obtain rfl := Except.ok.inj hbody
    exact ⟨⟨trivial, trivial⟩, shortEntries_single (Mapping.short_ofValue h hnamed)⟩
  · obtain rfl := Except.ok.inj hbody
    exact shortEntries_single trivial

mutual

/-- Short nodes render to short fragments. -/
theorem Expression.short_render : ∀ {e : Expression} {f : Mapping},
    e.Short → e.render = .ok f → ShortEntries f
  | .base, _, _, hf => nomatch hf
  | .term field value, _, h, hf => by
    obtain rfl := Except.ok.inj hf
    exact Fragment.short_term field h
  | .range field limits, _, h, hf => by
    obtain rfl := Except.ok.inj hf
    exact Fragment.short_range field fun l hl ↦ (shortLimits_iff.mp h l hl).value
  | .present field, _, _, hf => by
    obtain rfl := Except.ok.inj hf
    exact shortEntries_single (shortEntries_single trivial)
  | .script source params, _, h, hf => by
    obtain ⟨body, hbody, hf⟩ := bind_eq_ok.mp hf
    obtain rfl := Except.ok.inj hf
    exact shortEntries_single (Fragment.short_scriptBody h hbody)
  | .raw fragment, _, h, hf => by
    obtain rfl := Except.ok.inj hf
    exact h
  | .lookup lookups, _, h, hf => by
    obtain rfl := Except.ok.inj hf
    exact Lookups.short_fragment h
  | .and nodes, _, h, hf | .or nodes, _, h, hf => by
    obtain ⟨fragments, hfragments, hf⟩ := bind_eq_ok.mp hf
    obtain rfl := Except.ok.inj hf
    exact Fragment.short_group _ (short_renderNodes h hfragments)
  | .not node, _, h, hrender => by
    rcases Expression.render_not_eq_ok hrender with ⟨inner, f, rfl, hf, rfl⟩ | ⟨f, hf, rfl⟩
    · exact Fragment.short_cachedNegation (Expression.short_render (e := inner) h hf)
    · exact Fragment.short_negation (Expression.short_render (e := node) h hf)
  | .cached node, _, h, hrender => by
    rcases Expression.render_cached_eq_ok hrender with ⟨inner, f, rfl, hf, rfl⟩ | ⟨f, hf, rfl⟩
    · exact Fragment.short_cachedNegation (Expression.short_render (e := inner) h hf)
    · exact Fragment.short_marked (Expression.short_render (e := node) h hf)

theorem short_renderNodes : ∀ {es : List Expression} {fs : List Mapping},
    ShortNodes es → renderNodes es = .ok fs → ∀ f ∈ fs, ShortEntries f
  | [], _, _, hfs => by
    obtain rfl := Except.ok.inj hfs
    exact fun _ hf ↦ absurd hf List.not_mem_nil
  | e :: es, _, ⟨he, hes⟩, h => by
    obtain ⟨f, hf, h⟩ := bind_eq_ok.mp h
    obtain ⟨fs, hfs, h⟩ := bind_eq_ok.mp h
    obtain rfl := Except.ok.inj h
    exact List.forall_mem_cons.mpr ⟨Expression.short_render he hf, short_renderNodes hes hfs⟩

end

/-! ## Texts for display -/

namespace Value

variable {v : Value}

/-- A short value has a text for display, unless it is a node that cannot be rendered. -/
theorem Short.exists_display_iff (h : v.Short) :
    (∃ s, v.display = .ok s) ↔ ∀ e, v = .node e → e.Renderable := by
  cases v with
  | node e =>
    constructor
    · rintro ⟨s, hs⟩ _ ⟨⟩
      obtain ⟨f, hf, -⟩ := bind_eq_ok.mp hs
      exact e.exists_render_iff.mp ⟨f, hf⟩
    · intro hrenderable
      obtain ⟨f, hf⟩ := e.exists_render_iff.mpr (hrenderable e rfl)
      obtain ⟨s, hs⟩ := Short.exists_literal (v := .map f) (Expression.short_render h hf)
      exact ⟨s, bind_eq_ok.mpr ⟨f, hf, requireText_eq_ok_iff.mpr hs⟩⟩
  | text s => exact ⟨nofun, fun _ ↦ ⟨s, rfl⟩⟩
  | _ =>
    obtain ⟨s, hs⟩ := h.exists_literal
    exact ⟨nofun, fun _ ↦ ⟨s, requireText_eq_ok_iff.mpr hs⟩⟩

theorem fault_of_requireText {text : Option String} {fault : Fault}
    (h : requireText text = .error fault) : fault = .unwritable := by
  cases text <;> cases h
  rfl

/-- Where nodes can be rendered, only a value that is not short has no text. -/
theorem not_short_of_display {fault : Fault} (hnode : ∀ e, v = .node e → e.Renderable)
    (h : v.display = .error fault) : fault = .unwritable ∧ ¬ v.Short := by
  constructor
  · cases v with
    | node e =>
      obtain ⟨f, hf⟩ := e.exists_render_iff.mpr (hnode e rfl)
      rw [display, hf] at h
      exact fault_of_requireText h
    | null | bool | real | text => cases h
    | _ => exact fault_of_requireText h
  · intro hshort
    obtain ⟨s, hs⟩ := hshort.exists_display_iff.mpr hnode
    cases hs.symm.trans h

end Value

end SearchCriteria
