import Mathlib.Data.List.Forall2
import SearchCriteria.Proofs.Criteria.Deferring
import SearchCriteria.Proofs.Session.Derivation

/-!
# Two ways to follow the filters

Two programs that differ in the options of their first criteria alone stay in step: their sessions
have criteria at the same places, and these are related place by place.  The one has the mode of the
filters copied where the other has none, and nobody can tell until one of the modes is written over.
-/

namespace SearchCriteria.Session

open Mapping (entry)
open Criteria (Defers Chosen)

variable {h k : Session}

/-! ## Lists in step -/

section InStep

variable {α β : Type} {r : α → β → Prop} {xs : List α} {ys : List β}

theorem forall₂_modify {f : α → α} {g : β → β} (hfg : ∀ x y, r x y → r (f x) (g y))
    (hxy : List.Forall₂ r xs ys) (i : Nat) : List.Forall₂ r (xs.modify i f) (ys.modify i g) := by
  induction hxy generalizing i with
  | nil => simp
  | cons hhead htail ih =>
    cases i with
    | zero => exact .cons (hfg _ _ hhead) htail
    | succ i => exact .cons hhead (ih i)

theorem forall₂_getElem? (hxy : List.Forall₂ r xs ys) (i : Nat) :
    List.Forall₂ r xs[i]?.toList ys[i]?.toList := by
  induction hxy generalizing i with
  | nil => exact .nil
  | cons hhead _ ih =>
    cases i with
    | zero => exact .cons hhead .nil
    | succ i => exact ih i

end InStep

/-! ## Operations in step -/

/-- An update changes the criteria at its place, if there is one and the update is not refused. -/
theorem after_update (h : Session) (place : Nat) (u : Criteria.Update) :
    h.after (.update place u) = h.modify place (·.after u) := by
  rw [after_eq_left, Operation.perform, left_return]
  cases hc : h[place]? with
  | none =>
    obtain ⟨fault, hfault⟩ := update_of_none hc u
    rw [hfault, List.modify_eq_self (List.getElem?_eq_none_iff.mp hc)]
    rfl
  | some c =>
    have hmodify : h.modify place (·.after u) = h.set place (c.after u) := by
      rw [List.modify_eq_set_getElem?, hc]
      rfl
    rw [hmodify]
    cases hu : c.apply u with
    | ok d => rw [update_of_ok hc hu, (Criteria.updated_of_apply hu).after_eq, left]
    | error fault =>
      have hrefused : c.after u = c := by
        refine Criteria.after_of_refused fun d hd ↦ ?_
        cases hd.apply_eq.symm.trans hu
      rw [update_of_error hc hu, hrefused, set_self hc, left]

theorem after_clone (h : Session) (place : Nat) :
    h.after (.clone place) = h ++ h[place]?.toList := by
  rw [after_eq_left, Operation.perform, left_map, Session.clone, bind_run]
  cases hc : h[place]? with
  | none =>
    obtain ⟨fault, hfault⟩ := find_of_none "clone" hc
    rw [hfault, Option.toList_none, List.append_nil]
    rfl
  | some c =>
    rw [find_of_some "clone" hc]
    rfl

theorem after_compile (h : Session) (place : Nat) : h.after (.compile place) = h := by
  rw [after_eq_left, left_compile]

/-- Updates, clones and requests that write neither the mode of the filters nor the post filters'. -/
def Operation.Following : Operation → Prop
  | .update _ u => u.Keeps "filter_mode" ∧ u.Keeps "post_filter_mode"
  | .clone _ | .compile _ => True
  | _ => False

theorem inStep_after (hk : List.Forall₂ Defers h k) {operation : Operation}
    (hop : operation.Following) : List.Forall₂ Defers (h.after operation) (k.after operation) := by
  cases operation with
  | update place u =>
    obtain ⟨hfilter, hpost⟩ := hop
    rw [after_update, after_update]
    exact forall₂_modify (fun _ _ hcd ↦ hcd.after hfilter hpost) hk place
  | clone place =>
    rw [after_clone, after_clone]
    exact List.rel_append hk (forall₂_getElem? hk place)
  | compile place =>
    rw [after_compile, after_compile]
    exact hk
  | _ => exact absurd hop not_false

theorem inStep_foldl_after {operations : List Operation}
    (hops : ∀ operation ∈ operations, operation.Following) (hk : List.Forall₂ Defers h k) :
    List.Forall₂ Defers (operations.foldl Session.after h) (operations.foldl Session.after k) := by
  induction operations generalizing h k with
  | nil => exact hk
  | cons operation operations ih =>
    obtain ⟨hop, hrest⟩ := List.forall_mem_cons.mp hops
    exact ih hrest (inStep_after hk hop)

/--
Post filters without a mode of their own follow the filters, wherever that is settled.  A run that
writes neither mode comes to the same requests, at every place, whether the config leaves the mode
open or the options set it to null as well.  Any other mode that is set for the post filters, be it
zero or empty, is the one they are joined under, whatever is written for the filters.
-/
theorem fallbacks_agree (config : Config) (operations : List Operation) :
    (config.postFilterMode = none → (∀ operation ∈ operations, operation.Following) →
      (Session.run (.criteria config .null :: operations)).map Criteria.compile =
        (Session.run (.criteria config (.map [entry "post_filter_mode" .null]) ::
          operations)).map Criteria.compile) ∧
    ∀ v c, v ≠ .null → v.unhashable? = none → Chosen v c →
      c.joinedPostFilter = clauseFragments c.postFilters >>= Join.join .filters v ∧
      (∀ fragments, clauseFragments c.postFilters = .ok fragments →
        ∃ p, Join.join .filters v fragments = .ok p) ∧
      (Request.isSimple c = false → c.requestOptions.getText? "post_filter" = none →
        ∀ body, c.compile = .ok (Request.document body) →
          ∃ fragments, clauseFragments c.postFilters = .ok fragments ∧
            Join.join .filters v fragments = .ok (body.getText? "post_filter")) := by
  constructor
  · intro hconfig hops
    have hstart : List.Forall₂ Defers [Criteria.start config []]
        [Criteria.start config [entry "post_filter_mode" .null]] :=
      .cons (Criteria.defers_start hconfig) .nil
    have hrun := inStep_foldl_after hops hstart
    rw [← List.forall₂_eq_eq_eq, List.forall₂_map_left_iff, List.forall₂_map_right_iff]
    exact hrun.imp fun _ _ hcd ↦ hcd.compile_eq
  · intro v c hv hhashable hchosen
    refine ⟨hchosen.joinedPostFilter_eq hv, ?_, ?_⟩
    · exact fun fragments _ ↦ Join.exists_join hhashable .filters fragments
    · exact fun hsimple hoptions body hdoc ↦ hchosen.getText?_document hv hsimple hoptions hdoc

/-- A clone, a purge and a refusal between two post filters; and zero, though any filter may do. -/
theorem fallbacks_agree_of_zero :
    let posts : Criteria.Update :=
      { storage := .postFilters, patch := .list [.node (.present "a"), .node (.present "b")] }
    let clauses : List Value :=
      [.map [entry "exists" (.map [entry "field" (.text "a")])],
        .map [entry "exists" (.map [entry "field" (.text "b")])]]
    let config : Config := { filterMode := .text "or" }
    let operations : List Operation :=
      [.update 0 posts, .clone 0,
        .update 0 { storage := .types, patch := .text "post", purge := some true },
        .update 1 { storage := .filters, patch := .int 7 },
        .update 1 { storage := .options, patch := .map [entry "simple" .null] }]
    let zero := ((Criteria.start {} [entry "post_filter_mode" (.int 0)]).after posts).after
      { storage := .options, patch := .map [entry "filter_mode" (.text "or")] }
    config.postFilterMode = none ∧ (∀ operation ∈ operations, operation.Following) ∧
      (Session.run (.criteria config .null :: operations)).map Criteria.compile =
        (Session.run (.criteria config (.map [entry "post_filter_mode" .null]) ::
          operations)).map Criteria.compile ∧
      Value.int 0 ≠ .null ∧ (Value.int 0).unhashable? = none ∧ Chosen (.int 0) zero ∧
      zero.joinedPostFilter = .ok (some (.map [entry "bool" (.map
        [entry "should" (.list clauses), entry "minimum_should_match" (.int 0)])])) := by
  intro posts clauses config operations zero
  have hops : ∀ operation ∈ operations, operation.Following := by
    simp only [operations, List.forall_mem_cons]
    refine ⟨⟨nofun, nofun⟩, trivial, ⟨nofun, nofun⟩, ⟨nofun, nofun⟩, ⟨?_, ?_⟩,
      fun _ h ↦ absurd h List.not_mem_nil⟩
    · rintro entries ⟨⟩
      rfl
    · rintro entries ⟨⟩
      rfl
  have hchosen : Chosen (.int 0) zero := by
    refine .kept (.kept (.seed (Mapping.distinctKeys_single _ _) rfl) nofun) ?_
    rintro entries ⟨⟩
    rfl
  obtain ⟨hagree, hown⟩ := fallbacks_agree config operations
  obtain ⟨hjoined, -, -⟩ := hown (.int 0) zero nofun rfl hchosen
  exact ⟨rfl, hops, hagree rfl hops, nofun, rfl, hchosen, hjoined.trans rfl⟩

end SearchCriteria.Session
