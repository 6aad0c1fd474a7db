import SearchCriteria.Proofs.Expression.Resolving
import SearchCriteria.Proofs.Expression.Vacancy

/-!
# Rendering what was built

A node that was built renders, as long as the parameters of its scripts are entries: the checks of
its parts see to the rest.  It renders to nothing only if there is nothing in it but empty raw
fragments and groups of them.
-/

namespace SearchCriteria

open Mapping (entry)

namespace Expression

/-! ## What renders -/

/-- What it takes for a node to render, the nodes below it apart. -/
def CanRender : Expression → Prop
  | .base => False
  | .script _ params => params.GivesEntries
  | .term _ _ | .range _ _ | .present _ | .and _ | .or _ | .not _ | .cached _ | .raw _
  | .lookup _ => True

end Expression

mutual

theorem Expression.renderable_of_everywhere : ∀ {e : Expression},
    e.Everywhere Expression.CanRender → e.Renderable
  | .base, h => (Expression.everywhere_iff.mp h).1
  | .script _ _, h => fun _ ↦ (Expression.everywhere_iff.mp h).1.exists_ofValue
  | .and _, h | .or _, h => renderableNodes_of_everywhere (Expression.everywhere_iff.mp h).2
  | .not node, h | .cached node, h =>
    Expression.renderable_of_everywhere (e := node)
      ((Expression.everywhere_iff.mp h).2 node (List.mem_singleton_self node))
  | .term _ _, _ | .range _ _, _ | .present _, _ | .raw _, _ | .lookup _, _ => trivial

theorem renderableNodes_of_everywhere : ∀ {es : List Expression},
    (∀ e ∈ es, e.Everywhere Expression.CanRender) → RenderableNodes es
  | [], _ => trivial
  | _ :: _, h =>
    ⟨Expression.renderable_of_everywhere (List.forall_mem_cons.mp h).1,
      renderableNodes_of_everywhere (List.forall_mem_cons.mp h).2⟩

end

namespace Expression

variable {e n : Expression}

/-- What was checked can be rendered, but for what scripts take as their parameters. -/
theorem everywhere_canRender (hchecked : e.Everywhere Checked)
    (hparams : ∀ source params, Occurs (.script source params) e → params.GivesEntries) :
    e.Everywhere CanRender := by
  intro n hn
  cases n with
  | base => exact (hchecked _ hn).elim
  | script source params => exact hparams source params hn
  | _ => trivial

/-- The parameters of a script are entries if they were given so, under names that can be keys. -/
theorem givesEntries_of_buildScript {source v params : Value} {name : String}
    (hgiven : v.GivesEntries)
    (hkeys : ∀ entries, v = .map entries → ∀ e ∈ entries, e.1.unhashable? = none)
    (h : buildScript source v = .ok (.script name params)) : params.GivesEntries := by
  unfold buildScript at h
  split at h
  · split at h
    · cases h
    · split at h
      · rename_i entries
        cases Except.ok.inj h
        exact ⟨_, rfl, List.forall_mem_map.mpr fun e he ↦ ⟨e.1, e.2, rfl, hkeys _ rfl e he⟩⟩
      · cases Except.ok.inj h
        exact hgiven
  · cases h

/-! ## What renders to nothing -/

/-- An empty raw fragment, or a group. -/
def IsEmptyOrGroup : Expression → Prop
  | .raw fragment => fragment = []
  | .and _ | .or _ => True
  | .base | .term _ _ | .range _ _ | .present _ | .script _ _ | .not _ | .cached _ | .lookup _ =>
    False

theorem not_vacant_of_kind (hgrounded : e.Grounded)
    (hkind : e.kind ∈ ["Q", "Not", "Cached", "Range", "Term", "Exists", "Script"]) :
    e.vacant = false := by
  cases e with
  | raw | and | or | base => simp [kind] at hkind
  | lookup lookups => exact List.isEmpty_eq_false_iff.mpr hgrounded
  | _ => rfl

end Expression

mutual

/-- A grounded node is vacant if all there is in it are empty raw fragments and groups. -/
theorem Expression.vacant_iff : ∀ {e : Expression}, e.Grounded →
    (e.vacant = true ↔ e.Everywhere Expression.IsEmptyOrGroup)
  | .raw fragment, _ => by
    rw [Expression.vacant, List.isEmpty_iff]
    exact ⟨fun h ↦ Expression.everywhere_of_leaf rfl h, fun h ↦ (Expression.everywhere_iff.mp h).1⟩
  | .and nodes, h | .or nodes, h => by
    rw [Expression.vacant, vacantNodes_iff h.2, Expression.everywhere_iff]
    exact ⟨fun h ↦ ⟨trivial, h⟩, And.right⟩
  | .lookup lookups, h => by
    rw [Expression.vacant, List.isEmpty_iff]
    exact ⟨fun hempty ↦ absurd hempty h, fun h ↦ (Expression.everywhere_iff.mp h).1.elim⟩
  | .base, _ | .term _ _, _ | .range _ _, _ | .present _, _ | .script _ _, _ | .not _, _
  | .cached _, _ =>
    ⟨fun h ↦ absurd h Bool.false_ne_true, fun h ↦ (Expression.everywhere_iff.mp h).1.elim⟩

theorem vacantNodes_iff : ∀ {es : List Expression}, GroundedNodes es →
    (vacantNodes es = true ↔ ∀ e ∈ es, e.Everywhere Expression.IsEmptyOrGroup)
  | [], _ => by simp [vacantNodes]
  | e :: es, h => by
    rw [vacantNodes, Bool.and_eq_true, Expression.vacant_iff h.1, vacantNodes_iff h.2,
      List.forall_mem_cons]

end

/-! ## The ends of a range -/

/-- A fragment of ends has one for every bound that is given, and the values are those given. -/
theorem Fragment.limits_spec {limits : List (Limit Value)} (hne : limits ≠ [])
    (hvalues : ∀ l ∈ limits, l.value ≠ .null) :
    Fragment.limits limits ≠ [] ∧
      ∀ b ∈ Fragment.limits limits, (∃ bound : Bound, b.1 = .text bound.name) ∧ b.2 ≠ .null := by
  constructor
  · have hends : limits.map (fun l ↦ (l.bound, l.value)) ≠ [] := by simpa using hne
    simpa [Fragment.limits] using Association.ofList_ne_nil hends
  · have hends : ∀ b ∈ limits.map fun l ↦ (l.bound, l.value), True ∧ b.2 ≠ .null :=
      List.forall_mem_map.mpr fun l hl ↦ ⟨trivial, hvalues l hl⟩
    refine List.forall_mem_map.mpr fun b hb ↦ ⟨⟨b.1, rfl⟩, ?_⟩
    exact (Association.forall_ofList (P := fun _ ↦ True) (Q := (· ≠ Value.null)) hends b hb).2

namespace Expression

variable {e n : Expression}

/--
Rendering is total.  Every node that occurs in one that was built renders, if the parameters of
scripts are entries, and to nothing exactly if there is nothing in it but empty raw fragments and
groups.  So lookups, negations, markers and all leaves but raw fragments render to something; the
fragments that lookups come down to join to one; and a range has an end, with a bound and a value
for every end.
-/
theorem render_total (hbuilt : e.Built)
    (hparams : ∀ source params, Occurs (.script source params) e → params.GivesEntries)
    (hn : Occurs n e) :
    ∃ f, n.render = .ok f ∧ (f = [] ↔ n.Everywhere IsEmptyOrGroup) ∧
      (n.kind ∈ ["Q", "Not", "Cached", "Range", "Term", "Exists", "Script"] → f ≠ []) ∧
      (∀ lookups, n = .lookup lookups → ∃ fragments,
        renderNodes (Lookups.nodes lookups) = .ok fragments ∧
        Join.join .filters (.text JoinMode.and.name) (fragments.map .map) =
          .ok (some (.map f))) ∧
      ∀ field limits, n = .range field limits → ∃ bounds : Mapping,
        f = [entry "range" (.map [entry field (.map bounds)])] ∧ bounds ≠ [] ∧
        ∀ b ∈ bounds, (∃ bound : Bound, b.1 = .text bound.name) ∧ b.2 ≠ .null := by
  have hchecked := hbuilt.checked.occurs hn
  have hgrounded := grounded_of_checked hchecked
  have hrenderable := renderable_of_everywhere
    ((everywhere_canRender hbuilt.checked hparams).occurs hn)
  obtain ⟨f, hf⟩ := n.exists_render_iff.mpr hrenderable
  have hempty : f = [] ↔ n.vacant = true := by rw [← isEmpty_render hf, List.isEmpty_iff]
  refine ⟨f, hf, hempty.trans (vacant_iff hgrounded), fun hkind ↦ ?_, ?_, ?_⟩
  · rw [Ne, hempty, not_vacant_of_kind hgrounded hkind]
    exact Bool.false_ne_true
  · rintro lookups rfl
    obtain rfl := Except.ok.inj hf
    exact ⟨_, renderNodes_conditions _, Lookups.join_fragment hgrounded⟩
  · rintro field limits rfl
    obtain rfl := Except.ok.inj hf
    obtain ⟨-, hne, hvalues⟩ := hchecked _ .here
    exact ⟨Fragment.limits limits, rfl, Fragment.limits_spec hne hvalues⟩

/-- Empty groups render to nothing, and their negation to something, with the nodes beside them. -/
theorem render_total_of_groups :
    let idle : Expression := .and [.raw [], .or [.raw []]]
    let script : Expression := .script "doc.a > n" (.tuple [.tuple [.text "n", .int 1]])
    let e : Expression := .or [.not idle, script]
    e.Built ∧ (∀ source params, Occurs (.script source params) e → params.GivesEntries) ∧
      idle.render = .ok [] ∧ ∃ f, (Expression.not idle).render = .ok f ∧ f ≠ [] := by
  intro idle script e
  have hraw : (raw []).Built := @Built.raw (.map []) _ rfl
  have hor : (or [.raw []]).Built := @Built.or [.raw []] _ (by simp [hraw]) rfl
  have hidle : idle.Built := @Built.and [.raw [], .or [.raw []]] _ (by simp [hraw, hor]) rfl
  have hbuild : buildScript (.text "doc.a > n") (.map [entry "n" (.int 1)]) = .ok script := rfl
  have hscript : script.Built := .script hbuild
  have he : e.Built := @Built.or [.not idle, script] _ (by simp [hscript, hidle.not]) rfl
  have hparams : ∀ source params, Occurs (.script source params) e → params.GivesEntries := by
    intro source params h
    obtain ⟨-, rfl⟩ : source = "doc.a > n" ∧ params = .tuple [.tuple [.text "n", .int 1]] := by
      simpa [e, idle, script, occurs_iff (e := .or _), occurs_iff (e := .and _),
        occurs_iff (e := .not _), occurs_iff (e := .raw _), occurs_iff (e := .script _ _),
        children] using h
    refine givesEntries_of_buildScript (v := .map [entry "n" (.int 1)]) trivial ?_ hbuild
    rintro _ ⟨⟩
    exact List.forall_mem_singleton.mpr rfl
  have hnot : Occurs (.not idle) e := .under List.mem_cons_self .here
  obtain ⟨f, hf, -, hne, -⟩ := render_total he hparams hnot
  exact ⟨he, hparams, rfl, f, hf, hne (by decide)⟩

end Expression

end SearchCriteria
