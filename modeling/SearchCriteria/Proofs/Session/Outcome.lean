import SearchCriteria.Proofs.Criteria.Combining
import SearchCriteria.Proofs.Criteria.InPlace
import SearchCriteria.Session

/-!
# What operations leave behind

An operation looks at a session, puts a criteria at a new place, or changes the one at a place.  If
it is refused, everything is where it was and as it was; at most a copy is left over that nobody
knows.  What carries this through a merge in place is that settled contents are accepted wherever
they are merged into, so the storages that are still to come cannot stop it.
-/

namespace SearchCriteria.Session

/-- All criteria of the session are settled. -/
def Settled (h : Session) : Prop := ∀ c ∈ h, c.Settled

variable {h : Session} {c : Criteria} {place : Nat}

theorem Settled.nil : Settled [] := fun _ hc ↦ absurd hc List.not_mem_nil

theorem Settled.get (hh : h.Settled) (hc : h[place]? = some c) : c.Settled :=
  hh c (List.mem_of_getElem? hc)

theorem Settled.push (hh : h.Settled) (hc : c.Settled) : Settled (h ++ [c]) :=
  List.forall_mem_append.mpr ⟨hh, List.forall_mem_singleton.mpr hc⟩

theorem Settled.set (hh : h.Settled) (hc : c.Settled) (place : Nat) : Settled (h.set place c) := by
  intro d hd
  rcases List.mem_or_eq_of_mem_set hd with hd | rfl
  · exact hh d hd
  · exact hc

/-! ## Single steps -/

theorem bind_run {α β : Type} (x : Action α) (next : α → Action β) (h : Session) :
    (x >>= next) h =
      match x h with
      | .ok a left => next a left
      | .error fault left => .error fault left := by
  change EStateM.bind x next h = _
  rw [EStateM.bind]
  cases x h <;> rfl

/-- An action that gives an answer of its own once it is done. -/
theorem return_run {α : Type} (action : Action Unit) (a : α) (h : Session) :
    (do action; return a : Action α) h =
      match action h with
      | .ok _ left => .ok a left
      | .error fault left => .error fault left := by
  rw [bind_run]
  cases action h <;> rfl

theorem get_run (h : Session) : (get : Action Session) h = .ok h h := rfl

theorem find_of_some (operation : String) (hc : h[place]? = some c) :
    find operation place h = .ok c h := by
  rw [find, bind_run, get_run]
  simp only [hc]
  rfl

theorem find_of_none (operation : String) (hnone : h[place]? = none) :
    ∃ fault, find operation place h = .error fault h := by
  refine ⟨.missingOperation Value.null.kind operation, ?_⟩
  rw [find, bind_run, get_run]
  simp only [hnone]
  rfl

/-- A place is changed, or everything stays as it is and there is a fault. -/
def Changes (place : Nat) (action : Action Unit) (h : Session) : Prop :=
  (∃ d : Criteria, d.Settled ∧ action h = .ok () (h.set place d)) ∨
    ∃ fault, action h = .error fault h

theorem set_self (hc : h[place]? = some c) : h.set place c = h := by
  obtain ⟨hlt, rfl⟩ := List.getElem?_eq_some_iff.mp hc
  exact List.set_getElem_self hlt

theorem update_of_ok (hc : h[place]? = some c) {u : Criteria.Update} {d : Criteria}
    (hd : c.apply u = .ok d) : Session.update place u h = .ok () (h.set place d) := by
  rw [Session.update, editAt, bind_run, find_of_some _ hc, Criteria.updating_eq_edit]
  simp only [EStateM.run, Criteria.edit_eq_wholly, hd]
  rfl

/-- The criteria is written back as it was. -/
theorem update_of_error (hc : h[place]? = some c) {u : Criteria.Update} {fault : Fault}
    (hfault : c.apply u = .error fault) : Session.update place u h = .error fault h := by
  rw [Session.update, editAt, bind_run, find_of_some _ hc, Criteria.updating_eq_edit]
  simp only [EStateM.run, Criteria.edit_eq_wholly, hfault]
  change EStateM.Result.error fault (h.set place c) = _
  rw [set_self hc]

theorem update_of_none (hnone : h[place]? = none) (u : Criteria.Update) :
    ∃ fault, Session.update place u h = .error fault h := by
  obtain ⟨fault, hfault⟩ := find_of_none ("update_" ++ u.storage.name) hnone
  exact ⟨fault, by rw [Session.update, editAt, bind_run, hfault]⟩

theorem changes_update (hh : h.Settled) (place : Nat) (u : Criteria.Update) :
    Changes place (Session.update place u) h := by
  cases hc : h[place]? with
  | none => exact .inr (update_of_none hc u)
  | some c =>
    cases hu : c.apply u with
    | error fault => exact .inr ⟨fault, update_of_error hc hu⟩
    | ok d => exact .inl ⟨d, (hh.get hc).updated (Criteria.updated_of_apply hu), update_of_ok hc hu⟩

/-! ## Merging in place -/

theorem content_absorb_of_ne {s t : Storage} (hne : s ≠ t) (other c : Criteria) :
    (Criteria.absorb other c s).content t = c.content t := by
  cases s <;> cases t <;> first | rfl | exact absurd rfl hne

/-- One storage is combined, if the other criteria still holds there what a settled one did. -/
theorem mergeStorage_of_some {other : Nat} {o e : Criteria} {s : Storage} (ho : o.Settled)
    (hc : h[place]? = some c) (he : h[other]? = some e) (hcontent : e.content s = o.content s) :
    mergeStorage place other s h = .ok () (h.set place (Criteria.absorb o c s)) := by
  rw [mergeStorage, bind_run, find_of_some _ he]
  simp only [hcontent]
  exact update_of_ok hc (ho.updated_content c s).apply_eq

/--
Storage by storage, what the other criteria held at first is absorbed.  Merged with itself, a
criteria changes while it is read, but never in a storage that is still to come.
-/
theorem forM_mergeStorage {other : Nat} {o d : Criteria} {ss : List Storage} (ho : o.Settled)
    (hlt : place < h.length) (hother : h[other]? = some o) (hnodup : ss.Nodup)
    (hself : place = other → ∀ s ∈ ss, d.content s = o.content s) :
    ss.forM (mergeStorage place other) (h.set place d) =
      .ok () (h.set place (ss.foldl (Criteria.absorb o) d)) := by
  induction ss generalizing d with
  | nil => rfl
  | cons s ss ih =>
    obtain ⟨hs, hss⟩ := List.nodup_cons.mp hnodup
    have hplace : (h.set place d)[place]? = some d := by simp [hlt]
    have hread : ∃ e : Criteria,
        (h.set place d)[other]? = some e ∧ e.content s = o.content s := by
      by_cases heq : place = other
      · exact ⟨d, heq ▸ hplace, hself heq s List.mem_cons_self⟩
      · exact ⟨o, by rw [List.getElem?_set_ne heq, hother], rfl⟩
    obtain ⟨e, he, hcontent⟩ := hread
    have hstep := mergeStorage_of_some ho hplace he hcontent
    rw [List.set_set] at hstep
    change (mergeStorage place other s >>= fun _ ↦ ss.forM (mergeStorage place other))
      (h.set place d) = _
    rw [bind_run, hstep]
    refine ih hss fun heq t ht ↦ ?_
    rw [content_absorb_of_ne (ne_of_mem_of_not_mem ht hs).symm]
    exact hself heq t (List.mem_cons_of_mem s ht)

/-- Merging in place goes through all storages and combines the two criteria. -/
theorem mergeInto_of_some {other : Nat} {o : Criteria} (ho : o.Settled) (hc : h[place]? = some c)
    (hother : h[other]? = some o) :
    Session.mergeInto place (.criteria other) h = .ok () (h.set place (c.combine o)) := by
  obtain ⟨hlt, -⟩ := List.getElem?_eq_some_iff.mp hc
  have hself : place = other → ∀ s ∈ Storage.all, c.content s = o.content s := by
    rintro rfl s -
    rw [Option.some.inj (hc.symm.trans hother)]
  have hrun := forM_mergeStorage ho hlt hother (by decide : Storage.all.Nodup) hself
  rw [set_self hc, Criteria.foldl_absorb] at hrun
  exact hrun

/-- If one of the two is missing, the first storage fails before anything is written. -/
theorem mergeInto_of_none {other : Nat} (hnone : h[place]? = none ∨ h[other]? = none) :
    ∃ fault, Session.mergeInto place (.criteria other) h = .error fault h := by
  have hfirst : ∀ {fault}, mergeStorage place other .queries h = .error fault h →
      ∃ fault, Session.mergeInto place (.criteria other) h = .error fault h := by
    intro fault hfault
    refine ⟨fault, ?_⟩
    change (mergeStorage place other .queries >>= fun _ ↦ _ : Action Unit) h = _
    rw [bind_run, hfault]
  cases ho : h[other]? with
  | none =>
    obtain ⟨fault, hfault⟩ := find_of_none Storage.queries.name ho
    exact hfirst (by rw [mergeStorage, bind_run, hfault])
  | some o =>
    have hc : h[place]? = none := hnone.resolve_right (by simp [ho])
    obtain ⟨fault, hfault⟩ := update_of_none hc
      { storage := .queries, patch := o.content .queries }
    exact hfirst (by rw [mergeStorage, bind_run, find_of_some _ ho, ← hfault])

theorem changes_mergeInto (hh : h.Settled) (place : Nat) (other : Argument) :
    Changes place (Session.mergeInto place other) h := by
  cases other with
  | search | value => exact .inr ⟨_, rfl⟩
  | criteria other =>
    cases hc : h[place]? with
    | none => exact .inr (mergeInto_of_none (.inl hc))
    | some c =>
      cases ho : h[other]? with
      | none => exact .inr (mergeInto_of_none (.inr ho))
      | some o =>
        exact .inl ⟨c.combine o, (hh.get hc).combine (hh.get ho),
          mergeInto_of_some (hh.get ho) hc ho⟩

/-! ## Copies -/

/-- How an operation may end. -/
inductive Outcome {α : Type} (h : Session) : EStateM.Result Fault Session α → Prop
  | looked {a} : Outcome h (.ok a h)
  | placed {a c} (hc : c.Settled) : Outcome h (.ok a (h ++ [c]))
  | changed {a place c} (hc : c.Settled) : Outcome h (.ok a (h.set place c))
  | refused {fault} : Outcome h (.error fault h)
  /-- A copy was made, and then the operation was refused. -/
  | stranded {fault c} (hc : c.Settled) : Outcome h (.error fault (h ++ [c]))

theorem Outcome.map {α β : Type} {x : Action α} (hx : Outcome h (x h)) (f : α → β) :
    Outcome h ((do return f (← x)) h) := by
  rw [bind_run]
  cases hresult : x h with
  | ok a left =>
    rw [hresult] at hx
    cases hx with
    | looked => exact .looked
    | placed hc => exact .placed hc
    | changed hc => exact .changed hc
  | error fault left =>
    rw [hresult] at hx
    cases hx with
    | refused => exact .refused
    | stranded hc => exact .stranded hc

/-- Where an operation is refused, whatever was at a place is still there. -/
theorem Outcome.unchanged {α : Type} {fault : Fault} {left : Session}
    (houtcome : Outcome h (.error fault left : EStateM.Result Fault Session α))
    (hc : h[place]? = some c) : left[place]? = some c := by
  cases houtcome with
  | refused => exact hc
  | stranded =>
    obtain ⟨hlt, -⟩ := List.getElem?_eq_some_iff.mp hc
    rw [List.getElem?_append_left hlt, hc]

theorem outcome_ofExcept_bind {α β : Type} {x : Except Fault α} {next : α → Action β}
    (hnext : ∀ a, x = .ok a → Outcome h (next a h)) : Outcome h ((ofExcept x >>= next) h) := by
  cases x with
  | ok a => exact hnext a rfl
  | error fault => exact .refused

theorem outcome_push (hc : c.Settled) : Outcome h (push c h) := .placed hc

theorem outcome_of_changes {action : Action Unit} (hchanges : Changes place action h) :
    Outcome h (action h) := by
  rcases hchanges with ⟨d, hd, hrun⟩ | ⟨fault, hrun⟩
  · exact hrun ▸ .changed hd
  · exact hrun ▸ .refused

theorem outcome_find_bind {α : Type} {operation : String} {next : Criteria → Action α}
    (hnext : ∀ c, h[place]? = some c → Outcome h (next c h)) :
    Outcome h ((find operation place >>= next) h) := by
  rw [bind_run]
  cases hc : h[place]? with
  | none =>
    obtain ⟨fault, hfault⟩ := find_of_none operation hc
    exact hfault ▸ .refused
  | some c => exact find_of_some operation hc ▸ hnext c hc

theorem onCopy_of_some (hc : h[place]? = some c) (action : Nat → Action Unit) :
    onCopy place action h =
      match action h.length (h ++ [c]) with
      | .ok _ left => .ok h.length left
      | .error fault left => .error fault left := by
  have hclone : Session.clone place h = .ok h.length (h ++ [c]) := by
    rw [Session.clone, bind_run, find_of_some _ hc]
    rfl
  rw [onCopy, bind_run, hclone]
  exact return_run (action h.length) h.length (h ++ [c])

theorem set_copy (h : Session) (c d : Criteria) : (h ++ [c]).set h.length d = h ++ [d] := by
  rw [List.set_append_right _ _ (Nat.le_refl _), Nat.sub_self, List.set_cons_zero]

/-- What changes a copy leaves the original alone. -/
theorem outcome_onCopy (hh : h.Settled) {action : Nat → Action Unit}
    (haction : ∀ {left : Session}, left.Settled → ∀ place, Changes place (action place) left) :
    Outcome h (onCopy place action h) := by
  cases hc : h[place]? with
  | none =>
    obtain ⟨fault, hfault⟩ := find_of_none "clone" hc
    rw [onCopy, bind_run, Session.clone, bind_run, hfault]
    exact .refused
  | some c =>
    rw [onCopy_of_some hc]
    rcases haction (hh.push (hh.get hc)) h.length with ⟨d, hd, hrun⟩ | ⟨fault, hrun⟩
    · rw [set_copy] at hrun
      rw [hrun]
      exact .placed hd
    · rw [hrun]
      exact .stranded (hh.get hc)

/-- Merging two criteria makes a third one. -/
theorem merge_of_some {other : Nat} {o : Criteria} (ho : o.Settled) (hc : h[place]? = some c)
    (hother : h[other]? = some o) :
    Session.merge place (.criteria other) h = .ok h.length (h ++ [c.combine o]) := by
  have hcopy : (h ++ [c])[h.length]? = some c := List.getElem?_concat_length
  have hstill : (h ++ [c])[other]? = some o := by
    obtain ⟨hlt, -⟩ := List.getElem?_eq_some_iff.mp hother
    rw [List.getElem?_append_left hlt, hother]
  rw [Session.merge, onCopy_of_some hc, mergeInto_of_some ho hcopy hstill, set_copy]

/-! ## Operations -/

theorem outcome_merge (hh : h.Settled) (place : Nat) (other : Argument) :
    Outcome h (Session.merge place other h) :=
  outcome_onCopy hh fun hleft copy ↦ changes_mergeInto hleft copy other

/-- How every operation ends in a session of settled criteria. -/
theorem outcome_perform (hh : h.Settled) (operation : Operation) :
    Outcome h (operation.perform h) := by
  cases operation with
  | criteria config options =>
    refine outcome_ofExcept_bind fun c hc ↦ ?_
    have hreachable : Criteria.Reachable c := .create hc
    exact (outcome_push hreachable.settled).map _
  | search config => exact (outcome_push (Criteria.settled_start config [])).map _
  | update place u => exact (outcome_of_changes (changes_update hh place u)).map _
  | merge place other => exact (outcome_merge hh place other).map _
  | mergeInto place other => exact (outcome_of_changes (changes_mergeInto hh place other)).map _
  | clone place =>
    exact Outcome.map (outcome_find_bind fun _ hc ↦ outcome_push (hh.get hc)) _
  | compile place =>
    refine outcome_find_bind fun c _ ↦ ?_
    exact outcome_ofExcept_bind fun _ _ ↦ .looked
  | call place method args named =>
    refine Outcome.map ?_ _
    refine outcome_ofExcept_bind fun make _ ↦ ?_
    refine outcome_ofExcept_bind fun call _ ↦ ?_
    refine outcome_ofExcept_bind fun u _ ↦ ?_
    exact outcome_onCopy hh fun hleft copy ↦ changes_update hleft copy u
  | mergeSearch place other =>
    refine Outcome.map ?_ _
    cases other with
    | search other => exact outcome_merge hh place _
    | criteria | value => exact .refused

/-! ## Runs -/

theorem Settled.after (hh : h.Settled) (operation : Operation) : Settled (h.after operation) := by
  have houtcome := outcome_perform hh operation
  rw [Session.after, EStateM.run]
  generalize operation.perform h = result at houtcome
  cases houtcome with
  | looked | refused => exact hh
  | placed hc | stranded hc => exact hh.push hc
  | changed hc => exact hh.set hc _

theorem Settled.foldl_after (hh : h.Settled) (operations : List Operation) :
    Settled (operations.foldl Session.after h) := by
  induction operations generalizing h with
  | nil => exact hh
  | cons operation operations ih => exact ih (hh.after operation)

/-- Whatever was done in a session, and whatever was refused in it, its criteria are settled. -/
theorem settled_run (operations : List Operation) : Settled (Session.run operations) :=
  Settled.nil.foldl_after operations

end SearchCriteria.Session
