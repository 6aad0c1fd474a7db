import SearchCriteria.Proofs.Session.Outcome

/-!
# Where the criteria of a session come from

`Derived h operation c` lists the ways in which a criteria comes to be in the session that an
operation leaves behind: it was there, it is new, it is an update of one that was there, or it
combines two of them.  What every step keeps of the criteria holds of all criteria of a run.
-/

namespace SearchCriteria.Session

variable {h : Session} {c d : Criteria} {place : Nat}

/-- How a criteria comes to be in the session after an operation. -/
inductive Derived (h : Session) : Operation → Criteria → Prop
  | kept {operation c} (hc : c ∈ h) : Derived h operation c
  | created {config options c} (hcreate : Criteria.create config options = .ok c) :
      Derived h (.criteria config options) c
  | started {config} : Derived h (.search config) (Criteria.start config [])
  | updated {place u c d} (hc : c ∈ h) (hd : Criteria.Updated c u d) :
      Derived h (.update place u) d
  | called {place method args named make call u c d} (hmake : Call.ofMethod method = .ok make)
      (hcall : make args named = .ok call) (hu : call.update = .ok u) (hc : c ∈ h)
      (hd : Criteria.Updated c u d) : Derived h (.call place method args named) d
  /-- Merging in whatever form combines two criteria. -/
  | combined {operation c o} (hc : c ∈ h) (ho : o ∈ h) : Derived h operation (c.combine o)

/-! ## What actions leave behind -/

/-- The session that an action leaves behind, whether it ends well or with a fault. -/
def left {α : Type} : EStateM.Result Fault Session α → Session
  | .ok _ h | .error _ h => h

theorem after_eq_left (h : Session) (operation : Operation) :
    h.after operation = left (operation.perform h) := by
  rw [Session.after, EStateM.run]
  cases operation.perform h <;> rfl

theorem left_map {α β : Type} (x : Action α) (f : α → β) (h : Session) :
    left ((do return f (← x)) h) = left (x h) := by
  rw [bind_run]
  cases x h <;> rfl

theorem left_return {α : Type} (action : Action Unit) (a : α) (h : Session) :
    left ((do action; return a : Action α) h) = left (action h) := by
  rw [return_run]
  cases action h <;> rfl

/-- Whatever fails before an action leaves nothing behind but what was there. -/
theorem left_ofExcept_bind {α β : Type} (x : Except Fault α) (next : α → Action β) (h : Session) :
    left ((ofExcept x >>= next) h) = h ∨
      ∃ a, x = .ok a ∧ left ((ofExcept x >>= next) h) = left (next a h) := by
  cases x with
  | ok a => exact .inr ⟨a, rfl, rfl⟩
  | error fault => exact .inl rfl

theorem left_find_bind {α : Type} (operation : String) (place : Nat) (next : Criteria → Action α)
    (h : Session) :
    left ((find operation place >>= next) h) = h ∨
      ∃ c ∈ h, left ((find operation place >>= next) h) = left (next c h) := by
  rw [bind_run]
  cases hc : h[place]? with
  | none =>
    obtain ⟨fault, hfault⟩ := find_of_none operation hc
    exact .inl (by rw [hfault]; rfl)
  | some c => exact .inr ⟨c, List.mem_of_getElem? hc, by rw [find_of_some operation hc]⟩

/-- Making a request leaves everything as it was. -/
theorem left_compile (h : Session) (place : Nat) :
    left ((Operation.compile place).perform h) = h := by
  rw [Operation.perform]
  rcases left_find_bind "compile" place
      (fun c ↦ do return Answer.document (← ofExcept c.compile)) h with heq | ⟨c, -, heq⟩
  · exact heq
  · rw [heq]
    cases c.compile <;> rfl

theorem mem_left_update {u : Criteria.Update} (hd : d ∈ left (Session.update place u h)) :
    d ∈ h ∨ ∃ c ∈ h, Criteria.Updated c u d := by
  cases hc : h[place]? with
  | none =>
    obtain ⟨fault, hfault⟩ := update_of_none hc u
    rw [hfault] at hd
    exact .inl hd
  | some c =>
    cases hu : c.apply u with
    | error fault =>
      rw [update_of_error hc hu] at hd
      exact .inl hd
    | ok e =>
      rw [update_of_ok hc hu] at hd
      rcases List.mem_or_eq_of_mem_set hd with hd | rfl
      · exact .inl hd
      · exact .inr ⟨c, List.mem_of_getElem? hc, Criteria.updated_of_apply hu⟩

theorem mem_left_mergeInto (hh : h.Settled) {other : Argument}
    (hd : d ∈ left (Session.mergeInto place other h)) :
    d ∈ h ∨ ∃ c ∈ h, ∃ o ∈ h, d = c.combine o := by
  cases other with
  | search | value => exact .inl hd
  | criteria other =>
    by_cases hmissing : h[place]? = none ∨ h[other]? = none
    · obtain ⟨fault, hfault⟩ := mergeInto_of_none hmissing
      rw [hfault] at hd
      exact .inl hd
    · rw [not_or, ← ne_eq, ← ne_eq, Option.ne_none_iff_exists', Option.ne_none_iff_exists'] at hmissing
      obtain ⟨⟨c, hc⟩, o, ho⟩ := hmissing
      rw [mergeInto_of_some (hh.get ho) hc ho] at hd
      rcases List.mem_or_eq_of_mem_set hd with hd | rfl
      · exact .inl hd
      · exact .inr ⟨c, List.mem_of_getElem? hc, o, List.mem_of_getElem? ho, rfl⟩

/-- What is done with a copy is done in a session that holds no other criteria than before. -/
theorem left_onCopy (h : Session) (place : Nat) (action : Nat → Action Unit) :
    left (onCopy place action h) = h ∨
      ∃ c ∈ h, left (onCopy place action h) = left (action h.length (h ++ [c])) := by
  cases hc : h[place]? with
  | none =>
    obtain ⟨fault, hfault⟩ := find_of_none "clone" hc
    refine .inl ?_
    rw [onCopy, bind_run, Session.clone, bind_run, hfault]
    rfl
  | some c =>
    refine .inr ⟨c, List.mem_of_getElem? hc, ?_⟩
    rw [onCopy_of_some hc]
    cases action h.length (h ++ [c]) <;> rfl

theorem mem_of_mem_copied (hc : c ∈ h) (hd : d ∈ h ++ [c]) : d ∈ h := by
  rcases List.mem_append.mp hd with hd | hd
  · exact hd
  · rw [List.mem_singleton.mp hd]
    exact hc

theorem mem_left_merge (hh : h.Settled) {other : Argument}
    (hd : d ∈ left (Session.merge place other h)) :
    d ∈ h ∨ ∃ c ∈ h, ∃ o ∈ h, d = c.combine o := by
  rw [Session.merge] at hd
  rcases left_onCopy h place (Session.mergeInto · other) with heq | ⟨c, hc, heq⟩
  · rw [heq] at hd
    exact .inl hd
  · rw [heq] at hd
    rcases mem_left_mergeInto (hh.push (hh c hc)) hd with hd | ⟨e, he, o, ho, rfl⟩
    · exact .inl (mem_of_mem_copied hc hd)
    · exact .inr ⟨e, mem_of_mem_copied hc he, o, mem_of_mem_copied hc ho, rfl⟩

theorem mem_left_call {method : String} {args : List Value} {named : Mapping}
    (hd : d ∈ left (Session.call place method args named h)) :
    d ∈ h ∨ ∃ make call u, Call.ofMethod method = .ok make ∧ make args named = .ok call ∧
      call.update = .ok u ∧ ∃ c ∈ h, Criteria.Updated c u d := by
  rw [Session.call] at hd
  rcases left_ofExcept_bind (Call.ofMethod method) _ h with heq | ⟨make, hmake, heq⟩
  · exact .inl (heq ▸ hd)
  rw [heq] at hd
  rcases left_ofExcept_bind (make args named) _ h with heq | ⟨call, hcall, heq⟩
  · exact .inl (heq ▸ hd)
  rw [heq] at hd
  rcases left_ofExcept_bind call.update _ h with heq | ⟨u, hu, heq⟩
  · exact .inl (heq ▸ hd)
  rw [heq] at hd
  rcases left_onCopy h place (Session.update · u) with heq | ⟨c, hc, heq⟩
  · exact .inl (heq ▸ hd)
  rw [heq] at hd
  rcases mem_left_update hd with hd | ⟨e, he, hd⟩
  · exact .inl (mem_of_mem_copied hc hd)
  · exact .inr ⟨make, call, u, hmake, hcall, hu, e, mem_of_mem_copied hc he, hd⟩

/-! ## Steps and runs -/

/-- Every criteria in the session that an operation leaves behind is derived by it. -/
theorem derived_of_mem_after (hh : h.Settled) {operation : Operation} (hd : d ∈ h.after operation) :
    Derived h operation d := by
  rw [after_eq_left] at hd
  have hmerged : (d ∈ h ∨ ∃ c ∈ h, ∃ o ∈ h, d = c.combine o) → Derived h operation d := by
    rintro (hd | ⟨c, hc, o, ho, rfl⟩)
    · exact .kept hd
    · exact .combined hc ho
  cases operation with
  | criteria config options =>
    rw [Operation.perform] at hd
    rcases left_ofExcept_bind (Criteria.create config options)
        (fun c ↦ do return Answer.criteria (← push c)) h with heq | ⟨c, hc, heq⟩
    · exact .kept (heq ▸ hd)
    · rw [heq, left_map] at hd
      rcases List.mem_append.mp hd with hd | hd
      · exact .kept hd
      · rw [List.mem_singleton.mp hd]
        exact .created hc
  | search config =>
    rw [Operation.perform, left_map] at hd
    rcases List.mem_append.mp hd with hd | hd
    · exact .kept hd
    · rw [List.mem_singleton.mp hd]
      exact .started
  | update place u =>
    rw [Operation.perform, left_return] at hd
    rcases mem_left_update hd with hd | ⟨c, hc, hd⟩
    · exact .kept hd
    · exact .updated hc hd
  | merge place other =>
    rw [Operation.perform, left_map] at hd
    exact hmerged (mem_left_merge hh hd)
  | mergeInto place other =>
    rw [Operation.perform, left_return] at hd
    exact hmerged (mem_left_mergeInto hh hd)
  | clone place =>
    rw [Operation.perform, left_map] at hd
    rcases left_find_bind "clone" place push h with heq | ⟨c, hc, heq⟩
    · exact .kept (heq ▸ hd)
    · rw [Session.clone, heq] at hd
      exact .kept (mem_of_mem_copied hc hd)
  | compile place =>
    rw [left_compile] at hd
    exact .kept hd
  | call place method args named =>
    rw [Operation.perform, left_map] at hd
    rcases mem_left_call hd with hd | ⟨make, call, u, hmake, hcall, hu, c, hc, hd⟩
    · exact .kept hd
    · exact .called hmake hcall hu hc hd
  | mergeSearch place other =>
    rw [Operation.perform, left_map] at hd
    cases other with
    | search other => exact hmerged (mem_left_merge hh hd)
    | criteria | value => exact .kept hd

/-- What every operation of a run keeps of the criteria holds of all criteria of the run. -/
theorem forall_mem_run {P : Criteria → Prop} {operations : List Operation}
    (hstep : ∀ operation ∈ operations, ∀ h : Session, h.Settled → (∀ c ∈ h, P c) →
      ∀ d, Derived h operation d → P d) : ∀ c ∈ Session.run operations, P c := by
  -- along the run, from whatever session it goes on
  have hfold : ∀ (ops : List Operation) (h : Session), (∀ operation ∈ ops, operation ∈ operations) →
      h.Settled → (∀ c ∈ h, P c) → ∀ c ∈ ops.foldl Session.after h, P c := by
    intro ops
    induction ops with
    | nil => exact fun h _ _ hP ↦ hP
    | cons operation ops ih =>
      intro h hmem hh hP
      obtain ⟨hop, hops⟩ := List.forall_mem_cons.mp hmem
      exact ih (h.after operation) hops (hh.after operation) fun d hd ↦
        hstep operation hop h hh hP d (derived_of_mem_after hh hd)
  exact hfold operations [] (fun _ hop ↦ hop) .nil fun c hc ↦ absurd hc List.not_mem_nil

end SearchCriteria.Session
