import SearchCriteria.Proofs.Search.Standing
import SearchCriteria.Proofs.Session.Derivation

/-!
# Searches refine criteria

Every search of a tree of calls has the criteria that one fresh criteria comes to when all that led
to the search is done to it in place, and it has it for good.  What carries this is that a call
writes to nothing but the copy that it has just made, so all that searches do to a session is to add
places to it.
-/

namespace SearchCriteria.Session

variable {h : Session} {c o : Criteria} {place other : Nat}

/-! ## What calls and merges answer -/

/-- An edit on a copy: the copy has a place of its own, whatever becomes of it. -/
def onNew {α : Type} (answer : Nat → α) (h : Session) :
    EStateM.Result Fault Criteria Unit → EStateM.Result Fault Session α
  | .ok _ d => .ok (answer h.length) (h ++ [d])
  | .error fault d => .error fault (h ++ [d])

theorem map_run {α β : Type} (x : Action α) (f : α → β) (h : Session) :
    (do return f (← x)) h =
      match x h with
      | .ok a left => .ok (f a) left
      | .error fault left => .error fault left := by
  rw [bind_run]
  cases x h <;> rfl

/-- On a copy, an update does what it does in place. -/
theorem onCopy_update (hc : h[place]? = some c) (u : Criteria.Update) :
    onCopy place (Session.update · u) h = onNew id h ((Criteria.updating u).run c) := by
  have hcopy : (h ++ [c])[h.length]? = some c := List.getElem?_concat_length
  rw [onCopy_of_some hc, Criteria.updating_eq_edit, EStateM.run, Criteria.edit_eq_wholly]
  cases hu : c.apply u with
  | ok d =>
    rw [update_of_ok hcopy hu, set_copy]
    rfl
  | error fault =>
    rw [update_of_error hcopy hu]
    rfl

/-- A call is read before anything is done, and then it is an update on a copy. -/
theorem call_eq (place : Nat) (method : String) (args : List Value) (named : Mapping) :
    Session.call place method args named =
      (do onCopy place (Session.update · (← ofExcept (Call.read method args named)))) := by
  rw [Session.call, Call.read]
  cases Call.ofMethod method with
  | error => rfl
  | ok make =>
    change (ofExcept (make args named) >>= _ : Action Nat) =
      (ofExcept (make args named >>= _) >>= _)
    cases make args named <;> rfl

theorem perform_call_of_error {method : String} {args : List Value} {named : Mapping}
    {fault : Fault} (hread : Call.read method args named = .error fault) (place : Nat)
    (h : Session) : (Operation.call place method args named).perform h = .error fault h := by
  rw [Operation.perform, map_run, call_eq, hread]
  rfl

theorem perform_call_of_ok (hc : h[place]? = some c) {method : String} {args : List Value}
    {named : Mapping} {u : Criteria.Update} (hread : Call.read method args named = .ok u) :
    (Operation.call place method args named).perform h =
      onNew .search h ((Criteria.updating u).run c) := by
  have hcall : Session.call place method args named h = onCopy place (Session.update · u) h := by
    rw [call_eq, hread]
    rfl
  rw [Operation.perform, map_run, hcall, onCopy_update hc]
  cases (Criteria.updating u).run c <;> rfl

theorem perform_mergeSearch (ho : o.Settled) (hc : h[place]? = some c)
    (hother : h[other]? = some o) :
    (Operation.mergeSearch place (.search other)).perform h =
      onNew .search h ((Criteria.mergeInto o).run c) := by
  rw [Operation.perform, map_run, mergeSearch, merge_of_some ho hc hother, ho.run_mergeInto]
  rfl

theorem perform_compile (hc : h[place]? = some c) :
    (Operation.compile place).perform h =
      match c.compile with
      | .ok request => .ok (.document request) h
      | .error fault => .error fault h := by
  rw [Operation.perform, bind_run, find_of_some _ hc]
  change ((do return Answer.document (← ofExcept c.compile)) : Action Answer) h = _
  cases c.compile <;> rfl

/-! ## Chaining -/

/-- What is done with searches once there is one: calls, merges and requests. -/
def Operation.Chaining : Operation → Prop
  | .call _ _ _ _ | .mergeSearch _ _ | .compile _ => True
  | _ => False

theorem getElem?_of_prefix {later : Session} (hlater : h <+: later) (hc : h[place]? = some c) :
    later[place]? = some c := by
  obtain ⟨added, rfl⟩ := hlater
  obtain ⟨hlt, -⟩ := List.getElem?_eq_some_iff.mp hc
  rw [List.getElem?_append_left hlt, hc]

/-- What changes a copy adds at most that copy. -/
theorem prefix_left_onCopy (hh : h.Settled) {action : Nat → Action Unit}
    (haction : ∀ {left : Session}, left.Settled → ∀ place, Changes place (action place) left)
    (place : Nat) : h <+: left (onCopy place action h) := by
  rcases left_onCopy h place action with heq | ⟨c, hc, heq⟩
  · simp only [heq, List.prefix_rfl]
  · rw [heq]
    rcases haction (hh.push (hh c hc)) h.length with ⟨d, -, hrun⟩ | ⟨fault, hrun⟩
    · rw [hrun, set_copy]
      exact List.prefix_append h [d]
    · rw [hrun]
      exact List.prefix_append h [c]

/-- Whatever is chained, every criteria stays at its place as it was. -/
theorem prefix_after (hh : h.Settled) {operation : Operation} (hop : operation.Chaining) :
    h <+: h.after operation := by
  rw [after_eq_left]
  cases operation with
  | call place method args named =>
    rw [Operation.perform, left_map, call_eq]
    rcases left_ofExcept_bind (Call.read method args named)
      (fun u ↦ onCopy place (Session.update · u)) h with heq | ⟨u, -, heq⟩
    · simp only [heq, List.prefix_rfl]
    · rw [heq]
      exact prefix_left_onCopy hh (fun hleft copy ↦ changes_update hleft copy u) place
  | mergeSearch place argument =>
    rw [Operation.perform, left_map]
    cases argument with
    | search other =>
      exact prefix_left_onCopy hh (fun hleft copy ↦ changes_mergeInto hleft copy _) place
    | criteria | value => exact List.prefix_rfl
  | compile place =>
    cases hc : h[place]? with
    | none =>
      obtain ⟨fault, hfault⟩ := find_of_none "compile" hc
      simp only [Operation.perform, bind_run, hfault, left, List.prefix_rfl]
    | some c =>
      rw [perform_compile hc]
      cases c.compile <;> exact List.prefix_rfl
  | criteria | search | update | merge | mergeInto | clone => exact hop.elim

theorem prefix_foldl_after (hh : h.Settled) {operations : List Operation}
    (hops : ∀ operation ∈ operations, operation.Chaining) :
    h <+: operations.foldl Session.after h := by
  induction operations generalizing h with
  | nil => exact List.prefix_rfl
  | cons operation operations ih =>
    obtain ⟨hop, hops⟩ := List.forall_mem_cons.mp hops
    exact (prefix_after hh hop).trans (ih (hh.after operation) hops)

/-! ## Paths -/

/-- What led to a search: updates that calls stand for, and merges with what led to another one. -/
inductive Path where
  | start
  | call (path : Path) (u : Criteria.Update)
  | merge (path other : Path)

/-- All that led to a search, done in place. -/
def Path.edit (config : Config) : Path → Criteria.Edit
  | .start => pure ()
  | .call path u => do
    path.edit config
    Criteria.updating u
  | .merge path other => do
    path.edit config
    Criteria.mergeInto (Criteria.left ((other.edit config).run (Criteria.start config [])))

/-- The criteria is what a fresh one comes to along the path, without a fault. -/
def Path.Replays (config : Config) (path : Path) (c : Criteria) : Prop :=
  (path.edit config).run (Criteria.start config []) = .ok () c

theorem Path.replays_start (config : Config) :
    Path.start.Replays config (Criteria.start config []) := rfl

theorem Path.Replays.bind {config : Config} {path : Path} {d : Criteria}
    {next : Criteria.Edit} (h : path.Replays config c) (hnext : next.run c = .ok () d) :
    (do path.edit config; next : Criteria.Edit).run (Criteria.start config []) = .ok () d := by
  change EStateM.bind (path.edit config) (fun _ ↦ next) (Criteria.start config []) = _
  rw [EStateM.bind, show path.edit config (Criteria.start config []) = .ok () c from h]
  exact hnext

theorem Path.Replays.call {config : Config} {path : Path} {u : Criteria.Update} {d : Criteria}
    (h : path.Replays config c) (hu : (Criteria.updating u).run c = .ok () d) :
    (path.call u).Replays config d := h.bind hu

theorem Path.Replays.merge {config : Config} {path otherPath : Path} {d : Criteria}
    (h : path.Replays config c) (hother : otherPath.Replays config o)
    (hd : (Criteria.mergeInto o).run c = .ok () d) :
    (path.merge otherPath).Replays config d := by
  refine h.bind ?_
  rw [hother]
  exact hd

/-! ## Trees of searches -/

/-- The session that grows from one search. -/
def tree (config : Config) (operations : List Operation) : Session :=
  run (.search config :: operations)

theorem tree_append (config : Config) (operations later : List Operation) :
    tree config (operations ++ later) = later.foldl Session.after (tree config operations) := by
  rw [tree, run, ← List.cons_append, List.foldl_append]
  rfl

theorem settled_tree (config : Config) (operations : List Operation) :
    (tree config operations).Settled := settled_run _

theorem prefix_tree {config : Config} {operations later : List Operation}
    (hlater : ∀ operation ∈ later, operation.Chaining) :
    tree config operations <+: tree config (operations ++ later) := by
  rw [tree_append]
  exact prefix_foldl_after (settled_tree config operations) hlater

/-- The operation, done next, answers with a search at a place. -/
def Answers (h : Session) (operation : Operation) (place : Nat) : Prop :=
  ∃ left, operation.perform h = .ok (.search place) left

/-- The searches of a tree, by place, each with the path of calls that led to it. -/
inductive Leads (config : Config) : List Operation → Nat → Path → Prop
  | start : Leads config [] 0 .start
  | kept {operations place path} (h : Leads config operations place path)
      (operation : Operation) : Leads config (operations ++ [operation]) place path
  | called {operations place path method args named u new}
      (h : Leads config operations place path) (hu : Call.Stands method args named u)
      (hnew : Answers (tree config operations) (.call place method args named) new) :
      Leads config (operations ++ [.call place method args named]) new (path.call u)
  | merged {operations place path other otherPath new} (h : Leads config operations place path)
      (hother : Leads config operations other otherPath)
      (hnew : Answers (tree config operations) (.mergeSearch place (.search other)) new) :
      Leads config (operations ++ [.mergeSearch place (.search other)]) new (path.merge otherPath)

/-- An edit on a copy that answers has made the criteria at the new place. -/
theorem exists_of_onNew {operation : Operation} {result : EStateM.Result Fault Criteria Unit}
    {new : Nat} (hperform : operation.perform h = onNew .search h result)
    (hnew : Answers h operation new) :
    ∃ d, result = .ok () d ∧ (h.after operation)[new]? = some d := by
  obtain ⟨left, hleft⟩ := hnew
  rw [after_eq_left]
  cases result with
  | error fault d =>
    rw [hperform] at hleft
    cases hleft
  | ok _ d =>
    rw [hperform] at hleft ⊢
    cases hleft
    exact ⟨d, rfl, List.getElem?_concat_length⟩

/-- Every search of the tree has the criteria to which its path leads in place. -/
theorem Leads.replays {config : Config} {operations : List Operation} {path : Path}
    (hpath : Leads config operations place path)
    (hops : ∀ operation ∈ operations, operation.Chaining) :
    ∃ c, (tree config operations)[place]? = some c ∧ path.Replays config c := by
  induction hpath with
  | start => exact ⟨Criteria.start config [], rfl, Path.replays_start config⟩
  | @kept operations place path h operation ih =>
    obtain ⟨hops, hop⟩ := List.forall_mem_append.mp hops
    obtain ⟨c, hc, hreplays⟩ := ih hops
    exact ⟨c, getElem?_of_prefix (prefix_tree hop) hc, hreplays⟩
  | @called operations place path method args named u new h hu hnew ih =>
    obtain ⟨c, hc, hreplays⟩ := ih (List.forall_mem_append.mp hops).1
    have hread := Call.read_eq_ok_iff.mpr hu
    obtain ⟨d, hd, hplace⟩ := exists_of_onNew (perform_call_of_ok hc hread) hnew
    refine ⟨d, ?_, hreplays.call hd⟩
    rw [tree_append]
    exact hplace
  | @merged operations place path other otherPath new h hother hnew ih ihother =>
    have hops := (List.forall_mem_append.mp hops).1
    obtain ⟨c, hc, hreplays⟩ := ih hops
    obtain ⟨o, ho, hotherReplays⟩ := ihother hops
    have hsettled := (settled_tree config operations).get ho
    obtain ⟨d, hd, hplace⟩ := exists_of_onNew (perform_mergeSearch hsettled hc ho) hnew
    refine ⟨d, ?_, hreplays.merge hotherReplays hd⟩
    rw [tree_append]
    exact hplace

/--
Searches refine criteria.  Let a tree of searches grow from one by calls, merges and requests,
refused ones included.  A search of the tree has the criteria to which a fresh one comes when the
updates that its calls stand for are made in place, and the searches merged into it are merged in
place.  A call on it stands for an update and is refused exactly if that is, or it stands for none
and is refused for its arguments; another search of the tree can always be merged into it, and
nothing else can.  Whatever is chained from then on, the search keeps its criteria and with it the
request.
-/
theorem search_refines {config : Config} {operations : List Operation} {place : Nat} {path : Path}
    (hops : ∀ operation ∈ operations, operation.Chaining)
    (hpath : Leads config operations place path) :
    ∃ c, (tree config operations)[place]? = some c ∧
      (path.edit config).run (Criteria.start config []) = .ok () c ∧
      (∀ method args named,
        (∀ u, Call.Stands method args named u →
          (Operation.call place method args named).perform (tree config operations) =
            onNew .search (tree config operations) ((Criteria.updating u).run c)) ∧
        ((∀ u, ¬ Call.Stands method args named u) →
          ∃ fault, Call.read method args named = .error fault ∧
            (Operation.call place method args named).perform (tree config operations) =
              .error fault (tree config operations))) ∧
      (∀ other otherPath, Leads config operations other otherPath →
        ∃ o d, (tree config operations)[other]? = some o ∧
          (Criteria.mergeInto o).run c = .ok () d ∧
          (Operation.mergeSearch place (.search other)).perform (tree config operations) =
            .ok (.search (tree config operations).length) (tree config operations ++ [d])) ∧
      (∀ argument, (∀ other, argument ≠ .search other) → ∃ fault,
        (Operation.mergeSearch place argument).perform (tree config operations) =
          .error fault (tree config operations)) ∧
      ∀ later, (∀ operation ∈ later, operation.Chaining) →
        (tree config (operations ++ later))[place]? = some c ∧
        (Operation.compile place).perform (tree config (operations ++ later)) =
          match c.compile with
          | .ok request => .ok (.document request) (tree config (operations ++ later))
          | .error fault => .error fault (tree config (operations ++ later)) := by
  obtain ⟨c, hc, hreplays⟩ := hpath.replays hops
  refine ⟨c, hc, hreplays, fun method args named ↦ ⟨fun u hu ↦ ?_, fun hnone ↦ ?_⟩, ?_, ?_, ?_⟩
  · exact perform_call_of_ok hc (Call.read_eq_ok_iff.mpr hu)
  · cases hread : Call.read method args named with
    | ok u => exact absurd (Call.stands_of_read hread) (hnone u)
    | error fault => exact ⟨fault, rfl, perform_call_of_error hread place _⟩
  · intro other otherPath hother
    obtain ⟨o, ho, -⟩ := hother.replays hops
    have hsettled := (settled_tree config operations).get ho
    have hmerge := hsettled.run_mergeInto c
    refine ⟨o, c.combine o, ho, hmerge, ?_⟩
    rw [perform_mergeSearch hsettled hc ho, hmerge]
    rfl
  · intro argument hargument
    cases argument with
    | search other => exact absurd rfl (hargument other)
    | criteria | value => exact ⟨_, rfl⟩
  · intro later hlater
    have hkept := getElem?_of_prefix (prefix_tree hlater) hc
    exact ⟨hkept, perform_compile hkept⟩

/-- Two branches, a call with a bad mode and one with a bad clause, and the branches merged. -/
theorem search_refines_of_branches :
    let config : Config := { filterMode := .text "or" }
    let a : Value := .node (.term "a" (.int 1))
    let filtered : Criteria.Update := { storage := .filters, patch := .list [a] }
    let selected : Criteria.Update :=
      { storage := .fields, patch := .list [.text "x"], purge := some true }
    let limited : Criteria.Update :=
      { storage := .requestOptions, patch := .map [Mapping.entry "size" (.int 5)] }
    let refused : List Operation :=
      [.call 0 "filter" [a] [], .call 1 "only_exactly" [.text "x"] [],
        .call 0 "query_mode" [.text "xor"] [], .call 0 "filter" [.int 42] []]
    let branches := refused ++ [.call 0 "limit" [.text "5"] []]
    let operations := branches ++ [.mergeSearch 2 (.search 4)]
    let path : Path := .merge (.call (.call .start filtered) selected) (.call .start limited)
    let start := Criteria.start config []
    let c := { start with
      filters := [a], fields := ["x"], requestOptions := [Mapping.entry "size" (.int 5)] }
    (∀ operation ∈ operations, operation.Chaining) ∧ Leads config operations 5 path ∧
      (tree config operations)[5]? = some c ∧ (path.edit config).run start = .ok () c ∧
      (tree config operations)[1]? = some { start with filters := [a] } := by
  intro config a filtered selected limited refused branches operations path start c
  have hops : ∀ operation ∈ operations, operation.Chaining := by
    simp [operations, branches, refused, Operation.Chaining]
  have hrefused : tree config refused = [start, { start with filters := [a] },
      { start with filters := [a], fields := ["x"] }, start] := by
    dsimp only [config, a, refused, start]
    rfl
  have hbranches : tree config branches =
      tree config refused ++
        [{ start with requestOptions := [Mapping.entry "size" (.int 5)] }] := by
    rw [tree_append, hrefused]
    dsimp only [start, config]
    rfl
  have hmerge : (Operation.mergeSearch 2 (.search 4)).perform (tree config branches) =
      .ok (.search 5) (tree config branches ++ [c]) := by
    have hother : (tree config branches)[4]? =
        some { start with requestOptions := [Mapping.entry "size" (.int 5)] } := by
      rw [hbranches, hrefused]
      rfl
    have hsettled := (settled_tree config _).get hother
    rw [hbranches, hrefused] at hother ⊢
    rw [perform_mergeSearch hsettled rfl hother, hsettled.run_mergeInto]
    rfl
  -- the first branch
  have hfilter : Leads config ([] ++ [.call 0 "filter" [a] []]) 1 (.call .start filtered) :=
    .called .start (.appends (by decide)) ⟨_, rfl⟩
  have honly : Leads config ([.call 0 "filter" [a] []] ++ [.call 1 "only_exactly" [.text "x"] []])
      2 (.call (.call .start filtered) selected) :=
    .called hfilter (.replaces (by decide)) ⟨_, rfl⟩
  have hfirst : Leads config refused 2 (.call (.call .start filtered) selected) :=
    .kept (.kept honly _) _
  -- the second one, from the search at the start
  have hstart : Leads config refused 0 .start := .kept (.kept (.kept (.kept .start _) _) _) _
  have hlimit : Call.Stands "limit" [.text "5"] [] limited :=
    .count (v := .text "5") (by decide) rfl rfl
  have hsecond : Leads config branches 4 (.call .start limited) := by
    refine .called hstart hlimit ?_
    rw [hrefused]
    exact ⟨_, rfl⟩
  have hpath : Leads config operations 5 path := .merged (.kept hfirst _) hsecond ⟨_, hmerge⟩
  obtain ⟨d, hd, hreplays, -⟩ := search_refines hops hpath
  have hplaces : tree config operations = tree config branches ++ [c] := by
    rw [tree_append, List.foldl_cons, List.foldl_nil, after_eq_left, hmerge]
    rfl
  rw [hplaces, hbranches, hrefused] at hd ⊢
  obtain rfl : c = d := Option.some.inj hd
  exact ⟨hops, hpath, rfl, hreplays, rfl⟩

end SearchCriteria.Session
