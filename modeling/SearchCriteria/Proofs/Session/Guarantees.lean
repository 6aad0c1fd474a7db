import SearchCriteria.Proofs.Session.Outcome

/-!
# What a session can rely on

Whatever a program does with its criteria and searches, every storage keeps the form that merging
and compiling rely on, and an operation that is refused changes no criteria: not the one it was for,
not the one it was given, and no other.
-/

namespace SearchCriteria.Session

/-! ## The form of the storages -/

/-- Settled names are pairwise distinct, and each has a character that is not blank. -/
theorem nodup_of_settledNames {names : List String} (h : Criteria.SettledNames names) :
    names.Nodup ∧ ∀ name ∈ names, ∃ ch ∈ name.toList, Text.isBlankChar ch = false := by
  refine ⟨h.separate.imp fun hne ↦ by simpa using hne, fun name hname ↦ ?_⟩
  simpa [Text.isBlank] using h.not_blank name hname

theorem getText?_of_modes {options : Mapping}
    (h : Config.modeNames.map .text <+: Association.keys options) {name : String}
    (hname : name ∈ Config.modeNames) : ∃ mode, options.getText? name = some mode := by
  have hkey : Value.text name ∈ Association.keys options :=
    h.subset (List.mem_map_of_mem hname)
  obtain ⟨mode, hmode⟩ := Association.exists_get?_of_mem_keys Value.sameKey_lawful hkey
  exact ⟨mode, (options.get?_text name).symm.trans hmode⟩

/--
The storages of every criteria of a session have their form: clauses are nodes or mappings that
hold something; neither sort keys nor scoring functions are sequences, a mapping asks for one sort
key, and no scoring function is blank; names are pairwise distinct and not blank; and the join modes
are among the options.
-/
theorem storages_formed (operations : List Operation) {c : Criteria}
    (hc : c ∈ Session.run operations) :
    (∀ v ∈ c.queries ++ c.filters ++ c.postFilters, v.IsClause) ∧
    (∀ v ∈ c.sort ++ c.scores, v.IsLeaf) ∧
    (∀ entries, .map entries ∈ c.sort → entries.length = 1) ∧
    (∀ v ∈ c.scores, v.isBlank = false) ∧
    (c.fields.Nodup ∧ ∀ name ∈ c.fields, ∃ ch ∈ name.toList, Text.isBlankChar ch = false) ∧
    (c.types.Nodup ∧ ∀ name ∈ c.types, ∃ ch ∈ name.toList, Text.isBlankChar ch = false) ∧
    ∀ name ∈ ["query_mode", "filter_mode", "post_filter_mode"],
      ∃ mode, c.options.getText? name = some mode := by
  have hsettled : c.Settled := settled_run operations c hc
  refine ⟨?clauses, ?leaves, ?sortKeys, hsettled.scores_not_blank,
    nodup_of_settledNames hsettled.fields, nodup_of_settledNames hsettled.types,
    fun name hname ↦ getText?_of_modes hsettled.modes hname⟩
  case clauses =>
    simpa only [List.forall_mem_append, and_assoc] using
      ⟨hsettled.queries, hsettled.filters, hsettled.postFilters⟩
  case leaves =>
    exact List.forall_mem_append.mpr
      ⟨fun v hv ↦ (hsettled.sort v hv).isLeaf, hsettled.scores_leaf⟩
  case sortKeys => exact fun entries hentries ↦ hsettled.sort (.map entries) hentries

/-- A refused update, a call with a blank name, and a merge of what it gives with itself. -/
theorem storages_formed_of_session :
    let order : List Value :=
      [.map [Mapping.entry "date" (.text "desc")], .map [Mapping.entry "name" (.text "asc")]]
    let operations : List Operation :=
      [.criteria {} .null,
        .update 0 { storage := .queries, patch := .list [.node (.present "a"), .list [.int 7]] },
        .update 0
          { storage := .sort,
            patch := .map [Mapping.entry "date" (.text "desc"), Mapping.entry "name" (.text "asc")],
            purge := some true },
        .call 0 "types" [.list [.text "post", .text " ", .int 3]] [],
        .mergeInto 1 (.criteria 1)]
    let c : Criteria :=
      { Criteria.start {} [] with sort := order ++ order, types := ["post", "3"] }
    c ∈ Session.run operations ∧ (∀ entries, .map entries ∈ c.sort → entries.length = 1) ∧
      c.types.Nodup := by
  intro order operations c
  have hc : c ∈ Session.run operations := List.mem_cons_of_mem _ List.mem_cons_self
  obtain ⟨-, -, hsort, -, -, ⟨htypes, -⟩, -⟩ := storages_formed operations hc
  exact ⟨hc, hsort, htypes⟩

/-! ## Refused operations -/

/-- At whatever depth it is, a leaf that is no clause bars the whole patch. -/
theorem clausePatch_ne_ok {s : Storage} {patch v : Value} {items : List Value}
    (hv : v ∈ Patch.leaves patch) (hblank : v.isBlank = false) (hclause : ¬ v.IsClause) :
    Criteria.clausePatch s patch ≠ .ok items := by
  intro h
  obtain ⟨⟨⟩, hforM, -⟩ := bind_eq_ok.mp h
  have hitem : v ∈ Patch.items patch := List.mem_filter.mpr ⟨hv, by simp [hblank]⟩
  exact hclause (Criteria.requireClause_eq_ok (forM_eq_ok.mp hforM v hitem) hblank)

theorem update_of_not_isClause {h : Session} {place : Nat} {s : Storage} {patch v : Value}
    (hs : s ∈ [Storage.queries, .filters, .postFilters]) (hv : v ∈ Patch.leaves patch)
    (hblank : v.isBlank = false) (hclause : ¬ v.IsClause) (purge : Option Bool) :
    ∃ fault, Session.update place ⟨s, patch, purge⟩ h = .error fault h := by
  have hpatch : ∀ {t items}, Criteria.clausePatch t patch ≠ .ok items :=
    clausePatch_ne_ok hv hblank hclause
  cases hc : h[place]? with
  | none => exact update_of_none hc _
  | some c =>
    cases hu : c.apply ⟨s, patch, purge⟩ with
    | error fault => exact ⟨fault, update_of_error hc hu⟩
    | ok d =>
      cases Criteria.updated_of_apply hu with
      | queries hitems | filters hitems | postFilters hitems => exact absurd hitems hpatch
      | _ => simp at hs

/--
A refused operation changes no criteria of the session, whichever operation it is and whatever it
was given.  One leaf that is no clause bars a whole patch of clauses, and merging in place a criteria
with another one, or with itself, is never refused, let alone half way through.
-/
theorem refused_unchanged (operations : List Operation) :
    let h := Session.run operations
    (∀ (operation : Operation) fault left, operation.perform.run h = .error fault left →
      ∀ (place : Nat) c, h[place]? = some c → left[place]? = some c) ∧
    (∀ place s patch purge v, s ∈ [Storage.queries, .filters, .postFilters] →
      v ∈ Patch.leaves patch → v.isBlank = false → ¬ v.IsClause →
        ∃ fault, (Operation.update place ⟨s, patch, purge⟩).perform.run h = .error fault h) ∧
    ∀ (place other : Nat) c o, h[place]? = some c → h[other]? = some o →
      ∃ merged, c.merge o = .ok merged ∧
        (Operation.mergeInto place (.criteria other)).perform.run h =
          .ok (.criteria place) (h.set place merged) := by
  intro h
  have hsettled : Settled h := settled_run operations
  refine ⟨fun operation fault left hleft place c hc ↦ ?refused,
    fun place s patch purge v hs hv hblank hclause ↦ ?clauses,
    fun place other c o hc ho ↦ ?merged⟩
  case refused =>
    have houtcome : Outcome h (operation.perform.run h) := outcome_perform hsettled operation
    rw [hleft] at houtcome
    exact houtcome.unchanged hc
  case clauses =>
    obtain ⟨fault, hrun⟩ := update_of_not_isClause hs hv hblank hclause purge
    refine ⟨fault, (return_run _ _ h).trans ?_⟩
    rw [hrun]
  case merged =>
    have hrun := mergeInto_of_some (hsettled.get ho) hc ho
    refine ⟨c.combine o, (hsettled.get ho).merge_eq c, (return_run _ _ h).trans ?_⟩
    rw [hrun]

/-- A purge with a name that has no text, a number among clauses, and a merge that is made. -/
theorem refused_unchanged_of_session :
    let operations : List Operation :=
      [.criteria {} .null, .search { queryMode := .text "should" },
        .update 0 { storage := .types, patch := .text "post" },
        .update 1 { storage := .facets, patch := .map [Mapping.entry "tags" (.map [])] }]
    let h := Session.run operations
    let posts : Criteria := { Criteria.start {} [] with types := ["post"] }
    let purging : Operation :=
      .update 0 { storage := .types, patch := .node .base, purge := some true }
    h[0]? = some posts ∧
    (∃ fault left, purging.perform.run h = .error fault left ∧ left[0]? = some posts) ∧
    (∃ fault, (Operation.update 0
        { storage := .filters,
          patch := .list [.node (.present "a"), .tuple [.map [], .list [.int 7]]] }).perform.run h =
          .error fault h) ∧
    ∃ merged, (Operation.mergeInto 0 (.criteria 1)).perform.run h =
      .ok (.criteria 0) (h.set 0 merged) := by
  intro operations h posts purging
  obtain ⟨hrefused, hclauses, hmerged⟩ := refused_unchanged operations
  have hposts : h[0]? = some posts := rfl
  obtain ⟨fault, left, hleft⟩ : ∃ fault left, purging.perform.run h = .error fault left :=
    ⟨_, _, rfl⟩
  refine ⟨hposts, ⟨fault, left, hleft, hrefused _ _ _ hleft 0 posts hposts⟩, ?_, ?_⟩
  · exact hclauses 0 .filters _ none (.int 7) (by decide) (by simp [leavesOf, Value.leaves]) rfl id
  · obtain ⟨merged, -, hrun⟩ := hmerged 0 1 _ _ hposts rfl
    exact ⟨merged, hrun⟩

end SearchCriteria.Session
