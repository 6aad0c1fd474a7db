import SearchCriteria.Proofs.Criteria.History
import SearchCriteria.Proofs.Expression.Writing
import SearchCriteria.Proofs.Request.Compiling
import SearchCriteria.Proofs.Search.Calling
import SearchCriteria.Proofs.Session.Derivation
import SearchCriteria.Proofs.Value.Named
import SearchCriteria.Search.Basic

/-!
# Searches are always ready

A search that starts from a valid config and goes through calls and merges can be compiled at any
time.  The invariant is on the options as much as on the nodes: modes come from a config or through
a call that has checked them, a mode that has been checked stays as it is when it is checked again,
and merging overwrites options with such as the other search has.
-/

namespace SearchCriteria

open Mapping (entry single)

/-! ## Checked modes -/

/-- What a check gives is left as it is by another one. -/
theorem JoinMode.check_of_check {v mode : Value} (h : check v = .ok mode) :
    check mode = .ok mode := by
  cases v with
  | int | real =>
    obtain rfl := Except.ok.inj h
    rfl
  | text s =>
    change checkText s = .ok mode at h
    have htext := h
    unfold checkText at h
    dsimp only at h
    split at h
    · obtain rfl := Except.ok.inj h
      exact htext
    · split at h
      · split at h
        · obtain rfl := Except.ok.inj h
          rfl
        · cases h
      · cases h
  | _ => cases h

theorem JoinMode.unhashable?_of_check {v mode : Value} (h : check v = .ok mode) :
    v.unhashable? = none := by
  cases v with
  | int | real | text => rfl
  | _ => cases h

/-- The modes among the options are valid, and a node given as strategy is sound. -/
structure Mapping.SoundOptions (options : Mapping) : Prop where
  mode (name : String) (hname : name ∈ Config.modeNames) (v : Value)
    (h : options.getText? name = some v) : JoinMode.check v = .ok v
  strategy (e : Expression) (h : options.getText? "strategy" = some (.node e)) : e.Sound

namespace Mapping.SoundOptions

theorem overlay {options additions : Mapping} (h : options.SoundOptions)
    (hadditions : additions.SoundOptions) (hkeys : additions.DistinctKeys) :
    (options.overlay additions).SoundOptions := by
  have hor : ∀ name v, (options.overlay additions).getText? name = some v →
      additions.getText? name = some v ∨ options.getText? name = some v := by
    intro name v hv
    rw [← get?_text, get?_overlay hkeys, get?_text, get?_text] at hv
    exact (Option.or_eq_some_iff.mp hv).imp_right And.right
  constructor
  · intro name hname v hv
    rcases hor name v hv with hv | hv
    · exact hadditions.mode name hname v hv
    · exact h.mode name hname v hv
  · intro e he
    rcases hor _ _ he with he | he
    · exact hadditions.strategy e he
    · exact h.strategy e he

/-- A single option. -/
theorem single {name : String} {v : Value}
    (hmode : name ∈ Config.modeNames → JoinMode.check v = .ok v)
    (hstrategy : ∀ e, name = "strategy" → v = .node e → e.Sound) :
    (Mapping.single name v).SoundOptions := by
  have heq : ∀ other w, (Mapping.single name v).getText? other = some w →
      name = other ∧ v = w := by
    intro other w h
    rw [Mapping.single, getText?_cons_entry] at h
    split at h
    · rename_i hname
      exact ⟨hname, Option.some.inj h⟩
    · cases h
  constructor
  · intro other hother w hw
    obtain ⟨rfl, rfl⟩ := heq other w hw
    exact hmode hother
  · intro e he
    obtain ⟨hname, hv⟩ := heq _ _ he
    exact hstrategy e hname hv

end Mapping.SoundOptions

namespace Config

theorem given_eq_ok {α : Type} {fields : Mapping} {name : String} {default result : α}
    {read : Value → Except ConfigIssue α} (h : given fields name default read = .ok result) :
    result = default ∨ ∃ v, read v = .ok result := by
  unfold given at h
  cases hv : fields.getText? name with
  | none =>
    rw [hv] at h
    exact .inl (Except.ok.inj h).symm
  | some v =>
    rw [hv] at h
    exact .inr ⟨v, h⟩

/-- A field holds a number or text, and a valid mode. -/
theorem checkMode_eq_ok_iff {field : String} {v mode : Value} :
    checkMode field v = .ok mode ↔
      ∃ read, numberOrText? v = some read ∧ JoinMode.check read = .ok mode := by
  unfold checkMode
  cases numberOrText? v with
  | none => simp
  | some read => cases h : JoinMode.check read <;> simp [Except.mapError, h]

theorem check_of_checkMode {field : String} {v mode : Value} (h : checkMode field v = .ok mode) :
    JoinMode.check mode = .ok mode := by
  obtain ⟨read, -, hmode⟩ := checkMode_eq_ok_iff.mp h
  exact JoinMode.check_of_check hmode

theorem check_of_checkOptional {field : String} {v mode : Value}
    (h : checkOptional field v = .ok (some mode)) : JoinMode.check mode = .ok mode := by
  unfold checkOptional at h
  split at h
  · cases h
  · cases hmode : checkMode field v with
    | error =>
      rw [hmode] at h
      cases h
    | ok checked =>
      rw [hmode] at h
      obtain rfl := Option.some.inj (Except.ok.inj h)
      exact check_of_checkMode hmode

/-- A config is made of fields that are all valid. -/
theorem ofFields_eq_ok_iff {fields : Mapping} {config : Config} :
    ofFields fields = .ok config ↔ (∃ named, fields.named = .ok named) ∧
      given fields "query_mode" (.text JoinMode.must.name) (checkMode "query_mode") =
        .ok config.queryMode ∧
      given fields "filter_mode" (.text JoinMode.and.name) (checkMode "filter_mode") =
        .ok config.filterMode ∧
      given fields "post_filter_mode" none (checkOptional "post_filter_mode") =
        .ok config.postFilterMode := by
  constructor
  · intro h
    obtain ⟨named, hnamed, h⟩ := bind_eq_ok.mp h
    dsimp only at h
    split at h
    · rename_i hq hf hp
      obtain rfl := Except.ok.inj h
      exact ⟨⟨named, hnamed⟩, hq, hf, hp⟩
    · cases h
  · rintro ⟨⟨named, hnamed⟩, hq, hf, hp⟩
    refine bind_eq_ok.mpr ⟨named, hnamed, ?_⟩
    simp only [hq, hf, hp]
    rfl

/-- Every mode of a config that is made of fields is valid. -/
theorem sound_of_ofFields {fields : Mapping} {config : Config}
    (h : ofFields fields = .ok config) : config.defaultOptions.SoundOptions := by
  obtain ⟨-, hq, hf, hp⟩ := ofFields_eq_ok_iff.mp h
  have hquery : JoinMode.check config.queryMode = .ok config.queryMode := by
    rcases given_eq_ok hq with hq | ⟨v, hv⟩
    · rw [hq]
      rfl
    · exact check_of_checkMode hv
  have hfilter : JoinMode.check config.filterMode = .ok config.filterMode := by
    rcases given_eq_ok hf with hf | ⟨v, hv⟩
    · rw [hf]
      rfl
    · exact check_of_checkMode hv
  have hpostFilter : ∀ mode, config.postFilterMode = some mode →
      JoinMode.check mode = .ok mode := by
    intro mode hmode
    rcases given_eq_ok hp with hnone | ⟨v, hv⟩
    · cases hmode.symm.trans hnone
    · exact check_of_checkOptional (hv.trans (congrArg _ hmode))
  constructor
  · intro name hname v hv
    rcases List.mem_cons.mp hname with rfl | hname
    · exact Option.some.inj hv ▸ hquery
    rcases List.mem_cons.mp hname with rfl | hname
    · exact Option.some.inj hv ▸ hfilter
    · obtain rfl := List.mem_singleton.mp hname
      obtain rfl := Option.some.inj hv
      rw [resolvedPostFilterMode]
      cases hmode : config.postFilterMode with
      | none => exact hfilter
      | some mode => exact hpostFilter mode hmode
  · exact nofun

end Config

/-! ## Updates that calls make -/

/-- Every node among the leaves of the value is sound. -/
def Value.SoundLeaves (v : Value) : Prop := ∀ e, .node e ∈ v.leaves → e.Sound

theorem mem_leavesOf {w : Value} {vs : List Value} (h : w ∈ leavesOf vs) :
    ∃ v ∈ vs, w ∈ v.leaves := by
  induction vs with
  | nil => exact absurd h List.not_mem_nil
  | cons v vs ih =>
    rw [leavesOf, List.mem_append] at h
    rcases h with h | h
    · exact ⟨v, List.mem_cons_self, h⟩
    · obtain ⟨u, hu, h⟩ := ih h
      exact ⟨u, List.mem_cons_of_mem v hu, h⟩

namespace Criteria

/-- The storages that compiling depends on get sound nodes and valid modes only. -/
structure Update.Sound (u : Update) : Prop where
  clauses (h : u.storage ∈ [Storage.queries, .filters, .postFilters]) (e : Expression)
    (he : .node e ∈ Patch.items u.patch) : e.Sound
  options (h : u.storage = .options) (entries : Mapping) (hentries : u.patch = .map entries) :
    entries.SoundOptions ∧ entries.DistinctKeys

/-- An update of any other storage is sound. -/
theorem Update.sound_of_storage {u : Update}
    (h : u.storage ∉ [Storage.queries, .filters, .postFilters, .options]) : u.Sound := by
  simp only [List.mem_cons, List.not_mem_nil, or_false, not_or] at h
  obtain ⟨hqueries, hfilters, hpostFilters, hoptions⟩ := h
  constructor
  · intro hs
    simp [hqueries, hfilters, hpostFilters] at hs
  · exact fun hs ↦ absurd hs hoptions

theorem Update.sound_of_clauses {s : Storage} {clauses : List Value}
    (hs : s ≠ .options) (h : ∀ v ∈ clauses, v.SoundLeaves) :
    Update.Sound { storage := s, patch := .list clauses } := by
  constructor
  · intro _ e he
    obtain ⟨v, hv, he⟩ := mem_leavesOf (List.mem_of_mem_filter he)
    exact h v hv e he
  · exact fun hoptions ↦ absurd hoptions hs

end Criteria

namespace Call

theorem sound_setOption {name : String} {v : Value}
    (hmode : name ∈ Config.modeNames → JoinMode.check v = .ok v)
    (hstrategy : ∀ e, name = "strategy" → v = .node e → e.Sound) :
    (setOption name v).Sound := by
  constructor
  · intro hs
    simp [setOption] at hs
  · rintro - entries hentries
    obtain rfl := Value.map.inj hentries
    exact ⟨.single hmode hstrategy, Mapping.distinctKeys_single name v⟩

theorem sound_setMode {name : String} {v : Value} {u : Criteria.Update} (hname : name ≠ "strategy")
    (h : setMode name v = .ok u) : u.Sound := by
  obtain ⟨mode, hmode, rfl⟩ := setMode_eq_ok_iff.mp h
  exact sound_setOption (fun _ ↦ JoinMode.check_of_check hmode) fun _ hs ↦ absurd hs hname

theorem storage_setCount {name : String} {v : Value} {u : Criteria.Update}
    (h : setCount name v = .ok u) : u.storage = .requestOptions := by
  obtain ⟨_, -, rfl⟩ := setCount_eq_ok_iff.mp h
  rfl

/-- A call with sound arguments makes a sound update. -/
theorem sound_update {call : Call} {u : Criteria.Update} (h : call.update = .ok u)
    (hargs : ∀ v ∈ call.arguments, v.SoundLeaves) : u.Sound := by
  have hscore : ∀ {function scope}, score function scope = .ok u → u.Sound := by
    intro function scope h
    obtain ⟨fragment, -, rfl⟩ := score_eq_ok h
    exact Criteria.Update.sound_of_storage (by simp)
  cases call with
  | query | filter | postFilter =>
    obtain rfl := Except.ok.inj h
    exact Criteria.Update.sound_of_clauses (by decide) hargs
  | queryMode | filterMode | postFilterMode => exact sound_setMode (by decide) h
  | boostMode | scoreMode | none | simple =>
    obtain rfl := Except.ok.inj h
    exact sound_setOption (fun hname ↦ absurd hname (by decide)) fun _ hs ↦ absurd hs (by decide)
  | strategy v =>
    obtain rfl := Except.ok.inj h
    refine sound_setOption (fun hname ↦ absurd hname (by decide)) ?_
    rintro e - rfl
    exact hargs _ (List.mem_singleton_self _) e (List.mem_singleton_self _)
  | limit | offset => exact Criteria.Update.sound_of_storage (by simp [storage_setCount h])
  | types | only | onlyExactly | order | reorder | request | facets | aggregations | suggest
  | scriptFields =>
    obtain rfl := Except.ok.inj h
    exact Criteria.Update.sound_of_storage (by simp)
  | boostFactor | weight | randomScore => exact hscore h
  | scriptScore | fieldValueFactor | decay =>
    obtain ⟨_, -, h⟩ := bind_eq_ok.mp h
    exact hscore h

end Call

/-! ## The invariant -/

namespace Criteria

/-- Sound nodes and valid modes are all there is to be compiled. -/
structure Ready (c : Criteria) : Prop where
  queries (e : Expression) (he : .node e ∈ c.queries) : e.Sound
  filters (e : Expression) (he : .node e ∈ c.filters) : e.Sound
  postFilters (e : Expression) (he : .node e ∈ c.postFilters) : e.Sound
  options : c.options.SoundOptions

variable {c d : Criteria} {u : Update}

/-- Nodes that are sound in two lists are so in both together. -/
theorem sound_append {xs ys : List Value} (hx : ∀ e, Value.node e ∈ xs → e.Sound)
    (hy : ∀ e, Value.node e ∈ ys → e.Sound) : ∀ e, Value.node e ∈ xs ++ ys → e.Sound :=
  fun e he ↦ (List.mem_append.mp he).elim (hx e) (hy e)

theorem ready_start {config : Config} (h : config.defaultOptions.SoundOptions) :
    (start config []).Ready where
  queries _ he := absurd he List.not_mem_nil
  filters _ he := absurd he List.not_mem_nil
  postFilters _ he := absurd he List.not_mem_nil
  options := h

theorem Ready.updated (hc : c.Ready) (hu : u.Sound) (h : Updated c u d) : d.Ready := by
  cases h with
  | queries hitems =>
    obtain rfl := eq_items_of_clausePatch hitems
    exact { hc with queries := sound_append hc.queries (hu.clauses (by simp)) }
  | filters hitems =>
    obtain rfl := eq_items_of_clausePatch hitems
    exact { hc with filters := sound_append hc.filters (hu.clauses (by simp)) }
  | postFilters hitems =>
    obtain rfl := eq_items_of_clausePatch hitems
    exact { hc with postFilters := sound_append hc.postFilters (hu.clauses (by simp)) }
  | @options patch entries hentries =>
    cases patch with
    | null =>
      obtain rfl := Except.ok.inj hentries
      exact hc
    | map =>
      obtain rfl := Except.ok.inj hentries
      obtain ⟨hsound, hkeys⟩ := hu.options rfl _ rfl
      exact { hc with options := hc.options.overlay hsound hkeys }
    | _ => cases hentries
  | _ => exact { hc with }

theorem Ready.combine {o : Criteria} (hc : c.Ready) (ho : o.Ready) (hs : o.Settled) :
    (c.combine o).Ready where
  queries := sound_append hc.queries ho.queries
  filters := sound_append hc.filters ho.filters
  postFilters := sound_append hc.postFilters ho.postFilters
  options := hc.options.overlay ho.options hs.options

/-- The three modes are there, and each is left as it is by a check. -/
theorem Ready.exists_mode (hc : c.Ready) (hs : c.Settled) {name : String}
    (hname : name ∈ Config.modeNames) :
    ∃ mode, c.options.getText? name = some mode ∧ JoinMode.check mode = .ok mode := by
  have hkey : Value.text name ∈ Association.keys c.options :=
    hs.modes.subset (List.mem_map_of_mem hname)
  obtain ⟨mode, hmode⟩ := Association.exists_get?_of_mem_keys Value.sameKey_lawful hkey
  have hget : c.options.getText? name = some mode := (c.options.get?_text name).symm.trans hmode
  exact ⟨mode, hget, hc.options.mode name hname mode hget⟩

theorem Ready.joinable (hc : c.Ready) (hs : c.Settled) : c.Joinable where
  queries e he := (hc.queries e he).renderable
  filters e he := (hc.filters e he).renderable
  postFilters e he := (hc.postFilters e he).renderable
  modes name hname := by
    obtain ⟨mode, hget, hcheck⟩ := hc.exists_mode hs hname
    rw [Criteria.mode, option?, hget]
    exact JoinMode.unhashable?_of_check hcheck

/-- Compiling fails for nothing but a strategy that has an integer too long to be written. -/
theorem Ready.compile_or (hc : c.Ready) (hs : c.Settled) :
    (∃ body, c.compile = .ok (Request.document body)) ∨
      ∃ q f v, c.joinedQuery = .ok (some q) ∧ c.joinedFilter = .ok (some f) ∧
        c.options.getText? "strategy" = some v ∧ ¬ v.Short ∧ c.compile = .error .unwritable := by
  refine (Criteria.compile_or hs (hc.joinable hs)).imp_right ?_
  rintro ⟨q, f, fault, hq, hf, htext⟩
  obtain ⟨v, hv, hdisplay⟩ := exists_of_strategyText htext
  have hnode : ∀ e, v = .node e → e.Renderable := by
    rintro e rfl
    exact (hc.options.strategy e hv).renderable
  obtain ⟨rfl, hlong⟩ := Value.not_short_of_display hnode hdisplay
  exact ⟨q, f, v, hq, hf, hv, hlong, compile_eq_error hq hf htext⟩

end Criteria

/-! ## Sessions of searches -/

namespace Session

/--
What is done with searches: they start from a valid config, are called with sound arguments, and are
merged, copied and compiled.
-/
def Operation.Searching : Operation → Prop
  | .search config => ∃ fields, Config.ofFields fields = .ok config
  | .call _ _ args named =>
    (∀ v ∈ args, v.SoundLeaves) ∧ ∀ entry ∈ named, entry.2.SoundLeaves
  | .merge _ _ | .mergeInto _ _ | .mergeSearch _ _ | .clone _ | .compile _ => True
  | .criteria _ _ | .update _ _ => False

/-- One step keeps every search ready. -/
theorem ready_of_derived {h : Session} {operation : Operation} {d : Criteria} (hh : h.Settled)
    (hready : ∀ c ∈ h, c.Ready) (hop : operation.Searching) (hd : Derived h operation d) :
    d.Ready := by
  cases hd with
  | kept hc => exact hready d hc
  | created => exact hop.elim
  | started =>
    obtain ⟨fields, hfields⟩ := hop
    exact Criteria.ready_start (Config.sound_of_ofFields hfields)
  | updated => exact hop.elim
  | called hmake hcall hu hc hd =>
    obtain ⟨hargs, hnamed⟩ := hop
    refine (hready _ hc).updated (Call.sound_update hu fun v hv ↦ ?_) hd
    have hgiven := Call.gives_of_ofMethod hmake hcall v hv
    exact hgiven.of_forall hargs hnamed fun e he ↦ by simp [Value.leaves] at he
  | combined hc ho => exact (hready _ hc).combine (hready _ ho) (hh _ ho)

theorem ready_run {operations : List Operation} (h : ∀ operation ∈ operations, operation.Searching) :
    ∀ c ∈ Session.run operations, c.Ready :=
  forall_mem_run fun _ hop _ hh hready _ hd ↦ ready_of_derived hh hready (h _ hop) hd

/--
A search never comes into a state in which it cannot be compiled, but for one.  Whatever is done
with searches that start from valid configs, as long as no base node is among their arguments and
scripts have their parameters paired: the three modes are there and pass the check unchanged, and the
request is made, whatever the clauses, the modes and the other storages are.  The exception is a
strategy with an integer too long to be written, once there are a query and a filter to put it with.
-/
theorem search_ready {operations : List Operation}
    (hops : ∀ operation ∈ operations, operation.Searching) {c : Criteria}
    (hc : c ∈ Session.run operations) :
    (∀ name ∈ ["query_mode", "filter_mode", "post_filter_mode"],
      ∃ mode, c.options.getText? name = some mode ∧ JoinMode.check mode = .ok mode) ∧
    ((∃ body, Search.request ⟨c⟩ = .ok (Request.document body)) ∨
      ∃ q f v, c.joinedQuery = .ok (some q) ∧ c.joinedFilter = .ok (some f) ∧
        c.options.getText? "strategy" = some v ∧ ¬ v.Short ∧
        Search.request ⟨c⟩ = .error .unwritable) := by
  have hready : c.Ready := ready_run hops c hc
  have hsettled : c.Settled := settled_run operations c hc
  constructor
  · intro name hname
    exact hready.exists_mode hsettled hname
  · simp only [Search.request_eq_compile]
    exact hready.compile_or hsettled

/-- A truth value is read as a number of clauses, and a merge brings the other search's modes. -/
theorem search_ready_of_session :
    let fields : Mapping := [entry "query_mode" (.bool true), entry "filter_mode" (.text "or")]
    let config : Config := { queryMode := .int 1, filterMode := .text "or" }
    let script : Expression := .script "doc.a > n" (.tuple [.list [.text "n", .int 1]])
    let queries : List Value := [.node (.present "a"), .map [entry "match_all" (.map [])]]
    let options : Mapping := [entry "query_mode" (.text "dis_max"),
      entry "filter_mode" (.text "or"), entry "post_filter_mode" (.text "or"),
      entry "strategy" (.text "fast")]
    let operations : List Operation :=
      [.search config,
        .call 0 "query_mode" [] [entry "value" (.text "dis_max")],
        .call 1 "query" [.list queries] [],
        .call 2 "strategy" [.text "fast"] [],
        .call 0 "filter" [.node (.cached script)] [],
        .mergeSearch 4 (.search 3)]
    let c : Criteria := { queries, filters := [.node (.cached script)], options }
    Config.ofFields fields = .ok config ∧ c ∈ Session.run operations ∧
      (∃ mode, c.options.getText? "query_mode" = some mode ∧ JoinMode.check mode = .ok mode) ∧
      ∃ body, Search.request ⟨c⟩ = .ok (Request.document body) := by
  intro fields config script queries options operations c
  have hconfig : Config.ofFields fields = .ok config := by rfl
  have hscript : script.Sound := List.forall_mem_singleton.mpr rfl
  have hops : ∀ operation ∈ operations, operation.Searching := by
    simp [operations, queries, Operation.Searching, Value.SoundLeaves, Value.leaves, leavesOf,
      entry, Expression.Sound, hscript]
    exact ⟨fields, hconfig⟩
  have hrun : Session.run operations =
      [Criteria.start config [], { options := options.take 3 },
        { queries, options := options.take 3 }, { queries, options },
        { Criteria.start config [] with filters := c.filters }, c] := by
    dsimp only [operations, config, script, queries, options, c]
    rfl
  have hc : c ∈ Session.run operations := by simp [hrun]
  obtain ⟨hmodes, hrequest⟩ := search_ready hops hc
  refine ⟨hconfig, hc, hmodes "query_mode" List.mem_cons_self, hrequest.resolve_right ?_⟩
  rintro ⟨_, _, v, -, -, hv, hlong, -⟩
  obtain rfl : Value.text "fast" = v := Option.some.inj hv
  exact hlong trivial

/-- A strategy of five thousand digits, beside a query and a filter. -/
theorem search_not_ready_of_long_strategy :
    let operations (strategy : Int) : List Operation :=
      [.search {},
        .call 0 "query" [.node (.present "a")] [],
        .call 1 "filter" [.node (.present "b")] [],
        .call 2 "strategy" [.int strategy] []]
    (∀ operation ∈ operations (10 ^ 5000), operation.Searching) ∧
      ∃ c ∈ Session.run (operations (10 ^ 5000)), Search.request ⟨c⟩ = .error .unwritable := by
  intro operations
  -- nothing but its text is asked of the number
  have hrefused : ∀ n : Int, Numeral.write? n = none →
      (∀ operation ∈ operations n, operation.Searching) ∧
        ∃ c ∈ Session.run (operations n), Search.request ⟨c⟩ = .error .unwritable := by
    intro n hlong
    have hops : ∀ operation ∈ operations n, operation.Searching := by
      simp [operations, Operation.Searching, Value.SoundLeaves, Value.leaves, Expression.Sound]
      exact ⟨[], rfl⟩
    let plain := Criteria.start {} []
    let c : Criteria :=
      { plain with
        queries := [.node (.present "a")], filters := [.node (.present "b")]
        options := plain.options ++ [entry "strategy" (.int n)] }
    have hc : (Session.run (operations n))[3]? = some c := rfl
    have htruthy : (Value.int n).truthy = true := by
      refine bne_iff_ne.mpr ?_
      rintro rfl
      cases hlong
    have hdisplay : (Value.int n).display = .error .unwritable := congrArg requireText hlong
    have hoption : c.option? "strategy" = some (.int n) := rfl
    have htext : c.strategyText = .error .unwritable := by
      rw [Criteria.strategyText, hoption, Option.filter_some, htruthy]
      simp [hdisplay]
    exact ⟨hops, c, List.mem_of_getElem? hc, Criteria.compile_eq_error rfl rfl htext⟩
  exact hrefused _ (Numeral.write?_pow_eq_none (by decide))

end Session

end SearchCriteria
