import SearchCriteria.Proofs.Session.Readiness

/-!
# What accepted modes join to

Configs and calls accept the same values under all three options: the names, the numbers, and text
that says how many clauses should match.  Of queries every one of them makes a wrapper that says
something.  Of filters a name that is meant for queries and a fraction do not: they are handed on as
the number of clauses that should match, and neither is one.
-/

namespace SearchCriteria

open Mapping (entry)
open Text (strip)

namespace JoinMode

open Text.Pattern (Matches)

/-! ## Valid modes -/

/-- A number of clauses: an integer, or text that says how many without the blanks around it. -/
inductive Counts : Value → Prop
  | int (i : Int) : Counts (.int i)
  | text {s : String} (h : Matches minimumPattern (strip s.toList)) : Counts (.text s)

/-- The names, the fractions and the numbers of clauses. -/
inductive Valid : Value → Prop
  | name (m : JoinMode) : Valid (.text m.name)
  | fraction (x : Binary64) : Valid (.real x)
  | count {v : Value} (h : Counts v) : Valid v

theorem eq_name_of_ofName? {s : String} {m : JoinMode} (h : ofName? s = some m) : s = m.name := by
  unfold ofName? at h
  have hname := List.find?_some h
  exact (beq_iff_eq.mp hname).symm

theorem eq_name_of_ofValue? {v : Value} {m : JoinMode} (h : ofValue? v = some m) :
    v = .text m.name := by
  cases v with
  | text s => exact congrArg Value.text (eq_name_of_ofName? h)
  | _ => cases h

theorem check_name (m : JoinMode) : check (.text m.name) = .ok (.text m.name) := by
  simp [check, checkText]

theorem Counts.check_eq {v : Value} (h : Counts v) : check v = .ok v := by
  cases h with
  | int => rfl
  | text h =>
    have haccepts := (Text.Pattern.accepts_iff _ _).mpr h
    simp [check, checkText, haccepts]

/-- Exactly the valid modes pass the check as they are. -/
theorem check_eq_self_iff {v : Value} : check v = .ok v ↔ Valid v := by
  constructor
  · intro h
    cases v with
    | int i => exact .count (.int i)
    | real x => exact .fraction x
    | text s =>
      change checkText s = .ok (.text s) at h
      unfold checkText at h
      dsimp only at h
      split at h
      · rename_i hcases
        rcases Bool.or_eq_true_iff.mp hcases with hname | hcount
        · obtain ⟨m, hm⟩ := Option.isSome_iff_exists.mp hname
          rw [eq_name_of_ofName? hm]
          exact .name m
        · exact .count (.text ((Text.Pattern.accepts_iff _ _).mp hcount))
      · -- a fraction in text becomes a number, so it is not left as it is
        split at h
        · split at h <;> cases h
        · cases h
    | _ => cases h
  · intro h
    cases h with
    | name m => exact check_name m
    | fraction x => rfl
    | count h => exact h.check_eq

/-- No name is a number of clauses. -/
theorem not_counts_name (m : JoinMode) : ¬ Counts (.text m.name) := by
  rintro (_ | h)
  have haccepts := (Text.Pattern.accepts_iff _ _).mpr h
  cases m <;> exact absurd haccepts (by decide)

theorem Counts.ofValue?_eq_none {v : Value} (h : Counts v) : ofValue? v = none := by
  cases hname : ofValue? v with
  | none => rfl
  | some m => exact absurd (eq_name_of_ofValue? hname ▸ h) (not_counts_name m)

/-! ## Accepted modes -/

/-- The ways in which a mode comes to stand under an option: as a default, or by a call. -/
inductive Accepted (option : String) (mode : Value) : Prop
  | config {fields : Mapping} {config : Config} (h : Config.ofFields fields = .ok config)
      (hmode : config.defaultOptions.getText? option = some mode)
  | call {make : Call.Maker} {args : List Value} {named : Mapping} {call : Call}
      (hmake : Call.ofMethod option = .ok make) (hcall : make args named = .ok call)
      (hupdate : call.update = .ok (Call.setOption option mode))

/-- A call that sets a mode has checked it. -/
theorem valid_of_setMode {option : String} {v mode : Value}
    (h : Call.setMode option v = .ok (Call.setOption option mode)) : Valid mode := by
  obtain ⟨checked, hcheck, hupdate⟩ := Call.setMode_eq_ok_iff.mp h
  have hpatch := congrArg Criteria.Update.patch hupdate
  obtain rfl : mode = checked := by
    simpa [Call.setOption, Mapping.single, entry] using hpatch
  exact check_eq_self_iff.mp (check_of_check hcheck)

theorem valid_of_ofOne {option : String} {make : Value → Call} {args : List Value} {named : Mapping}
    {call : Call} {mode : Value} (hmake : ∀ v, (make v).update = Call.setMode option v)
    (hcall : Call.ofOne option "value" make args named = .ok call)
    (hupdate : call.update = .ok (Call.setOption option mode)) : Valid mode := by
  obtain ⟨values, -, hcall⟩ := bind_eq_ok.mp hcall
  obtain rfl := Except.ok.inj hcall
  exact valid_of_setMode ((hmake _).symm.trans hupdate)

theorem exists_ofMethod {option : String} (h : option ∈ Config.modeNames) :
    ∃ make : Value → Call, Call.ofMethod option = .ok (Call.ofOne option "value" make) ∧
      ∀ v, (make v).update = Call.setMode option v := by
  simp only [Config.modeNames, List.mem_cons, List.not_mem_nil, or_false] at h
  rcases h with rfl | rfl | rfl
  · exact ⟨.queryMode, rfl, fun _ ↦ rfl⟩
  · exact ⟨.filterMode, rfl, fun _ ↦ rfl⟩
  · exact ⟨.postFilterMode, rfl, fun _ ↦ rfl⟩

/-- Under each of the three options the valid modes are accepted, and no other value is. -/
theorem accepted_iff {option : String} (h : option ∈ Config.modeNames) {mode : Value} :
    Accepted option mode ↔ Valid mode := by
  obtain ⟨make, hmethod, hmake⟩ := exists_ofMethod h
  constructor
  · rintro (⟨hconfig, hmode⟩ | ⟨hother, hcall, hupdate⟩)
    · exact check_eq_self_iff.mp ((Config.sound_of_ofFields hconfig).mode option h mode hmode)
    · obtain rfl := Except.ok.inj (hmethod.symm.trans hother)
      exact valid_of_ofOne hmake hcall hupdate
  · intro hmode
    have hcall : Call.ofOne option "value" make [mode] [] = .ok (make mode) := by rfl
    have hupdate : (make mode).update = .ok (Call.setOption option mode) := by
      rw [hmake, Call.setMode, check_eq_self_iff.mpr hmode]
    exact .call hmethod hcall hupdate

end JoinMode

/-! ## Joining under accepted modes -/

namespace Join

variable {side : JoinSide} {mode : Value} {clauses fragments : List Value}

/-- What the wrapper under a mode has to be so that it says something. -/
inductive Wraps (side : JoinSide) (clauses : List Value) : Value → Value → Prop
  | group {key : String} (h : key ∈ ["and", "or"]) :
      Wraps side clauses (.text key) (.map [entry key (.map [entry side.name (.list clauses)])])
  | bool {key : String} (h : key ∈ ["must", "should", "must_not"]) :
      Wraps side clauses (.text key) (.map [entry "bool" (.map [entry key (.list clauses)])])
  | count {mode : Value} (h : JoinMode.Counts mode) :
      Wraps side clauses mode (.map [entry "bool"
        (.map [entry "should" (.list clauses), entry "minimum_should_match" mode])])
  /-- Only queries have a best one. -/
  | best (h : side = .queries) :
      Wraps side clauses (.text "dis_max")
        (.map [entry "dis_max" (.map [entry "queries" (.list clauses)])])
  | bestWith (h : side = .queries) (x : Binary64) :
      Wraps side clauses (.real x) (.map [entry "dis_max"
        (.map [entry "queries" (.list clauses), entry "tie_breaker" (.real x)])])

/-- More than one fragment takes a wrapper, whatever the mode is. -/
theorem join_of_two_le (h : 2 ≤ (present fragments).length) :
    join side mode fragments = (wrap side mode (present fragments)).map fun m ↦ some (.map m) := by
  unfold join
  match hpresent : present fragments with
  | [] | [_] => simp [hpresent] at h
  | _ :: _ :: _ => rfl

/-- A name has its wrapper, the one for the best of the clauses among queries only. -/
theorem exists_wraps_name (m : JoinMode) (h : m = .disMax → side = .queries) :
    ∃ w, wrap side (.text m.name) clauses = .ok w ∧ Wraps side clauses (.text m.name) (.map w) := by
  have hmode := JoinMode.ofValue?_name m
  simp only [wrap, hmode]
  cases m with
  | and | or => exact ⟨_, rfl, .group (by decide)⟩
  | must | should | mustNot => exact ⟨_, rfl, .bool (by decide)⟩
  | disMax =>
    obtain rfl := h rfl
    exact ⟨_, rfl, .best rfl⟩

theorem exists_wraps_count (h : JoinMode.Counts mode) :
    ∃ w, wrap side mode clauses = .ok w ∧ Wraps side clauses mode (.map w) := by
  refine ⟨atLeast mode clauses, ?_, .count h⟩
  rw [wrap_of_unnamed h.ofValue?_eq_none]
  cases h with
  | int | text => rfl

theorem exists_wraps_fraction (x : Binary64) :
    ∃ w, wrap .queries (.real x) clauses = .ok w ∧ Wraps .queries clauses (.real x) (.map w) :=
  ⟨bestOf (some (.real x)) clauses, rfl, .bestWith rfl x⟩

/-- Every valid mode has a wrapper for queries. -/
theorem exists_wraps_queries (clauses : List Value) (h : JoinMode.Valid mode) :
    ∃ w, wrap .queries mode clauses = .ok w ∧ Wraps .queries clauses mode (.map w) := by
  cases h with
  | name m => exact exists_wraps_name m fun _ ↦ rfl
  | fraction x => exact exists_wraps_fraction x
  | count h => exact exists_wraps_count h

/-- A valid mode has a wrapper for filters too, if it is one that filters have. -/
theorem exists_wraps_filters (clauses : List Value) (h : JoinMode.Valid mode)
    (hname : mode ≠ .text "dis_max") (hfraction : ∀ x, mode ≠ .real x) :
    ∃ w, wrap .filters mode clauses = .ok w ∧ Wraps .filters clauses mode (.map w) := by
  cases h with
  | name m =>
    refine exists_wraps_name m fun hm ↦ ?_
    subst hm
    exact absurd rfl hname
  | fraction x => exact absurd rfl (hfraction x)
  | count h => exact exists_wraps_count h

theorem Wraps.of_filters {v : Value} (h : Wraps .filters clauses mode v) :
    mode ≠ .text "dis_max" ∧ ∀ x, mode ≠ .real x := by
  cases h with
  | group h | bool h =>
    refine ⟨?_, nofun⟩
    rintro ⟨rfl⟩
    exact absurd h (by decide)
  | count h =>
    constructor
    · rintro rfl
      exact JoinMode.not_counts_name .disMax h
    · rintro x rfl
      cases h
  | best h | bestWith h => cases h

/--
What the modes that are accepted under any option join to.  Two or more queries come under a wrapper
that says something: a group, a clause of a `bool`, a number of clauses that is one, or the best of
the queries, with a tie breaker exactly under a fraction.  Two or more filters come under such a
wrapper, if and only if the mode is neither `dis_max` nor a fraction.
-/
theorem join_of_accepted {option : String} (hoption : option ∈ Config.modeNames)
    (haccepted : JoinMode.Accepted option mode) (h : 2 ≤ (present fragments).length) :
    (∃ v, join .queries mode fragments = .ok (some v) ∧
      Wraps .queries (present fragments) mode v) ∧
    ∃ v, join .filters mode fragments = .ok (some v) ∧
      (Wraps .filters (present fragments) mode v ↔
        mode ≠ .text "dis_max" ∧ ∀ x, mode ≠ .real x) := by
  have hvalid : JoinMode.Valid mode := (JoinMode.accepted_iff hoption).mp haccepted
  rw [join_of_two_le h, join_of_two_le h]
  constructor
  · obtain ⟨w, hwrap, hw⟩ := exists_wraps_queries (present fragments) hvalid
    rw [hwrap]
    exact ⟨.map w, rfl, hw⟩
  · have hhashable := JoinMode.unhashable?_of_check (JoinMode.check_eq_self_iff.mpr hvalid)
    obtain ⟨w, hwrap⟩ := exists_wrap hhashable .filters (present fragments)
    rw [hwrap]
    refine ⟨.map w, rfl, Wraps.of_filters, ?_⟩
    rintro ⟨hname, hfraction⟩
    obtain ⟨_, hother, hw⟩ := exists_wraps_filters (present fragments) hvalid hname hfraction
    obtain rfl := Except.ok.inj (hwrap.symm.trans hother)
    exact hw

/-- A condition with a blank behind it, and fragments of which one does not count. -/
theorem join_of_accepted_of_condition :
    let mode : Value := .text "3<90% "
    let clauses : List Value :=
      [.map [entry "exists" (.text "a")], .map [entry "exists" (.text "b")]]
    let fragments : List Value := .map [] :: clauses
    "filter_mode" ∈ Config.modeNames ∧ JoinMode.Accepted "filter_mode" mode ∧
      2 ≤ (present fragments).length ∧
      (∃ v, join .queries mode fragments = .ok (some v) ∧ Wraps .queries clauses mode v) ∧
      ∃ v, join .filters mode fragments = .ok (some v) ∧
        (Wraps .filters clauses mode v ↔ mode ≠ .text "dis_max" ∧ ∀ x, mode ≠ .real x) := by
  intro mode clauses fragments
  have hname : "filter_mode" ∈ Config.modeNames := by decide
  have hcall : Call.ofOne "filter_mode" "value" .filterMode [mode] [] =
      .ok (.filterMode mode) := rfl
  have haccepted : JoinMode.Accepted "filter_mode" mode := .call rfl hcall rfl
  have hlength : 2 ≤ (present fragments).length := by decide
  exact ⟨hname, haccepted, hlength, join_of_accepted hname haccepted hlength⟩

/-- A mode in the place of a number of clauses has to be one. -/
theorem Wraps.counts {other : Value}
    (h : Wraps .filters clauses other (.map (atLeast mode clauses))) : JoinMode.Counts mode := by
  generalize hv : Value.map (atLeast mode clauses) = v at h
  cases h with
  | group h =>
    simp only [atLeast, Mapping.single, entry, Value.map.injEq, List.cons.injEq, Prod.mk.injEq,
      Value.text.injEq] at hv
    obtain ⟨⟨rfl, -⟩, -⟩ := hv
    exact absurd h (by decide)
  | bool => simp [atLeast, Mapping.single, entry] at hv
  | count h =>
    obtain rfl : mode = other := by simpa [atLeast, Mapping.single, entry] using hv
    exact h
  | best h | bestWith h => cases h

/--
Both a config and a search accept `dis_max` for filters, and a config reads a half from text; either
is handed on as the number of clauses that should match.
-/
theorem join_of_accepted_names_no_count :
    let half : Binary64 := .finite false (Nat.pow 2 52) (-53)
    let fragments : List Value :=
      [.map [entry "exists" (.text "a")], .map [entry "exists" (.text "b")]]
    let counted (mode : Value) : Value := .map [entry "bool"
      (.map [entry "should" (.list fragments), entry "minimum_should_match" mode])]
    JoinMode.Accepted "filter_mode" (.text "dis_max") ∧
      JoinMode.Accepted "post_filter_mode" (.real half) ∧
      join .filters (.text "dis_max") fragments = .ok (some (counted (.text "dis_max"))) ∧
      join .filters (.real half) fragments = .ok (some (counted (.real half))) ∧
      ∀ mode, ¬ Wraps .filters fragments mode (counted (.text "dis_max")) ∧
        ¬ Wraps .filters fragments mode (counted (.real half)) := by
  intro half fragments counted
  have hcall : Call.ofOne "filter_mode" "value" .filterMode [.text "dis_max"] [] =
      .ok (.filterMode (.text "dis_max")) := rfl
  have hconfig : Config.ofFields [entry "filter_mode" (.text "0.5")] =
      .ok { filterMode := .real half } := rfl
  refine ⟨.call rfl hcall rfl, .config hconfig rfl, rfl, rfl, fun mode ↦ ⟨fun h ↦ ?_, fun h ↦ ?_⟩⟩
  · exact JoinMode.not_counts_name .disMax h.counts
  · cases h.counts

end Join

end SearchCriteria
