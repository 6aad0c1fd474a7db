import SearchCriteria.Proofs.Search.Modes
import SearchCriteria.Settings.Basic

/-!
# Where modes are given

A join mode is a field of a config, a setting that a config is made of, or the argument of a call.
Each of these checks it, and they agree about every value but one kind: a field takes a truth value
for a number before it is checked, while a call has it checked as it is, and refuses it.
-/

namespace SearchCriteria

open Mapping (entry)

/-! ## Fields and settings -/

namespace Config

/-- The options that new criteria start from, and the settings that they come from. -/
def modeSettings : List (String × String) :=
  [("query_mode", "QUERY_MODE"), ("filter_mode", "FILTER_MODE")]

theorem eq_of_mem_modeSettings {option setting : String}
    (h : (option, setting) ∈ modeSettings) :
    (option = "query_mode" ∧ setting = "QUERY_MODE") ∨
      (option = "filter_mode" ∧ setting = "FILTER_MODE") := by
  simpa [modeSettings] using h

/-- What a field holds is what it takes it for. -/
theorem numberOrText?_eq_self {v read : Value} (h : numberOrText? v = some read) :
    numberOrText? read = some read := by
  cases v with
  | bool | int | real | text =>
    obtain rfl := Option.some.inj h
    rfl
  | _ => cases h

end Config

namespace Settings

/-- The value of a setting that is given by itself, and otherwise what the environment has. -/
def value? (environment : List (String × String)) (setting : String) (v : Value) (name : String) :
    Option Value :=
  if name = setting then some v else ({} : SettingsReading).environmentValue? environment name

/-- Names are the same letter by letter. -/
theorem sameName_eq (name key : String) : SettingsReading.sameName name key =
    (name.toList.map Char.toLower == key.toList.map Char.toLower) := by
  have hlower (s : String) : s.toLower.toList = s.toList.map Char.toLower := String.toList_map
  rw [SettingsReading.sameName, Bool.eq_iff_iff, beq_iff_eq, beq_iff_eq, ← String.toList_inj,
    hlower, hlower]

/-- The names of settings differ by more than the case of letters. -/
theorem sameName_setting {option setting name : String}
    (h : (option, setting) ∈ Config.modeSettings)
    (hname : name ∈ ["QUERY_MODE", "FILTER_MODE", "POST_FILTER_MODE", "LOG_LEVEL"]) :
    SettingsReading.sameName name setting = (name == setting) := by
  simp only [List.mem_cons, List.not_mem_nil, or_false] at hname
  rw [sameName_eq]
  rcases Config.eq_of_mem_modeSettings h with ⟨-, rfl⟩ | ⟨-, rfl⟩ <;>
    rcases hname with rfl | rfl | rfl | rfl <;> decide

theorem lookup?_eq {option setting name : String} (environment : List (String × String))
    (v : Value) (h : (option, setting) ∈ Config.modeSettings)
    (hname : name ∈ ["QUERY_MODE", "FILTER_MODE", "POST_FILTER_MODE", "LOG_LEVEL"]) :
    ({} : SettingsReading).lookup? environment [(setting, v)] name =
      value? environment setting v name := by
  rw [SettingsReading.lookup?, SettingsReading.givenValue?, List.find?_singleton,
    sameName_setting h hname, value?]
  by_cases hsame : name = setting <;> simp [hsame, SettingsReading.option?]

theorem load_eq_ok_iff {environment : List (String × String)} {option setting : String} {v : Value}
    {s : Settings} (h : (option, setting) ∈ Config.modeSettings) :
    load environment [entry setting v] = .ok s ↔
      (value? environment setting v "QUERY_MODE").elim (.ok (.text JoinMode.must.name))
        (readMode "QUERY_MODE") = .ok s.queryMode ∧
      (value? environment setting v "FILTER_MODE").elim (.ok (.text JoinMode.and.name))
        (readMode "FILTER_MODE") = .ok s.filterMode ∧
      (value? environment setting v "POST_FILTER_MODE").elim (.ok none)
        (readOptional "POST_FILTER_MODE") = .ok s.postFilterMode ∧
      (value? environment setting v "LOG_LEVEL").elim (.ok "INFO") (readText "LOG_LEVEL") =
        .ok s.logLevel := by
  rw [← lookup?_eq environment v h (by simp), ← lookup?_eq environment v h (by simp),
    ← lookup?_eq environment v h (by simp), ← lookup?_eq environment v h (by simp)]
  -- a mode is the only value given, so it says nothing about how to read
  obtain ⟨hfile, hself, hreading⟩ :
      (Mapping.getText? [entry setting v] "_env_file").isSome = false ∧
      (List.lookup "__pydantic_self__" [(setting, v)]).isSome = false ∧
      SettingsReading.ofGiven [(setting, v)] = .ok {} := by
    rcases Config.eq_of_mem_modeSettings h with ⟨-, rfl⟩ | ⟨-, rfl⟩ <;> exact ⟨rfl, rfl, rfl⟩
  have hnamed : Mapping.named [entry setting v] = .ok [(setting, v)] := rfl
  rw [load, hfile, if_neg Bool.false_ne_true, hnamed]
  change (if (List.lookup "__pydantic_self__" [(setting, v)]).isSome = true then _ else _) = _ ↔ _
  rw [hself, if_neg Bool.false_ne_true, hreading]
  constructor
  · intro hload
    obtain ⟨_, ⟨⟩, hload⟩ := bind_eq_ok.mp hload
    dsimp only at hload
    split at hload
    · rename_i hq hf hp hl
      obtain rfl := Except.ok.inj hload
      exact ⟨hq, hf, hp, hl⟩
    · cases hload
  · rintro ⟨hq, hf, hp, hl⟩
    refine bind_eq_ok.mpr ⟨_, rfl, ?_⟩
    simp only [hq, hf, hp, hl]
    rfl

theorem readMode_eq_ok_iff {field : String} {v read : Value} :
    readMode field v = .ok read ↔ Config.numberOrText? v = some read := by
  unfold readMode
  cases Config.numberOrText? v <;> simp

theorem config_eq_ok_iff {s : Settings} {config : Config} :
    s.config = .ok config ↔
      Config.checkMode "query_mode" s.queryMode = .ok config.queryMode ∧
      Config.checkMode "filter_mode" s.filterMode = .ok config.filterMode ∧
      Config.checkOptional "post_filter_mode" (s.postFilterMode.getD .null) =
        .ok config.postFilterMode := by
  rw [Settings.config, Config.ofFields_eq_ok_iff]
  exact ⟨And.right, fun h ↦ ⟨⟨_, rfl⟩, h⟩⟩

end Settings

/-! ## Sources -/

/-- Where a value for a mode is given: as a field of a config, as a setting of the process, or to a
call on a search. -/
inductive ModeSource where
  | config
  | settings (environment : List (String × String))
  | call (s : Search)

namespace ModeSource

variable {source : ModeSource} {option setting : String} {v mode : Value}

/-- The criteria that comes of a value given there. -/
def criteria (option setting : String) (v : Value) : ModeSource → Except Fault Criteria
  | .config => do return Criteria.start (← Config.ofFields [entry option v]) []
  | .settings environment => do
    let settings ← Settings.load environment [entry setting v]
    return Criteria.start (← settings.config) []
  | .call s => do
    let make ← Call.ofMethod option
    return (← s.apply (← make [v] [])).criteria

/-- Some value can be given there, so no other setting of the process is in the way. -/
def Open (option setting : String) (source : ModeSource) : Prop :=
  ∃ v c, source.criteria option setting v = .ok c

/-- The value is accepted for the mode.  Calls check it as it is, the others what a field holds. -/
def Accepts (v mode : Value) : ModeSource → Prop
  | .config | .settings _ =>
    ∃ read, Config.numberOrText? v = some read ∧ JoinMode.check read = .ok mode
  | .call _ => JoinMode.check v = .ok mode

/-- A setting is read, and its mode checked when a config is made of it. -/
theorem accepts_of_setting {environment : List (String × String)} {field : String} {read : Value}
    {default : Except ConfigIssue Value}
    (hread : (Settings.value? environment setting v setting).elim default
      (Settings.readMode setting) = .ok read)
    (hmode : Config.checkMode field read = .ok mode) :
    (ModeSource.settings environment).Accepts v mode := by
  rw [Settings.value?, if_pos rfl] at hread
  have hread := Settings.readMode_eq_ok_iff.mp hread
  obtain ⟨other, hother, hmode⟩ := Config.checkMode_eq_ok_iff.mp hmode
  obtain rfl := Option.some.inj ((Config.numberOrText?_eq_self hread).symm.trans hother)
  exact ⟨_, hread, hmode⟩

theorem mem_modeNames (h : (option, setting) ∈ Config.modeSettings) :
    option ∈ Config.modeNames := by
  rcases Config.eq_of_mem_modeSettings h with ⟨rfl, -⟩ | ⟨rfl, -⟩ <;> decide

/-- The criteria with one more option, or another value for it. -/
def overOption (c : Criteria) (option : String) (mode : Value) : Criteria :=
  { c with options := c.options.overlay [entry option mode] }

theorem getText?_overOption (c : Criteria) (option : String) (mode : Value) :
    (overOption c option mode).options.getText? option = some mode := by
  rw [← Mapping.get?_text]
  exact Association.get?_put_self Value.sameKey_lawful.self _ _ _

/-- A call puts the mode that it has checked over the options of the search. -/
theorem criteria_call_eq_ok_iff {s : Search} {c : Criteria}
    (h : (option, setting) ∈ Config.modeSettings) :
    (ModeSource.call s).criteria option setting v = .ok c ↔
      ∃ mode, JoinMode.check v = .ok mode ∧ c = overOption s.criteria option mode := by
  obtain ⟨make, hmethod, hmake⟩ := JoinMode.exists_ofMethod (mem_modeNames h)
  have hcall : Call.ofOne option "value" make [v] [] = .ok (make v) := by rfl
  have happly : ∀ mode,
      s.criteria.apply { storage := .options, patch := .map [entry option mode] } =
        .ok (overOption s.criteria option mode) := fun _ ↦ rfl
  constructor
  · intro hcriteria
    obtain ⟨_, hfound, hcriteria⟩ := bind_eq_ok.mp hcriteria
    obtain rfl := Except.ok.inj (hmethod.symm.trans hfound)
    obtain ⟨_, hmade, hcriteria⟩ := bind_eq_ok.mp hcriteria
    obtain rfl := Except.ok.inj (hcall.symm.trans hmade)
    obtain ⟨_, happlied, hcriteria⟩ := bind_eq_ok.mp hcriteria
    obtain ⟨u, hupdate, happlied⟩ := bind_eq_ok.mp happlied
    rw [hmake] at hupdate
    obtain ⟨mode, hmode, rfl⟩ := Call.setMode_eq_ok_iff.mp hupdate
    rw [happly] at happlied
    obtain rfl := Except.ok.inj happlied
    exact ⟨mode, hmode, (Except.ok.inj hcriteria).symm⟩
  · rintro ⟨mode, hmode, rfl⟩
    have hupdate := (hmake v).trans (Call.setMode_eq_ok_iff.mpr ⟨mode, hmode, rfl⟩)
    have happlied : s.apply (make v) = .ok ⟨overOption s.criteria option mode⟩ :=
      bind_eq_ok.mpr ⟨_, hupdate, bind_eq_ok.mpr ⟨_, happly mode, rfl⟩⟩
    exact bind_eq_ok.mpr ⟨_, hmethod, bind_eq_ok.mpr ⟨_, hcall, bind_eq_ok.mpr ⟨_, happlied, rfl⟩⟩⟩

/-- A value that is given leaves the mode that it is accepted for. -/
theorem accepts_of_criteria {c : Criteria} (h : (option, setting) ∈ Config.modeSettings)
    (hcriteria : source.criteria option setting v = .ok c) :
    ∃ mode, source.Accepts v mode ∧ c.options.getText? option = some mode := by
  cases source with
  | config =>
    obtain ⟨config, hconfig, hcriteria⟩ := bind_eq_ok.mp hcriteria
    obtain rfl := Except.ok.inj hcriteria
    obtain ⟨-, hq, hf, -⟩ := Config.ofFields_eq_ok_iff.mp hconfig
    rcases Config.eq_of_mem_modeSettings h with ⟨rfl, rfl⟩ | ⟨rfl, rfl⟩
    · exact ⟨_, Config.checkMode_eq_ok_iff.mp hq, rfl⟩
    · exact ⟨_, Config.checkMode_eq_ok_iff.mp hf, rfl⟩
  | settings environment =>
    obtain ⟨s, hload, hcriteria⟩ := bind_eq_ok.mp hcriteria
    obtain ⟨config, hconfig, hcriteria⟩ := bind_eq_ok.mp hcriteria
    obtain rfl := Except.ok.inj hcriteria
    obtain ⟨hq, hf, -⟩ := (Settings.load_eq_ok_iff h).mp hload
    obtain ⟨hquery, hfilter, -⟩ := Settings.config_eq_ok_iff.mp hconfig
    rcases Config.eq_of_mem_modeSettings h with ⟨rfl, rfl⟩ | ⟨rfl, rfl⟩
    · exact ⟨_, accepts_of_setting hq hquery, rfl⟩
    · exact ⟨_, accepts_of_setting hf hfilter, rfl⟩
  | call s =>
    obtain ⟨mode, hmode, rfl⟩ := (criteria_call_eq_ok_iff h).mp hcriteria
    exact ⟨mode, hmode, getText?_overOption _ _ _⟩

/-- Where a value can be given, every value that is accepted can. -/
theorem exists_criteria (h : (option, setting) ∈ Config.modeSettings)
    (hopen : source.Open option setting) (haccepts : source.Accepts v mode) :
    ∃ c, source.criteria option setting v = .ok c := by
  cases source with
  | config =>
    rcases Config.eq_of_mem_modeSettings h with ⟨rfl, rfl⟩ | ⟨rfl, rfl⟩
    · have hconfig : Config.ofFields [entry "query_mode" v] = .ok { queryMode := mode } :=
        Config.ofFields_eq_ok_iff.mpr
          ⟨⟨_, rfl⟩, Config.checkMode_eq_ok_iff.mpr haccepts, rfl, rfl⟩
      exact ⟨_, bind_eq_ok.mpr ⟨_, hconfig, rfl⟩⟩
    · have hconfig : Config.ofFields [entry "filter_mode" v] = .ok { filterMode := mode } :=
        Config.ofFields_eq_ok_iff.mpr
          ⟨⟨_, rfl⟩, rfl, Config.checkMode_eq_ok_iff.mpr haccepts, rfl⟩
      exact ⟨_, bind_eq_ok.mpr ⟨_, hconfig, rfl⟩⟩
  | settings environment =>
    obtain ⟨w, c, hcriteria⟩ := hopen
    obtain ⟨s, hload, hcriteria⟩ := bind_eq_ok.mp hcriteria
    obtain ⟨config, hconfig, -⟩ := bind_eq_ok.mp hcriteria
    obtain ⟨hq, hf, hp, hl⟩ := (Settings.load_eq_ok_iff h).mp hload
    obtain ⟨hquery, hfilter, hpostFilter⟩ := Settings.config_eq_ok_iff.mp hconfig
    obtain ⟨read, hread, hmode⟩ := haccepts
    have hmode : ∀ field, Config.checkMode field read = .ok mode := fun field ↦
      Config.checkMode_eq_ok_iff.mpr ⟨read, Config.numberOrText?_eq_self hread, hmode⟩
    -- the other settings are what they were when some value could be given
    rcases Config.eq_of_mem_modeSettings h with ⟨rfl, rfl⟩ | ⟨rfl, rfl⟩
    · have hload : Settings.load environment [entry "QUERY_MODE" v] =
          .ok { s with queryMode := read } :=
        (Settings.load_eq_ok_iff h).mpr ⟨Settings.readMode_eq_ok_iff.mpr hread, hf, hp, hl⟩
      have hconfig : ({ s with queryMode := read } : Settings).config =
          .ok { config with queryMode := mode } :=
        Settings.config_eq_ok_iff.mpr ⟨hmode _, hfilter, hpostFilter⟩
      exact ⟨_, bind_eq_ok.mpr ⟨_, hload, bind_eq_ok.mpr ⟨_, hconfig, rfl⟩⟩⟩
    · have hload : Settings.load environment [entry "FILTER_MODE" v] =
          .ok { s with filterMode := read } :=
        (Settings.load_eq_ok_iff h).mpr ⟨hq, Settings.readMode_eq_ok_iff.mpr hread, hp, hl⟩
      have hconfig : ({ s with filterMode := read } : Settings).config =
          .ok { config with filterMode := mode } :=
        Settings.config_eq_ok_iff.mpr ⟨hquery, hmode _, hpostFilter⟩
      exact ⟨_, bind_eq_ok.mpr ⟨_, hload, bind_eq_ok.mpr ⟨_, hconfig, rfl⟩⟩⟩
  | call s => exact ⟨_, (criteria_call_eq_ok_iff h).mpr ⟨mode, haccepts, rfl⟩⟩

/-! ## Agreement -/

theorem Accepts.unique {other : Value} (h : source.Accepts v mode)
    (hother : source.Accepts v other) : mode = other := by
  cases source with
  | config | settings =>
    obtain ⟨read, hread, hmode⟩ := h
    obtain ⟨_, hfound, hother⟩ := hother
    obtain rfl := Option.some.inj (hread.symm.trans hfound)
    exact Except.ok.inj (hmode.symm.trans hother)
  | call => exact Except.ok.inj (Eq.trans (Eq.symm h) hother)

/-- An accepted value leaves its mode in every place that is open. -/
theorem exists_criteria_of_accepts (h : (option, setting) ∈ Config.modeSettings)
    (hopen : source.Open option setting) (haccepts : source.Accepts v mode) :
    ∃ c, source.criteria option setting v = .ok c ∧ c.options.getText? option = some mode := by
  obtain ⟨c, hcriteria⟩ := exists_criteria h hopen haccepts
  obtain ⟨other, hother, hmode⟩ := accepts_of_criteria h hcriteria
  exact ⟨c, hcriteria, haccepts.unique hother ▸ hmode⟩

theorem exists_error_of_not_accepts (h : (option, setting) ∈ Config.modeSettings)
    (hnot : ∀ mode, ¬ source.Accepts v mode) :
    ∃ fault, source.criteria option setting v = .error fault := by
  cases hcriteria : source.criteria option setting v with
  | error fault => exact ⟨fault, rfl⟩
  | ok c =>
    obtain ⟨mode, hmode, -⟩ := accepts_of_criteria h hcriteria
    exact absurd hmode (hnot mode)

/-- A value is accepted in all places for the same mode, unless it is a truth value. -/
theorem accepts_iff_check (hv : ∀ b, v ≠ .bool b) :
    source.Accepts v mode ↔ JoinMode.check v = .ok mode := by
  cases source with
  | call => exact Iff.rfl
  | config | settings =>
    cases v with
    | bool b => exact absurd rfl (hv b)
    | int | real | text => simp [Accepts, Config.numberOrText?]
    | _ => simp [Accepts, Config.numberOrText?, JoinMode.check]

theorem open_config (h : (option, setting) ∈ Config.modeSettings) :
    ModeSource.config.Open option setting := by
  rcases Config.eq_of_mem_modeSettings h with ⟨rfl, rfl⟩ | ⟨rfl, rfl⟩ <;> exact ⟨.int 0, _, rfl⟩

theorem open_call (h : (option, setting) ∈ Config.modeSettings) (s : Search) :
    (ModeSource.call s).Open option setting :=
  ⟨.int 0, _, (criteria_call_eq_ok_iff h).mpr ⟨.int 0, rfl, rfl⟩⟩

/-- The value is refused wherever it is given, or leaves the same mode in every place that is
open. -/
def Agree (option setting : String) (v : Value) : Prop :=
  (∀ source : ModeSource, ∃ fault, source.criteria option setting v = .error fault) ∨
  ∃ mode, ∀ source : ModeSource, source.Open option setting →
    ∃ c, source.criteria option setting v = .ok c ∧ c.options.getText? option = some mode

/--
All places where a value for a mode can be given agree on the values that are not truth values.  A
truth value becomes zero or one in a config and in the settings, and is refused by every call.
-/
theorem sources_agree_iff (h : (option, setting) ∈ Config.modeSettings) :
    (∀ v, Agree option setting v ↔ ∀ b, v ≠ .bool b) ∧
    ∀ b, (∀ s, ∃ fault, (ModeSource.call s).criteria option setting (.bool b) = .error fault) ∧
      ∀ source : ModeSource, source.Open option setting → (∀ s, source ≠ .call s) →
        ∃ c, source.criteria option setting (.bool b) = .ok c ∧
          c.options.getText? option = some (.int (if b then 1 else 0)) := by
  have hcall : ∀ b s, ∃ fault,
      (ModeSource.call s).criteria option setting (.bool b) = .error fault := fun b s ↦
    exists_error_of_not_accepts h fun _ ↦ nofun
  have hfield : ∀ b (source : ModeSource), source.Open option setting → (∀ s, source ≠ .call s) →
      ∃ c, source.criteria option setting (.bool b) = .ok c ∧
        c.options.getText? option = some (.int (if b then 1 else 0)) := by
    intro b source hopen hother
    refine exists_criteria_of_accepts h hopen ?_
    cases source with
    | config | settings => exact ⟨_, rfl, rfl⟩
    | call s => exact absurd rfl (hother s)
  refine ⟨fun v ↦ ⟨?_, fun hv ↦ ?_⟩, fun b ↦ ⟨hcall b, hfield b⟩⟩
  · rintro hagree b rfl
    obtain ⟨c, hc, -⟩ := hfield b .config (open_config h) nofun
    obtain ⟨fault, hfault⟩ := hcall b (Search.start {})
    rcases hagree with hrefused | ⟨mode, haccepted⟩
    · obtain ⟨_, hrefused⟩ := hrefused .config
      cases hc.symm.trans hrefused
    · obtain ⟨d, hd, -⟩ := haccepted _ (open_call h (Search.start {}))
      cases hd.symm.trans hfault
  · cases hcheck : JoinMode.check v with
    | error refusal =>
      refine .inl fun source ↦ exists_error_of_not_accepts h fun mode hmode ↦ ?_
      cases hcheck.symm.trans ((accepts_iff_check hv).mp hmode)
    | ok mode =>
      exact .inr ⟨mode, fun source hopen ↦
        exists_criteria_of_accepts h hopen ((accepts_iff_check hv).mpr hcheck)⟩

/-- A half in text is the same to all of them, and `true` is one in the settings of a process. -/
theorem sources_agree_iff_of_process :
    let process : ModeSource := .settings []
    ("query_mode", "QUERY_MODE") ∈ Config.modeSettings ∧
      Agree "query_mode" "QUERY_MODE" (.text "0.5") ∧ process.Open "query_mode" "QUERY_MODE" ∧
      ∃ c, process.criteria "query_mode" "QUERY_MODE" (.bool true) = .ok c ∧
        c.options.getText? "query_mode" = some (.int 1) := by
  intro process
  have hmem : ("query_mode", "QUERY_MODE") ∈ Config.modeSettings := List.mem_cons_self
  have hload : Settings.load [] [entry "QUERY_MODE" (.int 0)] = .ok { queryMode := .int 0 } :=
    (Settings.load_eq_ok_iff hmem).mpr ⟨rfl, rfl, rfl, rfl⟩
  have hopen : process.Open "query_mode" "QUERY_MODE" :=
    ⟨.int 0, _, bind_eq_ok.mpr ⟨_, hload, rfl⟩⟩
  obtain ⟨hagree, hbool⟩ := sources_agree_iff hmem
  exact ⟨hmem, (hagree _).mpr nofun, hopen, (hbool true).2 process hopen nofun⟩

/-- A config takes `true` for one, and a call refuses it. -/
theorem not_agree_truth_value :
    let search := Search.start {}
    (∃ c, ModeSource.config.criteria "query_mode" "QUERY_MODE" (.bool true) = .ok c ∧
      c.options.getText? "query_mode" = some (.int 1)) ∧
    (ModeSource.call search).criteria "query_mode" "QUERY_MODE" (.bool true) =
      .error (.refusedOption "query_mode" (.bool true) (.invalid (.bool true))) ∧
    ¬ Agree "query_mode" "QUERY_MODE" (.bool true) := by
  intro search
  have hcall : (ModeSource.call search).criteria "query_mode" "QUERY_MODE" (.bool true) =
      .error (.refusedOption "query_mode" (.bool true) (.invalid (.bool true))) := rfl
  refine ⟨⟨_, rfl, rfl⟩, hcall, ?_⟩
  rintro (hrefused | ⟨mode, haccepted⟩)
  · obtain ⟨fault, hfault⟩ := hrefused .config
    cases hfault
  · obtain ⟨c, hc, -⟩ := haccepted (.call search) (open_call List.mem_cons_self search)
    cases hcall.symm.trans hc

end ModeSource

end SearchCriteria
