import SearchCriteria.Proofs.Join.Policy
import SearchCriteria.Proofs.Latest
import SearchCriteria.Proofs.Request.Meaning

/-!
# Boosting

Scoring functions take the query and the filter out of a body and put a scored query in their place.
Whatever the body is, nothing else of it moves or changes, and neither of the two is lost: a body
with both has them folded into one query, which is scored.  So a scored body means what the body
meant, to whoever reads a folded query as both of its parts and a scored query as what it scores.
-/

namespace SearchCriteria

open Mapping (entry single ofNamed)

/-! ## Entries apart from some -/

theorem Value.sameText_eq_isText (v : Value) (name : String) :
    v.sameText (.text name) = v.isText name := by
  cases v <;> rfl

/-- Leaving out entries under other keys makes no difference to what is found. -/
theorem Association.get?_filter {κ α : Type} {same : κ → κ → Bool} {key : κ} {p : κ × α → Bool}
    {entries : List (κ × α)} (h : ∀ e ∈ entries, same e.1 key = true → p e = true) :
    get? same key (entries.filter p) = get? same key entries := by
  induction entries with
  | nil => rfl
  | cons e rest ih =>
    obtain ⟨he, hrest⟩ := List.forall_mem_cons.mp h
    obtain ⟨k, v⟩ := e
    cases hp : p (k, v) with
    | true => rw [List.filter_cons_of_pos hp, get?, get?, ih hrest]
    | false =>
      have hk : same k key = false := Bool.eq_false_iff.mpr fun hsame ↦
        Bool.false_ne_true (hp.symm.trans (he hsame))
      rw [List.filter_cons_of_neg (by simp [hp]), get?, ih hrest, hk, if_neg Bool.false_ne_true]

/-- Nothing but a text is the same key as that text. -/
theorem Value.eq_text_of_sameKey {name : String} {key : Value}
    (h : Value.sameKey (.text name) key = true) : key = .text name := by
  have hother : key.sameKey (.text name) = true := Value.sameKey_lawful.symm h
  rw [Value.sameKey_text, Value.sameText_eq_isText] at hother
  cases key with
  | text s => exact congrArg Value.text (eq_of_beq hother)
  | _ => cases hother

namespace Request

variable {body options : Mapping} {scores : List Value}

/-- The entries of a body apart from its query and its filter. -/
def apart (body : Mapping) : Mapping :=
  body.filter fun e ↦ !(e.1.isText "query" || e.1.isText "filter")

theorem eraseText_eq_apart (body : Mapping) :
    (body.eraseText "query").eraseText "filter" = apart body := by
  unfold Mapping.eraseText Association.erase apart
  rw [List.filter_filter]
  refine List.filter_congr fun e _ ↦ ?_
  rw [Value.sameText_eq_isText, Value.sameText_eq_isText, Bool.not_or, Bool.and_comm]

theorem getText?_apart_eq_none {name : String} (h : name = "query" ∨ name = "filter")
    (body : Mapping) : (apart body).getText? name = none := by
  rw [Mapping.getText?_eq_none_iff, Association.not_holds_iff]
  intro k hk
  obtain ⟨e, he, rfl⟩ := List.mem_map.mp hk
  have hother := (List.mem_filter.mp he).2
  rw [Value.sameText_eq_isText]
  rcases h with rfl | rfl <;> simp_all

/-- Under every other key the same is found. -/
theorem get?_apart {key : Value} (hquery : key ≠ .text "query") (hfilter : key ≠ .text "filter")
    (body : Mapping) : Mapping.get? (apart body) key = body.get? key := by
  refine Association.get?_filter fun e _ hsame ↦ ?_
  have hother {name : String} (hname : key ≠ .text name) : e.1.isText name = false := by
    refine Bool.eq_false_iff.mpr fun htext ↦ hname ?_
    rw [Value.isText_iff.mp htext] at hsame
    exact Value.eq_text_of_sameKey hsame
  rw [hother hquery, hother hfilter]
  rfl

/-! ## The scored query -/

/-- What is scored of a query and a filter: both at once, folded into one query, or either alone. -/
def folded : Option Value → Option Value → Option Value × Option Value
  | some q, some f => (some (.map (filtered q f none)), none)
  | q, f => (q, f)

/-- The parts of a scored query, by name and in order. -/
def boostParts (scores : List Value) (options : Mapping) (query filter : Option Value) :
    List (String × Option Value) :=
  [("functions", some (.list scores)),
   ("boost_mode", options.truthy? "boost_mode"),
   ("score_mode", options.truthy? "score_mode"),
   ("query", query),
   ("filter", filter)]

theorem getText?_boostParts (scores : List Value) (options : Mapping)
    (query filter : Option Value) :
    (ofNamed (boostParts scores options query filter)).getText? "query" = query ∧
      (ofNamed (boostParts scores options query filter)).getText? "filter" = filter := by
  have hnames : ((boostParts scores options query filter).map Prod.fst).Nodup := by
    change ["functions", "boost_mode", "score_mode", "query", "filter"].Nodup
    decide
  constructor
  · exact Mapping.getText?_ofNamed hnames (s := ("query", query)) (by simp [boostParts])
  · exact Mapping.getText?_ofNamed hnames (s := ("filter", filter)) (by simp [boostParts])

theorem boost_eq (h : scores ≠ []) (body options : Mapping) :
    boost body scores options = apart body ++ [entry "query" (.map [entry "function_score" (.map
      (ofNamed (boostParts scores options
        (folded (body.present? "query") (body.present? "filter")).1
        (folded (body.present? "query") (body.present? "filter")).2)))])] := by
  have hempty : scores.isEmpty = false := by simpa using h
  have hput (score : Mapping) : (apart body).putText "query" (.map score) =
      apart body ++ [entry "query" (.map score)] :=
    Mapping.addSome_of_absent (getText?_apart_eq_none (.inl rfl) body) (some (.map score))
  rw [boost, hempty, if_neg Bool.false_ne_true, eraseText_eq_apart]
  simp only [functionScore_eq, hput]
  cases body.present? "query" <;> cases body.present? "filter" <;> rfl

/--
What boosting makes of a body.  The entries under other names come first, and the scored query is
the last one, with the functions, the modes that are set to something that counts, and a query or a
filter or neither.
-/
structure Boosted (body : Mapping) (scores : List Value) (options : Mapping)
    (query filter : Option Value) (result : Mapping) : Prop where
  entries : result = apart body ++ [entry "query" (.map [entry "function_score" (.map (ofNamed
    [("functions", some (.list scores)), ("boost_mode", options.truthy? "boost_mode"),
      ("score_mode", options.truthy? "score_mode"), ("query", query), ("filter", filter)]))])]
  no_filter : result.getText? "filter" = none
  kept (key : Value) (hquery : key ≠ .text "query") (hfilter : key ≠ .text "filter") :
    result.get? key = body.get? key
  /-- Of a query and a filter a single query is made. -/
  both (q f : Value) (hquery : body.present? "query" = some q)
    (hfilter : body.present? "filter" = some f) :
    query = some (.map [entry "filtered" (.map [entry "query" q, entry "filter" f])]) ∧
      filter = none
  either (h : body.present? "query" = none ∨ body.present? "filter" = none) :
    query = body.present? "query" ∧ filter = body.present? "filter"

theorem boosted_of_ne_nil (h : scores ≠ []) (body options : Mapping) :
    Boosted body scores options (folded (body.present? "query") (body.present? "filter")).1
      (folded (body.present? "query") (body.present? "filter")).2 (boost body scores options) := by
  constructor
  case entries => exact boost_eq h body options
  case no_filter =>
    rw [boost_eq h, Mapping.getText?_append, getText?_apart_eq_none (.inr rfl)]
    rfl
  case kept =>
    intro key hquery hfilter
    have hlast : Value.sameKey (.text "query") key = false :=
      Bool.eq_false_iff.mpr fun hsame ↦ hquery (Value.eq_text_of_sameKey hsame)
    rw [boost_eq h, Mapping.get?, Association.get?_append, entry, Association.get?, hlast,
      if_neg Bool.false_ne_true, Association.get?_nil, Option.or_none]
    exact get?_apart hquery hfilter body
  case both =>
    intro q f hquery hfilter
    rw [hquery, hfilter]
    exact ⟨rfl, rfl⟩
  case either =>
    rintro (hnone | hnone)
    · rw [hnone]
      exact ⟨rfl, rfl⟩
    · rw [hnone]
      cases body.present? "query" <;> exact ⟨rfl, rfl⟩

/-! ## The meaning of a scored body -/

/-- A reader of fragments that takes folded and scored queries for what they are. -/
structure Reads (holds : Value → Bool) : Prop where
  filtered {q f : Value} (hq : q ≠ .null) (hf : f ≠ .null) :
    holds (.map [entry "filtered" (.map [entry "query" q, entry "filter" f])]) =
      (holds q && holds f)
  /-- A part that is absent from a scored query bars nothing. -/
  functionScore {parts : Mapping} (hquery : parts.getText? "query" ≠ some .null)
    (hfilter : parts.getText? "filter" ≠ some .null) :
    holds (.map [entry "function_score" (.map parts)]) =
      ((parts.getText? "query").all holds && (parts.getText? "filter").all holds)

/-- Every evaluation is such a reader. -/
theorem Reads.of_evaluation (E : Evaluation) : Reads E.holds where
  filtered {q f} _ _ := E.holds_filtered q f none
  functionScore {parts} _ _ := E.holds_functionScore parts

/-- Whether a body matches: null stands for a part that is absent. -/
def matched (holds : Value → Bool) (body : Mapping) : Bool :=
  (body.present? "query").all holds && (body.present? "filter").all holds

theorem present?_ne_null (body : Mapping) (name : String) : body.present? name ≠ some .null := by
  unfold Mapping.present?
  split
  · exact nofun
  · exact nofun
  · rename_i v hnull _
    exact fun h ↦ hnull (Option.some.inj h)

/-- What is scored is neither null, and it holds where the query and the filter do. -/
theorem Boosted.scored {query filter : Option Value} {result : Mapping}
    (h : Boosted body scores options query filter result) {holds : Value → Bool}
    (hreads : Reads holds) :
    query ≠ some .null ∧ filter ≠ some .null ∧
      (query.all holds && filter.all holds) = matched holds body := by
  have hquery := present?_ne_null body "query"
  have hfilter := present?_ne_null body "filter"
  by_cases hone : body.present? "query" = none ∨ body.present? "filter" = none
  · obtain ⟨rfl, rfl⟩ := h.either hone
    exact ⟨hquery, hfilter, rfl⟩
  -- only where both are there is anything folded
  obtain ⟨hsomeQuery, hsomeFilter⟩ := not_or.mp hone
  obtain ⟨q, hq⟩ := Option.ne_none_iff_exists'.mp hsomeQuery
  obtain ⟨f, hf⟩ := Option.ne_none_iff_exists'.mp hsomeFilter
  obtain ⟨rfl, rfl⟩ := h.both q f hq hf
  rw [hq] at hquery
  rw [hf] at hfilter
  refine ⟨nofun, nofun, ?_⟩
  rw [matched, hq, hf, Option.all_none, Bool.and_true, Option.all_some, Option.all_some,
    Option.all_some]
  exact hreads.filtered (mt (congrArg some) hquery) (mt (congrArg some) hfilter)

/-- A scored body matches what the body matched. -/
theorem Boosted.matched_eq {query filter : Option Value} {result : Mapping}
    (h : Boosted body scores options query filter result) {holds : Value → Bool}
    (hreads : Reads holds) : matched holds result = matched holds body := by
  obtain ⟨hquery, hfilter, hscored⟩ := h.scored hreads
  obtain ⟨hq, hf⟩ := getText?_boostParts scores options query filter
  have hlast : result.getText? "query" = some (.map [entry "function_score"
      (.map (ofNamed (boostParts scores options query filter)))]) := by
    rw [h.entries, Mapping.getText?_append, getText?_apart_eq_none (.inl rfl),
      Mapping.getText?_entry_self, Option.none_or]
    rfl
  have hpresent : result.present? "query" = _ :=
    (present?_eq_getText? (by rw [hlast]; exact nofun)).trans hlast
  have habsent : result.present? "filter" = none :=
    (present?_eq_getText? (by rw [h.no_filter]; exact nofun)).trans h.no_filter
  rw [matched, hpresent, habsent, Option.all_some, Option.all_none, Bool.and_true,
    hreads.functionScore (by rwa [hq]) (by rwa [hf]), hq, hf, hscored]

/--
Boosting restructures a body without loss.  Without scoring functions the body stays as it is.  With
them its query and its filter move into a scored query at its end, folded into one if both are
there, and every other entry stays where it is.  Whoever reads folded and scored queries for what
they are finds that the body matches what it matched before.
-/
theorem boost_lossless (body : Mapping) (scores : List Value) (options : Mapping) :
    (scores = [] → boost body scores options = body) ∧
    (scores ≠ [] → ∃ query filter,
      Boosted body scores options query filter (boost body scores options)) ∧
    ∀ holds, Reads holds → matched holds (boost body scores options) = matched holds body := by
  refine ⟨?_, fun hscores ↦ ⟨_, _, boosted_of_ne_nil hscores body options⟩, fun holds hreads ↦ ?_⟩
  · rintro rfl
    rfl
  · by_cases hscores : scores = []
    · rw [hscores]
      rfl
    · exact (boosted_of_ne_nil hscores body options).matched_eq hreads

/-- A body with a query, a filter and entries around them, and one of two modes that counts. -/
theorem boost_lossless_of_both :
    let q : Value := .map [entry "exists" (.text "a")]
    let f : Value := .map [entry "exists" (.text "b")]
    let body : Mapping := [entry "size" (.int 5), entry "filter" f, (.int 1, .null),
      entry "query" q, entry "sort" (.list [])]
    let scores : List Value := [.map [entry "weight" (.int 2)]]
    let options : Mapping := [entry "score_mode" (.text ""), entry "boost_mode" (.text "sum")]
    let holds := (Evaluation.ofLeaves Value.truthy fun _ _ ↦ true).holds
    scores ≠ [] ∧ Reads holds ∧
      boost body scores options = [entry "size" (.int 5), (.int 1, .null), entry "sort" (.list []),
        entry "query" (.map [entry "function_score" (.map [entry "functions" (.list scores),
          entry "boost_mode" (.text "sum"),
          entry "query" (.map [entry "filtered" (.map [entry "query" q, entry "filter" f])])])])] ∧
      (∃ query filter, Boosted body scores options query filter (boost body scores options)) ∧
      matched holds (boost body scores options) = matched holds body := by
  intro q f body scores options holds
  have hscores : scores ≠ [] := List.cons_ne_nil _ _
  have hreads : Reads holds := .of_evaluation _
  obtain ⟨-, hboosted, hmatched⟩ := boost_lossless body scores options
  exact ⟨hscores, hreads, rfl, hboosted hscores, hmatched holds hreads⟩

end Request

end SearchCriteria
