import Mathlib.Data.List.Forall2
import SearchCriteria.Expression.Resolution
import SearchCriteria.Proofs.Expression.Building
import SearchCriteria.Proofs.Expression.Lookups
import SearchCriteria.Proofs.Expression.Truth
import SearchCriteria.Proofs.Request.Grouping

/-!
# Two passes make one range for each field

The two passes over the lookups end where the conditions of the lookups do.  What carries the first
pass is that the fields in its table are those that have a range among the nodes, and that the ends
in the table are the ones given so far; the second pass then puts the table into the ranges.  Told
without any pass, every lookup makes a node of its own, apart from an end that is not the first one
for its field.
-/

namespace SearchCriteria

open Mapping (entry)

theorem Expression.requireField_text (field : String) :
    requireField (.text field) = requireName field >>= fun _ ↦ .ok field := rfl

theorem Expression.buildTerm_text (field : String) (value : Value) :
    buildTerm (.text field) value =
      requireName field >>= fun _ ↦ .ok (.term field value.termValue) := by
  rw [buildTerm, requireField_text]
  cases requireName field <;> rfl

theorem Expression.buildPresent_text (field : String) :
    buildPresent (.text field) = requireName field >>= fun _ ↦ .ok (.present field) := by
  rw [buildPresent, requireField_text]
  cases requireName field <;> rfl

/-- A range over the field. -/
def Expression.isRangeOn (field : String) : Expression → Bool
  | .range name _ => name == field
  | _ => false

/-- A condition of its own is no range. -/
theorem Lookups.isRangeOn_of_condition {l : String × Value} {c : Condition}
    (h : condition? l = some c) (field : String) : c.toExpression.isRangeOn field = false := by
  unfold condition? at h
  split at h <;> cases h
  case h_5 => cases l.2.truthy <;> rfl
  all_goals rfl

/-- The limits of a range with the given ends. -/
def limitsOf (ends : List (Bound × Value)) : List (Limit Value) :=
  ends.map fun (bound, value) ↦ ⟨bound, value, .tuple⟩

namespace Resolution

variable {lookups rest : Lookups} {l : String × Value} {field : String} {bound : Bound}
  {c : Condition} {ranged : List String} {r : Resolution} {n : Expression}

/-! ## Ranges from their ends -/

theorem readLimit_pair (field : String) (bound : Bound) (value : Value) :
    Expression.readLimit field (.tuple [.text bound.name, value]) =
      requireLimit field bound value >>= fun _ ↦ .ok ⟨bound, value, .tuple⟩ := by
  cases bound <;> rfl

theorem mapM_readLimit (field : String) (ends : List (Bound × Value)) :
    (ends.map fun (bound, value) ↦ Value.tuple [.text bound.name, value]).mapM
        (Expression.readLimit field) =
      requireLimits field (limitsOf ends) >>= fun _ ↦ .ok (limitsOf ends) := by
  induction ends with
  | nil => rfl
  | cons e ends ih =>
    obtain ⟨bound, value⟩ := e
    have hlimits : requireLimits field (limitsOf ((bound, value) :: ends)) =
        requireLimit field bound value >>= fun _ ↦ requireLimits field (limitsOf ends) := rfl
    rw [List.map_cons, List.mapM_cons, readLimit_pair, ih, hlimits]
    cases requireLimit field bound value with
    | error => rfl
    | ok => cases requireLimits field (limitsOf ends) <;> rfl

/-- A range needs a name, and a value for every end. -/
theorem range_eq {ends : List (Bound × Value)} (h : ends ≠ []) :
    range field ends = requireName field >>= fun _ ↦
      requireLimits field (limitsOf ends) >>= fun _ ↦ .ok (.range field (limitsOf ends)) := by
  cases ends with
  | nil => exact absurd rfl h
  | cons e ends =>
    rw [range, Expression.buildRange, Expression.requireField_text]
    cases requireName field with
    | error => rfl
    | ok =>
      change (_ >>= fun limits ↦ Except.ok (Expression.range field limits)) = _
      rw [mapM_readLimit]
      cases requireLimits field (limitsOf (e :: ends)) <;> rfl

/-! ## The first pass -/

/-- A lookup with a condition of its own is checked and makes that node. -/
theorem read_of_condition (h : Lookups.condition? l = some c) :
    r.read l = Lookups.checkOwn l >>= fun _ ↦ .ok (r.push c.toExpression) := by
  obtain ⟨key, value⟩ := l
  unfold Lookups.condition? at h
  rw [read, Lookups.checkOwn]
  generalize LookupKey.read key = reading at *
  obtain ⟨field, operator⟩ := reading
  cases operator <;> cases h <;>
    simp only [Expression.buildTerm_text, Expression.buildPresent_text, bind_assoc]
  case present => cases value.truthy <;> rfl
  all_goals rfl

/-- The first end for a field is checked and makes a range; each one goes into the table. -/
theorem read_of_end (h : LookupKey.read l.1 = (field, .bound bound)) :
    r.read l =
      if r.isPlaced field then .ok (r.note field bound l.2)
      else Lookups.checkOwn l >>= fun _ ↦
        .ok ((r.push (.range field [⟨bound, l.2, .tuple⟩])).note field bound l.2) := by
  obtain ⟨key, value⟩ := l
  have hread : LookupKey.read key = (field, .bound bound) := h
  have hlimits : requireLimits field (limitsOf [(bound, value)]) =
      requireLimit field bound value >>= fun _ ↦ .ok () := rfl
  rw [read, Lookups.checkOwn, hread]
  change (r.place field bound value >>= fun placed ↦ Except.ok (placed.note field bound value)) = _
  rw [place]
  split
  · rfl
  · rw [range_eq (List.cons_ne_nil _ _), hlimits]
    simp only [bind_assoc]
    rfl

@[simp] theorem endsOf_push (r : Resolution) (e : Expression) (field : String) :
    (r.push e).endsOf field = r.endsOf field := rfl

@[simp] theorem isPlaced_push (r : Resolution) (e : Expression) (field : String) :
    (r.push e).isPlaced field = r.isPlaced field := rfl

@[simp] theorem nodes_push (r : Resolution) (e : Expression) :
    (r.push e).nodes = r.nodes ++ [e] := rfl

@[simp] theorem nodes_note (r : Resolution) (field : String) (bound : Bound) (value : Value) :
    (r.note field bound value).nodes = r.nodes := rfl

theorem get?_note (r : Resolution) (field other : String) (bound : Bound) (value : Value) :
    Association.get? (· == ·) other (r.note field bound value).ends =
      if field = other then some (Association.put (· == ·) bound value (r.endsOf field))
      else Association.get? (· == ·) other r.ends := by
  rw [note, Association.get?_put Association.lawful_beq]
  simp only [beq_iff_eq]

theorem endsOf_note (r : Resolution) (field other : String) (bound : Bound) (value : Value) :
    (r.note field bound value).endsOf other =
      if field = other then Association.put (· == ·) bound value (r.endsOf field)
      else r.endsOf other := by
  rw [endsOf, get?_note]
  split <;> rfl

theorem isPlaced_note (r : Resolution) (field other : String) (bound : Bound) (value : Value) :
    (r.note field bound value).isPlaced other = (field == other || r.isPlaced other) := by
  rw [isPlaced, get?_note]
  split <;> simp_all [isPlaced]

/-- A node of the first pass in the place of a condition: a range has its name only. -/
inductive Stands (lookups : Lookups) : Expression → Condition → Prop
  | own {m own} (h : Lookups.condition? m = some own) : Stands lookups own.toExpression own
  | range (name limits) : Stands lookups (.range name limits) ⟨lookups.rangeOn name, false⟩

/-- What the first pass makes of the rest of the lookups. -/
structure Passed (lookups : Lookups) (ranged : List String) (rest : Lookups)
    (r s : Resolution) : Prop where
  nodes : ∃ added, s.nodes = r.nodes ++ added ∧
    List.Forall₂ (Stands lookups) added (lookups.conditionsFrom ranged rest)
  ends (field : String) : s.endsOf field =
    Association.overlay (· == ·) (r.endsOf field) (rest.endsOn field)

theorem overlay_endsOf_note (hread : LookupKey.read l.1 = (field, .bound bound)) (other : String) :
    Association.overlay (· == ·) ((r.note field bound l.2).endsOf other) (rest.endsOn other) =
      Association.overlay (· == ·) (r.endsOf other) (Lookups.endsOn (l :: rest) other) := by
  rw [endsOf_note, Lookups.endsOn_cons_of_end hread]
  by_cases hother : field = other
  · rw [if_pos hother, if_pos hother, hother]
    rfl
  · rw [if_neg hother, if_neg hother]

/-- One more end for a range that is placed. -/
theorem Passed.note {s : Resolution} (h : Passed lookups ranged rest (r.note field bound l.2) s)
    (hread : LookupKey.read l.1 = (field, .bound bound)) (hplaced : ranged.contains field = true) :
    Passed lookups ranged (l :: rest) r s where
  nodes := by
    obtain ⟨added, hnodes, hstands⟩ := h.nodes
    rw [Lookups.conditionsFrom_of_end hread, if_pos hplaced]
    exact ⟨added, hnodes, hstands⟩
  ends other := (h.ends other).trans (overlay_endsOf_note hread other)

/-- The range for a first end. -/
theorem Passed.place {s : Resolution} {limits : List (Limit Value)}
    (h : Passed lookups (field :: ranged) rest
      ((r.push (.range field limits)).note field bound l.2) s)
    (hread : LookupKey.read l.1 = (field, .bound bound))
    (hplaced : ¬ ranged.contains field = true) :
    Passed lookups ranged (l :: rest) r s where
  nodes := by
    obtain ⟨added, hnodes, hstands⟩ := h.nodes
    refine ⟨.range field limits :: added, ?_, ?_⟩
    · rw [hnodes, nodes_note, nodes_push, List.append_assoc, List.singleton_append]
    · rw [Lookups.conditionsFrom_of_end hread, if_neg hplaced]
      exact .cons (.range field limits) hstands
  ends other := (h.ends other).trans (overlay_endsOf_note hread other)

theorem Passed.push {s : Resolution} (h : Passed lookups ranged rest (r.push c.toExpression) s)
    (hc : Lookups.condition? l = some c) : Passed lookups ranged (l :: rest) r s where
  nodes := by
    obtain ⟨added, hnodes, hstands⟩ := h.nodes
    refine ⟨c.toExpression :: added, ?_, ?_⟩
    · rw [hnodes, nodes_push, List.append_assoc, List.singleton_append]
    · rw [Lookups.conditionsFrom_of_condition hc]
      exact .cons (.own hc) hstands
  ends other := by rw [h.ends other, endsOf_push, Lookups.endsOn_cons_of_condition hc]

/-- The first pass goes wrong where the checks of the single lookups do. -/
theorem foldlM_read (lookups rest : Lookups)
    (hplaced : ∀ field, r.isPlaced field = ranged.contains field) :
    ∃ s, rest.foldlM read r = (Lookups.checkEach ranged rest >>= fun _ ↦ .ok s) ∧
      Passed lookups ranged rest r s := by
  induction rest generalizing ranged r with
  | nil => exact ⟨r, rfl, ⟨[], (List.append_nil _).symm, .nil⟩, fun _ ↦ rfl⟩
  | cons l rest ih =>
    rw [List.foldlM_cons]
    rcases Lookups.gives_end_or_condition l with ⟨field, bound, hread⟩ | ⟨c, hc⟩
    · rw [read_of_end hread, Lookups.checkEach_of_end hread, hplaced]
      by_cases hfield : ranged.contains field = true
      · have hnoted (other : String) :
            (r.note field bound l.2).isPlaced other = ranged.contains other := by
          rw [isPlaced_note, hplaced]
          cases hother : field == other with
          | false => rfl
          | true => rw [← eq_of_beq hother, hfield]; rfl
        obtain ⟨s, hs, hpassed⟩ := ih hnoted
        rw [if_pos hfield, if_pos hfield]
        exact ⟨s, hs, hpassed.note hread hfield⟩
      · have hnoted (other : String) :
            ((r.push (.range field [⟨bound, l.2, .tuple⟩])).note field bound l.2).isPlaced other =
              (field :: ranged).contains other := by
          rw [isPlaced_note, isPlaced_push, hplaced, List.contains_cons, BEq.comm]
        obtain ⟨s, hs, hpassed⟩ := ih hnoted
        rw [if_neg hfield, if_neg hfield]
        simp only [bind_assoc]
        refine ⟨s, ?_, hpassed.place hread hfield⟩
        exact congrArg (Lookups.checkOwn l >>= ·) (funext fun _ ↦ hs)
    · have hpushed (other : String) :
          (r.push c.toExpression).isPlaced other = ranged.contains other := by
        rw [isPlaced_push, hplaced]
      obtain ⟨s, hs, hpassed⟩ := ih hpushed
      rw [read_of_condition hc, Lookups.checkEach_of_condition hc]
      simp only [bind_assoc]
      refine ⟨s, ?_, hpassed.push hc⟩
      exact congrArg (Lookups.checkOwn l >>= ·) (funext fun _ ↦ hs)

/-! ## The second pass -/

theorem complete_of_stands (hends : ∀ field, r.endsOf field = lookups.bounds field)
    (h : Stands lookups n c)
    (hnamed : ∀ field, c = ⟨lookups.rangeOn field, false⟩ →
      Text.isBlank field = false ∧ lookups.bounds field ≠ []) :
    r.complete n = Lookups.checkRange c >>= fun _ ↦ .ok c.toExpression := by
  cases h with
  | own h =>
    rw [Lookups.checkRange_of_condition h]
    cases hnode : c.toExpression with
    | range name limits =>
      have hother := Lookups.isRangeOn_of_condition h name
      rw [hnode, Expression.isRangeOn, beq_self_eq_true] at hother
      cases hother
    | _ => rfl
  | range field limits =>
    obtain ⟨hname, hbounds⟩ := hnamed field rfl
    rw [complete, hends, range_eq hbounds, Lookups.requireName_eq_ok_iff.mpr hname]
    rfl

theorem mapM_complete {nodes : List Expression} {conditions : List Condition}
    (hends : ∀ field, r.endsOf field = lookups.bounds field)
    (h : List.Forall₂ (Stands lookups) nodes conditions)
    (hnamed : ∀ field, ⟨lookups.rangeOn field, false⟩ ∈ conditions →
      Text.isBlank field = false ∧ lookups.bounds field ≠ []) :
    nodes.mapM r.complete =
      conditions.forM Lookups.checkRange >>= fun _ ↦
        .ok (conditions.map Condition.toExpression) := by
  induction h with
  | nil => rfl
  | @cons n c nodes conditions hn _ ih =>
    have hc : r.complete n = Lookups.checkRange c >>= fun _ ↦ .ok c.toExpression := by
      refine complete_of_stands hends hn fun field hfield ↦ hnamed field ?_
      exact hfield ▸ List.mem_cons_self
    have hrest := ih fun field hfield ↦ hnamed field (List.mem_cons_of_mem c hfield)
    change _ = (Lookups.checkRange c >>= fun _ ↦ conditions.forM Lookups.checkRange) >>= _
    rw [List.mapM_cons, hc, hrest]
    simp only [bind_assoc]
    rfl

end Resolution

namespace Lookups

variable {lookups rest : Lookups} {l : String × Value} {field : String} {ranged : List String}

/-- Ranges are made for the fields that have ends. -/
theorem rangeOn_mem_conditions_iff :
    ⟨lookups.rangeOn field, false⟩ ∈ lookups.conditions ↔ HasRange lookups field := by
  refine mem_conditionsFrom_iff.trans ⟨?_, fun h ↦ .inr ⟨field, rfl, List.not_mem_nil, h⟩⟩
  rintro (⟨l, -, hl⟩ | ⟨name, hname, -, hrange⟩)
  · unfold condition? at hl
    split at hl <;> cases hl
  · have hfield : lookups.rangeOn field = lookups.rangeOn name := congrArg Condition.test hname
    obtain rfl : field = name := (FieldTest.range.inj hfield).1
    exact hrange

/-- The two passes end well if the lookups are accepted, and then with the nodes of the lookups. -/
theorem resolve_eq (lookups : Lookups) :
    lookups.resolve = lookups.check >>= fun _ ↦ .ok lookups.nodes := by
  have hstart (field : String) : ({} : Resolution).isPlaced field = [].contains field := rfl
  obtain ⟨s, hs, ⟨nodes, hnodes, hstands⟩, hends⟩ :=
    Resolution.foldlM_read lookups lookups hstart
  have hcheck : lookups.check = checkEach [] lookups >>= fun _ ↦
      lookups.conditions.forM checkRange := rfl
  rw [resolve, hs, hcheck]
  cases heach : checkEach [] lookups with
  | error => rfl
  | ok =>
    change s.nodes.mapM s.complete = lookups.conditions.forM checkRange >>= fun _ ↦ _
    obtain rfl : s.nodes = nodes := hnodes
    refine Resolution.mapM_complete hends hstands fun field hfield ↦ ?_
    have hrange := rangeOn_mem_conditions_iff.mp hfield
    obtain ⟨-, hnamed⟩ := sound_of_checkEach heach fun _ h ↦ absurd h List.not_mem_nil
    exact ⟨hnamed field hrange, bounds_ne_nil hrange⟩

end Lookups

/-- A lookup node is built exactly if its lookups can be resolved. -/
theorem Expression.buildLookup_eq (given : Mapping) :
    buildLookup given = resolveLookup given >>= fun resolved ↦ .ok (.lookup resolved.1) := by
  rw [buildLookup, resolveLookup]
  cases namedValues "Q.__init__" "self" given with
  | error => rfl
  | ok lookups =>
    change (if _ then _ else _) = (if _ then _ else _) >>= _
    split
    · rfl
    · rw [Lookups.resolve_eq]
      change (lookups.check >>= fun _ ↦ Except.ok (Expression.lookup lookups)) = _
      cases lookups.check <;> rfl

section

variable {lookups : Lookups} (hne : lookups ≠ []) (hself : ∀ l ∈ lookups, l.1 ≠ "self")

include hne hself

theorem Expression.resolveLookup_eq :
    resolveLookup (lookups.map fun l ↦ entry l.1 l.2) =
      lookups.check >>= fun _ ↦ .ok (lookups, lookups.nodes) := by
  have hnamed : namedValues "Q.__init__" "self" (lookups.map fun l ↦ entry l.1 l.2) = .ok lookups :=
    namedValues_eq_ok_iff.mpr ⟨rfl, hself⟩
  rw [resolveLookup, hnamed]
  change (if lookups.isEmpty = true then _ else _) = _
  rw [if_neg (by simpa using hne), Lookups.resolve_eq]
  simp only [bind_assoc]
  rfl

theorem Expression.buildLookup_eq_check :
    buildLookup (lookups.map fun l ↦ entry l.1 l.2) =
      lookups.check >>= fun _ ↦ .ok (.lookup lookups) := by
  rw [buildLookup_eq, resolveLookup_eq hne hself]
  simp only [bind_assoc]
  rfl

end

/-! ## Grouping -/

namespace Lookups

variable {lookups before rest : Lookups} {l : String × Value} {field : String} {bound : Bound}
  {c : Condition} {ranged : List String}

/-- The range with all the ends that are given for the field. -/
def wholeRange (lookups : Lookups) (field : String) : Expression :=
  .range field (limitsOf (lookups.endsOn field))

/-- The node of a lookup, by those that stand before it: an end makes one if it is the first for its
field. -/
def nodeAfter? (lookups before : Lookups) (l : String × Value) : Option Expression :=
  match LookupKey.read l.1 with
  | (field, .eq) | (field, .oneOf) => some (.term field l.2.termValue)
  | (field, .ne) | (field, .noneOf) => some (.not (.term field l.2.termValue))
  | (field, .present) => some (if l.2.truthy then .present field else .not (.present field))
  | (field, .bound _) =>
    if (before.endsOn field).isEmpty then some (lookups.wholeRange field) else none

/-- The nodes of lookups, told for each one from where it stands. -/
def grouped (lookups : Lookups) : List Expression :=
  lookups.zipIdx.filterMap fun p ↦ lookups.nodeAfter? (lookups.take p.2) p.1

theorem nodeAfter?_of_condition (h : condition? l = some c) :
    lookups.nodeAfter? before l = some c.toExpression := by
  unfold condition? at h
  rw [nodeAfter?]
  generalize LookupKey.read l.1 = reading at *
  obtain ⟨field, operator⟩ := reading
  cases operator <;> cases h
  case present => cases l.2.truthy <;> rfl
  all_goals rfl

theorem nodeAfter?_of_end (h : LookupKey.read l.1 = (field, .bound bound)) :
    lookups.nodeAfter? before l =
      if (before.endsOn field).isEmpty then some (lookups.wholeRange field) else none := by
  rw [nodeAfter?, h]

theorem toExpression_rangeOn (h : ((lookups.endsOn field).map Prod.fst).Nodup) :
    (⟨lookups.rangeOn field, false⟩ : Condition).toExpression = lookups.wholeRange field := by
  rw [wholeRange, ← bounds_eq_endsOn h]
  rfl

theorem endsOn_append (xs ys : Lookups) (field : String) :
    endsOn (xs ++ ys) field = xs.endsOn field ++ ys.endsOn field := List.filterMap_append

theorem endsOn_concat_isEmpty {name : String} (h : LookupKey.read l.1 = (name, .bound bound))
    (field : String) :
    (endsOn (before ++ [l]) field).isEmpty =
      (!(name == field) && (before.endsOn field).isEmpty) := by
  rw [endsOn_append, endsOn_cons_of_end h]
  cases hname : name == field <;> simp_all [endsOn]

/-- The fields whose range is placed are those that had an end before. -/
theorem filterMap_nodeAfter? (hsplit : lookups = before ++ rest)
    (hdistinct : ∀ field, ((lookups.endsOn field).map Prod.fst).Nodup)
    (hranged : ∀ field, ranged.contains field = !(before.endsOn field).isEmpty) :
    ((rest.zipIdx before.length).filterMap fun p ↦ lookups.nodeAfter? (lookups.take p.2) p.1) =
      (lookups.conditionsFrom ranged rest).map Condition.toExpression := by
  induction rest generalizing before ranged with
  | nil => rfl
  | cons l rest ih =>
    have htake : lookups.take before.length = before := by rw [hsplit, List.take_left]
    have hnext : lookups = (before ++ [l]) ++ rest := by rw [hsplit, List.append_cons]
    have hlength : (before ++ [l]).length = before.length + 1 := by
      rw [List.length_append, List.length_singleton]
    rw [List.zipIdx_cons, List.filterMap_cons, htake]
    rcases gives_end_or_condition l with ⟨name, bound, hread⟩ | ⟨c, hc⟩
    · rw [nodeAfter?_of_end hread, conditionsFrom_of_end hread, hranged]
      cases hplaced : (before.endsOn name).isEmpty with
      | true =>
        have hmore (field : String) :
            (name :: ranged).contains field = !(endsOn (before ++ [l]) field).isEmpty := by
          rw [List.contains_cons, hranged, endsOn_concat_isEmpty hread, BEq.comm, Bool.not_and,
            Bool.not_not]
        have hrest := ih hnext hmore
        rw [hlength] at hrest
        simp [hrest, toExpression_rangeOn (hdistinct name)]
      | false =>
        have hmore (field : String) :
            ranged.contains field = !(endsOn (before ++ [l]) field).isEmpty := by
          rw [hranged, endsOn_concat_isEmpty hread]
          cases hname : name == field with
          | false => rfl
          | true => rw [← eq_of_beq hname, hplaced]; rfl
        have hrest := ih hnext hmore
        rw [hlength] at hrest
        simp [hrest]
    · have hmore (field : String) :
          ranged.contains field = !(endsOn (before ++ [l]) field).isEmpty := by
        rw [hranged, endsOn_append, endsOn_cons_of_condition hc]
        simp [endsOn]
      have hrest := ih hnext hmore
      rw [hlength] at hrest
      rw [nodeAfter?_of_condition hc, conditionsFrom_of_condition hc, List.map_cons, ← hrest]

/-- Where no bound is given twice for a field, the grouping has the nodes of the lookups. -/
theorem grouped_eq_nodes (h : ∀ field, ((lookups.endsOn field).map Prod.fst).Nodup) :
    lookups.grouped = lookups.nodes := by
  have hsplit : lookups = [] ++ lookups := rfl
  have hstart (field : String) : [].contains field = !(endsOn [] field).isEmpty := rfl
  exact filterMap_nodeAfter? hsplit h hstart

theorem filter_isRangeOn_conditionsFrom (lookups rest : Lookups) (ranged : List String)
    (field : String) :
    ((lookups.conditionsFrom ranged rest).map Condition.toExpression).filter (·.isRangeOn field) =
      if ranged.contains field || (rest.endsOn field).isEmpty then []
      else [(⟨lookups.rangeOn field, false⟩ : Condition).toExpression] := by
  induction rest generalizing ranged with
  | nil => simp [conditionsFrom, endsOn]
  | cons l rest ih =>
    rcases gives_end_or_condition l with ⟨name, bound, hread⟩ | ⟨c, hc⟩
    · have hrange : (⟨lookups.rangeOn name, false⟩ : Condition).toExpression.isRangeOn field =
          (name == field) := rfl
      rw [conditionsFrom_of_end hread, endsOn_cons_of_end hread]
      by_cases hplaced : ranged.contains name = true
      · rw [if_pos hplaced, ih]
        by_cases hname : name = field
        · rw [← hname, hplaced]
          rfl
        · rw [if_neg hname]
      · rw [if_neg hplaced, List.map_cons, List.filter_cons, hrange, ih]
        by_cases hname : name = field
        · rw [← hname, Bool.eq_false_iff.mpr hplaced]
          simp
        · simp [hname, Ne.symm hname]
    · rw [conditionsFrom_of_condition hc, endsOn_cons_of_condition hc, List.map_cons,
        List.filter_cons, isRangeOn_of_condition hc field, if_neg Bool.false_ne_true, ih]

/-- A field has one range, or none if it has no ends. -/
theorem filter_isRangeOn_grouped (h : ∀ field, ((lookups.endsOn field).map Prod.fst).Nodup)
    (field : String) :
    lookups.grouped.filter (·.isRangeOn field) =
      if (lookups.endsOn field).isEmpty then [] else [lookups.wholeRange field] := by
  rw [grouped_eq_nodes h, nodes, conditions, filter_isRangeOn_conditionsFrom,
    toExpression_rangeOn (h field)]
  rfl

end Lookups

/-! ## Rendering -/

theorem renderNodes_conditions (conditions : List Condition) :
    renderNodes (conditions.map Condition.toExpression) =
      .ok (conditions.map Condition.fragment) := by
  induction conditions with
  | nil => rfl
  | cons c conditions ih =>
    rw [List.map_cons, renderNodes, Expression.render_condition, ih]
    rfl

theorem Condition.fragment_ne_nil (c : Condition) : c.fragment ≠ [] := by
  obtain ⟨test, negated⟩ := c
  cases negated with
  | true => exact List.cons_ne_nil _ _
  | false =>
    cases test with
    | term field value =>
      change Fragment.term field value ≠ []
      unfold Fragment.term
      split <;> exact List.cons_ne_nil _ _
    | range | present => exact List.cons_ne_nil _ _

theorem Fragment.group_ne_nil (mode : JoinMode) {fragments : List Mapping}
    (h : ∀ f ∈ fragments, f ≠ []) (hne : fragments ≠ []) : group mode fragments ≠ [] := by
  rcases group_eq mode h with ⟨f, rfl, heq⟩ | hnil | heq
  · rw [heq]
    exact h f (List.mem_singleton_self f)
  · exact absurd hnil hne
  · rw [heq]
    exact List.cons_ne_nil _ _

/-- The fragment of lookups joins those of their nodes. -/
theorem Lookups.join_fragment {lookups : Lookups} (hne : lookups ≠ []) :
    Join.join .filters (.text JoinMode.and.name)
        ((lookups.conditions.map Condition.fragment).map .map) =
      .ok (some (.map lookups.fragment)) := by
  have hfragments : ∀ f ∈ lookups.conditions.map Condition.fragment, f ≠ [] := by
    simp [Condition.fragment_ne_nil]
  have hconditions : lookups.conditions.map Condition.fragment ≠ [] := by
    simpa using conditions_ne_nil hne
  rw [Join.join_group (.inl rfl)]
  exact congrArg Except.ok
    (Fragment.part_of_ne_nil (Fragment.group_ne_nil .and hfragments hconditions))

/--
Lookups resolve to their grouping.  For lookups, at least one and none under the name of the
receiver, that are all read differently: building their node fails for a field exactly if something
is wrong with one of them.  Otherwise the two passes end with the grouping, which has one range,
with all the ends in order, for every field that has ends, and the node renders as the conjunction
of what these nodes render as.
-/
theorem Lookups.resolved_by_grouping {lookups : Lookups} (hne : lookups ≠ [])
    (hself : ∀ l ∈ lookups, l.1 ≠ "self")
    (hdistinct : (lookups.map fun l ↦ LookupKey.read l.1).Nodup) :
    let given : Mapping := lookups.map fun l ↦ entry l.1 l.2
    ((∃ fault, Expression.buildLookup given = .error fault ∧ fault.kind = .field) ↔
      ∃ l ∈ lookups, Malformed l) ∧
    ((¬ ∃ l ∈ lookups, Malformed l) →
      Expression.buildLookup given = .ok (.lookup lookups) ∧
      Expression.resolveLookup given = .ok (lookups, lookups.grouped) ∧
      lookups.nodes = lookups.grouped ∧
      (∀ field, lookups.grouped.filter (·.isRangeOn field) =
        if (lookups.endsOn field).isEmpty then [] else [lookups.wholeRange field]) ∧
      ∃ fragments fragment, renderNodes lookups.grouped = .ok fragments ∧
        (Expression.lookup lookups).render = .ok fragment ∧
        Join.join .filters (.text JoinMode.and.name) (fragments.map .map) =
          .ok (some (.map fragment))) := by
  intro given
  have hbounds := nodup_endsOn hdistinct
  have hresolve := Expression.resolveLookup_eq hne hself
  have hbuild := Expression.buildLookup_eq_check hne hself
  rw [← grouped_eq_nodes hbounds] at hresolve
  constructor
  · rw [hbuild]
    constructor
    · rintro ⟨fault, hfault, -⟩
      by_contra hsound
      push Not at hsound
      rw [check_of_sound hsound] at hfault
      cases hfault
    · rintro ⟨l, hl, hmalformed⟩
      cases hcheck : lookups.check with
      | error fault => exact ⟨fault, rfl, refusesField_check lookups fault hcheck⟩
      | ok => exact absurd hmalformed (sound_of_check hcheck hl (kept_of_nodup hbounds hl))
  · intro hsound
    push Not at hsound
    rw [hbuild, hresolve, check_of_sound hsound]
    refine ⟨rfl, rfl, (grouped_eq_nodes hbounds).symm, filter_isRangeOn_grouped hbounds,
      lookups.conditions.map Condition.fragment, lookups.fragment, ?_, rfl, join_fragment hne⟩
    rw [grouped_eq_nodes hbounds, nodes, renderNodes_conditions]

/-- Two ends of one range, around the conditions on other fields. -/
theorem Lookups.resolved_by_grouping_around :
    let lookups : Lookups :=
      [("year__gte", .int 1990), ("info__lang__ne", .text "de"), ("year__lt", .int 2000),
       ("cover__exists", .bool false)]
    let nodes : List Expression :=
      [.range "year" [⟨.gte, .int 1990, .tuple⟩, ⟨.lt, .int 2000, .tuple⟩],
       .not (.term "info.lang" (.text "de")), .not (.present "cover")]
    lookups.grouped = nodes ∧ (¬ ∃ l ∈ lookups, Malformed l) ∧
      Expression.resolveLookup (lookups.map fun l ↦ entry l.1 l.2) = .ok (lookups, nodes) := by
  intro lookups nodes
  have hgrouped : lookups.grouped = nodes := by rfl
  have hown : lookups.forM checkOwn = .ok () := by rfl
  have hsound : ¬ ∃ l ∈ lookups, Malformed l := by
    rintro ⟨l, hl, hmalformed⟩
    exact checkOwn_eq_ok_iff.mp (forM_eq_ok.mp hown l hl) hmalformed
  have hne : lookups ≠ [] := List.cons_ne_nil _ _
  have hresolved := resolved_by_grouping hne (by decide) (by decide)
  refine ⟨hgrouped, hsound, ?_⟩
  rw [← hgrouped]
  exact (hresolved.2 hsound).2.1

/-- Under the name of the receiver a lookup is never read: nothing is wrong with it, and building
fails, but not for a field. -/
theorem Lookups.not_resolved_at_self :
    let l : String × Value := ("self", .int 1)
    ¬ Malformed l ∧
      Expression.buildLookup [entry l.1 l.2] = .error (.repeatedArgument "Q.__init__" "self") ∧
      (Fault.repeatedArgument "Q.__init__" "self").kind = .type := by
  intro l
  have hchecked : checkOwn ("self", .int 1) = .ok () := rfl
  exact ⟨checkOwn_eq_ok_iff.mp hchecked, rfl, rfl⟩

end SearchCriteria
