import SearchCriteria.Expression.Lookup
import SearchCriteria.Message
import SearchCriteria.Proofs.Latest
import SearchCriteria.Proofs.Patch

/-!
# What lookups ask for

A lookup makes a condition of its own, or it gives an end for the range of its field.  Ends come
together in a table, where a later one takes the place of an earlier one with the same bound, so an
end is kept exactly if the last lookup that is read like its own gives the same value.
-/

namespace SearchCriteria

/-- A check before a computation that may fail has to end well too. -/
theorem check_bind_eq_ok {β ε : Type} {x : Except ε Unit} {y : Except ε β} {b : β} :
    (x >>= fun _ ↦ y) = .ok b ↔ x = .ok () ∧ y = .ok b := by
  cases x <;> simp [bind, Except.bind]

namespace Lookups

variable {lookups rest : Lookups} {l : String × Value} {field : String} {bound : Bound}
  {value : Value} {c : Condition} {ranged : List String}

/-! ## Ends and other conditions -/

/-- The end that a lookup gives for a field. -/
def endOn? (field : String) (l : String × Value) : Option (Bound × Value) :=
  match LookupKey.read l.1 with
  | (name, .bound bound) => if name = field then some (bound, l.2) else none
  | _ => none

/-- The ends given for a field, in the order of the lookups. -/
def endsOn (lookups : Lookups) (field : String) : List (Bound × Value) :=
  lookups.filterMap (endOn? field)

/-- The condition of a lookup that gives no end. -/
def condition? (l : String × Value) : Option Condition :=
  match LookupKey.read l.1 with
  | (field, .eq) | (field, .oneOf) => some ⟨.term field l.2.termValue, false⟩
  | (field, .ne) | (field, .noneOf) => some ⟨.term field l.2.termValue, true⟩
  | (field, .present) => some ⟨.present field, !l.2.truthy⟩
  | (_, .bound _) => none

theorem endOn?_eq_some_iff :
    endOn? field l = some (bound, value) ↔
      LookupKey.read l.1 = (field, .bound bound) ∧ l.2 = value := by
  unfold endOn?
  split
  · rename_i name other hread
    rw [hread]
    split <;> simp_all
  · rename_i hread
    refine ⟨(nomatch ·), fun h ↦ absurd h.1 (hread field bound)⟩

theorem mem_endsOn_iff :
    (bound, value) ∈ lookups.endsOn field ↔
      ∃ l ∈ lookups, LookupKey.read l.1 = (field, .bound bound) ∧ l.2 = value := by
  simp only [endsOn, List.mem_filterMap, endOn?_eq_some_iff]

theorem endsOn_cons_of_end {name : String} (h : LookupKey.read l.1 = (name, .bound bound)) :
    endsOn (l :: rest) field =
      if name = field then (bound, l.2) :: endsOn rest field else endsOn rest field := by
  rw [endsOn, List.filterMap_cons, endOn?, h]
  split <;> simp_all [endsOn]

/-- Every lookup is of one of the two kinds. -/
theorem gives_end_or_condition (l : String × Value) :
    (∃ field bound, LookupKey.read l.1 = (field, .bound bound)) ∨
      ∃ c, condition? l = some c := by
  unfold condition?
  obtain ⟨field, operator⟩ := LookupKey.read l.1
  cases operator with
  | bound b => exact .inl ⟨field, b, rfl⟩
  | _ => exact .inr ⟨_, rfl⟩

theorem condition?_of_end (h : LookupKey.read l.1 = (field, .bound bound)) :
    condition? l = none := by
  rw [condition?, h]

theorem endsOn_cons_of_condition (h : condition? l = some c) :
    endsOn (l :: rest) field = endsOn rest field := by
  rw [endsOn, List.filterMap_cons]
  cases hend : endOn? field l with
  | none => rfl
  | some e =>
    rw [condition?_of_end (endOn?_eq_some_iff.mp hend).1] at h
    cases h

/-! ## The table of ends -/

theorem bounds_eq_overlay (lookups : Lookups) (field : String) :
    lookups.bounds field = Association.ofList (· == ·) (lookups.endsOn field) := rfl

theorem distinctKeys_bounds (lookups : Lookups) (field : String) :
    Association.DistinctKeys (· == ·) (lookups.bounds field) :=
  Association.DistinctKeys.overlay .nil _

/-- Ends with different bounds stand in the table as they were given. -/
theorem bounds_eq_endsOn (h : ((lookups.endsOn field).map Prod.fst).Nodup) :
    lookups.bounds field = lookups.endsOn field := by
  refine Association.nil_overlay (h.imp ?_)
  intro a b hab
  exact beq_eq_false_iff_ne.mpr hab

/-- The value of the last lookup that is read like a key. -/
def lastLike? (lookups : Lookups) (key : String) : Option Value :=
  (lookups.reverse.find? fun l ↦ LookupKey.read l.1 = LookupKey.read key).map Prod.snd

/-- No later lookup gives the end of this one another value. -/
def Kept (lookups : Lookups) (l : String × Value) : Prop :=
  ∀ field bound, LookupKey.read l.1 = (field, .bound bound) →
    lookups.lastLike? l.1 = some l.2

theorem get?_filterMap_endOn? (xs : Lookups) :
    Association.get? (· == ·) bound (xs.filterMap (endOn? field)) =
      (xs.find? fun l ↦ LookupKey.read l.1 = (field, .bound bound)).map Prod.snd := by
  induction xs with
  | nil => rfl
  | cons l xs ih =>
    rw [List.filterMap_cons, List.find?_cons]
    by_cases hread : LookupKey.read l.1 = (field, .bound bound)
    · have hend : endOn? field l = some (bound, l.2) := endOn?_eq_some_iff.mpr ⟨hread, rfl⟩
      simp [hend, hread, Association.get?]
    · rw [decide_eq_false hread]
      cases hend : endOn? field l with
      | none => exact ih
      | some e =>
        obtain ⟨other, v⟩ := e
        have hother : other ≠ bound := by
          rintro rfl
          exact hread (endOn?_eq_some_iff.mp hend).1
        simpa [Association.get?, hother] using ih

/-- The table holds the value of the last lookup that gives the end. -/
theorem get?_bounds (lookups : Lookups) (field : String) (bound : Bound) :
    Association.get? (· == ·) bound (lookups.bounds field) =
      (lookups.reverse.find? fun l ↦ LookupKey.read l.1 = (field, .bound bound)).map Prod.snd := by
  have hlast := Association.get?_overlay_eq_reverse Association.lawful_beq bound []
    (lookups.endsOn field)
  rw [Association.get?_nil, Option.or_none] at hlast
  rw [bounds_eq_overlay, Association.ofList, hlast, endsOn, ← List.filterMap_reverse,
    get?_filterMap_endOn?]

theorem lastLike?_eq_get? (h : LookupKey.read l.1 = (field, .bound bound)) :
    lookups.lastLike? l.1 = Association.get? (· == ·) bound (lookups.bounds field) := by
  rw [get?_bounds, lastLike?, h]

/-- The ends in the table are those that are kept. -/
theorem mem_bounds_iff :
    (bound, value) ∈ lookups.bounds field ↔
      ∃ l ∈ lookups, LookupKey.read l.1 = (field, .bound bound) ∧ l.2 = value ∧
        lookups.Kept l := by
  constructor
  · intro h
    have hget :=
      Association.get?_of_mem Association.lawful_beq (lookups.distinctKeys_bounds field) h
    have hfind := hget
    rw [get?_bounds] at hfind
    obtain ⟨l, hl, hvalue⟩ := Option.map_eq_some_iff.mp hfind
    have hread : LookupKey.read l.1 = (field, .bound bound) := by simpa using List.find?_some hl
    refine ⟨l, List.mem_reverse.mp (List.mem_of_find?_eq_some hl), hread, hvalue, ?_⟩
    intro name other hother
    obtain ⟨rfl, hbound⟩ := Prod.mk.inj (hread.symm.trans hother)
    rw [lastLike?_eq_get? hread, hget, hvalue]
  · rintro ⟨l, -, hread, rfl, hkept⟩
    have hget := hkept field bound hread
    rw [lastLike?_eq_get? hread] at hget
    obtain ⟨⟨other, v⟩, he, hbound, hvalue⟩ := Association.exists_mem_of_get? hget
    obtain rfl : other = bound := eq_of_beq hbound
    obtain rfl : v = l.2 := hvalue
    exact he

/-- With different bounds under every field, every end is kept. -/
theorem kept_of_nodup (h : ∀ field, ((lookups.endsOn field).map Prod.fst).Nodup)
    (hl : l ∈ lookups) : lookups.Kept l := by
  intro field bound hread
  have hmem : (bound, l.2) ∈ lookups.bounds field := by
    rw [bounds_eq_endsOn (h field)]
    exact mem_endsOn_iff.mpr ⟨l, hl, hread, rfl⟩
  rw [lastLike?_eq_get? hread]
  exact Association.get?_of_mem Association.lawful_beq (lookups.distinctKeys_bounds field) hmem

/-- Lookups that are read differently give different bounds under every field. -/
theorem nodup_endsOn (h : (lookups.map fun l ↦ LookupKey.read l.1).Nodup) (field : String) :
    ((lookups.endsOn field).map Prod.fst).Nodup := by
  induction lookups with
  | nil => exact List.nodup_nil
  | cons l rest ih =>
    obtain ⟨hl, hrest⟩ := List.nodup_cons.mp h
    rw [endsOn, List.filterMap_cons]
    cases hend : endOn? field l with
    | none => exact ih hrest
    | some e =>
      obtain ⟨bound, value⟩ := e
      refine List.nodup_cons.mpr ⟨?_, ih hrest⟩
      intro hmem
      obtain ⟨⟨_, v⟩, hv, rfl⟩ := List.mem_map.mp hmem
      obtain ⟨m, hm, hread, -⟩ := mem_endsOn_iff.mp hv
      exact hl (List.mem_map.mpr ⟨m, hm, hread.trans (endOn?_eq_some_iff.mp hend).1.symm⟩)

/-! ## Conditions -/

theorem conditionsFrom_of_condition (h : condition? l = some c) (ranged : List String)
    (rest : Lookups) :
    lookups.conditionsFrom ranged (l :: rest) = c :: lookups.conditionsFrom ranged rest := by
  obtain ⟨key, value⟩ := l
  unfold condition? at h
  rw [conditionsFrom]
  split at h <;> simp_all

theorem conditionsFrom_of_end (h : LookupKey.read l.1 = (field, .bound bound))
    (ranged : List String) (rest : Lookups) :
    lookups.conditionsFrom ranged (l :: rest) =
      if ranged.contains field then lookups.conditionsFrom ranged rest
      else ⟨lookups.rangeOn field, false⟩ :: lookups.conditionsFrom (field :: ranged) rest := by
  obtain ⟨key, value⟩ := l
  have hread : LookupKey.read key = (field, .bound bound) := h
  rw [conditionsFrom, hread]

/-- A lookup gives an end for the field. -/
def HasRange (lookups : Lookups) (field : String) : Prop :=
  ∃ l ∈ lookups, ∃ bound, LookupKey.read l.1 = (field, .bound bound)

theorem hasRange_cons_of_end {name : String} (h : LookupKey.read l.1 = (name, .bound bound)) :
    HasRange (l :: rest) field ↔ field = name ∨ HasRange rest field := by
  simp only [HasRange, List.mem_cons, exists_eq_or_imp]
  refine or_congr ⟨?_, ?_⟩ Iff.rfl
  · rintro ⟨b, hb⟩
    exact (Prod.mk.inj (hb.symm.trans h)).1
  · rintro rfl
    exact ⟨bound, h⟩

theorem hasRange_cons_of_condition (h : condition? l = some c) :
    HasRange (l :: rest) field ↔ HasRange rest field := by
  simp only [HasRange, List.mem_cons, exists_eq_or_imp]
  refine or_iff_right ?_
  rintro ⟨b, hb⟩
  rw [condition?_of_end hb] at h
  cases h

/-- A field that has a range has ends in the table. -/
theorem bounds_ne_nil (h : HasRange lookups field) : lookups.bounds field ≠ [] := by
  obtain ⟨l, hl, bound, hread⟩ := h
  have hend : (bound, l.2) ∈ lookups.endsOn field := mem_endsOn_iff.mpr ⟨l, hl, hread, rfl⟩
  exact Association.ofList_ne_nil (List.ne_nil_of_mem hend)

/-- The conditions are those of the lookups that have one, and a range for each other field. -/
theorem mem_conditionsFrom_iff :
    c ∈ lookups.conditionsFrom ranged rest ↔
      (∃ l ∈ rest, condition? l = some c) ∨
        ∃ field, c = ⟨lookups.rangeOn field, false⟩ ∧ field ∉ ranged ∧ HasRange rest field := by
  induction rest generalizing ranged with
  | nil => simp [conditionsFrom, HasRange]
  | cons l rest ih =>
    simp only [List.mem_cons, exists_eq_or_imp]
    rcases gives_end_or_condition l with ⟨name, b, hread⟩ | ⟨own, hown⟩
    · rw [conditionsFrom_of_end hread, condition?_of_end hread]
      simp only [hasRange_cons_of_end hread]
      split
      · rename_i hname
        have hmem : name ∈ ranged := List.contains_iff_mem.mp hname
        rw [ih]
        grind
      · rename_i hname
        have hmem : name ∉ ranged := fun h ↦ hname (List.contains_iff_mem.mpr h)
        rw [List.mem_cons, ih]
        grind
    · simp only [conditionsFrom_of_condition hown, List.mem_cons, ih, hown,
        hasRange_cons_of_condition hown, Option.some.injEq]
      rw [or_assoc, eq_comm]

/-! ## Checks -/

/-- What can be wrong with a lookup. -/
inductive Malformed : String × Value → Prop
  | blank {key value} (h : Text.isBlank (LookupKey.read key).1 = true) : Malformed (key, value)
  | notSequence {key value}
      (h : (LookupKey.read key).2 = .oneOf ∨ (LookupKey.read key).2 = .noneOf)
      (hlist : ∀ items, value ≠ .list items) (htuple : ∀ items, value ≠ .tuple items) :
      Malformed (key, value)
  | notBool {key value} (h : (LookupKey.read key).2 = .present) (hvalue : ∀ b, value ≠ .bool b) :
      Malformed (key, value)
  | noValue {key bound} (h : (LookupKey.read key).2 = .bound bound) : Malformed (key, .null)

/-- The check of a lookup by itself. -/
def checkOwn (l : String × Value) : Except Fault Unit :=
  match LookupKey.read l.1 with
  | (field, .bound bound) => do
    requireName field
    requireLimit field bound l.2
  | (field, .oneOf) => do
    requireSequence .oneOf field l.2
    requireName field
  | (field, .noneOf) => do
    requireSequence .noneOf field l.2
    requireName field
  | (field, .present) => do
    requireBool field l.2
    requireName field
  | (field, .eq) | (field, .ne) => requireName field

theorem requireName_eq_ok_iff : requireName field = .ok () ↔ Text.isBlank field = false := by
  unfold requireName
  split <;> simp_all

theorem requireSequence_eq_ok_iff {operator : Operator} :
    requireSequence operator field value = .ok () ↔
      ¬ ((∀ items, value ≠ .list items) ∧ ∀ items, value ≠ .tuple items) := by
  cases value <;> simp [requireSequence]

theorem requireBool_eq_ok_iff :
    requireBool field value = .ok () ↔ ¬ ∀ b, value ≠ .bool b := by
  cases value <;> simp [requireBool]

theorem requireLimit_eq_ok_iff : requireLimit field bound value = .ok () ↔ value ≠ .null := by
  cases value <;> simp [requireLimit]

/-- A lookup passes its check unless something is wrong with it. -/
theorem checkOwn_eq_ok_iff : checkOwn l = .ok () ↔ ¬ Malformed l := by
  obtain ⟨key, value⟩ := l
  have hmalformed : Malformed (key, value) ↔
      Text.isBlank (LookupKey.read key).1 = true ∨
      ((LookupKey.read key).2 = .oneOf ∨ (LookupKey.read key).2 = .noneOf) ∧
        (∀ items, value ≠ .list items) ∧ (∀ items, value ≠ .tuple items) ∨
      (LookupKey.read key).2 = .present ∧ (∀ b, value ≠ .bool b) ∨
      (∃ bound, (LookupKey.read key).2 = .bound bound) ∧ value = .null := by
    constructor
    · rintro (h | ⟨h, hlist, htuple⟩ | ⟨h, hvalue⟩ | h)
      · exact .inl h
      · exact .inr (.inl ⟨h, hlist, htuple⟩)
      · exact .inr (.inr (.inl ⟨h, hvalue⟩))
      · exact .inr (.inr (.inr ⟨⟨_, h⟩, rfl⟩))
    · rintro (h | ⟨h, hlist, htuple⟩ | ⟨h, hvalue⟩ | ⟨⟨bound, h⟩, rfl⟩)
      · exact .blank h
      · exact .notSequence h hlist htuple
      · exact .notBool h hvalue
      · exact .noValue h
  rw [hmalformed, checkOwn]
  obtain ⟨field, operator⟩ := LookupKey.read key
  cases operator <;>
    simp [check_bind_eq_ok, requireName_eq_ok_iff, requireSequence_eq_ok_iff,
      requireBool_eq_ok_iff, requireLimit_eq_ok_iff, and_comm]

theorem checkEach_of_condition (h : condition? l = some c) (ranged : List String)
    (rest : Lookups) :
    checkEach ranged (l :: rest) = checkOwn l >>= fun _ ↦ checkEach ranged rest := by
  obtain ⟨key, value⟩ := l
  unfold condition? at h
  rw [checkEach, checkOwn]
  split at h <;> simp_all

theorem checkEach_of_end (h : LookupKey.read l.1 = (field, .bound bound)) (ranged : List String)
    (rest : Lookups) :
    checkEach ranged (l :: rest) =
      if ranged.contains field then checkEach ranged rest
      else checkOwn l >>= fun _ ↦ checkEach (field :: ranged) rest := by
  obtain ⟨key, value⟩ := l
  have hread : LookupKey.read key = (field, .bound bound) := h
  rw [checkEach, checkOwn, hread]
  simp

/-- The first pass lets sound lookups through. -/
theorem checkEach_of_sound (h : ∀ l ∈ rest, ¬ Malformed l) (ranged : List String) :
    checkEach ranged rest = .ok () := by
  induction rest generalizing ranged with
  | nil => rfl
  | cons l rest ih =>
    obtain ⟨hl, hrest⟩ := List.forall_mem_cons.mp h
    have hown : checkOwn l = .ok () := checkOwn_eq_ok_iff.mpr hl
    rcases gives_end_or_condition l with ⟨field, bound, hread⟩ | ⟨c, hc⟩
    · rw [checkEach_of_end hread, hown]
      split
      · exact ih hrest ranged
      · exact ih hrest (field :: ranged)
    · rw [checkEach_of_condition hc, hown]
      exact ih hrest ranged

/-- Past the first pass nothing is wrong with a lookup that has its own condition, and every range
has a name. -/
theorem sound_of_checkEach (h : checkEach ranged rest = .ok ())
    (hranged : ∀ field ∈ ranged, Text.isBlank field = false) :
    (∀ l ∈ rest, ∀ c, condition? l = some c → ¬ Malformed l) ∧
      ∀ field, HasRange rest field → Text.isBlank field = false := by
  induction rest generalizing ranged with
  | nil =>
    exact ⟨fun l hl ↦ absurd hl List.not_mem_nil,
      fun _ ⟨l, hl, _⟩ ↦ absurd hl List.not_mem_nil⟩
  | cons l rest ih =>
    rcases gives_end_or_condition l with ⟨name, bound, hread⟩ | ⟨own, hown⟩
    · have hname : Text.isBlank name = false ∧ ∃ more, checkEach more rest = .ok () ∧
          ∀ field ∈ more, Text.isBlank field = false := by
        rw [checkEach_of_end hread] at h
        split at h
        · rename_i hmem
          exact ⟨hranged name (List.contains_iff_mem.mp hmem), ranged, h, hranged⟩
        · obtain ⟨hl, hrest⟩ := check_bind_eq_ok.mp h
          have hblank : Text.isBlank name = false := by
            rw [checkOwn, hread] at hl
            exact requireName_eq_ok_iff.mp (check_bind_eq_ok.mp hl).1
          exact ⟨hblank, name :: ranged, hrest, List.forall_mem_cons.mpr ⟨hblank, hranged⟩⟩
      obtain ⟨hblank, more, hrest, hmore⟩ := hname
      obtain ⟨hsound, hnamed⟩ := ih hrest hmore
      refine ⟨List.forall_mem_cons.mpr ⟨fun c hc ↦ ?_, hsound⟩, fun field hfield ↦ ?_⟩
      · rw [condition?_of_end hread] at hc
        cases hc
      · rcases (hasRange_cons_of_end hread).mp hfield with rfl | hfield
        · exact hblank
        · exact hnamed field hfield
    · rw [checkEach_of_condition hown] at h
      obtain ⟨hl, hrest⟩ := check_bind_eq_ok.mp h
      obtain ⟨hsound, hnamed⟩ := ih hrest hranged
      refine ⟨List.forall_mem_cons.mpr ⟨fun _ _ ↦ checkOwn_eq_ok_iff.mp hl, hsound⟩, ?_⟩
      exact fun field hfield ↦ hnamed field ((hasRange_cons_of_condition hown).mp hfield)

theorem checkRange_of_condition (h : condition? l = some c) : checkRange c = .ok () := by
  unfold condition? at h
  split at h <;> cases h <;> rfl

theorem checkRange_rangeOn :
    checkRange ⟨lookups.rangeOn field, false⟩ = .ok () ↔
      ∀ bound, (bound, .null) ∉ lookups.bounds field := by
  have hcheck : checkRange ⟨lookups.rangeOn field, false⟩ = requireLimits field
      ((lookups.bounds field).map fun p ↦ ⟨p.1, p.2, .tuple⟩) := rfl
  rw [hcheck, requireLimits, forM_eq_ok, List.forall_mem_map]
  simp only [requireLimit_eq_ok_iff]
  constructor
  · exact fun h bound hmem ↦ h (bound, .null) hmem rfl
  · rintro h ⟨bound, value⟩ hmem rfl
    exact h bound hmem

/-- Lookups are accepted if the first pass lets them through and every end in the table has a
value. -/
theorem check_eq_ok_iff :
    lookups.check = .ok () ↔ checkEach [] lookups = .ok () ∧
      ∀ field, HasRange lookups field → ∀ bound, (bound, .null) ∉ lookups.bounds field := by
  have hcheck : lookups.check = checkEach [] lookups >>= fun _ ↦
      lookups.conditions.forM checkRange := rfl
  rw [hcheck, check_bind_eq_ok, forM_eq_ok, conditions]
  refine and_congr_right fun _ ↦ ⟨fun h field hfield ↦ ?_, fun h c hc ↦ ?_⟩
  · have hmem : (⟨lookups.rangeOn field, false⟩ : Condition) ∈ lookups.conditionsFrom [] lookups :=
      mem_conditionsFrom_iff.mpr (.inr ⟨field, rfl, List.not_mem_nil, hfield⟩)
    exact checkRange_rangeOn.mp (h _ hmem)
  · rcases mem_conditionsFrom_iff.mp hc with ⟨l, -, hl⟩ | ⟨field, rfl, -, hfield⟩
    · exact checkRange_of_condition hl
    · exact checkRange_rangeOn.mpr (h field hfield)

/-- Sound lookups are accepted. -/
theorem check_of_sound (h : ∀ l ∈ lookups, ¬ Malformed l) : lookups.check = .ok () := by
  refine check_eq_ok_iff.mpr ⟨checkEach_of_sound h [], fun field _ bound hmem ↦ ?_⟩
  obtain ⟨⟨key, value⟩, hl, hread, hvalue, -⟩ := mem_bounds_iff.mp hmem
  obtain rfl : value = .null := hvalue
  exact h _ hl (.noValue (congrArg Prod.snd hread))

/-- Nothing is wrong with an accepted lookup, unless a later one takes the place of its end. -/
theorem sound_of_check (h : lookups.check = .ok ()) (hl : l ∈ lookups) (hkept : lookups.Kept l) :
    ¬ Malformed l := by
  obtain ⟨heach, hvalues⟩ := check_eq_ok_iff.mp h
  obtain ⟨hsound, hnamed⟩ := sound_of_checkEach heach fun _ h ↦ absurd h List.not_mem_nil
  rcases gives_end_or_condition l with ⟨field, bound, hread⟩ | ⟨c, hc⟩
  · have hrange : HasRange lookups field := ⟨l, hl, bound, hread⟩
    have hvalue : l.2 ≠ .null := by
      intro hnull
      exact hvalues field hrange bound (mem_bounds_iff.mpr ⟨l, hl, hread, hnull, hkept⟩)
    refine checkOwn_eq_ok_iff.mp ?_
    rw [checkOwn, hread]
    exact check_bind_eq_ok.mpr ⟨requireName_eq_ok_iff.mpr (hnamed field hrange),
      requireLimit_eq_ok_iff.mpr hvalue⟩
  · exact hsound l hl c hc

/-- A lookup that is kept is accepted by itself as well. -/
theorem check_singleton (h : lookups.check = .ok ()) (hl : l ∈ lookups) (hkept : lookups.Kept l) :
    Lookups.check [l] = .ok () :=
  check_of_sound (List.forall_mem_singleton.mpr (sound_of_check h hl hkept))

/-! ## Refusals -/

/-- A check that refuses for nothing but a field. -/
def RefusesField (x : Except Fault Unit) : Prop := ∀ fault, x = .error fault → fault.kind = .field

theorem RefusesField.bind {x y : Except Fault Unit} (hx : RefusesField x) (hy : RefusesField y) :
    RefusesField (x >>= fun _ ↦ y) := by
  intro fault h
  cases x with
  | error => exact hx fault h
  | ok => exact hy fault h

theorem refusesField_ok : RefusesField (.ok ()) := fun _ h ↦ nomatch h

theorem refusesField_requireName (field : String) : RefusesField (requireName field) := by
  unfold requireName
  split
  · rintro _ ⟨⟩
    rfl
  · exact refusesField_ok

theorem refusesField_requireLimit (field : String) (bound : Bound) (value : Value) :
    RefusesField (requireLimit field bound value) := by
  unfold requireLimit
  split
  · rintro _ ⟨⟩
    rfl
  · exact refusesField_ok

theorem refusesField_requireSequence (operator : Operator) (field : String) (value : Value) :
    RefusesField (requireSequence operator field value) := by
  unfold requireSequence
  split
  · exact refusesField_ok
  · exact refusesField_ok
  · rintro _ ⟨⟩
    rfl

theorem refusesField_requireBool (field : String) (value : Value) :
    RefusesField (requireBool field value) := by
  unfold requireBool
  split
  · exact refusesField_ok
  · rintro _ ⟨⟩
    rfl

theorem refusesField_checkOwn (l : String × Value) : RefusesField (checkOwn l) := by
  unfold checkOwn
  split
  · exact (refusesField_requireName _).bind (refusesField_requireLimit _ _ _)
  · exact (refusesField_requireSequence _ _ _).bind (refusesField_requireName _)
  · exact (refusesField_requireSequence _ _ _).bind (refusesField_requireName _)
  · exact (refusesField_requireBool _ _).bind (refusesField_requireName _)
  · exact refusesField_requireName _
  · exact refusesField_requireName _

theorem refusesField_checkEach (ranged : List String) (rest : Lookups) :
    RefusesField (checkEach ranged rest) := by
  induction rest generalizing ranged with
  | nil => exact refusesField_ok
  | cons l rest ih =>
    rcases gives_end_or_condition l with ⟨field, bound, hread⟩ | ⟨c, hc⟩
    · rw [checkEach_of_end hread]
      split
      · exact ih ranged
      · exact (refusesField_checkOwn l).bind (ih _)
    · rw [checkEach_of_condition hc]
      exact (refusesField_checkOwn l).bind (ih ranged)

theorem refusesField_forM {α : Type} {check : α → Except Fault Unit} (xs : List α)
    (h : ∀ x, RefusesField (check x)) : RefusesField (xs.forM check) := by
  induction xs with
  | nil => exact refusesField_ok
  | cons x xs ih => exact (h x).bind ih

/-- Lookups are refused for their fields only. -/
theorem refusesField_check (lookups : Lookups) : RefusesField lookups.check := by
  refine (refusesField_checkEach [] lookups).bind (refusesField_forM _ fun c ↦ ?_)
  unfold checkRange
  split
  · exact refusesField_forM _ fun l ↦ refusesField_requireLimit _ _ _
  · exact refusesField_ok

end Lookups

end SearchCriteria
