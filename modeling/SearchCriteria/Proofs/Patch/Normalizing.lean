import SearchCriteria.Proofs.Expression.Writing
import SearchCriteria.Proofs.Request.Compiling

/-!
# Laws of patches

Nested lists and tuples group a sequence of leaves, and flattening finds that sequence again. What a
patch adds to a storage is told leaf by leaf, so it is the same for every grouping, patches in a row
add one after the other, and what was added comes through as it is when it is a patch again.
-/

namespace SearchCriteria

/-! ## Groupings -/

/-- The values are the leaves in their order, put into lists and tuples in some way. -/
inductive Grouped : List Value → List Value → Prop
  | nil : Grouped [] []
  | leaf {v : Value} {leaves values : List Value} (hv : v.IsLeaf) (h : Grouped leaves values) :
    Grouped (v :: leaves) (v :: values)
  | list {inner leaves items values : List Value} (hitems : Grouped inner items)
      (h : Grouped leaves values) : Grouped (inner ++ leaves) (.list items :: values)
  | tuple {inner leaves items values : List Value} (hitems : Grouped inner items)
      (h : Grouped leaves values) : Grouped (inner ++ leaves) (.tuple items :: values)

mutual

theorem Value.grouped_cons {leaves values : List Value} (h : Grouped leaves values) :
    ∀ v : Value, Grouped (v.leaves ++ leaves) (v :: values)
  | .list items => .list (grouped_leavesOf items) h
  | .tuple items => .tuple (grouped_leavesOf items) h
  | .null | .bool _ | .int _ | .real _ | .text _ | .map _ | .set _ _ | .node _ => .leaf trivial h
termination_by structural v => v

theorem grouped_leavesOf : ∀ values : List Value, Grouped (leavesOf values) values
  | [] => .nil
  | v :: values => Value.grouped_cons (grouped_leavesOf values) v
termination_by structural values => values

end

/-- There is one sequence of leaves that values group. -/
theorem grouped_iff {leaves values : List Value} :
    Grouped leaves values ↔ leavesOf values = leaves := by
  constructor
  · intro h
    induction h with
    | nil => rfl
    | leaf hv _ ih => rw [leavesOf, hv.leaves_eq, ih, List.singleton_append]
    | list _ _ ihitems ih | tuple _ _ ihitems ih => rw [leavesOf, Value.leaves, ihitems, ih]
  · rintro rfl
    exact grouped_leavesOf values

namespace Patch

variable {p q : Value}

theorem leaves_eq_of_grouped {leaves : List Value} (h : Grouped leaves (wrapped p)) :
    Patch.leaves p = leaves :=
  grouped_iff.mp h

/-! ## Names -/

/-- A short value gives a name unless it is a node that cannot be rendered. -/
theorem exists_nameOf_iff {v : Value} (h : v.Short) :
    (∃ name, nameOf v = .ok name) ↔ ∀ e, v = .node e → e.Renderable := by
  cases v with
  | null | bool => exact ⟨nofun, fun _ ↦ ⟨_, rfl⟩⟩
  | _ => exact h.exists_display_iff

/-- There are names exactly if every leaf gives one. -/
theorem exists_names_iff :
    (∃ found, names p = .ok found) ↔ ∀ v ∈ leaves p, ∃ name, nameOf v = .ok name := by
  have hmapM : (∃ found, names p = .ok found) ↔ ∃ all, (leaves p).mapM nameOf = .ok all :=
    exists_bind_pure _ fun all : List String ↦ all.filter (!Text.isBlank ·)
  rw [hmapM, exists_mapM_iff]

theorem exists_names_iff_of_short (h : ∀ v ∈ leaves p, v.Short) :
    (∃ found, names p = .ok found) ↔ ∀ e, .node e ∈ leaves p → e.Renderable := by
  rw [exists_names_iff]
  constructor
  · exact fun hnames e he ↦ (exists_nameOf_iff (h _ he)).mp (hnames _ he) e rfl
  · exact fun hnodes v hv ↦ (exists_nameOf_iff (h v hv)).mpr fun e he ↦ hnodes e (he ▸ hv)

/-- Names given in a row are told one after the other, up to the first that has no text. -/
theorem names_append (xs ys : List Value) :
    names (.list (xs ++ ys)) = do
      let found ← names (.list xs)
      let more ← names (.list ys)
      return found ++ more := by
  simp only [names, leaves_list, leavesOf_append, List.mapM_append]
  cases (leavesOf xs).mapM nameOf with
  | error => rfl
  | ok all =>
    cases (leavesOf ys).mapM nameOf with
    | error => rfl
    | ok more => exact congrArg Except.ok (List.filter_append ..)

/-! ## Sort keys -/

/-- What is asked for: a pair for every entry of a mapping, and any other value by itself. -/
def sortParts : Value → List ((Value × Value) ⊕ Value)
  | .map entries => entries.map .inl
  | v => [.inr v]

/-- Splitting a mapping leaves its pairs as they are. -/
theorem flatMap_sortParts_sortKeys (v : Value) : (sortKeys v).flatMap sortParts = sortParts v := by
  cases v with
  | map entries =>
    rw [sortKeys, List.flatMap_map]
    exact List.flatMap_pure_eq_map ..
  | _ => rfl

theorem flatMap_sortParts_sortSpecs :
    (sortSpecs p).flatMap sortParts = (leaves p).flatMap sortParts := by
  rw [sortSpecs, List.flatMap_assoc]
  exact congrArg List.flatten (List.map_congr_left fun v _ ↦ flatMap_sortParts_sortKeys v)

/-! ## The three kinds of patches -/

/--
Clauses, names and sort keys that were added come through as they are, what patches add in a row is
added one after the other, and the grouping of the leaves makes no difference. Leaves that are short
give their names unless one of them cannot be rendered; every pair and every other leaf is asked for
in its place in the order, and no mapping asks for more than one pair.
-/
theorem normalizing_laws (p : Value) :
    (items (.list (items p)) = items p ∧ sortSpecs (.list (sortSpecs p)) = sortSpecs p ∧
      ∀ found, names p = .ok found → names (.list (found.map .text)) = .ok found) ∧
    ((∀ v ∈ leaves p, v.Short) →
      ((∃ found, names p = .ok found) ↔ ∀ e, .node e ∈ leaves p → e.Renderable)) ∧
    (∀ xs ys : List Value,
      items (.list (xs ++ ys)) = items (.list xs) ++ items (.list ys) ∧
      sortSpecs (.list (xs ++ ys)) = sortSpecs (.list xs) ++ sortSpecs (.list ys) ∧
      names (.list (xs ++ ys)) = do
        let found ← names (.list xs)
        let more ← names (.list ys)
        return found ++ more) ∧
    (∃ ls, Grouped ls (wrapped p)) ∧
    ∀ ls, Grouped ls (wrapped p) →
      (∀ q, Grouped ls (wrapped q) →
        items p = items q ∧ names p = names q ∧ sortSpecs p = sortSpecs q) ∧
      (sortSpecs p).flatMap sortParts = ls.flatMap sortParts ∧
      ∀ entries, .map entries ∈ sortSpecs p → entries.length = 1 := by
  refine ⟨⟨?_, ?_, ?_⟩, exists_names_iff_of_short, ?_, ⟨leaves p, grouped_leavesOf _⟩, ?_⟩
  · exact items_eq_self (fun _ ↦ isLeaf_of_mem_items) fun _ ↦ not_blank_of_mem_items
  · exact sortSpecs_eq_self fun _ ↦ isSortKey_of_mem_sortSpecs
  · exact fun found h ↦ names_eq_self (not_blank_of_mem_names h)
  · exact fun xs ys ↦ ⟨items_append xs ys, sortSpecs_append xs ys, names_append xs ys⟩
  · intro ls hp
    obtain rfl := leaves_eq_of_grouped hp
    refine ⟨fun q hq ↦ ?_, flatMap_sortParts_sortSpecs, fun entries h ↦ ?_⟩
    · have hleaves : leaves q = leaves p := leaves_eq_of_grouped hq
      exact ⟨by rw [items, items, hleaves], by rw [names, names, hleaves],
        by rw [sortSpecs, sortSpecs, hleaves]⟩
    · exact isSortKey_of_mem_sortSpecs h

/-- A mapping of two keys among names, blanks and a number, grouped in two ways. -/
theorem normalizing_laws_of_nested :
    let keys : Value := .map [(.text "a", .int 1), (.text "b", .int 2)]
    let p : Value := .list [.text "name", .list [.int 1, .null], .bool false, .text " ", keys]
    let q : Value := .tuple [.tuple [.text "name"], .list [], .int 1,
      .list [.null, .tuple [.bool false, .text " "]], keys]
    let found := ["name", "1", "false", "\x7b'a': 1, 'b': 2\x7d"]
    (∀ v ∈ leaves p, v.Short) ∧ (∃ found, names p = .ok found) ∧
      names (.list (found.map .text)) = .ok found ∧ items p = items q ∧ names p = names q ∧
      sortSpecs p = sortSpecs q ∧
      ∀ entries, .map entries ∈ sortSpecs p → entries.length = 1 := by
  intro keys p q found
  have hliteral : keys.literal? = some "\x7b'a': 1, 'b': 2\x7d" := by decide +kernel
  have hkeys : nameOf keys = .ok "\x7b'a': 1, 'b': 2\x7d" := requireText_eq_ok_iff.mpr hliteral
  have hleaves : leaves p = [.text "name", .int 1, .null, .bool false, .text " ", keys] := rfl
  have hone : (Value.int 1).Short := Numeral.isSome_write?_iff.mp rfl
  have htwo : (Value.int 2).Short := Numeral.isSome_write?_iff.mp rfl
  have hshort : ∀ v ∈ leaves p, v.Short := by
    have hentries : keys.Short := ⟨⟨trivial, hone⟩, ⟨trivial, htwo⟩, trivial⟩
    rw [hleaves]
    simp only [List.forall_mem_cons]
    exact ⟨trivial, hone, trivial, trivial, trivial, hentries, fun _ h ↦ absurd h List.not_mem_nil⟩
  have hfound : names p = .ok found := by
    have hall : (leaves p).mapM nameOf =
        .ok ["name", "1", "", "false", " ", "\x7b'a': 1, 'b': 2\x7d"] := by
      rw [hleaves]
      simp only [List.mapM_cons, List.mapM_nil, hkeys]
      rfl
    have hfilter : ["name", "1", "", "false", " ", "\x7b'a': 1, 'b': 2\x7d"].filter
        (!Text.isBlank ·) = found := by decide +kernel
    rw [names, hall]
    exact congrArg Except.ok hfilter
  obtain ⟨⟨-, -, hnames⟩, hexists, -, -, hgrouped⟩ := normalizing_laws p
  obtain ⟨hregroup, -, hsingle⟩ := hgrouped (leaves p) (grouped_leavesOf _)
  obtain ⟨hitems, hsame, hsort⟩ := hregroup q (grouped_iff.mpr rfl)
  have hnodes : ∀ e, .node e ∈ leaves p → e.Renderable := by
    rw [hleaves]
    simp [keys]
  exact ⟨hshort, (hexists hshort).mpr hnodes, hnames found hfound, hitems, hsame, hsort, hsingle⟩

/--
An integer that is too long gives no name, and no more does a script whose parameters are no pairs,
though there is no base node in either.
-/
theorem no_names_of_unwritten :
    let number : Value := .int (10 ^ 5000)
    let script : Value := .node (.script "s" (.tuple [.int 1]))
    (leaves number = [number] ∧ ∀ found, names number ≠ .ok found) ∧
      leaves script = [script] ∧ ∀ found, names script ≠ .ok found := by
  intro number script
  have hleaf : ∀ {v : Value} {found}, leaves v = [v] → names v = .ok found →
      ∃ name, nameOf v = .ok name :=
    fun hv h ↦ exists_names_iff.mp ⟨_, h⟩ _ (hv ▸ List.mem_singleton_self _)
  refine ⟨⟨rfl, fun found hfound ↦ ?_⟩, rfl, fun found hfound ↦ ?_⟩
  · obtain ⟨name, hname⟩ := hleaf rfl hfound
    have hwritten : Numeral.write? (10 ^ 5000) = some name := requireText_eq_ok_iff.mp hname
    cases (Numeral.write?_pow_eq_none (by decide)).symm.trans hwritten
  · obtain ⟨name, hname⟩ := hleaf rfl hfound
    cases hname

end Patch

end SearchCriteria
