import Mathlib.Data.List.Basic
import SearchCriteria.Proofs.Overlay

/-!
# Mappings by name

A document is put together entry by entry under text keys, and what is absent leaves no entry.  As
long as the names differ, the entries stand in the order in which they were added.
-/

namespace SearchCriteria

namespace Mapping

/-- The entries of the values that are there, in order. -/
def ofNamed (sections : List (String × Option Value)) : Mapping :=
  sections.flatMap fun s ↦ (s.2.map (entry s.1)).toList

@[simp] theorem ofNamed_nil : ofNamed [] = [] := rfl

@[simp] theorem ofNamed_some (name : String) (value : Value)
    (sections : List (String × Option Value)) :
    ofNamed ((name, some value) :: sections) = entry name value :: ofNamed sections := rfl

theorem ofNamed_cons (s : String × Option Value) (sections : List (String × Option Value)) :
    ofNamed (s :: sections) = ofNamed [s] ++ ofNamed sections := by
  obtain ⟨name, value⟩ := s
  cases value <;> rfl

@[simp] theorem ofNamed_none (name : String) (sections : List (String × Option Value)) :
    ofNamed ((name, none) :: sections) = ofNamed sections := rfl

/-! ## Looking up -/

@[simp] theorem getText?_nil (name : String) : getText? [] name = none := rfl

theorem getText?_cons_entry (key name : String) (value : Value) (rest : Mapping) :
    getText? (entry key value :: rest) name =
      if key = name then some value else rest.getText? name := by
  simp [getText?, entry, Association.get?]

@[simp] theorem getText?_entry_self (name : String) (value : Value) (rest : Mapping) :
    getText? (entry name value :: rest) name = some value := by
  rw [getText?_cons_entry, if_pos rfl]

theorem getText?_append (xs ys : Mapping) (name : String) :
    getText? (xs ++ ys) name = (xs.getText? name).or (ys.getText? name) := by
  induction xs with
  | nil => rfl
  | cons x xs ih =>
    obtain ⟨k, v⟩ := x
    change getText? ((k, v) :: (xs ++ ys)) name = (getText? ((k, v) :: xs) name).or _
    simp only [getText?, Association.get?] at ih ⊢
    split
    · rfl
    · exact ih

/-- A name that no section has is not found. -/
theorem getText?_ofNamed_of_not_mem {sections : List (String × Option Value)} {name : String}
    (h : name ∉ sections.map Prod.fst) : (ofNamed sections).getText? name = none := by
  induction sections with
  | nil => rfl
  | cons s rest ih =>
    obtain ⟨key, value⟩ := s
    obtain ⟨hkey, hrest⟩ : name ≠ key ∧ name ∉ rest.map Prod.fst := by simpa using h
    cases value with
    | none => exact ih hrest
    | some v => rw [ofNamed_some, getText?_cons_entry, if_neg hkey.symm, ih hrest]

/-- A section is found under its name. -/
theorem getText?_ofNamed {sections : List (String × Option Value)}
    (h : (sections.map Prod.fst).Nodup) {s : String × Option Value} (hs : s ∈ sections) :
    (ofNamed sections).getText? s.1 = s.2 := by
  induction sections with
  | nil => exact absurd hs List.not_mem_nil
  | cons r rest ih =>
    obtain ⟨hr, hrest⟩ : r.1 ∉ rest.map Prod.fst ∧ (rest.map Prod.fst).Nodup :=
      List.nodup_cons.mp h
    obtain ⟨key, value⟩ := r
    rcases List.mem_cons.mp hs with rfl | hmem
    · cases value with
      | none =>
        change (ofNamed rest).getText? key = none
        exact getText?_ofNamed_of_not_mem hr
      | some v => exact getText?_entry_self key v _
    · have hne : key ≠ s.1 := by
        rintro rfl
        exact hr (List.mem_map.mpr ⟨s, hmem, rfl⟩)
      cases value with
      | none => exact ih hrest hmem
      | some v => rw [ofNamed_some, getText?_cons_entry, if_neg hne, ih hrest hmem]

/-! ## Adding and taking away -/

theorem getText?_eq_none_iff {mapping : Mapping} {name : String} :
    mapping.getText? name = none ↔ ¬ Association.Holds Value.sameText (.text name) mapping :=
  Association.get?_eq_none_iff

/-- A section under a new name follows the entries that are there. -/
theorem addSome_of_absent {mapping : Mapping} {name : String} (h : mapping.getText? name = none)
    (value : Option Value) : mapping.addSome name value = mapping ++ ofNamed [(name, value)] := by
  cases value with
  | none => exact (List.append_nil mapping).symm
  | some v => exact Association.put_of_not_holds (getText?_eq_none_iff.mp h) v

/-- Sections under new and different names follow in order. -/
theorem foldl_addSome {s : List (String × Option Value)} (hnames : (s.map Prod.fst).Nodup)
    {m : Mapping} (habsent : ∀ name ∈ s.map Prod.fst, m.getText? name = none) :
    s.foldl (fun m s ↦ m.addSome s.1 s.2) m = m ++ ofNamed s := by
  induction s generalizing m with
  | nil => exact (List.append_nil m).symm
  | cons s rest ih =>
    obtain ⟨key, value⟩ := s
    obtain ⟨hkey, hrest⟩ : key ∉ rest.map Prod.fst ∧ (rest.map Prod.fst).Nodup :=
      List.nodup_cons.mp hnames
    obtain ⟨habs, habsrest⟩ : m.getText? key = none ∧
        ∀ name ∈ rest.map Prod.fst, m.getText? name = none := List.forall_mem_cons.mp habsent
    have hnext : ∀ name ∈ rest.map Prod.fst,
        (m ++ ofNamed [(key, value)]).getText? name = none := by
      intro name hname
      have hne : name ∉ [(key, value)].map Prod.fst := by
        rintro hmem
        obtain rfl : name = key := by simpa using hmem
        exact hkey hname
      rw [getText?_append, habsrest name hname, getText?_ofNamed_of_not_mem hne]
      rfl
    rw [List.foldl_cons, addSome_of_absent habs, ih hrest hnext, List.append_assoc, ← ofNamed_cons]

theorem eraseText_append (xs ys : Mapping) (name : String) :
    eraseText (xs ++ ys) name = xs.eraseText name ++ ys.eraseText name := List.filter_append ..

theorem eraseText_of_absent {mapping : Mapping} {name : String}
    (h : mapping.getText? name = none) : mapping.eraseText name = mapping := by
  rw [getText?_eq_none_iff, Association.not_holds_iff] at h
  refine List.filter_eq_self.mpr fun e he ↦ ?_
  rw [h e.1 (List.mem_map_of_mem he)]
  rfl

end Mapping

end SearchCriteria
