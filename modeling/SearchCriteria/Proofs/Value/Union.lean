import Mathlib.Data.List.Pairwise
import SearchCriteria.Proofs.Expression.Hashing
import SearchCriteria.Proofs.Latest
import SearchCriteria.Proofs.Patch

/-!
# The union of values

Hashable values join the members before them unless the same key is there, so the union is the
ordered union by keys, and its laws are those of adding one by one.  It is the union by equality
exactly as far as equal values are the same key, which is where their raw fragments read alike.
-/

namespace SearchCriteria

open Association (Lawful)

namespace Distinct

variable {α : Type} {same : α → α → Bool}

/-- Only the comparisons with what is added count. -/
theorem addAll_congr {other : α → α → Bool} {items additions : List α}
    (h : ∀ x ∈ items ++ additions, ∀ y ∈ additions, same x y = other x y) :
    addAll same items additions = addAll other items additions := by
  induction additions generalizing items with
  | nil => rfl
  | cons y ys ih =>
    have hany : items.any (same · y) = items.any (other · y) := by
      rw [Bool.eq_iff_iff, List.any_eq_true, List.any_eq_true]
      refine exists_congr fun x ↦ and_congr_right fun hx ↦ ?_
      rw [h x (List.mem_append_left _ hx) y List.mem_cons_self]
    have hadd : add same items y = add other items y := by rw [add, add, hany]
    change addAll same (add same items y) ys = addAll other (add other items y) ys
    rw [← hadd]
    refine ih fun x hx z hz ↦ h x ?_ z (List.mem_cons_of_mem y hz)
    have hmem : x ∈ addAll same items [y] ∨ x ∈ ys := List.mem_append.mp hx
    rw [← List.singleton_append, ← List.append_assoc, List.mem_append, List.mem_append]
    exact hmem.imp_left mem_addAll

/-- Nothing is added that is there. -/
theorem addAll_of_any {items additions : List α}
    (h : ∀ y ∈ additions, items.any (same · y) = true) : addAll same items additions = items := by
  induction additions with
  | nil => rfl
  | cons y ys ih =>
    obtain ⟨hy, hys⟩ := List.forall_mem_cons.mp h
    change addAll same (add same items y) ys = items
    rw [add_of_any hy, ih hys]

variable (hs : Lawful same)

include hs

theorem separate_cons {x : α} {xs : List α} :
    Separate same (x :: xs) ↔ xs.any (same · x) = false ∧ Separate same xs := by
  rw [Separate, List.pairwise_cons]
  simp only [List.any_eq_false, hs.comm x, Bool.not_eq_true, Separate]

/-- Lists whose items are the same in turn hold the same items. -/
theorem any_eq_of_forall₂ {xs ys : List α} (h : List.Forall₂ (same · · = true) xs ys) (z : α) :
    xs.any (same · z) = ys.any (same · z) := by
  induction h with
  | nil => rfl
  | cons hxy _ ih => rw [List.any_cons, List.any_cons, hs.congr hxy, ih]

theorem Separate.of_forall₂ {xs ys : List α} (h : List.Forall₂ (same · · = true) xs ys)
    (hxs : Separate same xs) : Separate same ys := by
  induction h with
  | nil => exact hxs
  | @cons x y xs ys hxy hrest ih =>
    obtain ⟨hx, hxs⟩ := (separate_cons hs).mp hxs
    refine (separate_cons hs).mpr ⟨?_, ih hxs⟩
    rw [← any_eq_of_forall₂ hs hrest]
    simpa only [hs.comm _ x, hs.comm _ y, hs.congr hxy] using hx

/-- A union is its first part exactly if that has no repetitions and holds the second. -/
theorem forall₂_union_iff {xs ys : List α} :
    List.Forall₂ (same · · = true) (union same xs ys) xs ↔
      Separate same xs ∧ ∀ y ∈ ys, xs.any (same · y) = true := by
  constructor
  · intro h
    refine ⟨Separate.of_forall₂ hs h (separate_union xs ys), fun y hy ↦ ?_⟩
    rw [← any_eq_of_forall₂ hs h, union, any_addAll hs, List.any_append]
    have hthere : ys.any (same · y) = true := List.any_eq_true.mpr ⟨y, hy, hs.self y⟩
    rw [hthere, Bool.or_true, Bool.or_true]
  · rintro ⟨hxs, hys⟩
    have hfirst : addAll same [] xs = xs := addAll_eq_append hxs
    rw [union, addAll_append, hfirst, addAll_of_any hys]
    exact List.forall₂_same.mpr fun x _ ↦ hs.self x

end Distinct

namespace Value

/-- Equality is an equivalence. -/
theorem equal_lawful : Lawful equal where
  self v := v.agrees_self false
  congr h := agrees_congr h

/-- A hashable value joins the members unless the same key is there. -/
theorem admit_eq_ok {v : Value} (h : v.Hashable) (members : List Value) :
    Value.admit members v = .ok (Distinct.add sameKey members v) := by
  unfold Value.admit
  split
  · cases h
    contradiction
  · rw [requireHashable_eq_ok_iff.mpr h.unhashable?_eq_none]
    rfl

theorem foldlM_admit {values : List Value} (h : ∀ v ∈ values, v.Hashable) (members : List Value) :
    values.foldlM Value.admit members = .ok (Distinct.addAll sameKey members values) := by
  induction values generalizing members with
  | nil => rfl
  | cons v vs ih =>
    obtain ⟨hv, hvs⟩ := List.forall_mem_cons.mp h
    rw [List.foldlM_cons, admit_eq_ok hv]
    exact ih hvs _

variable {a b c : List Value}

/-- The union of hashable values is the ordered union by keys. -/
theorem union_eq_ok (ha : ∀ v ∈ a, v.Hashable) (hb : ∀ v ∈ b, v.Hashable) :
    Value.union (.list a) (.list b) = .ok (.list (Distinct.union sameKey a b)) := by
  have hfold : (a ++ b).foldlM Value.admit [] = .ok (Distinct.union sameKey a b) :=
    foldlM_admit (List.forall_mem_append.mpr ⟨ha, hb⟩) []
  exact bind_eq_ok.mpr ⟨a, rfl, bind_eq_ok.mpr ⟨b, rfl, bind_eq_ok.mpr ⟨_, hfold, rfl⟩⟩⟩

theorem hashable_of_mem_union (ha : ∀ v ∈ a, v.Hashable) (hb : ∀ v ∈ b, v.Hashable) :
    ∀ v ∈ Distinct.union sameKey a b, v.Hashable := fun v hv ↦
  (Distinct.mem_union hv).elim (ha v) (hb v)

/-! ## Equal values and same keys -/

/-- Equal ones among the values have raw fragments that read alike. -/
def ReadAlike (values : List Value) : Prop :=
  ∀ v ∈ values, ∀ w ∈ values, v.Alike w → v.rawTexts = w.rawTexts

/-- There are no fragments in texts. -/
theorem readAlike_of_texts {values : List Value} (h : ∀ v ∈ values, ∃ s, v = .text s) :
    ReadAlike values := by
  rintro v hv w hw -
  obtain ⟨s, rfl⟩ := h v hv
  obtain ⟨t, rfl⟩ := h w hw
  rfl

theorem ReadAlike.sameKey_eq {values : List Value} (h : ReadAlike values) {v w : Value}
    (hv : v ∈ values) (hw : w ∈ values) : v.sameKey w = v.equal w :=
  Bool.eq_iff_iff.mpr (sameKey_iff.trans (and_iff_left_of_imp (h v hv w hw)))

/-- Where equal values are the same key, the union goes by equality. -/
theorem ReadAlike.union_eq (h : ReadAlike (a ++ b)) :
    Distinct.union sameKey a b = Distinct.union equal a b :=
  Distinct.addAll_congr fun _ hv _ hw ↦ h.sameKey_eq hv hw

theorem exists_mem_union_sameKey {x : Value} (hx : x ∈ a ++ b) :
    ∃ y ∈ Distinct.union sameKey a b, y.sameKey x = true := by
  rw [← List.any_eq_true, Distinct.union, Distinct.any_addAll sameKey_lawful, Bool.or_eq_true]
  exact .inr (List.any_eq_true.mpr ⟨x, hx, sameKey_lawful.self x⟩)

/-- What is equal to an item of the union is equal to one of the two parts. -/
theorem exists_mem_union_alike_iff (x : Value) :
    (∃ y ∈ Distinct.union sameKey a b, y.Alike x) ↔ ∃ y ∈ a ++ b, y.Alike x := by
  constructor
  · rintro ⟨y, hy, hyx⟩
    exact ⟨y, List.mem_append.mpr (Distinct.mem_union hy), hyx⟩
  · rintro ⟨y, hy, hyx⟩
    obtain ⟨z, hz, hzy⟩ := exists_mem_union_sameKey hy
    exact ⟨z, hz, (alike_of_agrees hzy).trans hyx⟩

/-- No two items of the union are equal exactly if equal items are the same key. -/
theorem pairwise_union_iff :
    (Distinct.union sameKey a b).Pairwise (fun x y ↦ ¬x.Alike y) ↔ ReadAlike (a ++ b) := by
  constructor
  · intro h v hv w hw hvw
    obtain ⟨x, hx, hxv⟩ := exists_mem_union_sameKey hv
    obtain ⟨y, hy, hyw⟩ := exists_mem_union_sameKey hw
    have hxy : x.Alike y := (alike_of_agrees hxv).trans (hvw.trans (alike_of_agrees hyw).symm)
    have hsymm : Std.Symm fun x y : Value ↦ ¬x.Alike y := ⟨fun _ _ hnot h ↦ hnot h.symm⟩
    obtain rfl : x = y := by
      by_contra hne
      exact h.forall hx hy hne hxy
    exact (sameKey_iff.mp hxv).2.symm.trans (sameKey_iff.mp hyw).2
  · intro h
    refine (Distinct.separate_union a b).imp_of_mem fun {x y} hx hy hxy halike ↦ ?_
    have hkey := h.sameKey_eq (List.mem_append.mpr (Distinct.mem_union hx))
      (List.mem_append.mpr (Distinct.mem_union hy))
    rw [hxy, show x.equal y = true from halike] at hkey
    cases hkey

/-! ## The ordered union -/

/--
Hashable values have unions, and the union is associative.  It consists of the first occurrences of
the keys, with an item equal to a value exactly if there is one in either part.  Equal items come
twice exactly if the raw fragments in equal values do not read alike; texts have none.  Otherwise it
is the ordered union by equality, and it is its first part again exactly if nothing comes twice there
and nothing in the second part is new.
-/
theorem union_laws (ha : ∀ v ∈ a, v.Hashable) (hb : ∀ v ∈ b, v.Hashable)
    (hc : ∀ v ∈ c, v.Hashable) :
    ∃ ab bc abc : List Value,
      Value.union (.list a) (.list b) = .ok (.list ab) ∧
      Value.union (.list b) (.list c) = .ok (.list bc) ∧
      Value.union (.list ab) (.list c) = .ok (.list abc) ∧
      Value.union (.list a) (.list bc) = .ok (.list abc) ∧
      ab = (a ++ b).eraseDupsBy sameKey ∧
      (∀ x : Value, (∃ y ∈ ab, y.Alike x) ↔ ∃ y ∈ a ++ b, y.Alike x) ∧
      (ab.Pairwise (fun x y ↦ ¬x.Alike y) ↔ ReadAlike (a ++ b)) ∧
      ((∀ v ∈ a ++ b, ∃ s, v = .text s) → ReadAlike (a ++ b)) ∧
      (ReadAlike (a ++ b) →
        ab = (a ++ b).eraseDupsBy equal ∧
        ((Value.list ab).Alike (.list a) ↔
          a.Pairwise (fun x y ↦ ¬x.Alike y) ∧ ∀ y ∈ b, ∃ x ∈ a, x.Alike y)) := by
  have hab := hashable_of_mem_union ha hb
  have hbc := hashable_of_mem_union hb hc
  have hassoc : Value.union (.list a) (.list (Distinct.union sameKey b c)) =
      .ok (.list (Distinct.union sameKey (Distinct.union sameKey a b) c)) := by
    rw [union_eq_ok ha hbc, Distinct.union_assoc sameKey_lawful]
  refine ⟨Distinct.union sameKey a b, Distinct.union sameKey b c, _, union_eq_ok ha hb,
    union_eq_ok hb hc, union_eq_ok hab hc, hassoc,
    Distinct.addAll_nil_eq_eraseDupsBy sameKey_lawful _, exists_mem_union_alike_iff,
    pairwise_union_iff, readAlike_of_texts, fun h ↦ ⟨?_, ?_⟩⟩
  · rw [h.union_eq]
    exact Distinct.addAll_nil_eq_eraseDupsBy equal_lawful _
  · rw [h.union_eq, alike_list_iff]
    refine (Distinct.forall₂_union_iff equal_lawful).trans (and_congr ?_ ?_)
    · simp only [Distinct.Separate, Alike, Bool.not_eq_true]
    · simp only [List.any_eq_true, Alike]

/-- A number in three types and a fragment that comes twice: each is there once. -/
theorem union_laws_of_numbers :
    let fragment : Value := .node (.raw [Mapping.entry "a" (.int 1)])
    let a : List Value := [.int 1, .text "name", fragment]
    let b : List Value := [fragment, .bool true]
    let c : List Value := [.real (.finite false 1 0), .text "name"]
    (∀ v ∈ a ++ b ++ c, v.Hashable) ∧ ReadAlike (a ++ b) ∧
      ∃ ab abc : List Value, Value.union (.list a) (.list b) = .ok (.list ab) ∧
        Value.union (.list ab) (.list c) = .ok (.list abc) ∧ ab = (a ++ b).eraseDupsBy equal ∧
        (Value.list ab).Alike (.list a) := by
  intro fragment a b c
  have hfragment : fragment.Hashable := .raw rfl
  have ha : ∀ v ∈ a, v.Hashable := by
    simp [a, hfragment, Hashable.text, Hashable.number (v := .int 1) rfl]
  have hb : ∀ v ∈ b, v.Hashable := by
    simp [b, hfragment, Hashable.number (v := .bool true) rfl]
  have hc : ∀ v ∈ c, v.Hashable := by
    simp [c, Hashable.text, Hashable.number (v := .real (.finite false 1 0)) rfl]
  have hread : ReadAlike (a ++ b) := by
    change ∀ v ∈ a ++ b, ∀ w ∈ a ++ b, v.equal w = true → v.rawTexts = w.rawTexts
    decide +kernel
  have hsame : a.Pairwise (fun x y ↦ ¬x.Alike y) ∧ ∀ y ∈ b, ∃ x ∈ a, x.Alike y := by
    change a.Pairwise (fun x y ↦ ¬x.equal y = true) ∧ ∀ y ∈ b, ∃ x ∈ a, x.equal y = true
    decide +kernel
  obtain ⟨ab, -, abc, hab, -, habc, -, -, -, -, -, hlaws⟩ := union_laws ha hb hc
  obtain ⟨hfirst, halike⟩ := hlaws hread
  refine ⟨?_, hread, ab, abc, hab, habc, hfirst, halike.mpr hsame⟩
  simpa only [List.forall_mem_append] using ⟨⟨ha, hb⟩, hc⟩

/-- Two equal fragments whose entries are in another order are both kept. -/
theorem union_of_reordered :
    let x : Value := .node (.raw [Mapping.entry "a" (.int 1), Mapping.entry "b" (.int 2)])
    let y : Value := .node (.raw [Mapping.entry "b" (.int 2), Mapping.entry "a" (.int 1)])
    x.Hashable ∧ y.Hashable ∧ x.Alike y ∧
      Value.union (.list [x]) (.list [y]) = .ok (.list [x, y]) := by
  intro x y
  have hx : x.Hashable := .raw rfl
  have hy : y.Hashable := .raw rfl
  have hkey : x.sameKey y = false := by decide +kernel
  refine ⟨hx, hy, rfl, ?_⟩
  rw [union_eq_ok (List.forall_mem_singleton.mpr hx) (List.forall_mem_singleton.mpr hy)]
  simp [Distinct.union, Distinct.addAll, Distinct.add, hkey]

end Value

end SearchCriteria
