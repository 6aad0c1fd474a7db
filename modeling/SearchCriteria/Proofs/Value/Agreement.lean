import Mathlib.Algebra.Ring.Rat
import Mathlib.Data.List.Forall2
import Mathlib.Data.Option.Basic
import SearchCriteria.Proofs.Value.Named

/-!
# Values that are alike

Alike are values that equality does not tell apart.  Between mappings it does not see the order of
the entries: mappings with distinct keys are alike exactly if they hold alike values under every
key.  So what is put into both, or laid over both, leaves them alike.
-/

namespace SearchCriteria

/-- Values that are equal. -/
def Value.Alike (v w : Value) : Prop := v.equal w = true

/-- Mappings that are equal as values. -/
def Mapping.Alike (m n : Mapping) : Prop := agreeEntries m n = true

/-- Entries under the same key, with values that are alike. -/
def EntryAlike (e f : Value × Value) : Prop := entriesAgree e f = true

/-! ## Values -/

namespace Value.Alike

variable {v w x : Value}

theorem refl (v : Value) : v.Alike v := v.agrees_self false

theorem symm (h : v.Alike w) : w.Alike v := agrees_symm h

theorem trans (h : v.Alike w) (h' : w.Alike x) : v.Alike x := agrees_trans h h'

end Value.Alike

namespace Value

theorem alike_map_iff {m n : Mapping} : (Value.map m).Alike (.map n) ↔ m.Alike n := Iff.rfl

theorem alike_text_iff {s t : String} : (Value.text s).Alike (.text t) ↔ s = t := beq_iff_eq

theorem agreeItems_iff {asKey : Bool} {xs ys : List Value} :
    agreeItems asKey xs ys = true ↔ List.Forall₂ (fun v w ↦ v.agrees asKey w = true) xs ys := by
  induction xs generalizing ys with
  | nil => cases ys <;> simp [agreeItems]
  | cons x xs ih => cases ys <;> simp [agreeItems, ih]

theorem alike_list_iff {xs ys : List Value} :
    (Value.list xs).Alike (.list ys) ↔ List.Forall₂ Alike xs ys := agreeItems_iff

theorem alike_tuple_iff {xs ys : List Value} :
    (Value.tuple xs).Alike (.tuple ys) ↔ List.Forall₂ Alike xs ys := agreeItems_iff

/-- Nothing but a text is alike to a text, and so for the other kinds of values. -/
theorem Alike.eq_text {w : Value} {s : String} (h : (Value.text s).Alike w) : w = .text s := by
  cases w with
  | text t => rw [alike_text_iff.mp h]
  | _ => cases h

theorem Alike.eq_null {w : Value} (h : Value.null.Alike w) : w = .null := by
  cases w with
  | null => rfl
  | _ => cases h

theorem Alike.exists_list {w : Value} {xs : List Value} (h : (Value.list xs).Alike w) :
    ∃ ys, w = .list ys ∧ List.Forall₂ Alike xs ys := by
  cases w with
  | list ys => exact ⟨ys, rfl, alike_list_iff.mp h⟩
  | _ => cases h

theorem Alike.exists_tuple {w : Value} {xs : List Value} (h : (Value.tuple xs).Alike w) :
    ∃ ys, w = .tuple ys ∧ List.Forall₂ Alike xs ys := by
  cases w with
  | tuple ys => exact ⟨ys, rfl, alike_tuple_iff.mp h⟩
  | _ => cases h

theorem Alike.exists_map {w : Value} {m : Mapping} (h : (Value.map m).Alike w) :
    ∃ n, w = .map n ∧ m.Alike n := by
  cases w with
  | map n => exact ⟨n, rfl, h⟩
  | _ => cases h

theorem Alike.isText_eq {v w : Value} (h : v.Alike w) (s : String) : v.isText s = w.isText s := by
  cases v with
  | text t => rw [h.eq_text]
  | _ =>
    cases w with
    | text => cases h
    | _ => rfl

end Value

/-! ### What counts -/

theorem Binary64.quantity_eq_zero_iff (x : Binary64) :
    x.quantity = .finite 0 ↔ x.isZero = true := by
  cases x with
  | finite negative mantissa exponent =>
    have hmagnitude : magnitude mantissa exponent = 0 ↔ mantissa = 0 := by
      cases exponent <;> simp [magnitude, Rat.mkRat_eq_zero]
    cases negative <;> simp [quantity, isZero, hmagnitude]
  | infinite | nan => simp [quantity, isZero]

/-- A number counts unless it is worth nothing. -/
theorem Value.truthy_of_quantity {v : Value} {q : Quantity} (h : v.quantity? = some q) :
    v.truthy = decide (q ≠ .finite 0) := by
  cases v with
  | bool b => cases b <;> cases h <;> rfl
  | int i =>
    obtain rfl := Option.some.inj h
    by_cases hi : i = 0 <;> simp [truthy, hi]
  | real x =>
    obtain rfl := Option.some.inj h
    rw [truthy, decide_not, Bool.not_eq_eq_eq_not, Bool.not_not]
    exact Bool.eq_iff_iff.mpr (by rw [decide_eq_true_iff, x.quantity_eq_zero_iff])
  | _ => cases h

theorem isEmpty_of_agreeEntries {es fs : Mapping} (h : agreeEntries es fs = true) :
    es.isEmpty = fs.isEmpty := by
  cases es with
  | nil => exact h.symm
  | cons e es =>
    cases fs with
    | nil => cases h
    | cons => rfl

theorem isEmpty_of_agreeMembers {xs ys : List Value} (h : agreeMembers xs ys = true) :
    xs.isEmpty = ys.isEmpty := by
  cases xs with
  | nil => exact h.symm
  | cons x xs =>
    cases ys with
    | nil => cases h
    | cons => rfl

theorem isEmpty_of_forall₂ {α : Type} {r : α → α → Prop} {xs ys : List α}
    (h : List.Forall₂ r xs ys) : xs.isEmpty = ys.isEmpty := by
  cases h <;> rfl

/-- Values that are alike count alike. -/
theorem Value.Alike.truthy_eq {v w : Value} (h : v.Alike w) : v.truthy = w.truthy := by
  cases v with
  | null => rw [h.eq_null]
  | text => rw [h.eq_text]
  | list =>
    obtain ⟨ys, rfl, hys⟩ := h.exists_list
    exact congrArg not (isEmpty_of_forall₂ hys)
  | tuple =>
    obtain ⟨ys, rfl, hys⟩ := h.exists_tuple
    exact congrArg not (isEmpty_of_forall₂ hys)
  | map =>
    obtain ⟨n, rfl, hn⟩ := h.exists_map
    exact congrArg not (isEmpty_of_agreeEntries hn)
  | set =>
    cases w with
    | set => exact congrArg not (isEmpty_of_agreeMembers h)
    | _ => cases h
  | node =>
    cases w with
    | node => rfl
    | _ => cases h
  | bool | int | real =>
    rw [Alike, equal, agrees_of_quantity rfl] at h
    obtain ⟨q, hv, hw⟩ := sameQuantity_iff.mp h
    rw [truthy_of_quantity hv, truthy_of_quantity hw]

/-! ## Entries under the same keys -/

namespace Association

variable {κ α : Type} {same : κ → κ → Bool} {r : α → α → Prop}

/-- Entries under one key, with related values. -/
def Matched (r : α → α → Prop) (p q : κ × α) : Prop := p.1 = q.1 ∧ r p.2 q.2

theorem forall₂_put {xs ys : List (κ × α)} (h : List.Forall₂ (Matched r) xs ys) {p q : κ × α}
    (hpq : Matched r p q) :
    List.Forall₂ (Matched r) (put same p.1 p.2 xs) (put same q.1 q.2 ys) := by
  obtain ⟨hkey, hvalue⟩ := hpq
  induction h with
  | nil => exact .cons ⟨hkey, hvalue⟩ .nil
  | @cons x y _ _ hxy hrest ih =>
    obtain ⟨k, v⟩ := x
    obtain ⟨_, w⟩ := y
    obtain ⟨rfl, hvw⟩ := hxy
    rw [put, put, ← hkey]
    split
    · exact .cons ⟨rfl, hvalue⟩ hrest
    · exact .cons ⟨rfl, hvw⟩ (hkey ▸ ih)

/-- Matching entries, each later one put over the earlier ones, still match. -/
theorem forall₂_ofList {xs ys : List (κ × α)} (h : List.Forall₂ (Matched r) xs ys) :
    List.Forall₂ (Matched r) (ofList same xs) (ofList same ys) := by
  have hover : ∀ {as bs : List (κ × α)}, List.Forall₂ (Matched r) as bs →
      List.Forall₂ (Matched r) (overlay same as xs) (overlay same bs ys) := by
    induction h with
    | nil => exact id
    | cons hxy _ ih => exact fun has ↦ ih (forall₂_put has hxy)
  exact hover .nil

end Association

/-! ## Mappings -/

section Permuted

variable {es fs gs : Mapping}

/-- The entries of alike mappings can be paired in some order. -/
theorem exists_perm_of_agreeEntries (h : agreeEntries es fs = true) :
    ∃ gs : Mapping, gs.Perm fs ∧ List.Forall₂ EntryAlike es gs := by
  rw [agreeEntries_eq_pairsOff] at h
  exact exists_perm_of_pairsOff h

theorem Mapping.Alike.cons {e f : Value × Value} (hef : EntryAlike e f) (h : Alike es fs) :
    Alike (e :: es) (f :: fs) := by
  have hfirst : extract? (entriesAgree e) (f :: fs) = some fs := if_pos hef
  rw [Alike, agreeEntries_eq_pairsOff] at h ⊢
  rw [List.map_cons, pairsOff, hfirst]
  exact h

theorem Mapping.Alike.refl (m : Mapping) : m.Alike m := Value.Alike.refl (.map m)

theorem Mapping.Alike.symm {m n : Mapping} (h : m.Alike n) : n.Alike m :=
  Value.Alike.symm (v := .map m) (w := .map n) h

theorem Mapping.Alike.trans {m n l : Mapping} (h : m.Alike n) (h' : n.Alike l) : m.Alike l :=
  Value.Alike.trans (v := .map m) (w := .map n) (x := .map l) h h'

/-- Mappings whose entries are alike one by one are alike. -/
theorem Mapping.alike_of_forall₂ (h : List.Forall₂ EntryAlike es fs) : es.Alike fs := by
  induction h with
  | nil => rfl
  | cons hef _ ih => exact ih.cons hef

/-- Entries in another order make the same mapping. -/
theorem Mapping.alike_of_perm (h : List.Perm es fs) : es.Alike fs := by
  have hapart := apart_of_mem_map (entriesAgree_congr es)
  rw [Alike, agreeEntries_eq_pairsOff, pairsOff_perm (h.map entriesAgree) hapart]
  exact pairsOff_self (entriesAgree_self fs)

theorem entryAlike_iff {e f : Value × Value} :
    EntryAlike e f ↔ e.1.sameKey f.1 = true ∧ e.2.Alike f.2 := Bool.and_eq_true_iff

theorem rel_get?_of_forall₂ (h : List.Forall₂ EntryAlike es gs) (key : Value) :
    Option.Rel Value.Alike (es.get? key) (gs.get? key) := by
  induction h with
  | nil => exact .none
  | @cons e g _ _ heg _ ih =>
    obtain ⟨hkey, hvalue⟩ := entryAlike_iff.mp heg
    obtain ⟨k, v⟩ := e
    obtain ⟨l, w⟩ := g
    have hsame : k.sameKey key = l.sameKey key := congrFun (Value.sameKey_lawful.congr hkey) key
    rw [Mapping.get?, Mapping.get?, Association.get?, Association.get?, hsame]
    split
    · exact .some hvalue
    · exact ih

end Permuted

namespace Mapping

variable {m n a b : Mapping}

theorem DistinctKeys.of_perm (h : m.Perm n) (hm : m.DistinctKeys) : n.DistinctKeys := by
  refine ((h.map Prod.fst).pairwise_iff ?_).mp hm
  intro k l hkl
  rw [Value.sameKey_lawful.comm]
  exact hkl

/-- A new key in front keeps the keys distinct. -/
theorem distinctKeys_cons {e : Value × Value} :
    DistinctKeys (e :: m) ↔ m.get? e.1 = none ∧ m.DistinctKeys := by
  have hnew : m.get? e.1 = none ↔ ∀ l ∈ Association.keys m, Value.sameKey e.1 l = false := by
    rw [get?, Association.get?_eq_none_iff, Association.not_holds_iff]
    simp only [Value.sameKey_lawful.comm e.1]
  rw [hnew]
  exact Association.distinctKeys_cons e.1 e.2 m

theorem DistinctKeys.of_forall₂ (h : List.Forall₂ EntryAlike m n) (hm : m.DistinctKeys) :
    n.DistinctKeys := by
  induction h with
  | nil => exact hm
  | @cons e f m n hef hrest ih =>
    obtain ⟨he, hes⟩ := distinctKeys_cons.mp hm
    obtain ⟨hkey, -⟩ := entryAlike_iff.mp hef
    have hrel := rel_get?_of_forall₂ hrest f.1
    rw [Mapping.get?, ← Association.get?_congr Value.sameKey_lawful hkey m] at hrel
    have hnone : Mapping.get? n f.1 = none := by
      rw [← Mapping.get?, he] at hrel
      generalize Mapping.get? n f.1 = found at hrel
      cases hrel
      rfl
    exact distinctKeys_cons.mpr ⟨hnone, ih hes⟩

/-- Keys that are distinct on one side of alike mappings are distinct on the other. -/
theorem Alike.distinctKeys (h : m.Alike n) (hm : m.DistinctKeys) : n.DistinctKeys := by
  obtain ⟨l, hperm, hl⟩ := exists_perm_of_agreeEntries h
  exact (hm.of_forall₂ hl).of_perm hperm

/-- Under distinct keys the order of the entries does not matter for looking up. -/
theorem DistinctKeys.get?_perm (hm : m.DistinctKeys) (h : m.Perm n) (key : Value) :
    m.get? key = n.get? key := by
  cases hfound : m.get? key with
  | some v =>
    obtain ⟨e, he, hkey, rfl⟩ := Association.exists_mem_of_get? hfound
    rw [← get?_of_mem (hm.of_perm h) (h.mem_iff.mp he)]
    exact Association.get?_congr Value.sameKey_lawful hkey n
  | none =>
    rw [get?, Association.get?_eq_none_iff, Association.not_holds_iff] at hfound
    refine (Association.get?_eq_none_iff.mpr (Association.not_holds_iff.mpr fun k hk ↦ ?_)).symm
    exact hfound k ((h.map Prod.fst).mem_iff.mpr hk)

/-- Alike mappings hold alike values under every key. -/
theorem Alike.get? (h : m.Alike n) (hm : m.DistinctKeys) (key : Value) :
    Option.Rel Value.Alike (m.get? key) (n.get? key) := by
  obtain ⟨l, hperm, hl⟩ := exists_perm_of_agreeEntries h
  rw [← (hm.of_forall₂ hl).get?_perm hperm key]
  exact rel_get?_of_forall₂ hl key

theorem get?_cons (e : Value × Value) (m : Mapping) (key : Value) :
    Mapping.get? (e :: m) key = if e.1.sameKey key then some e.2 else m.get? key := rfl

/-- Distinct keys that hold alike values everywhere make alike mappings. -/
theorem alike_of_get? (hm : m.DistinctKeys) (hn : n.DistinctKeys)
    (h : ∀ key, Option.Rel Value.Alike (m.get? key) (n.get? key)) : m.Alike n := by
  induction m generalizing n with
  | nil =>
    cases n with
    | nil => rfl
    | cons f n =>
      have hrel := h f.1
      rw [get?_cons, if_pos (Value.sameKey_lawful.self f.1)] at hrel
      cases hrel
  | cons e m ih =>
    obtain ⟨he, hrest⟩ := distinctKeys_cons.mp hm
    have hrel := h e.1
    rw [get?_cons, if_pos (Value.sameKey_lawful.self e.1)] at hrel
    generalize hfound : n.get? e.1 = found at hrel
    obtain ⟨hvalue⟩ := hrel
    obtain ⟨f, hf, hkey, rfl⟩ := Association.exists_mem_of_get? hfound
    obtain ⟨before, behind, rfl⟩ := List.append_of_mem hf
    -- the partner can as well stand in front
    have hperm : List.Perm (before ++ f :: behind) (f :: (before ++ behind)) := List.perm_middle
    obtain ⟨hf, hbehind⟩ := distinctKeys_cons.mp (hn.of_perm hperm)
    have hfirst : Alike (e :: m) (f :: (before ++ behind)) := by
      refine (ih hrest hbehind fun key ↦ ?_).cons
        (entryAlike_iff.mpr ⟨Value.sameKey_lawful.symm hkey, hvalue⟩)
      have hboth := h key
      rw [hn.get?_perm hperm, get?_cons, get?_cons, Value.sameKey_lawful.congr hkey] at hboth
      by_cases hsame : e.1.sameKey key = true
      · have hm : Mapping.get? m key = none :=
          (Association.get?_congr Value.sameKey_lawful hsame m).symm.trans he
        have hfkey : f.1.sameKey key = true := Value.sameKey_lawful.congr hkey ▸ hsame
        have hn : Mapping.get? (before ++ behind) key = none :=
          (Association.get?_congr Value.sameKey_lawful hfkey _).symm.trans hf
        rw [hm, hn]
        exact .none
      · rwa [if_neg hsame, if_neg hsame] at hboth
    exact hfirst.trans (alike_of_perm hperm.symm)

/-! ### Texts as keys -/

theorem Alike.getText? (h : m.Alike n) (hm : m.DistinctKeys) (name : String) :
    Option.Rel Value.Alike (m.getText? name) (n.getText? name) := by
  rw [← get?_text, ← get?_text]
  exact h.get? hm (.text name)

theorem entryAlike_entry {v w : Value} (name : String) (h : v.Alike w) :
    EntryAlike (entry name v) (entry name w) :=
  entryAlike_iff.mpr ⟨Value.sameKey_lawful.self (.text name), h⟩

theorem alike_single {v w : Value} (name : String) (h : v.Alike w) :
    (single name v).Alike (single name w) := (Alike.refl []).cons (entryAlike_entry name h)

/-! ### Laying over -/

theorem rel_or {v w v' w' : Option Value} (h : Option.Rel Value.Alike v w)
    (h' : Option.Rel Value.Alike v' w') : Option.Rel Value.Alike (v.or v') (w.or w') := by
  cases h with
  | none => exact h'
  | some h => exact .some h

/-- Alike additions leave alike mappings alike. -/
theorem Alike.overlay (h : m.Alike n) (hab : a.Alike b) (hm : m.DistinctKeys)
    (ha : a.DistinctKeys) : (m.overlay a).Alike (n.overlay b) := by
  have hn : n.DistinctKeys := h.distinctKeys hm
  have hb : b.DistinctKeys := hab.distinctKeys ha
  refine alike_of_get? (hm.overlay a) (hn.overlay b) fun key ↦ ?_
  rw [get?_overlay ha, get?_overlay hb]
  exact rel_or (hab.get? ha key) (h.get? hm key)

theorem Alike.put {e f : Value × Value} (h : m.Alike n) (hef : EntryAlike e f)
    (hm : m.DistinctKeys) : (m.put e.1 e.2).Alike (n.put f.1 f.2) :=
  h.overlay ((Alike.refl []).cons hef) hm (List.pairwise_singleton _ _)

theorem put_text (m : Mapping) (name : String) (v : Value) :
    m.put (.text name) v = m.putText name v := by
  simp only [put, putText]
  induction m with
  | nil => rfl
  | cons e rest ih => simp only [Association.put, Value.sameKey_text, ih]

theorem DistinctKeys.putText (hm : m.DistinctKeys) (name : String) (v : Value) :
    (m.putText name v).DistinctKeys := by
  rw [← put_text]
  exact Association.DistinctKeys.put hm (.text name) v

theorem Alike.putText {v w : Value} (h : m.Alike n) (hvw : v.Alike w) (hm : m.DistinctKeys)
    (name : String) : (m.putText name v).Alike (n.putText name w) := by
  rw [← put_text, ← put_text]
  exact h.put (entryAlike_entry name hvw) hm

/-! ### Entries by name -/

theorem forall₂_ofNamed {s t : List (String × Option Value)}
    (h : List.Forall₂ (Association.Matched (Option.Rel Value.Alike)) s t) :
    List.Forall₂ EntryAlike (ofNamed s) (ofNamed t) := by
  induction h with
  | nil => exact .nil
  | @cons s t _ _ hst _ ih =>
    obtain ⟨name, v⟩ := s
    obtain ⟨_, w⟩ := t
    obtain ⟨rfl, hvw⟩ := hst
    cases hvw with
    | none => exact ih
    | some hvw => exact .cons (entryAlike_entry _ hvw) ih

theorem ofNamed_append (s t : List (String × Option Value)) :
    ofNamed (s ++ t) = ofNamed s ++ ofNamed t := List.flatMap_append

/-- Different names are distinct keys. -/
theorem distinctKeys_ofNamed {s : List (String × Option Value)} (h : (s.map Prod.fst).Nodup) :
    (ofNamed s).DistinctKeys := by
  induction s with
  | nil => exact .nil
  | cons e s ih =>
    obtain ⟨hnew, hrest⟩ := List.nodup_cons.mp h
    obtain ⟨name, value⟩ := e
    cases value with
    | none => exact ih hrest
    | some v =>
      refine distinctKeys_cons.mpr ⟨?_, ih hrest⟩
      exact (get?_text (ofNamed s) name).trans (getText?_ofNamed_of_not_mem hnew)

theorem getText?_of_forall₂ (h : List.Forall₂ EntryAlike m n) (name : String) :
    Option.Rel Value.Alike (m.getText? name) (n.getText? name) := by
  rw [← get?_text, ← get?_text]
  exact rel_get?_of_forall₂ h (.text name)

end Mapping

end SearchCriteria
