import Mathlib.Data.List.Basic
import SearchCriteria.Proofs.Value.Equality
import SearchCriteria.Value.Convert

/-!
# Laws of overlaying

Putting the entries of one key–value list over another is associative and has the empty list as its
unit, as long as no two keys of the lists are the same.  The order of the keys is part of what is
stated: a key that is there keeps its place, and new keys follow in the order in which they come.
-/

namespace SearchCriteria.Association

/-- Keys that are the same are told apart by no other key. -/
structure Lawful {κ : Type} (same : κ → κ → Bool) : Prop where
  self (k : κ) : same k k = true
  congr {k l : κ} (h : same k l = true) : same k = same l

namespace Lawful

variable {κ : Type} {same : κ → κ → Bool} (hs : Lawful same)

include hs

theorem symm {k l : κ} (h : same k l = true) : same l k = true := by
  rw [← hs.congr h]
  exact hs.self k

theorem comm (k l : κ) : same k l = same l k := Bool.eq_iff_iff.mpr ⟨hs.symm, hs.symm⟩

theorem congr_right {k l : κ} (h : same k l = true) (m : κ) : same m k = same m l := by
  rw [hs.comm m k, hs.comm m l, hs.congr h]

end Lawful

theorem lawful_beq {κ : Type} [BEq κ] [LawfulBEq κ] : Lawful fun k l : κ ↦ k == l where
  self := beq_self_eq_true
  congr h := by rw [eq_of_beq h]

section Put

variable {κ α : Type} {same : κ → κ → Bool}

/-- The keys in order. -/
def keys (entries : List (κ × α)) : List κ := entries.map Prod.fst

/-- A key that is there. -/
def Holds (same : κ → κ → Bool) (key : κ) (entries : List (κ × α)) : Prop :=
  ∃ k ∈ keys entries, same k key = true

/-- No two keys are the same. -/
def DistinctKeys (same : κ → κ → Bool) (entries : List (κ × α)) : Prop :=
  (keys entries).Pairwise fun k l ↦ same k l = false

@[simp] theorem keys_nil : keys ([] : List (κ × α)) = [] := rfl

@[simp] theorem keys_cons (k : κ) (v : α) (entries : List (κ × α)) :
    keys ((k, v) :: entries) = k :: keys entries := rfl

@[simp] theorem keys_append (xs ys : List (κ × α)) : keys (xs ++ ys) = keys xs ++ keys ys :=
  List.map_append

theorem holds_cons (key k : κ) (v : α) (entries : List (κ × α)) :
    Holds same key ((k, v) :: entries) ↔ same k key = true ∨ Holds same key entries := by
  simp [Holds]

theorem not_holds_iff {key : κ} {entries : List (κ × α)} :
    ¬ Holds same key entries ↔ ∀ k ∈ keys entries, same k key = false := by
  simp [Holds]

theorem distinctKeys_cons (k : κ) (v : α) (entries : List (κ × α)) :
    DistinctKeys same ((k, v) :: entries) ↔
      (∀ l ∈ keys entries, same k l = false) ∧ DistinctKeys same entries :=
  List.pairwise_cons

theorem DistinctKeys.nil : DistinctKeys same ([] : List (κ × α)) := List.Pairwise.nil

theorem get?_isSome_iff {key : κ} {entries : List (κ × α)} :
    (get? same key entries).isSome = true ↔ Holds same key entries := by
  induction entries with
  | nil => simp [Holds]
  | cons entry rest ih =>
    obtain ⟨k, v⟩ := entry
    rw [holds_cons, get?]
    cases h : same k key <;> simp [ih]

theorem get?_eq_none_iff {key : κ} {entries : List (κ × α)} :
    get? same key entries = none ↔ ¬ Holds same key entries := by
  rw [← get?_isSome_iff]
  simp

theorem put_of_not_holds {key : κ} {entries : List (κ × α)} (h : ¬ Holds same key entries)
    (value : α) : put same key value entries = entries ++ [(key, value)] := by
  induction entries with
  | nil => rfl
  | cons entry rest ih =>
    obtain ⟨k, v⟩ := entry
    rw [holds_cons, not_or] at h
    simp [put, h.1, ih h.2]

/-- Overwriting keeps the keys and their order. -/
theorem keys_put_of_holds {key : κ} {entries : List (κ × α)} (h : Holds same key entries)
    (value : α) : keys (put same key value entries) = keys entries := by
  induction entries with
  | nil => simp [Holds] at h
  | cons entry rest ih =>
    obtain ⟨k, v⟩ := entry
    rw [holds_cons] at h
    rw [put]
    cases hk : same k key with
    | true => simp
    | false =>
      have hrest : Holds same key rest := by simpa [hk] using h
      simp [ih hrest]

theorem DistinctKeys.put {entries : List (κ × α)} (h : DistinctKeys same entries) (key : κ)
    (value : α) : DistinctKeys same (put same key value entries) := by
  by_cases hkey : Holds same key entries
  · rw [DistinctKeys, keys_put_of_holds hkey]
    exact h
  · rw [put_of_not_holds hkey, DistinctKeys, keys_append, List.pairwise_append]
    refine ⟨h, List.pairwise_singleton _ _, fun k hk l hl ↦ ?_⟩
    obtain rfl : l = key := by simpa using hl
    exact not_holds_iff.mp hkey k hk

/-- Putting back what is there changes nothing. -/
theorem put_eq_self {key : κ} {value : α} {entries : List (κ × α)}
    (h : get? same key entries = some value) : put same key value entries = entries := by
  induction entries with
  | nil => simp at h
  | cons entry rest ih =>
    obtain ⟨k, v⟩ := entry
    rw [get?] at h
    rw [Association.put]
    split at h
    · rename_i hk
      obtain rfl : v = value := by simpa using h
      rw [if_pos hk]
    · rename_i hk
      rw [if_neg hk, ih h]

/-- What is found is the value of an entry with that key. -/
theorem exists_mem_of_get? {key : κ} {value : α} {entries : List (κ × α)}
    (h : get? same key entries = some value) :
    ∃ e ∈ entries, same e.1 key = true ∧ e.2 = value := by
  induction entries with
  | nil => simp at h
  | cons entry rest ih =>
    obtain ⟨k, v⟩ := entry
    rw [get?] at h
    split at h
    · rename_i hk
      exact ⟨(k, v), List.mem_cons_self, hk, Option.some.inj h⟩
    · obtain ⟨e, he, hrest⟩ := ih h
      exact ⟨e, List.mem_cons_of_mem _ he, hrest⟩

variable (hs : Lawful same)

include hs

/-- The same key finds the same value. -/
theorem get?_congr {key other : κ} (h : same key other = true) (entries : List (κ × α)) :
    get? same key entries = get? same other entries := by
  induction entries with
  | nil => rfl
  | cons entry rest ih =>
    obtain ⟨k, v⟩ := entry
    rw [get?, get?, hs.congr_right h k, ih]

theorem exists_get?_of_mem_keys {key : κ} {entries : List (κ × α)} (h : key ∈ keys entries) :
    ∃ value, get? same key entries = some value :=
  Option.isSome_iff_exists.mp (get?_isSome_iff.mpr ⟨key, h, hs.self key⟩)

theorem get?_of_mem {entries : List (κ × α)} (h : DistinctKeys same entries) {e : κ × α}
    (he : e ∈ entries) : get? same e.1 entries = some e.2 := by
  induction entries with
  | nil => exact absurd he List.not_mem_nil
  | cons entry rest ih =>
    obtain ⟨k, v⟩ := entry
    obtain ⟨hk, hrest⟩ := (distinctKeys_cons k v rest).mp h
    rcases List.mem_cons.mp he with rfl | he
    · simp [get?, hs.self k]
    · simp [get?, hk e.1 (List.mem_map_of_mem he), ih hrest he]

theorem get?_put (key other : κ) (value : α) (entries : List (κ × α)) :
    get? same other (put same key value entries) =
      if same key other then some value else get? same other entries := by
  induction entries with
  | nil => rfl
  | cons entry rest ih =>
    obtain ⟨k, v⟩ := entry
    rw [Association.put]
    cases hk : same k key with
    | true =>
      simp only [if_true, get?, hs.congr hk]
      cases same key other <;> rfl
    | false =>
      simp only [Bool.false_eq_true, if_false, get?, ih]
      cases hko : same k other with
      | false => rfl
      | true =>
        -- an entry that is found under the other key is not found under the one that is put
        have hne : same key other = false := by
          rw [hs.comm, ← hs.congr hko]
          exact hk
        simp [hne]

theorem holds_put (key other : κ) (value : α) (entries : List (κ × α)) :
    Holds same other (put same key value entries) ↔
      same key other = true ∨ Holds same other entries := by
  rw [← get?_isSome_iff, get?_put hs, ← get?_isSome_iff]
  cases same key other <;> simp

/-- A second value under the same key takes the place of the first. -/
theorem put_put_same {key other : κ} (h : same key other = true) (v w : α)
    (entries : List (κ × α)) :
    put same other w (put same key v entries) = put same key w entries := by
  induction entries with
  | nil => simp [put, h]
  | cons entry rest ih =>
    obtain ⟨k, u⟩ := entry
    have hkey : same k key = same k other := hs.congr_right h k
    cases hk : same k key with
    | true => simp [Association.put, hk, ← hkey]
    | false => simp [Association.put, hk, ← hkey, ih]

/-- Different keys can be put in either order, if one of them is there already. -/
theorem put_comm {key other : κ} (h : same key other = false) {entries : List (κ × α)}
    (hkey : Holds same key entries) (v w : α) :
    put same other w (put same key v entries) = put same key v (put same other w entries) := by
  induction entries with
  | nil => simp [Holds] at hkey
  | cons entry rest ih =>
    obtain ⟨k, u⟩ := entry
    cases hk : same k key with
    | true =>
      have hko : same k other = false := by rw [hs.congr hk, h]
      simp [Association.put, hk, hko]
    | false =>
      have hrest : Holds same key rest := by simpa [holds_cons, hk] using hkey
      cases hko : same k other with
      | true => simp [Association.put, hk, hko]
      | false => simp [Association.put, hk, hko, ih hrest]

end Put

section Overlay

variable {κ α : Type} {same : κ → κ → Bool}

theorem DistinctKeys.overlay {entries : List (κ × α)} (h : DistinctKeys same entries)
    (additions : List (κ × α)) : DistinctKeys same (overlay same entries additions) := by
  induction additions generalizing entries with
  | nil => exact h
  | cons entry rest ih => exact ih (h.put entry.1 entry.2)

/-- Entries that are there already change nothing. -/
theorem overlay_eq_self {entries additions : List (κ × α)}
    (h : ∀ e ∈ additions, get? same e.1 entries = some e.2) :
    overlay same entries additions = entries := by
  induction additions with
  | nil => rfl
  | cons e rest ih =>
    rw [overlay_cons, put_eq_self (h e List.mem_cons_self)]
    exact ih fun d hd ↦ h d (List.mem_cons_of_mem e hd)

/-- Entries with new keys follow the entries that are there. -/
theorem overlay_eq_append {entries additions : List (κ × α)}
    (h : DistinctKeys same (entries ++ additions)) :
    overlay same entries additions = entries ++ additions := by
  induction additions generalizing entries with
  | nil => simp
  | cons e rest ih =>
    have hnew : ¬ Holds same e.1 entries := by
      rw [DistinctKeys, keys_append, List.pairwise_append] at h
      exact not_holds_iff.mpr fun k hk ↦ h.2.2 k hk e.1 List.mem_cons_self
    rw [overlay_cons, put_of_not_holds hnew, ih (by simpa using h)]
    simp

/-- Keys that are there keep their places, and the new ones follow in their own order. -/
theorem keys_overlay {additions : List (κ × α)} (h : DistinctKeys same additions)
    (entries : List (κ × α)) :
    keys (overlay same entries additions) =
      keys entries ++ (keys additions).filter fun k ↦ !(keys entries).any (same · k) := by
  induction additions generalizing entries with
  | nil => simp
  | cons e rest ih =>
    obtain ⟨k, v⟩ := e
    obtain ⟨hk, hrest⟩ := (distinctKeys_cons k v rest).mp h
    rw [overlay_cons, ih hrest]
    cases hkey : (keys entries).any (same · k) with
    | true => simp [keys_put_of_holds (List.any_eq_true.mp hkey), hkey]
    | false =>
      have hnew : ¬ Holds same k entries := fun hold ↦ by
        rw [List.any_eq_true.mpr hold] at hkey
        exact Bool.noConfusion hkey
      have hfilter : ((keys rest).filter fun l ↦ !(keys entries ++ [k]).any (same · l)) =
          (keys rest).filter fun l ↦ !(keys entries).any (same · l) := by
        refine List.filter_congr fun l hl ↦ ?_
        simp [hk l hl]
      rw [put_of_not_holds hnew, keys_append, keys_cons, keys_nil, hfilter, keys_cons,
        List.filter_cons, hkey]
      simp

theorem keys_isPrefix_put (key : κ) (value : α) (entries : List (κ × α)) :
    keys entries <+: keys (put same key value entries) := by
  by_cases h : Holds same key entries
  · exact keys_put_of_holds h value ▸ List.prefix_refl _
  · rw [put_of_not_holds h, keys_append]
    exact List.prefix_append _ _

/-- Keys that are there stay in front. -/
theorem keys_isPrefix_overlay (entries additions : List (κ × α)) :
    keys entries <+: keys (overlay same entries additions) := by
  induction additions generalizing entries with
  | nil => exact List.prefix_refl _
  | cons e rest ih => exact (keys_isPrefix_put e.1 e.2 entries).trans (ih _)

theorem overlay_ne_nil {entries : List (κ × α)} (h : entries ≠ []) (additions : List (κ × α)) :
    overlay same entries additions ≠ [] := by
  induction additions generalizing entries with
  | nil => exact h
  | cons e rest ih => exact ih (put_ne_nil e.1 e.2 entries)

theorem ofList_ne_nil {entries : List (κ × α)} (h : entries ≠ []) : ofList same entries ≠ [] := by
  cases entries with
  | nil => exact absurd rfl h
  | cons e rest => exact overlay_ne_nil (List.cons_ne_nil _ _) rest

/-- What is true of the keys and of the values that are there, and of those that are put. -/
theorem forall_put {P : κ → Prop} {Q : α → Prop} {entries : List (κ × α)}
    (h : ∀ e ∈ entries, P e.1 ∧ Q e.2) {key : κ} {value : α} (hkey : P key) (hvalue : Q value) :
    ∀ e ∈ put same key value entries, P e.1 ∧ Q e.2 := by
  induction entries with
  | nil => exact List.forall_mem_singleton.mpr ⟨hkey, hvalue⟩
  | cons e rest ih =>
    obtain ⟨he, hrest⟩ := List.forall_mem_cons.mp h
    rw [put]
    split
    · exact List.forall_mem_cons.mpr ⟨⟨he.1, hvalue⟩, hrest⟩
    · exact List.forall_mem_cons.mpr ⟨he, ih hrest⟩

theorem forall_overlay {P : κ → Prop} {Q : α → Prop} {entries additions : List (κ × α)}
    (h : ∀ e ∈ entries, P e.1 ∧ Q e.2) (hadditions : ∀ e ∈ additions, P e.1 ∧ Q e.2) :
    ∀ e ∈ overlay same entries additions, P e.1 ∧ Q e.2 := by
  induction additions generalizing entries with
  | nil => exact h
  | cons e rest ih =>
    obtain ⟨he, hrest⟩ := List.forall_mem_cons.mp hadditions
    exact ih (forall_put h he.1 he.2) hrest

theorem forall_ofList {P : κ → Prop} {Q : α → Prop} {entries : List (κ × α)}
    (h : ∀ e ∈ entries, P e.1 ∧ Q e.2) : ∀ e ∈ ofList same entries, P e.1 ∧ Q e.2 :=
  forall_overlay (fun _ he ↦ absurd he List.not_mem_nil) h

theorem nil_overlay {additions : List (κ × α)} (h : DistinctKeys same additions) :
    overlay same [] additions = additions := overlay_eq_append h

variable (hs : Lawful same)

include hs

/-- A key that is there and does not come again can be put before or after. -/
theorem put_overlay {key : κ} {entries additions : List (κ × α)} (hkey : Holds same key entries)
    (hnew : ∀ k ∈ keys additions, same key k = false) (value : α) :
    put same key value (overlay same entries additions) =
      overlay same (put same key value entries) additions := by
  induction additions generalizing entries with
  | nil => rfl
  | cons e rest ih =>
    have he : same key e.1 = false := hnew e.1 List.mem_cons_self
    have hput : Holds same key (put same e.1 e.2 entries) := (holds_put hs _ _ _ _).mpr (.inr hkey)
    rw [overlay_cons, overlay_cons, put_comm hs he hkey]
    exact ih hput fun k hk ↦ hnew k (List.mem_cons_of_mem e.1 hk)

/-- An entry that is put into the additions is put over all. -/
theorem overlay_put {additions : List (κ × α)} (h : DistinctKeys same additions)
    (entries : List (κ × α)) (key : κ) (value : α) :
    overlay same entries (put same key value additions) =
      put same key value (overlay same entries additions) := by
  induction additions generalizing entries with
  | nil => rfl
  | cons e rest ih =>
    obtain ⟨k, v⟩ := e
    obtain ⟨hk, hrest⟩ := (distinctKeys_cons k v rest).mp h
    rw [Association.put]
    cases hsame : same k key with
    | true =>
      have hnew : ∀ l ∈ keys rest, same key l = false := fun l hl ↦ by
        rw [← hs.congr hsame]
        exact hk l hl
      have hput : Holds same key (put same k v entries) := (holds_put hs _ _ _ _).mpr (.inl hsame)
      rw [if_pos rfl, overlay_cons, overlay_cons, put_overlay hs hput hnew,
        put_put_same hs hsame]
    | false =>
      rw [if_neg Bool.false_ne_true, overlay_cons, overlay_cons]
      exact ih hrest _

/-- Overlaying is associative. -/
theorem overlay_assoc {middle : List (κ × α)} (h : DistinctKeys same middle)
    (entries additions : List (κ × α)) :
    overlay same entries (overlay same middle additions) =
      overlay same (overlay same entries middle) additions := by
  induction additions generalizing middle with
  | nil => rfl
  | cons e rest ih =>
    rw [overlay_cons, ih (h.put e.1 e.2), overlay_put hs h, overlay_cons]

theorem get?_overlay {additions : List (κ × α)} (h : DistinctKeys same additions) (key : κ)
    (entries : List (κ × α)) :
    get? same key (overlay same entries additions) =
      (get? same key additions).or (get? same key entries) := by
  induction additions generalizing entries with
  | nil => rfl
  | cons e rest ih =>
    obtain ⟨k, v⟩ := e
    obtain ⟨hk, hrest⟩ := (distinctKeys_cons k v rest).mp h
    rw [overlay_cons, ih hrest, get?_put hs, get?]
    cases hkey : same k key with
    | false => rfl
    | true =>
      have hnone : get? same key rest = none := by
        rw [get?_eq_none_iff, not_holds_iff]
        intro l hl
        rw [← hs.congr_right hkey, hs.comm]
        exact hk l hl
      simp [hnone]

/-- What the additions do not write stays what it was. -/
theorem get?_overlay_of_eq_none {key : κ} {additions : List (κ × α)}
    (h : get? same key additions = none) (entries : List (κ × α)) :
    get? same key (overlay same entries additions) = get? same key entries := by
  induction additions generalizing entries with
  | nil => rfl
  | cons e rest ih =>
    rw [get?_eq_none_iff, holds_cons, not_or] at h
    rw [overlay_cons, ih (get?_eq_none_iff.mpr h.2), get?_put hs]
    simp [h.1]

/-- Lists with the same keys in the same order are equal if they hold the same values. -/
theorem eq_of_keys_eq {xs ys : List (κ × α)} (hx : DistinctKeys same xs)
    (hkeys : keys xs = keys ys)
    (hget : ∀ k ∈ keys xs, get? same k xs = get? same k ys) : xs = ys := by
  induction xs generalizing ys with
  | nil =>
    cases ys with
    | nil => rfl
    | cons => simp [keys] at hkeys
  | cons x xs ih =>
    cases ys with
    | nil => simp [keys] at hkeys
    | cons y ys =>
      obtain ⟨k, v⟩ := x
      obtain ⟨l, w⟩ := y
      obtain ⟨rfl, hrest⟩ : k = l ∧ keys xs = keys ys := by simpa using hkeys
      obtain ⟨hk, hxs⟩ := (distinctKeys_cons k v xs).mp hx
      have hvw : v = w := by simpa [get?, hs.self k] using hget k List.mem_cons_self
      have htail : xs = ys := by
        refine ih hxs hrest fun m hm ↦ ?_
        simpa [get?, hk m hm] using hget m (List.mem_cons_of_mem k hm)
      rw [hvw, htail]

/-- What is put over entries with leading keys of its own leaves nothing of them. -/
theorem overlay_eq_right {entries additions : List (κ × α)} (h : DistinctKeys same additions)
    (hkeys : keys entries <+: keys additions) : overlay same entries additions = additions := by
  obtain ⟨rest, hrest⟩ := hkeys
  have hapart : ∀ k ∈ keys entries, ∀ l ∈ rest, same k l = false := by
    rw [DistinctKeys, ← hrest, List.pairwise_append] at h
    exact h.2.2
  have hentries : DistinctKeys same entries := by
    rw [DistinctKeys, ← hrest] at h
    exact (List.pairwise_append.mp h).1
  have hover : keys (overlay same entries additions) = keys additions := by
    have hold : (keys entries).filter (fun k ↦ !(keys entries).any (same · k)) = [] := by
      refine List.filter_eq_nil_iff.mpr fun k hk ↦ ?_
      simpa using ⟨k, hk, hs.self k⟩
    have hnew : rest.filter (fun k ↦ !(keys entries).any (same · k)) = rest := by
      refine List.filter_eq_self.mpr fun l hl ↦ ?_
      simpa using fun k hk ↦ hapart k hk l hl
    rw [keys_overlay h, ← hrest, List.filter_append, hold, hnew, List.nil_append]
  refine eq_of_keys_eq hs (hentries.overlay additions) hover fun k hk ↦ ?_
  rw [hover] at hk
  obtain ⟨v, hv⟩ := exists_get?_of_mem_keys hs hk
  rw [get?_overlay hs h, hv]
  rfl

end Overlay

end SearchCriteria.Association

namespace SearchCriteria

/-- Being the same key is an equivalence. -/
theorem Value.sameKey_lawful : Association.Lawful Value.sameKey where
  self k := k.agrees_self true
  congr h := Value.agrees_congr h

namespace Mapping

/-- No two keys of the mapping are the same. -/
def DistinctKeys (mapping : Mapping) : Prop := Association.DistinctKeys Value.sameKey mapping

theorem distinctKeys_single (name : String) (value : Value) : (single name value).DistinctKeys :=
  List.pairwise_singleton _ _

theorem DistinctKeys.overlay {mapping : Mapping} (h : mapping.DistinctKeys) (additions : Mapping) :
    (mapping.overlay additions).DistinctKeys := Association.DistinctKeys.overlay h additions

theorem nil_overlay {mapping : Mapping} (h : mapping.DistinctKeys) : overlay [] mapping = mapping :=
  Association.nil_overlay h

theorem overlay_assoc {middle : Mapping} (h : middle.DistinctKeys) (mapping additions : Mapping) :
    mapping.overlay (middle.overlay additions) = (mapping.overlay middle).overlay additions :=
  Association.overlay_assoc Value.sameKey_lawful h mapping additions

theorem overlay_eq_right {mapping additions : Mapping} (h : additions.DistinctKeys)
    (hkeys : Association.keys mapping <+: Association.keys additions) :
    mapping.overlay additions = additions :=
  Association.overlay_eq_right Value.sameKey_lawful h hkeys

theorem get?_of_mem {mapping : Mapping} (h : mapping.DistinctKeys) {e : Value × Value}
    (he : e ∈ mapping) : mapping.get? e.1 = some e.2 :=
  Association.get?_of_mem Value.sameKey_lawful h he

theorem get?_overlay {additions : Mapping} (h : additions.DistinctKeys) (key : Value)
    (mapping : Mapping) :
    (mapping.overlay additions).get? key = (additions.get? key).or (mapping.get? key) :=
  Association.get?_overlay Value.sameKey_lawful h key mapping

theorem get?_overlay_of_eq_none {key : Value} {additions : Mapping}
    (h : additions.get? key = none) (mapping : Mapping) :
    (mapping.overlay additions).get? key = mapping.get? key :=
  Association.get?_overlay_of_eq_none Value.sameKey_lawful h mapping

/-- Under a text key, look-up by key and look-up by text find the same entry. -/
theorem get?_text (mapping : Mapping) (key : String) :
    mapping.get? (.text key) = mapping.getText? key := by
  simp only [get?, getText?]
  induction mapping with
  | nil => rfl
  | cons e rest ih => simp only [Association.get?, Value.sameKey_text, ih]

/-- A text key that the additions do not write keeps its value. -/
theorem getText?_overlay_of_eq_none {name : String} {additions : Mapping}
    (h : additions.getText? name = none) (mapping : Mapping) :
    (mapping.overlay additions).getText? name = mapping.getText? name := by
  rw [← get?_text] at h ⊢
  rw [get?_overlay_of_eq_none h, get?_text]

end Mapping

/-- Under a key that no other entry has, the values have to agree and then the other entries. -/
theorem agreeEntries_cons_same {k v w : Value} {es fs : Mapping}
    (hk : ∀ l ∈ Association.keys fs, k.sameKey l = false) :
    agreeEntries ((k, v) :: es) ((k, w) :: fs) = (v.agrees false w && agreeEntries es fs) := by
  have hself : k.agrees true k = true := k.agrees_self true
  cases hvw : v.agrees false w with
  | true => simp [agreeEntries, extract?, hself, hvw]
  | false =>
    have hnone : extract? (fun f : Value × Value ↦ k.agrees true f.1 && v.agrees false f.2)
        ((k, w) :: fs) = none := by
      refine extract?_eq_none fun f hf ↦ ?_
      rcases List.mem_cons.mp hf with rfl | hf
      · simp [hvw]
      · have hkf : k.agrees true f.1 = false := hk f.1 (List.mem_map_of_mem hf)
        simp [hkf]
    simp [agreeEntries, hnone]

/-- Mappings with the same keys in the same order agree when the values under each key do. -/
theorem agreeEntries_iff_of_keys_eq {es fs : Mapping} (hes : es.DistinctKeys)
    (hkeys : Association.keys es = Association.keys fs) :
    agreeEntries es fs = true ↔
      ∀ k ∈ Association.keys es, ∀ v w, es.get? k = some v → fs.get? k = some w →
        v.agrees false w = true := by
  induction es generalizing fs with
  | nil =>
    cases fs with
    | nil => simp [agreeEntries]
    | cons => cases hkeys
  | cons e es ih =>
    cases fs with
    | nil => cases hkeys
    | cons f fs =>
      obtain ⟨k, v⟩ := e
      obtain ⟨l, w⟩ := f
      obtain ⟨rfl, hrest⟩ : k = l ∧ Association.keys es = Association.keys fs :=
        List.cons.inj hkeys
      obtain ⟨hk, htail⟩ := (Association.distinctKeys_cons k v es).mp hes
      -- past the head, a key of the tail finds the same entry as in the tail
      have hskip : ∀ m ∈ Association.keys es, ∀ x (ms : Mapping),
          Mapping.get? ((k, x) :: ms) m = ms.get? m := by
        intro m hm x ms
        simp [Mapping.get?, Association.get?, hk m hm]
      have hhead : ∀ x (ms : Mapping), Mapping.get? ((k, x) :: ms) k = some x := by
        intro x ms
        simp [Mapping.get?, Association.get?, Value.sameKey_lawful.self k]
      rw [agreeEntries_cons_same (hrest ▸ hk), Bool.and_eq_true, ih htail hrest]
      constructor
      · rintro ⟨hvw, hall⟩ m hm x y hx hy
        rcases List.mem_cons.mp hm with rfl | hm
        · rw [hhead] at hx hy
          cases hx
          cases hy
          exact hvw
        · rw [hskip m hm] at hx hy
          exact hall m hm x y hx hy
      · intro hall
        refine ⟨hall k List.mem_cons_self v w (hhead v es) (hhead w fs), fun m hm x y hx hy ↦ ?_⟩
        refine hall m (List.mem_cons_of_mem _ hm) x y ?_ ?_
        · rw [hskip m hm, hx]
        · rw [hskip m hm, hy]

end SearchCriteria
