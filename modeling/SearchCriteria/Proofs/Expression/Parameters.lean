import SearchCriteria.Proofs.Expression.Rendering
import SearchCriteria.Proofs.Value.Agreement
import SearchCriteria.Proofs.Value.Texts

/-!
# Reading parameters

The parameters of a script are read pair by pair, each put over the ones before it.  Equality does
not see the order in a pair that is itself a mapping or a set, nor that of the pairs in a set.
Where none of this can make a difference, parameters that are alike are read as mappings that are
alike, as long as equality tells their names apart as keys are told apart.
-/

namespace SearchCriteria

namespace Value

/-! ## Names -/

/-- Whatever equals the name is the same key. -/
def ExactName (name : Value) : Prop := ∀ v, name.Alike v → name.sameKey v = true

/-- Whatever equals the name is the same key, and fit to be one if the name is. -/
def DecidedName (name : Value) : Prop :=
  ∀ v, name.Alike v → name.sameKey v = true ∧ (name.unhashable? = none ↔ v.unhashable? = none)

theorem exactName_text (s : String) : (Value.text s).ExactName := by
  intro v hv
  rw [hv.eq_text]
  exact sameKey_lawful.self (.text s)

theorem decidedName_text (s : String) : (Value.text s).DecidedName := by
  intro v hv
  rw [hv.eq_text]
  exact ⟨sameKey_lawful.self (.text s), Iff.rfl⟩

theorem DecidedName.exact {name : Value} (h : name.DecidedName) : name.ExactName :=
  fun v hv ↦ (h v hv).1

/-! ## Pairs -/

theorem parts?_eq_none {v : Value} {xs : List Value} (h : v.elements? = some xs)
    (hlength : xs.length ≠ 2) : v.parts? = none := by
  unfold parts?
  split
  · rename_i helements
    obtain rfl := Option.some.inj (h.symm.trans helements)
    exact absurd rfl hlength
  · rfl

section Named

variable (N : Value → Prop)

/-- A pair, if it is one, has such a name, and equality sees which of its parts is the name. -/
def PairNamed : Value → Prop
  | .list [name, _] | .tuple [name, _] => N name
  | .map entries => entries.length ≠ 2
  | .set _ items => items.length ≠ 2
  | _ => True

/-- The pairs have such names, and in a set, where they have no order, different ones. -/
def ParamsNamed : Value → Prop
  | .list pairs | .tuple pairs => ∀ p ∈ pairs, p.PairNamed N
  | .set _ pairs =>
    (∀ p ∈ pairs, p.PairNamed N) ∧ Mapping.DistinctKeys (pairs.filterMap parts?)
  | _ => True

/-- Such a name on one side, and parts that are alike. -/
structure NamedAlike (e f : Value × Value) : Prop where
  named : N e.1
  name : e.1.Alike f.1
  value : e.2.Alike f.2

end Named

variable {N : Value → Prop} {p q v : Value}

theorem PairNamed.exact (h : p.PairNamed DecidedName) : p.PairNamed ExactName := by
  unfold PairNamed at h ⊢
  split
  · exact DecidedName.exact h
  · exact DecidedName.exact h
  · exact h
  · exact h
  · trivial

theorem ParamsNamed.exact (h : v.ParamsNamed DecidedName) : v.ParamsNamed ExactName := by
  cases v with
  | list | tuple => exact fun p hp ↦ (h p hp).exact
  | set => exact ⟨fun p hp ↦ (h.1 p hp).exact, h.2⟩
  | _ => trivial

/-- Rows of two are pairs, and others are not. -/
theorem rel_parts?_of_forall₂ {xs ys : List Value} (h : List.Forall₂ Alike xs ys)
    (hp : p.elements? = some xs) (hq : q.elements? = some ys)
    (hname : ∀ name value, xs = [name, value] → N name) :
    Option.Rel (NamedAlike N) p.parts? q.parts? := by
  unfold parts?
  rw [hp, hq]
  rcases h with _ | ⟨hfirst, _ | ⟨hsecond, _ | ⟨_, _⟩⟩⟩
  · exact .none
  · exact .none
  · exact .some ⟨hname _ _ rfl, hfirst, hsecond⟩
  · exact .none

theorem rel_parts?_of_length {xs ys : List Value} (hp : p.elements? = some xs)
    (hq : q.elements? = some ys) (hlength : xs.length = ys.length) (hpair : xs.length ≠ 2) :
    Option.Rel (NamedAlike N) p.parts? q.parts? := by
  rw [parts?_eq_none hp hpair, parts?_eq_none hq (hlength ▸ hpair)]
  exact .none

theorem rel_parts?_self (hname : ∀ e, p.parts? = some e → N e.1) :
    Option.Rel (NamedAlike N) p.parts? p.parts? := by
  generalize hfound : p.parts? = found at hname ⊢
  cases found with
  | none => exact .none
  | some e => exact .some ⟨hname e rfl, .refl e.1, .refl e.2⟩

/-- The parts of a text are texts. -/
theorem exists_text_of_parts? {s : String} {e : Value × Value}
    (h : (Value.text s).parts? = some e) : ∃ t, e.1 = .text t := by
  unfold parts? at h
  split at h
  · rename_i name value helements
    obtain rfl := Option.some.inj h
    have hmem : name ∈ s.toList.map fun c ↦ Value.text (String.singleton c) := by
      rw [Option.some.inj helements]
      exact List.mem_cons_self
    obtain ⟨c, -, rfl⟩ := List.mem_map.mp hmem
    exact ⟨_, rfl⟩
  · cases h

/-- The members of sets that are alike can be paired in some order. -/
theorem exists_perm_of_agreeMembers {xs ys : List Value} (h : agreeMembers xs ys = true) :
    ∃ l : List Value, l.Perm ys ∧ List.Forall₂ Alike xs l := by
  rw [agreeMembers_eq_pairsOff] at h
  obtain ⟨l, hperm, hl⟩ := exists_perm_of_pairsOff h
  exact ⟨l, hperm, hl.imp fun _ _ hxy ↦ alike_of_agrees hxy⟩

/-- Pairs that are alike have parts that are alike. -/
theorem rel_parts? (htext : ∀ s, N (.text s)) (hp : p.PairNamed N) (h : p.Alike q) :
    Option.Rel (NamedAlike N) p.parts? q.parts? := by
  cases p with
  | list xs =>
    obtain ⟨ys, rfl, hys⟩ := h.exists_list
    refine rel_parts?_of_forall₂ hys rfl rfl ?_
    rintro name value rfl
    exact hp
  | tuple xs =>
    obtain ⟨ys, rfl, hys⟩ := h.exists_tuple
    refine rel_parts?_of_forall₂ hys rfl rfl ?_
    rintro name value rfl
    exact hp
  | map es =>
    obtain ⟨fs, rfl, hfs⟩ := h.exists_map
    obtain ⟨l, hperm, hl⟩ := exists_perm_of_agreeEntries hfs
    -- as many keys on both sides, and not two
    have hlength : es.length = fs.length := hl.length_eq.trans hperm.length_eq
    have hpair : es.length ≠ 2 := hp
    exact rel_parts?_of_length rfl rfl (by simpa using hlength) (by simpa using hpair)
  | set frozen xs =>
    cases q with
    | set _ ys =>
      obtain ⟨l, hperm, hl⟩ := exists_perm_of_agreeMembers h
      exact rel_parts?_of_length rfl rfl (hl.length_eq.trans hperm.length_eq) hp
    | _ => cases h
  | text s =>
    obtain rfl := h.eq_text
    refine rel_parts?_self fun e he ↦ ?_
    obtain ⟨t, ht⟩ := exists_text_of_parts? he
    exact ht ▸ htext t
  | null =>
    obtain rfl := h.eq_null
    exact .none
  | node | bool | int | real =>
    cases q with
    | node | bool | int | real => exact .none
    | _ => cases h

/-! ## Rows of pairs -/

variable {ps qs : List Value}

theorem forall₂_parts? (htext : ∀ s, N (.text s)) (hps : ∀ p ∈ ps, p.PairNamed N)
    (h : List.Forall₂ Alike ps qs) :
    List.Forall₂ (NamedAlike N) (ps.filterMap parts?) (qs.filterMap parts?) :=
  List.rel_filterMap (fun _ _ hpq ↦ rel_parts? htext hpq.1 hpq.2)
    ((List.forall₂_and_left _ _).mpr ⟨hps, h⟩)

theorem NamedAlike.entryAlike {e f : Value × Value} (h : NamedAlike ExactName e f) :
    EntryAlike e f := entryAlike_iff.mpr ⟨h.named f.1 h.name, h.value⟩

/-- Rows of pairs that are alike stand for entries that are alike. -/
theorem entriesAlike_of_forall₂ (hps : ∀ p ∈ ps, p.PairNamed ExactName)
    (h : List.Forall₂ Alike ps qs) :
    List.Forall₂ EntryAlike (ps.filterMap parts?) (qs.filterMap parts?) :=
  (forall₂_parts? exactName_text hps h).imp fun _ _ ↦ NamedAlike.entryAlike

/-- Of two that are alike, both can stand for an entry or neither can. -/
theorem isEntry_congr (hp : p.PairNamed DecidedName) (h : p.Alike q) : p.IsEntry ↔ q.IsEntry := by
  rw [isEntry_iff, isEntry_iff]
  have hparts := rel_parts? decidedName_text hp h
  generalize p.parts? = found at hparts ⊢
  generalize q.parts? = other at hparts ⊢
  cases hparts with
  | none => exact Iff.rfl
  | some hef => simpa using (hef.named _ hef.name).2

theorem forall_isEntry_congr (hps : ∀ p ∈ ps, p.PairNamed DecidedName)
    (h : List.Forall₂ Alike ps qs) : (∀ p ∈ ps, p.IsEntry) ↔ ∀ q ∈ qs, q.IsEntry := by
  induction h with
  | nil => exact Iff.rfl
  | cons hpq _ ih =>
    obtain ⟨hp, hps⟩ := List.forall_mem_cons.mp hps
    rw [List.forall_mem_cons, List.forall_mem_cons, isEntry_congr hp hpq, ih hps]

end Value

namespace Mapping

/-! ## What is read -/

variable {m n : Mapping} {ps qs : List Value} {v w : Value}

/-- Entries that are alike one by one, put over mappings that are alike. -/
theorem Alike.overlay_of_forall₂ {es fs : Mapping} (h : m.Alike n) (hm : m.DistinctKeys)
    (hef : List.Forall₂ EntryAlike es fs) : (m.overlay es).Alike (n.overlay fs) := by
  induction hef generalizing m n with
  | nil => exact h
  | @cons e f _ _ he _ ih => exact ih (h.put he hm) (Association.DistinctKeys.put hm e.1 e.2)

/-- Under names that are distinct the order of the pairs does not matter. -/
theorem alike_overlay_of_perm {l : List Value} (hps : ∀ p ∈ ps, p.PairNamed Value.ExactName)
    (hdistinct : DistinctKeys (ps.filterMap Value.parts?)) (hperm : l.Perm qs)
    (h : List.Forall₂ Value.Alike ps l) :
    (overlay [] (ps.filterMap Value.parts?)).Alike (overlay [] (qs.filterMap Value.parts?)) := by
  have hentries := Value.entriesAlike_of_forall₂ hps h
  have hothers : List.Perm (l.filterMap Value.parts?) (qs.filterMap Value.parts?) :=
    hperm.filterMap Value.parts?
  -- no pair is put over another one, on either side
  rw [nil_overlay hdistinct, nil_overlay ((hdistinct.of_forall₂ hentries).of_perm hothers)]
  exact (alike_of_forall₂ hentries).trans (alike_of_perm hothers)

/-- Parameters that are alike are read as mappings that are alike. -/
theorem alike_ofValue (hv : v.ParamsNamed Value.ExactName) (h : v.Alike w)
    (hm : ofValue v = .ok m) (hn : ofValue w = .ok n) : m.Alike n := by
  cases v with
  | map =>
    obtain ⟨_, rfl, hentries⟩ := h.exists_map
    obtain rfl := Except.ok.inj hm
    obtain rfl := Except.ok.inj hn
    exact hentries
  | list =>
    obtain ⟨_, rfl, hpairs⟩ := h.exists_list
    obtain ⟨-, rfl⟩ := (ofValue_eq_ok_iff rfl (by nofun)).mp hm
    obtain ⟨-, rfl⟩ := (ofValue_eq_ok_iff rfl (by nofun)).mp hn
    exact (Alike.refl []).overlay_of_forall₂ .nil (Value.entriesAlike_of_forall₂ hv hpairs)
  | tuple =>
    obtain ⟨_, rfl, hpairs⟩ := h.exists_tuple
    obtain ⟨-, rfl⟩ := (ofValue_eq_ok_iff rfl (by nofun)).mp hm
    obtain ⟨-, rfl⟩ := (ofValue_eq_ok_iff rfl (by nofun)).mp hn
    exact (Alike.refl []).overlay_of_forall₂ .nil (Value.entriesAlike_of_forall₂ hv hpairs)
  | text =>
    obtain rfl := h.eq_text
    obtain rfl := Except.ok.inj (hm.symm.trans hn)
    exact Alike.refl m
  | set =>
    cases w with
    | set =>
      obtain ⟨l, hperm, hl⟩ := Value.exists_perm_of_agreeMembers h
      obtain ⟨-, rfl⟩ := (ofValue_eq_ok_iff rfl (by nofun)).mp hm
      obtain ⟨-, rfl⟩ := (ofValue_eq_ok_iff rfl (by nofun)).mp hn
      exact alike_overlay_of_perm hv.1 hv.2 hperm hl
    | _ => cases h
  | _ => cases hm

/-- Of parameters that are alike, both can be read or neither can. -/
theorem exists_ofValue_congr (hv : v.ParamsNamed Value.DecidedName) (h : v.Alike w) :
    (∃ m, ofValue v = .ok m) ↔ ∃ n, ofValue w = .ok n := by
  cases v with
  | map =>
    obtain ⟨_, rfl, -⟩ := h.exists_map
    exact ⟨fun _ ↦ ⟨_, rfl⟩, fun _ ↦ ⟨_, rfl⟩⟩
  | list =>
    obtain ⟨_, rfl, hpairs⟩ := h.exists_list
    rw [exists_ofValue_iff rfl (by nofun), exists_ofValue_iff rfl (by nofun)]
    exact Value.forall_isEntry_congr hv hpairs
  | tuple =>
    obtain ⟨_, rfl, hpairs⟩ := h.exists_tuple
    rw [exists_ofValue_iff rfl (by nofun), exists_ofValue_iff rfl (by nofun)]
    exact Value.forall_isEntry_congr hv hpairs
  | text => rw [h.eq_text]
  | null => rw [h.eq_null]
  | set =>
    cases w with
    | set =>
      obtain ⟨l, hperm, hl⟩ := Value.exists_perm_of_agreeMembers h
      rw [exists_ofValue_iff rfl (by nofun), exists_ofValue_iff rfl (by nofun),
        Value.forall_isEntry_congr hv.1 hl]
      simp only [hperm.mem_iff]
    | _ => cases h
  | node | bool | int | real =>
    -- neither can be read
    cases w with
    | node | bool | int | real => exact ⟨nofun, nofun⟩
    | _ => cases h

end Mapping

end SearchCriteria
