import Mathlib.Data.Set.Card
import Mathlib.Logic.Encodable.Basic
import Mathlib.Logic.Equiv.List
import SearchCriteria.Proofs.Distinct
import SearchCriteria.Proofs.Expression.Hashing
import SearchCriteria.Proofs.Patch

/-!
# Nodes as members of a set

A set of nodes has one member for each key among them.  Equal nodes need not be the same key: a raw
node is hashed by the literal text of its fragment, which shows the order of the entries and the
kinds of the numbers, while equality looks at neither.  So equal nodes have one hash, and a set of
them one member for each class of equal nodes, exactly when the raw fragments in them read alike.
-/

namespace SearchCriteria

open Association (Lawful)

/-! ## Counting classes -/

namespace Distinct

variable {α : Type} {same : α → α → Bool} {s : Setoid α}

/-- Items of which no two are the same are in classes of their own. -/
theorem nodup_map_mk (h : ∀ x y, s x y ↔ same x y = true) {items : List α}
    (hseparate : Separate same items) : (items.map (Quotient.mk s)).Nodup := by
  refine List.pairwise_map.mpr (hseparate.imp fun {x y} hxy heq ↦ ?_)
  rw [(h x y).mp (Quotient.exact heq)] at hxy
  cases hxy

/-- First occurrences are in the same classes as all the items. -/
theorem mk_image_addAll (hs : Lawful same) (h : ∀ x y, s x y ↔ same x y = true) (items : List α) :
    Quotient.mk s '' {x | x ∈ items} = {c | c ∈ (addAll same [] items).map (Quotient.mk s)} := by
  ext c
  simp only [Set.mem_image, Set.mem_ofPred_eq, List.mem_map]
  constructor
  · rintro ⟨x, hx, rfl⟩
    have hany : (addAll same [] items).any (same · x) = true := by
      rw [any_addAll hs, Bool.or_eq_true]
      exact .inr (List.any_eq_true.mpr ⟨x, hx, hs.self x⟩)
    obtain ⟨y, hy, hyx⟩ := List.any_eq_true.mp hany
    exact ⟨y, hy, Quotient.sound ((h y x).mpr hyx)⟩
  · rintro ⟨x, hx, rfl⟩
    exact ⟨x, (mem_addAll hx).resolve_left List.not_mem_nil, rfl⟩

/-- First occurrences are as many as the classes of the items. -/
theorem length_addAll_eq_ncard (hs : Lawful same) (h : ∀ x y, s x y ↔ same x y = true)
    (items : List α) :
    (addAll same [] items).length = (Quotient.mk s '' {x | x ∈ items}).ncard := by
  classical
  have hseparate : Separate same (addAll same [] items) := Separate.addAll List.Pairwise.nil items
  rw [mk_image_addAll hs h, ← List.length_map (Quotient.mk s),
    ← List.toFinset_card_of_nodup (nodup_map_mk h hseparate), ← List.coe_toFinset,
    Set.ncard_coe_finset]

end Distinct

namespace Value

/-- Equality as an equivalence. -/
def equality : Setoid Value where
  r := Alike
  iseqv := ⟨Alike.refl, Alike.symm, Alike.trans⟩

/-- Being the same key as an equivalence. -/
def identity : Setoid Value where
  r a b := a.sameKey b = true
  iseqv := ⟨agrees_self true, agrees_symm, agrees_trans⟩

/-- The classes of equal values among the values. -/
def classes (values : List Value) : Set (Quotient equality) :=
  Quotient.mk equality '' {v | v ∈ values}

/-- The class of equal values that a key is in. -/
def coarsen : Quotient identity → Quotient equality :=
  Quotient.map id fun _ _ h ↦ alike_of_agrees h

/-- A set has one member for each class of equal values, if equal values are the same key. -/
theorem length_addAll_eq_classes_iff (values : List Value) :
    (Distinct.addAll sameKey [] values).length = (classes values).ncard ↔
      ∀ a ∈ values, ∀ b ∈ values, a.Alike b → a.sameKey b = true := by
  have hfinite : (Quotient.mk identity '' {v | v ∈ values}).Finite :=
    (List.finite_toSet values).image _
  have hclasses : classes values = coarsen '' (Quotient.mk identity '' {v | v ∈ values}) := by
    rw [Set.image_image]
    rfl
  rw [Distinct.length_addAll_eq_ncard sameKey_lawful (s := identity) fun _ _ ↦ Iff.rfl, hclasses,
    eq_comm, Set.ncard_image_iff hfinite]
  constructor
  · intro hinj a ha b hb hab
    exact Quotient.exact (hinj ⟨a, ha, rfl⟩ ⟨b, hb, rfl⟩ (Quotient.sound hab))
  · rintro hkey _ ⟨a, ha, rfl⟩ _ ⟨b, hb, rfl⟩ hab
    exact Quotient.sound (hkey a ha b hb (Quotient.exact hab))

/-- Hashable values make a set. -/
theorem distinct_eq_ok {values : List Value} (h : ∀ v ∈ values, v.Hashable) :
    Value.distinct values = .ok (Distinct.addAll sameKey [] values) := by
  have hall : values.forM requireHashable = .ok () :=
    forM_eq_ok.mpr fun v hv ↦ requireHashable_eq_ok_iff.mpr (h v hv).unhashable?_eq_none
  rw [distinct, hall]
  rfl

end Value

/-! ## Hashes that tell texts apart -/

namespace Hashing

/-- A hashing that tells texts from texts and rows from rows. -/
def separating : Hashing where
  null := 0
  base := 0
  number _ := 0
  text s := Encodable.encode (s.toList.map Char.toNat)
  row ns := Encodable.encode ns
  members _ := 0

theorem text_separating : Function.Injective separating.text := by
  intro s t h
  have hcodes : s.toList.map Char.toNat = t.toList.map Char.toNat :=
    Encodable.encode_injective (Int.ofNat.inj h)
  have hchars : Function.Injective Char.toNat := fun c d hcd ↦
    Char.ext (UInt32.toNat_inj.mp hcd)
  exact String.toList_inj.mp (hchars.list_map hcodes)

theorem row_separating : Function.Injective separating.row := fun _ _ h ↦
  Encodable.encode_injective (Int.ofNat.inj h)

end Hashing

namespace Expression

/--
Hashable nodes have one hash each.  Equal ones share it, whatever the primitive hashes are, exactly
when their raw fragments read alike; and a set of such nodes has one member for each class of equal
nodes exactly when that is so for all the equal nodes among them.
-/
theorem hashing_by_texts (nodes : List Expression)
    (h : ∀ e ∈ nodes, (Value.node e).Hashable) :
    (∀ H : Hashing, ∀ e ∈ nodes, ∃! n, H.Of (.node e) n) ∧
    (∀ a ∈ nodes, ∀ b ∈ nodes, a.Alike b →
      ((∀ H : Hashing, ∀ m n, H.Of (.node a) m → H.Of (.node b) n → m = n) ↔
        a.rawTexts = b.rawTexts)) ∧
    ∃ members, Value.distinct (nodes.map .node) = .ok members ∧
      (members.length = (Value.classes (nodes.map .node)).ncard ↔
        ∀ a ∈ nodes, ∀ b ∈ nodes, a.Alike b → a.rawTexts = b.rawTexts) := by
  have hkey : ∀ a b : Expression, a.Alike b →
      ((Value.node a).sameKey (.node b) = true ↔ a.rawTexts = b.rawTexts) := fun a b hab ↦
    Value.sameKey_iff.trans (and_iff_right hab)
  refine ⟨fun H e he ↦ ?_, fun a ha b hb hab ↦ ⟨fun hall ↦ ?_, fun htexts H m n hm hn ↦ ?_⟩, ?_⟩
  · obtain ⟨n, hn⟩ := Hashing.hashable_iff.mp (h e he)
    exact ⟨n, hn, fun m hm ↦ hm.unique hn⟩
  · obtain ⟨m, hm⟩ := Hashing.hashable_iff (H := .separating).mp (h a ha)
    obtain ⟨n, hn⟩ := Hashing.hashable_iff (H := .separating).mp (h b hb)
    obtain rfl := hall .separating m n hm hn
    exact (hkey a b hab).mp
      (hm.sameKey_of_alike Hashing.text_separating Hashing.row_separating hab hn)
  · exact hm.eq_of_sameKey ((hkey a b hab).mpr htexts) hn
  · refine ⟨_, Value.distinct_eq_ok (List.forall_mem_map.mpr h), ?_⟩
    rw [Value.length_addAll_eq_classes_iff]
    simp only [List.forall_mem_map]
    exact forall₂_congr fun a _ ↦ forall₂_congr fun b _ ↦ forall_congr' fun hab ↦ hkey a b hab

/-- A number written in three ways, deep in three equal nodes: one hash and one member. -/
theorem hashing_by_texts_of_numbers :
    let node (v : Value) : Expression :=
      .or [.not (.cached (.and [.term "a" (.tuple [v, .set true [.null, v]]),
        .raw [Mapping.entry "x" (.int 1)]])), .lookup [("b", v)]]
    let nodes := [node (.int 1), node (.bool true), node (.real (.finite false 1 0))]
    (∀ e ∈ nodes, (Value.node e).Hashable) ∧ (∀ a ∈ nodes, ∀ b ∈ nodes, a.Alike b) ∧
      (∀ H : Hashing, ∀ a ∈ nodes, ∀ b ∈ nodes, ∀ m n, H.Of (.node a) m → H.Of (.node b) n →
        m = n) ∧
      ∃ members, Value.distinct (nodes.map .node) = .ok members ∧ members.length = 1 ∧
        (Value.classes (nodes.map .node)).ncard = 1 := by
  intro node nodes
  have hnode : ∀ v : Value, v.Hashable → v.termValue = v → (Value.node (node v)).Hashable := by
    intro v hv htermValue
    have hset : (Value.set true [.null, v]).Hashable := .set (by simp [Value.Hashable.null, hv])
    have hterm : ∀ field w, w.Hashable → (Value.node (.term field w)).Hashable := fun field w hw ↦
      .fields rfl (by simp [Value.Hashable.text, hw])
    have hlookup : (Value.node (.lookup [("b", v)])).Hashable := by
      refine .fields rfl (List.forall_mem_cons.mpr ⟨.tuple ?_, List.forall_mem_singleton.mpr ?_⟩)
      · exact List.forall_mem_singleton.mpr (.tuple (by simp [Value.Hashable.text, hv]))
      · have hnodes : Lookups.nodes [("b", v)] = [.term "b" v.termValue] := rfl
        rw [hnodes, htermValue]
        exact .tuple (List.forall_mem_singleton.mpr (hterm "b" v hv))
    have hand : (Value.node (.and [.term "a" (.tuple [v, .set true [.null, v]]),
        .raw [Mapping.entry "x" (.int 1)]])).Hashable := by
      refine .fields rfl (List.forall_mem_singleton.mpr (.tuple ?_))
      have hitems := hterm "a" _ (.tuple (List.forall_mem_cons.mpr
        ⟨hv, List.forall_mem_singleton.mpr hset⟩))
      exact List.forall_mem_cons.mpr ⟨hitems, List.forall_mem_singleton.mpr (.raw rfl)⟩
    have hnot := Value.Hashable.fields (e := .not _) rfl (List.forall_mem_singleton.mpr
      (Value.Hashable.fields (e := .cached _) rfl (List.forall_mem_singleton.mpr hand)))
    refine .fields rfl (List.forall_mem_singleton.mpr (.tuple ?_))
    exact List.forall_mem_cons.mpr ⟨hnot, List.forall_mem_singleton.mpr hlookup⟩
  have hhashable : ∀ e ∈ nodes, (Value.node e).Hashable := by
    simp only [nodes, List.mem_cons, List.not_mem_nil, or_false, forall_eq_or_imp, forall_eq]
    exact ⟨hnode _ (.number rfl) rfl, hnode _ (.number rfl) rfl, hnode _ (.number rfl) rfl⟩
  have hkey : ∀ a ∈ nodes, ∀ b ∈ nodes, (Value.node a).sameKey (.node b) = true := by
    simp only [nodes, List.mem_cons, List.not_mem_nil, or_false, forall_eq_or_imp, forall_eq]
    decide +kernel
  have halike : ∀ a ∈ nodes, ∀ b ∈ nodes, a.Alike b := fun a ha b hb ↦
    (Value.sameKey_iff.mp (hkey a ha b hb)).1
  have htexts : ∀ a ∈ nodes, ∀ b ∈ nodes, a.Alike b → a.rawTexts = b.rawTexts :=
    fun a ha b hb _ ↦ (Value.sameKey_iff.mp (hkey a ha b hb)).2
  obtain ⟨-, hhashes, members, hmembers, hcount⟩ := hashing_by_texts nodes hhashable
  have hlength : members.length = 1 := by
    have hkept := Value.distinct_eq_ok (List.forall_mem_map.mpr hhashable)
    obtain rfl := Except.ok.inj (hkept.symm.trans hmembers)
    decide +kernel
  refine ⟨hhashable, halike, fun H a ha b hb ↦ ?_, members, hmembers, hlength, ?_⟩
  · have hab := halike a ha b hb
    exact (hhashes a ha b hb hab).mpr (htexts a ha b hb hab) H
  · rw [← hcount.mpr htexts, hlength]

/-- Fragments of the same entries in another order: equal, with hashes of their own. -/
theorem equal_nodes_of_two_hashes :
    let a : Expression := .raw [Mapping.entry "a" (.int 1), Mapping.entry "b" (.int 2)]
    let b : Expression := .raw [Mapping.entry "b" (.int 2), Mapping.entry "a" (.int 1)]
    (Value.node a).Hashable ∧ (Value.node b).Hashable ∧ a.Alike b ∧
      (∃ (H : Hashing) (m n : Int), H.Of (.node a) m ∧ H.Of (.node b) n ∧ m ≠ n) ∧
      ∃ members, Value.distinct [.node a, .node b] = .ok members ∧ members.length = 2 ∧
        (Value.classes [.node a, .node b]).ncard = 1 := by
  intro a b
  have hab : a.Alike b := rfl
  have hkey : (Value.node a).sameKey (.node b) = false := by decide +kernel
  have ha : (Value.map [Mapping.entry "a" (.int 1), Mapping.entry "b" (.int 2)]).literal? =
      some "\x7b'a': 1, 'b': 2\x7d" := by decide +kernel
  have hb : (Value.map [Mapping.entry "b" (.int 2), Mapping.entry "a" (.int 1)]).literal? =
      some "\x7b'b': 2, 'a': 1\x7d" := by decide +kernel
  have hashable : ∀ v ∈ [Value.node a, .node b], v.Hashable :=
    List.forall_mem_cons.mpr ⟨.raw ha, List.forall_mem_singleton.mpr (.raw hb)⟩
  refine ⟨.raw ha, .raw hb, hab, ⟨.separating, _, _, .raw ha, .raw hb, fun heq ↦ ?_⟩, _,
    Value.distinct_eq_ok hashable, ?_, ?_⟩
  · exact absurd (Hashing.text_separating heq) (by decide)
  · simp [Distinct.addAll, Distinct.add, hkey]
  · have hclass : Value.classes [.node a, .node b] = {Quotient.mk _ (.node a)} := by
      have hsame : Quotient.mk Value.equality (.node b) = Quotient.mk Value.equality (.node a) :=
        Quotient.sound (Expression.Alike.symm hab)
      ext c
      simp [Value.classes, hsame, eq_comm]
    rw [hclass, Set.ncard_singleton]

end Expression

end SearchCriteria
