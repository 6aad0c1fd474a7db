import Mathlib.Data.List.Perm.Basic
import SearchCriteria.Value.Equal

/-!
# Agreement of values is an equivalence

Values that agree are told apart by no third value: `a.agrees asKey b` makes `a.agrees asKey` and
`b.agrees asKey` one and the same test.  With reflexivity this gives symmetry and transitivity, both
for equality of values and for their being the same key.

Mappings and sets are compared by taking the partner of each entry out of the other side, so their
case needs the order in which partners are taken out not to matter.
-/

namespace SearchCriteria

/-! ## Taking out partners -/

section Pairing

variable {α : Type}

/-- Each test takes out the first item that passes it, and nothing is left at the end. -/
def pairsOff : List (α → Bool) → List α → Bool
  | [], xs => xs.isEmpty
  | test :: tests, xs =>
    match extract? test xs with
    | some rest => pairsOff tests rest
    | none => false

/-- What is taken out passes the test, and the other items keep their order. -/
theorem exists_of_extract? {test : α → Bool} {xs rest : List α}
    (h : extract? test xs = some rest) :
    ∃ before x behind, xs = before ++ x :: behind ∧ test x = true ∧ rest = before ++ behind := by
  induction xs generalizing rest with
  | nil => simp [extract?] at h
  | cons y ys ih =>
    by_cases hy : test y = true
    · have hrest : ys = rest := by simpa [extract?, hy] using h
      exact ⟨[], y, ys, rfl, hy, hrest.symm⟩
    · obtain ⟨tail, htail, rfl⟩ : ∃ tail, extract? test ys = some tail ∧ y :: tail = rest := by
        simpa [extract?, hy] using h
      obtain ⟨before, x, behind, rfl, hx, rfl⟩ := ih htail
      exact ⟨y :: before, x, behind, rfl, hx, rfl⟩

theorem extract?_eq_none {test : α → Bool} {xs : List α} (h : ∀ x ∈ xs, test x = false) :
    extract? test xs = none := by
  cases hxs : extract? test xs with
  | none => rfl
  | some rest =>
    obtain ⟨before, x, behind, rfl, hx, -⟩ := exists_of_extract? hxs
    rw [h x (by simp)] at hx
    cases hx

/-- Tests that no item passes together take out their items in either order. -/
theorem extract?_comm {p q : α → Bool} (h : ∀ x, p x = true → q x = false) (xs : List α) :
    (extract? p xs).bind (extract? q) = (extract? q xs).bind (extract? p) := by
  induction xs with
  | nil => rfl
  | cons x xs ih =>
    cases hp : p x with
    | true =>
      have hq : q x = false := h x hp
      cases hxs : extract? q xs <;> simp [extract?, hp, hq, hxs]
    | false =>
      cases hq : q x with
      | true => cases hxs : extract? p xs <;> simp [extract?, hp, hq, hxs]
      | false =>
        have hleft : ∀ r : Option (List α), (r.map (x :: ·)).bind (extract? q) =
            (r.bind (extract? q)).map (x :: ·) := by
          intro r; cases r <;> simp [extract?, hq]
        have hright : ∀ r : Option (List α), (r.map (x :: ·)).bind (extract? p) =
            (r.bind (extract? p)).map (x :: ·) := by
          intro r; cases r <;> simp [extract?, hp]
        simp only [extract?, hp, hq, Bool.false_eq_true, if_false]
        rw [hleft, hright, ih]

theorem pairsOff_cons (test : α → Bool) (tests : List (α → Bool)) (xs : List α) :
    pairsOff (test :: tests) xs = ((extract? test xs).map (pairsOff tests)).getD false := by
  rw [pairsOff]
  cases extract? test xs <;> rfl

/-- Two tests take out two items in place or crosswise. -/
theorem pairsOff_two (p q : α → Bool) (x y : α) :
    pairsOff [p, q] [x, y] = if p x then q y else p y && q x := by
  cases hx : p x with
  | true => cases hy : q y <;> simp [pairsOff, extract?, hx, hy]
  | false =>
    cases hy : p y <;> cases hq : q x <;> simp [pairsOff, extract?, hx, hy, hq]

/-- Two tests that are the same, or that no item passes together. -/
def Apart (p q : α → Bool) : Prop := p = q ∨ ∀ x, p x = true → q x = false

theorem pairsOff_swap {p q : α → Bool} (h : Apart p q) (tests : List (α → Bool)) (xs : List α) :
    pairsOff (p :: q :: tests) xs = pairsOff (q :: p :: tests) xs := by
  obtain rfl | h := h
  · rfl
  · have hbind : ∀ s t : α → Bool, pairsOff (s :: t :: tests) xs =
        (((extract? s xs).bind (extract? t)).map (pairsOff tests)).getD false := by
      intro s t
      rw [pairsOff_cons]
      cases extract? s xs <;> simp [pairsOff_cons]
    rw [hbind, hbind, extract?_comm h]

/-- The order of the tests does not matter. -/
theorem pairsOff_perm {tests others : List (α → Bool)} (h : tests.Perm others)
    (hapart : ∀ p ∈ tests, ∀ q ∈ tests, Apart p q) (xs : List α) :
    pairsOff tests xs = pairsOff others xs := by
  induction h generalizing xs with
  | nil => rfl
  | cons t _ ih =>
    rw [pairsOff_cons, pairsOff_cons]
    congr 2
    funext rest
    exact ih (fun p hp q hq ↦ hapart p (List.mem_cons_of_mem t hp) q (List.mem_cons_of_mem t hq))
      rest
  | swap p q tests =>
    exact pairsOff_swap (hapart q (by simp) p (by simp)) tests xs
  | trans h₁ _ ih₁ ih₂ =>
    rw [ih₁ hapart xs]
    exact ih₂ (fun p hp q hq ↦ hapart p (h₁.mem_iff.mpr hp) q (h₁.mem_iff.mpr hq)) xs

/-- Items that are paired off have the tests that they passed, in some order. -/
theorem perm_of_pairsOff {test : α → α → Bool} {tests : List (α → Bool)} {xs : List α}
    (hsame : ∀ t ∈ tests, ∀ x, t x = true → t = test x) (h : pairsOff tests xs = true) :
    tests.Perm (xs.map test) := by
  induction tests generalizing xs with
  | nil =>
    have hxs : xs = [] := by simpa [pairsOff] using h
    rw [hxs]
    exact .nil
  | cons t tests ih =>
    rw [pairsOff] at h
    split at h
    · rename_i rest hrest
      obtain ⟨before, x, behind, rfl, hx, rfl⟩ := exists_of_extract? hrest
      have htail := ih (fun s hs ↦ hsame s (List.mem_cons_of_mem t hs)) h
      rw [hsame t List.mem_cons_self x hx, List.map_append, List.map_cons]
      rw [List.map_append] at htail
      exact (htail.cons _).trans List.perm_middle.symm
    · simp at h

/-- Items that are paired off are partners one by one, in some order. -/
theorem exists_perm_of_pairsOff {test : α → α → Bool} {xs ys : List α}
    (h : pairsOff (xs.map test) ys = true) :
    ∃ l, l.Perm ys ∧ List.Forall₂ (fun x y ↦ test x y = true) xs l := by
  induction xs generalizing ys with
  | nil =>
    obtain rfl : ys = [] := by simpa [pairsOff] using h
    exact ⟨[], .nil, .nil⟩
  | cons x xs ih =>
    rw [List.map_cons, pairsOff] at h
    split at h
    · rename_i rest hrest
      obtain ⟨before, y, behind, rfl, hy, rfl⟩ := exists_of_extract? hrest
      obtain ⟨l, hperm, hl⟩ := ih h
      exact ⟨y :: l, (hperm.cons y).trans List.perm_middle.symm, .cons hy hl⟩
    · cases h

/-- Items that agree with the same item are the same test, so tests are the same or apart. -/
theorem apart_of_mem_map {test : α → α → Bool} {xs : List α}
    (hsame : ∀ x ∈ xs, ∀ y, test x y = true → test x = test y) :
    ∀ p ∈ xs.map test, ∀ q ∈ xs.map test, Apart p q := by
  intro p hp q hq
  obtain ⟨x, hx, rfl⟩ := List.mem_map.mp hp
  obtain ⟨y, hy, rfl⟩ := List.mem_map.mp hq
  by_cases hxy : ∃ z, test x z = true ∧ test y z = true
  · obtain ⟨z, hxz, hyz⟩ := hxy
    exact .inl ((hsame x hx z hxz).trans (hsame y hy z hyz).symm)
  · refine .inr fun z hz ↦ ?_
    by_contra hyz
    exact hxy ⟨z, hz, by simpa using hyz⟩

/--
If every item of the first list is told apart by nothing from the items that it agrees with, then
lists that are paired off are paired off with the same lists.
-/
theorem pairsOff_congr {test : α → α → Bool} {xs ys : List α}
    (hsame : ∀ x ∈ xs, ∀ y, test x y = true → test x = test y)
    (h : pairsOff (xs.map test) ys = true) :
    pairsOff (xs.map test) = pairsOff (ys.map test) := by
  have hperm : (xs.map test).Perm (ys.map test) := by
    refine perm_of_pairsOff (fun t ht y hy ↦ ?_) h
    obtain ⟨x, hx, rfl⟩ := List.mem_map.mp ht
    exact hsame x hx y hy
  funext zs
  exact pairsOff_perm hperm (apart_of_mem_map hsame) zs

/-- A list is paired off with itself, if every item agrees with itself. -/
theorem pairsOff_self {test : α → α → Bool} {xs : List α} (h : ∀ x ∈ xs, test x x = true) :
    pairsOff (xs.map test) xs = true := by
  induction xs with
  | nil => rfl
  | cons x xs ih =>
    rw [List.map_cons, pairsOff_cons]
    simp only [extract?, h x List.mem_cons_self, if_true]
    exact ih fun y hy ↦ h y (List.mem_cons_of_mem x hy)

end Pairing

/-! ## Entries and members -/

/-- Two entries with the same key and equal values. -/
def entriesAgree (e f : Value × Value) : Bool := e.1.agrees true f.1 && e.2.agrees false f.2

theorem agreeEntries_eq_pairsOff (es fs : Mapping) :
    agreeEntries es fs = pairsOff (es.map entriesAgree) fs := by
  induction es generalizing fs with
  | nil => rfl
  | cons e es ih =>
    obtain ⟨key, value⟩ := e
    have htest : (fun f : Value × Value ↦ key.agrees true f.1 && value.agrees false f.2) =
      entriesAgree (key, value) := rfl
    rw [agreeEntries, htest, List.map_cons, pairsOff]
    cases extract? (entriesAgree (key, value)) fs with
    | none => rfl
    | some rest => exact ih rest

theorem agreeMembers_eq_pairsOff (xs ys : List Value) :
    agreeMembers xs ys = pairsOff (xs.map (Value.agrees true)) ys := by
  induction xs generalizing ys with
  | nil => rfl
  | cons x xs ih =>
    rw [agreeMembers, List.map_cons, pairsOff]
    cases extract? (Value.agrees true x) ys with
    | none => rfl
    | some rest => exact ih rest

/-- Mappings that agree are told apart by no other mapping, if their entries are not. -/
theorem agreeEntries_congr_of {es fs : Mapping}
    (hsame : ∀ e ∈ es, ∀ f, entriesAgree e f = true → entriesAgree e = entriesAgree f)
    (h : agreeEntries es fs = true) : agreeEntries es = agreeEntries fs := by
  rw [agreeEntries_eq_pairsOff] at h
  funext gs
  rw [agreeEntries_eq_pairsOff, agreeEntries_eq_pairsOff]
  exact congrFun (pairsOff_congr hsame h) gs

theorem agreeMembers_congr_of {xs ys : List Value}
    (hsame : ∀ x ∈ xs, ∀ y, x.agrees true y = true → x.agrees true = y.agrees true)
    (h : agreeMembers xs ys = true) : agreeMembers xs = agreeMembers ys := by
  rw [agreeMembers_eq_pairsOff] at h
  funext zs
  rw [agreeMembers_eq_pairsOff, agreeMembers_eq_pairsOff]
  exact congrFun (pairsOff_congr hsame h) zs

/-! ## Numbers and truth values -/

namespace Value

/-- A number agrees with what is worth as much. -/
theorem agrees_of_quantity {a : Value} (h : a.quantity?.isSome = true) (asKey : Bool) (b : Value) :
    a.agrees asKey b = a.sameQuantity b := by
  cases a <;> simp [quantity?] at h <;> cases b <;> rfl

theorem sameQuantity_iff {a b : Value} :
    a.sameQuantity b = true ↔ ∃ q, a.quantity? = some q ∧ b.quantity? = some q := by
  unfold sameQuantity
  cases a.quantity? <;> cases b.quantity? <;> simp [eq_comm]

theorem agrees_self_of_quantity {a : Value} (h : a.quantity?.isSome = true) (asKey : Bool) :
    a.agrees asKey a = true := by
  obtain ⟨q, hq⟩ := Option.isSome_iff_exists.mp h
  rw [agrees_of_quantity h]
  exact sameQuantity_iff.mpr ⟨q, hq, hq⟩

theorem agrees_congr_of_quantity {asKey : Bool} {a b : Value} (ha : a.quantity?.isSome = true)
    (h : a.agrees asKey b = true) : a.agrees asKey = b.agrees asKey := by
  rw [agrees_of_quantity ha] at h
  obtain ⟨q, hqa, hqb⟩ := sameQuantity_iff.mp h
  have hb : b.quantity?.isSome = true := by simp [hqb]
  funext c
  rw [agrees_of_quantity ha, agrees_of_quantity hb]
  simp [sameQuantity, hqa, hqb]

/-- A text agrees with nothing but the same text. -/
theorem agrees_text_left (asKey : Bool) (s : String) (b : Value) :
    (text s).agrees asKey b = b.isText s := by
  cases b with
  | text t => exact Bool.beq_comm
  | _ => rfl

theorem agrees_text_right (asKey : Bool) (a : Value) (t : String) :
    a.agrees asKey (text t) = a.isText t := by
  cases a <;> rfl

theorem eq_of_isText {s : String} {v : Value} (h : v.isText s = true) : v = .text s := by
  cases v with
  | text t => rw [eq_of_beq h]
  | _ => cases h

end Value

/-! ## Limits as pairs -/

/-- Limits agree if the pairs do that they were given as. -/
theorem Limit.agrees_eq (asKey : Bool) (l m : Limit Value) :
    l.agrees asKey m = l.pair.agrees asKey m.pair := by
  obtain ⟨b, v, f⟩ := l
  obtain ⟨c, w, g⟩ := m
  have hname : (b.name == c.name) = (b == c) := by
    rw [Bool.eq_iff_iff, beq_iff_eq, beq_iff_eq, Bound.name_inj]
  cases f with
  | tuple | list =>
    cases g <;> simp [agrees, pair, Value.agrees, agreeItems, hname, Value.sameQuantity,
      Value.quantity?]
  | map p q =>
    cases g with
    | map r s =>
      rw [pair, pair, Value.agrees_map, agreeEntries_eq_pairsOff, List.map_cons, List.map_cons,
        List.map_nil, pairsOff_two]
      simp only [agrees, entriesAgree, hname, Value.agrees_text_left, Value.agrees_text_right,
        Value.isText_text]
    | _ => rfl
  | set =>
    cases g with
    | set =>
      change _ = agreeMembers _ _
      rw [agreeMembers_eq_pairsOff, List.map_cons, List.map_cons, List.map_nil, pairsOff_two]
      simp only [agrees, hname, Value.agrees_text_left, Value.agrees_text_right,
        Value.isText_text]
    | _ => rfl

/-! ## Every value agrees with itself -/

mutual

theorem Value.agrees_self (asKey : Bool) : ∀ v : Value, v.agrees asKey v = true
  | .null => rfl
  | .bool _ | .int _ | .real _ => Value.agrees_self_of_quantity rfl asKey
  | .text s => by rw [Value.agrees_text]; exact beq_self_eq_true s
  | .list items => agreeItems_self asKey items
  | .tuple items => agreeItems_self asKey items
  | .map entries => by
    rw [Value.agrees_map, agreeEntries_eq_pairsOff]
    exact pairsOff_self (entriesAgree_self entries)
  | .set _ items => by
    change agreeMembers items items = true
    rw [agreeMembers_eq_pairsOff]
    exact pairsOff_self (membersAgree_self items)
  | .node e => e.agrees_self asKey
termination_by structural v => v

theorem Expression.agrees_self (asKey : Bool) : ∀ e : Expression, e.agrees asKey e = true
  | .base => rfl
  | .term _ value | .script _ value => by simp [Expression.agrees, value.agrees_self asKey]
  | .range _ limits => by simp [Expression.agrees, agreeLimits_self asKey limits]
  | .present _ => by simp [Expression.agrees]
  | .and nodes => agreeNodes_self asKey nodes
  | .or nodes => agreeNodes_self asKey nodes
  | .not e => e.agrees_self asKey
  | .cached e => e.agrees_self asKey
  | .raw entries => by
    have h := pairsOff_self (entriesAgree_self entries)
    rw [← agreeEntries_eq_pairsOff] at h
    simp [Expression.agrees, h]
  | .lookup lookups => agreeLookups_self asKey lookups
termination_by structural e => e

theorem agreeItems_self (asKey : Bool) : ∀ items : List Value, agreeItems asKey items items = true
  | [] => rfl
  | v :: vs => by simp [agreeItems, v.agrees_self asKey, agreeItems_self asKey vs]
termination_by structural vs => vs

theorem entriesAgree_self : ∀ entries : List (Value × Value),
    ∀ e ∈ entries, entriesAgree e e = true
  | [], e, he => absurd he List.not_mem_nil
  | (key, value) :: entries, e, he => by
    rcases List.mem_cons.mp he with heq | he
    · rw [heq, entriesAgree, key.agrees_self true, value.agrees_self false]
      rfl
    · exact entriesAgree_self entries e he
termination_by structural es => es

theorem membersAgree_self : ∀ members : List Value, ∀ v ∈ members, v.agrees true v = true
  | [], v, hv => absurd hv List.not_mem_nil
  | m :: members, v, hv => by
    rcases List.mem_cons.mp hv with heq | hv
    · rw [heq]
      exact m.agrees_self true
    · exact membersAgree_self members v hv
termination_by structural vs => vs

theorem Limit.agrees_self (asKey : Bool) : ∀ l : Limit Value, l.agrees asKey l = true
  | ⟨_, v, .tuple⟩ | ⟨_, v, .list⟩ => by simp [Limit.agrees, v.agrees_self asKey]
  | ⟨_, v, .map p q⟩ => by
    simp [Limit.agrees, p.agrees_self false, v.agrees_self true, q.agrees_self false]
  | ⟨_, v, .set _⟩ => by simp [Limit.agrees, v.agrees_self true]
termination_by structural l => l

theorem agreeLimits_self (asKey : Bool) : ∀ limits : List (Limit Value),
    agreeLimits asKey limits limits = true
  | [] => rfl
  | l :: ls => by simp [agreeLimits, l.agrees_self asKey, agreeLimits_self asKey ls]
termination_by structural ls => ls

theorem agreeNodes_self (asKey : Bool) : ∀ nodes : List Expression,
    agreeNodes asKey nodes nodes = true
  | [] => rfl
  | e :: es => by simp [agreeNodes, e.agrees_self asKey, agreeNodes_self asKey es]
termination_by structural es => es

theorem agreeLookups_self (asKey : Bool) : ∀ lookups : List (String × Value),
    agreeLookups asKey lookups lookups = true
  | [] => rfl
  | (_, v) :: ls => by simp [agreeLookups, v.agrees_self asKey, agreeLookups_self asKey ls]
termination_by structural ls => ls

end

/-! ## What agrees is told apart by nothing -/

/-- Entries that agree are one and the same test, if their keys and their values are. -/
theorem entriesAgree_congr_of {key value : Value} {f : Value × Value}
    (hkey : ∀ {c}, key.agrees true c = true → key.agrees true = c.agrees true)
    (hvalue : ∀ {c}, value.agrees false c = true → value.agrees false = c.agrees false)
    (h : entriesAgree (key, value) f = true) : entriesAgree (key, value) = entriesAgree f := by
  obtain ⟨hk, hv⟩ := Bool.and_eq_true_iff.mp h
  funext g
  simp only [entriesAgree, hkey hk, hvalue hv]

namespace Value

variable {asKey : Bool} {b : Value}

theorem agrees_congr_text {s : String} (h : (text s).agrees asKey b = true) :
    (text s).agrees asKey = b.agrees asKey := by
  rw [eq_of_isText ((agrees_text_left asKey s b).symm.trans h)]

theorem agrees_congr_map {es : Mapping}
    (hsame : ∀ e ∈ es, ∀ f, entriesAgree e f = true → entriesAgree e = entriesAgree f)
    (h : (map es).agrees asKey b = true) : (map es).agrees asKey = b.agrees asKey := by
  cases b with
  | map fs =>
    have hef := agreeEntries_congr_of hsame h
    funext c
    cases c with
    | map gs => exact congrFun hef gs
    | _ => rfl
  | _ => simp [agrees, sameQuantity, quantity?] at h

theorem agrees_congr_set {frozen : Bool} {xs : List Value}
    (hsame : ∀ x ∈ xs, ∀ y, x.agrees true y = true → x.agrees true = y.agrees true)
    (h : (set frozen xs).agrees asKey b = true) :
    (set frozen xs).agrees asKey = b.agrees asKey := by
  cases b with
  | set _ ys =>
    have hxy := agreeMembers_congr_of hsame h
    funext c
    cases c with
    | set _ zs => exact congrFun hxy zs
    | _ => rfl
  | _ => simp [agrees, sameQuantity, quantity?] at h

end Value

mutual

/-- Values that agree are one and the same test for other values. -/
theorem Value.agrees_congr {asKey : Bool} :
    ∀ {a b : Value}, a.agrees asKey b = true → a.agrees asKey = b.agrees asKey
  | .null, b, h => by
    cases b with
    | null => rfl
    | _ => simp [Value.agrees, Value.sameQuantity, Value.quantity?] at h
  | .bool _, b, h | .int _, b, h | .real _, b, h => Value.agrees_congr_of_quantity rfl h
  | .text _, _, h => Value.agrees_congr_text h
  | .list xs, b, h => by
    cases b with
    | list ys =>
      have hxy := @agreeItems_congr _ xs ys h
      funext c
      cases c with
      | list zs => exact congrFun hxy zs
      | _ => rfl
    | _ => simp [Value.agrees, Value.sameQuantity, Value.quantity?] at h
  | .tuple xs, b, h => by
    cases b with
    | tuple ys =>
      have hxy := @agreeItems_congr _ xs ys h
      funext c
      cases c with
      | tuple zs => exact congrFun hxy zs
      | _ => rfl
    | _ => simp [Value.agrees, Value.sameQuantity, Value.quantity?] at h
  | .map es, _, h => Value.agrees_congr_map (entriesAgree_congr es) h
  | .set _ xs, _, h => Value.agrees_congr_set (membersAgree_congr xs) h
  | .node d, b, h => by
    cases b with
    | node e =>
      have hde := Expression.agrees_congr (a := d) (b := e) h
      funext c
      cases c with
      | node f => exact congrFun hde f
      | _ => rfl
    | _ => simp [Value.agrees, Value.sameQuantity, Value.quantity?] at h
termination_by structural a => a

theorem Expression.agrees_congr {asKey : Bool} :
    ∀ {a b : Expression}, a.agrees asKey b = true → a.agrees asKey = b.agrees asKey
  | .base, b, h => by
    cases b with
    | base => rfl
    | _ => simp [Expression.agrees] at h
  | .present f, b, h => by
    cases b with
    | present g => rw [eq_of_beq (a := f) (b := g) h]
    | _ => simp [Expression.agrees] at h
  | .term f v, b, h => by
    cases b with
    | term g w =>
      obtain ⟨hf, hv⟩ := Bool.and_eq_true_iff.mp h
      have hvw := Value.agrees_congr (a := v) (b := w) hv
      funext c
      cases c with
      | term => simp only [Expression.agrees, eq_of_beq hf, hvw]
      | _ => rfl
    | _ => simp [Expression.agrees] at h
  | .range f ls, b, h => by
    cases b with
    | range g ms =>
      obtain ⟨hf, hl⟩ := Bool.and_eq_true_iff.mp h
      have hlm := @agreeLimits_congr _ ls ms hl
      funext c
      cases c with
      | range => simp only [Expression.agrees, eq_of_beq hf, hlm]
      | _ => rfl
    | _ => simp [Expression.agrees] at h
  | .script s v, b, h => by
    cases b with
    | script t w =>
      obtain ⟨hs, hv⟩ := Bool.and_eq_true_iff.mp h
      have hvw := Value.agrees_congr (a := v) (b := w) hv
      funext c
      cases c with
      | script => simp only [Expression.agrees, eq_of_beq hs, hvw]
      | _ => rfl
    | _ => simp [Expression.agrees] at h
  | .and xs, b, h => by
    cases b with
    | and ys =>
      have hxy := @agreeNodes_congr _ xs ys h
      funext c
      cases c with
      | and zs => exact congrFun hxy zs
      | _ => rfl
    | _ => simp [Expression.agrees] at h
  | .or xs, b, h => by
    cases b with
    | or ys =>
      have hxy := @agreeNodes_congr _ xs ys h
      funext c
      cases c with
      | or zs => exact congrFun hxy zs
      | _ => rfl
    | _ => simp [Expression.agrees] at h
  | .not x, b, h => by
    cases b with
    | not y =>
      have hxy := Expression.agrees_congr (a := x) (b := y) h
      funext c
      cases c with
      | not z => exact congrFun hxy z
      | _ => rfl
    | _ => simp [Expression.agrees] at h
  | .cached x, b, h => by
    cases b with
    | cached y =>
      have hxy := Expression.agrees_congr (a := x) (b := y) h
      funext c
      cases c with
      | cached z => exact congrFun hxy z
      | _ => rfl
    | _ => simp [Expression.agrees] at h
  | .raw es, b, h => by
    cases b with
    | raw fs =>
      obtain ⟨hentries, htext⟩ := Bool.and_eq_true_iff.mp h
      have hef := agreeEntries_congr_of (entriesAgree_congr es) hentries
      funext c
      cases c with
      | raw gs =>
        cases asKey with
        | false => simp [Expression.agrees, hef]
        | true =>
          have htext : (Value.map es).literal? = (Value.map fs).literal? := by simpa using htext
          simp only [Expression.agrees, hef, htext]
      | _ => rfl
    | _ => simp [Expression.agrees] at h
  | .lookup xs, b, h => by
    cases b with
    | lookup ys =>
      have hxy := @agreeLookups_congr _ xs ys h
      funext c
      cases c with
      | lookup zs => exact congrFun hxy zs
      | _ => rfl
    | _ => simp [Expression.agrees] at h
termination_by structural a => a

theorem agreeItems_congr {asKey : Bool} : ∀ {xs ys : List Value},
    agreeItems asKey xs ys = true → agreeItems asKey xs = agreeItems asKey ys
  | [], ys, h => by
    cases ys with
    | nil => rfl
    | cons => simp [agreeItems] at h
  | x :: xs, [], h => by simp [agreeItems] at h
  | x :: xs, y :: ys, h => by
    obtain ⟨hx, hxs⟩ := Bool.and_eq_true_iff.mp h
    funext zs
    cases zs with
    | nil => rfl
    | cons z zs =>
      simp only [agreeItems, Value.agrees_congr hx, agreeItems_congr hxs]
termination_by structural xs => xs

theorem entriesAgree_congr : ∀ es : List (Value × Value), ∀ e ∈ es, ∀ f,
    entriesAgree e f = true → entriesAgree e = entriesAgree f
  | [], e, he, _, _ => absurd he List.not_mem_nil
  | (key, value) :: es, e, he, f, h => by
    rcases List.mem_cons.mp he with heq | he
    · rw [heq] at h ⊢
      exact entriesAgree_congr_of (Value.agrees_congr (a := key)) (Value.agrees_congr (a := value)) h
    · exact entriesAgree_congr es e he f h
termination_by structural es => es

theorem membersAgree_congr : ∀ xs : List Value, ∀ x ∈ xs, ∀ y,
    x.agrees true y = true → x.agrees true = y.agrees true
  | [], x, hx, _, _ => absurd hx List.not_mem_nil
  | m :: members, x, hx, y, h => by
    rcases List.mem_cons.mp hx with heq | hx
    · rw [heq] at h ⊢
      exact Value.agrees_congr (a := m) h
    · exact membersAgree_congr members x hx y h
termination_by structural xs => xs

theorem Limit.agrees_congr {asKey : Bool} : ∀ {l m : Limit Value},
    l.agrees asKey m = true → l.agrees asKey = m.agrees asKey
  | ⟨b, v, .tuple⟩, ⟨c, w, g⟩, h | ⟨b, v, .list⟩, ⟨c, w, g⟩, h => by
    cases g <;> first
      | cases h
      | obtain ⟨hbound, hvalue⟩ := Bool.and_eq_true_iff.mp h
        have hvw := Value.agrees_congr (a := v) (b := w) hvalue
        funext ⟨_, _, k⟩
        cases k <;> simp only [Limit.agrees, eq_of_beq hbound, hvw]
  | ⟨b, v, .map p q⟩, m, h => by
    rw [Limit.agrees_eq] at h
    funext n
    rw [Limit.agrees_eq, Limit.agrees_eq]
    refine congrFun (Value.agrees_congr_map (fun e he f hef ↦ ?_) h) n.pair
    rcases List.mem_pair.mp he with rfl | rfl
    · exact entriesAgree_congr_of Value.agrees_congr_text (Value.agrees_congr (a := p)) hef
    · exact entriesAgree_congr_of (Value.agrees_congr (a := v)) (Value.agrees_congr (a := q)) hef
  | ⟨b, v, .set _⟩, m, h => by
    rw [Limit.agrees_eq] at h
    funext n
    rw [Limit.agrees_eq, Limit.agrees_eq]
    refine congrFun (Value.agrees_congr_set (fun x hx y hxy ↦ ?_) h) n.pair
    rcases List.mem_pair.mp hx with heq | heq
    · rw [heq] at hxy ⊢
      exact Value.agrees_congr_text hxy
    · rw [heq] at hxy ⊢
      exact Value.agrees_congr (a := v) hxy
termination_by structural l => l

theorem agreeLimits_congr {asKey : Bool} : ∀ {xs ys : List (Limit Value)},
    agreeLimits asKey xs ys = true → agreeLimits asKey xs = agreeLimits asKey ys
  | [], ys, h => by
    cases ys with
    | nil => rfl
    | cons => simp [agreeLimits] at h
  | x :: xs, [], h => by simp [agreeLimits] at h
  | x :: xs, y :: ys, h => by
    obtain ⟨hx, hxs⟩ := Bool.and_eq_true_iff.mp h
    funext zs
    cases zs with
    | nil => rfl
    | cons z zs => simp only [agreeLimits, Limit.agrees_congr hx, agreeLimits_congr hxs]
termination_by structural xs => xs

theorem agreeNodes_congr {asKey : Bool} : ∀ {xs ys : List Expression},
    agreeNodes asKey xs ys = true → agreeNodes asKey xs = agreeNodes asKey ys
  | [], ys, h => by
    cases ys with
    | nil => rfl
    | cons => simp [agreeNodes] at h
  | x :: xs, [], h => by simp [agreeNodes] at h
  | x :: xs, y :: ys, h => by
    obtain ⟨hx, hxs⟩ := Bool.and_eq_true_iff.mp h
    funext zs
    cases zs with
    | nil => rfl
    | cons z zs =>
      simp only [agreeNodes, Expression.agrees_congr hx, agreeNodes_congr hxs]
termination_by structural xs => xs

theorem agreeLookups_congr {asKey : Bool} : ∀ {xs ys : List (String × Value)},
    agreeLookups asKey xs ys = true → agreeLookups asKey xs = agreeLookups asKey ys
  | [], ys, h => by
    cases ys with
    | nil => rfl
    | cons => simp [agreeLookups] at h
  | (k, v) :: xs, [], h => by simp [agreeLookups] at h
  | (k, v) :: xs, (l, w) :: ys, h => by
    simp only [agreeLookups, Bool.and_eq_true, beq_iff_eq] at h
    obtain ⟨⟨rfl, hv⟩, hxs⟩ := h
    have hvw := Value.agrees_congr (a := v) (b := w) hv
    funext zs
    cases zs with
    | nil => rfl
    | cons z zs => simp only [agreeLookups, hvw, agreeLookups_congr hxs]
termination_by structural xs => xs

end

namespace Value

variable {asKey : Bool} {a b c : Value}

theorem agrees_symm (h : a.agrees asKey b = true) : b.agrees asKey a = true := by
  rw [← agrees_congr h]
  exact a.agrees_self asKey

theorem agrees_trans (hab : a.agrees asKey b = true) (hbc : b.agrees asKey c = true) :
    a.agrees asKey c = true := by
  rw [agrees_congr hab]
  exact hbc

end Value

end SearchCriteria
