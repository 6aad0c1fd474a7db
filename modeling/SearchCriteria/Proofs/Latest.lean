import SearchCriteria.Proofs.Distinct

/-!
# First occurrences and last values

What a run of additions comes to.  Items that are added one after the other leave their first
occurrences; mappings that are laid one over the other leave the first occurrences of their keys,
each with its value in the last mapping that has it.
-/

namespace SearchCriteria

namespace Distinct

variable {α : Type} {same : α → α → Bool} (hs : Association.Lawful same)

include hs

/-- Of what is added, the first occurrences stay that are not there yet. -/
theorem addAll_eq_append_eraseDupsBy (items additions : List α) :
    addAll same items additions =
      items ++ (additions.filter fun x ↦ !items.any (same · x)).eraseDupsBy same := by
  induction additions generalizing items with
  | nil => simp
  | cons x xs ih =>
    change addAll same (add same items x) xs = _
    rw [ih, List.filter_cons]
    cases hany : items.any (same · x) with
    | true => simp [add_of_any hany]
    | false =>
      -- past `x`, what is the same as `x` counts as there
      have hfilter : (xs.filter fun y ↦ !(items ++ [x]).any (same · y)) =
          (xs.filter fun y ↦ !items.any (same · y)).filter fun y ↦ same y x = false := by
        rw [List.filter_filter]
        refine List.filter_congr fun y _ ↦ ?_
        simp [hs.comm x y, Bool.and_comm]
      rw [add_of_not_any hany, hfilter]
      simp [List.eraseDupsBy_cons]

theorem addAll_nil_eq_eraseDupsBy (additions : List α) :
    addAll same [] additions = additions.eraseDupsBy same := by
  simp [addAll_eq_append_eraseDupsBy hs]

/-- One union after the other leaves the first occurrences of all that was added. -/
theorem foldl_union {β : Type} (added : β → List α) (us : List β) :
    us.foldl (fun held u ↦ union same held (added u)) [] =
      (us.flatMap added).eraseDupsBy same := by
  have hfold : ∀ before : List α,
      us.foldl (fun held u ↦ union same held (added u)) (addAll same [] before) =
        addAll same [] (before ++ us.flatMap added) := by
    induction us with
    | nil => simp
    | cons u us ih =>
      intro before
      have hunion : union same (addAll same [] before) (added u) =
          addAll same [] (before ++ added u) := by
        rw [union, addAll_append, addAll_addAll hs, addAll_nil, ← addAll_append]
      rw [List.foldl_cons, hunion, ih, List.flatMap_cons, List.append_assoc]
  rw [← addAll_nil_eq_eraseDupsBy hs]
  exact hfold []

end Distinct

namespace Association

variable {κ α : Type} {same : κ → κ → Bool}

theorem keys_put (key : κ) (value : α) (entries : List (κ × α)) :
    keys (put same key value entries) = Distinct.add same (keys entries) key := by
  by_cases h : Holds same key entries
  · rw [keys_put_of_holds h, Distinct.add_of_any (List.any_eq_true.mpr h)]
  · have hany : (keys entries).any (same · key) = false :=
      List.any_eq_false.mpr fun k hk ↦ by simp [not_holds_iff.mp h k hk]
    rw [put_of_not_holds h, Distinct.add_of_not_any hany, keys_append, keys_cons, keys_nil]

theorem keys_overlay_eq_addAll (entries additions : List (κ × α)) :
    keys (overlay same entries additions) =
      Distinct.addAll same (keys entries) (keys additions) := by
  induction additions generalizing entries with
  | nil => rfl
  | cons e rest ih =>
    rw [overlay_cons, ih, keys_put]
    rfl

theorem get?_append (key : κ) (xs ys : List (κ × α)) :
    get? same key (xs ++ ys) = (get? same key xs).or (get? same key ys) := by
  induction xs with
  | nil => rfl
  | cons x xs ih =>
    obtain ⟨k, v⟩ := x
    rw [List.cons_append, get?, get?, ih]
    cases same k key <;> rfl

theorem get?_flatten (key : κ) (lists : List (List (κ × α))) :
    get? same key lists.flatten = lists.findSome? (get? same key) := by
  induction lists with
  | nil => rfl
  | cons entries lists ih =>
    rw [List.flatten_cons, get?_append, ih, List.findSome?_cons]
    cases get? same key entries <;> rfl

/-- Entries with distinct keys are told by their keys and what is found under them. -/
theorem filterMap_keys (hs : Lawful same) {entries : List (κ × α)}
    (h : DistinctKeys same entries) :
    ((keys entries).filterMap fun k ↦ (get? same k entries).map (k, ·)) = entries := by
  induction entries with
  | nil => rfl
  | cons entry rest ih =>
    obtain ⟨k, v⟩ := entry
    obtain ⟨hk, hrest⟩ := (distinctKeys_cons k v rest).mp h
    have htail : ((keys rest).filterMap fun l ↦ (get? same l ((k, v) :: rest)).map (l, ·)) =
        rest := by
      rw [← List.filterMap_congr fun l hl ↦ ?_]
      · exact ih hrest
      · simp [get?, hk l hl]
    rw [keys_cons, List.filterMap_cons, htail]
    simp [get?, hs.self k]

/-- The entry that was put last is found. -/
theorem get?_overlay_eq_reverse (hs : Lawful same) (key : κ) (entries additions : List (κ × α)) :
    get? same key (overlay same entries additions) =
      (get? same key additions.reverse).or (get? same key entries) := by
  induction additions generalizing entries with
  | nil => rfl
  | cons e rest ih =>
    obtain ⟨k, v⟩ := e
    rw [overlay_cons, ih, get?_put hs, List.reverse_cons, get?_append, Option.or_assoc]
    cases hk : same k key <;> simp [get?, hk]

end Association

namespace Mapping

/--
The value in the last of the mappings that have the key.  A mapping in which the key came twice
would count by the later entry.
-/
def lastValue? (patches : List Mapping) (key : Value) : Option Value :=
  patches.reverse.findSome? fun patch ↦ get? patch.reverse key

/-- The keys of the mappings, in the order in which they first came, each with its last value. -/
def latest (patches : List Mapping) : Mapping :=
  ((patches.flatMap Association.keys).eraseDupsBy Value.sameKey).filterMap fun key ↦
    (lastValue? patches key).map (key, ·)

/-- Mappings laid one over the other. -/
theorem foldl_overlay (patches : List Mapping) : patches.foldl overlay [] = latest patches := by
  have hflat : ∀ mapping : Mapping,
      patches.foldl overlay mapping = mapping.overlay patches.flatten := by
    induction patches with
    | nil => exact fun _ ↦ rfl
    | cons patch patches ih =>
      intro mapping
      rw [List.foldl_cons, ih, List.flatten_cons, overlay_append]
  have hkeys : Association.keys (overlay [] patches.flatten) =
      (patches.flatMap Association.keys).eraseDupsBy Value.sameKey := by
    rw [overlay, Association.keys_overlay_eq_addAll, Association.keys_nil,
      Distinct.addAll_nil_eq_eraseDupsBy Value.sameKey_lawful, Association.keys, List.map_flatten]
    rfl
  have hget : ∀ key, (overlay [] patches.flatten).get? key = lastValue? patches key := by
    intro key
    have hlast := Association.get?_overlay_eq_reverse Value.sameKey_lawful key [] patches.flatten
    rw [Association.get?_nil, Option.or_none, List.reverse_flatten, ← List.map_reverse,
      Association.get?_flatten, List.findSome?_map] at hlast
    exact hlast
  have hdistinct : (overlay [] patches.flatten).DistinctKeys :=
    Association.DistinctKeys.overlay .nil _
  rw [hflat, ← Association.filterMap_keys Value.sameKey_lawful hdistinct, hkeys]
  exact List.filterMap_congr fun key _ ↦ congrArg _ (hget key)

end Mapping

end SearchCriteria
