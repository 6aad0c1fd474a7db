import SearchCriteria.Expression.Lookup

/-!
# Keys that spell a path

A path is written as a key with double underscores for its dots, and an operator may follow behind
another pair.  Reading cuts at the last pair and turns the others into dots from the left, so a row
of three or more underscores could be taken apart in either way.  The parts of a path come back as
long as only the last one ends in an underscore, since a row then gives away its first two.
-/

namespace SearchCriteria.LookupKey

/-! ## Rows of underscores -/

/-- No two underscores stand side by side. -/
def Plain (cs : List Char) : Prop := ¬ ['_', '_'] <:+: cs

instance (cs : List Char) : Decidable (Plain cs) := inferInstanceAs (Decidable (¬ _ <:+: _))

variable {cs behind : List Char}

theorem plain_cons_iff {c : Char} :
    Plain (c :: cs) ↔ ¬ ['_', '_'] <+: c :: cs ∧ Plain cs := by
  rw [Plain, Plain, List.infix_cons_iff, not_or]

theorem Plain.tail {c : Char} (h : Plain (c :: cs)) : Plain cs := (plain_cons_iff.mp h).2

/-- An underscore in front makes no pair unless there is one behind it. -/
theorem Plain.underscore (h : Plain cs) (hhead : cs.head? ≠ some '_') : Plain ('_' :: cs) := by
  refine plain_cons_iff.mpr ⟨?_, h⟩
  rintro ⟨ds, hds⟩
  obtain rfl : '_' :: ds = cs := (List.cons.inj hds).2
  exact hhead rfl

/-- Without a pair there is nowhere to cut. -/
theorem Plain.splitLast_eq_none (h : Plain cs) : splitLast cs = none := by
  induction cs with
  | nil => rfl
  | cons c cs ih =>
    unfold splitLast
    rw [ih h.tail]
    split
    · rename_i hnone
      cases hnone
    · split
      · exact absurd (List.prefix_append ['_', '_'] _).isInfix h
      · rfl

/-- The cut is made at a pair that no other follows. -/
theorem splitLast_append (h : Plain ('_' :: behind)) (before : List Char) :
    splitLast (before ++ '_' :: '_' :: behind) = some (before, behind) := by
  induction before with
  | nil => rw [List.nil_append, splitLast, h.splitLast_eq_none]
  | cons c before ih =>
    rw [List.cons_append]
    unfold splitLast
    rw [ih]

/-! ## Dots for pairs -/

theorem dotted_cons {c : Char} (h : ¬ ['_', '_'] <+: c :: cs) :
    dotted (c :: cs) = c :: dotted cs := by
  rw [dotted]
  rintro ds rfl rfl
  exact h (List.prefix_append ['_', '_'] ds)

theorem Plain.dotted_eq (h : Plain cs) : dotted cs = cs := by
  induction cs with
  | nil => rfl
  | cons c cs ih =>
    obtain ⟨hhead, htail⟩ := plain_cons_iff.mp h
    rw [dotted_cons hhead, ih htail]

/-- A pair behind characters that do not run into it is the first to become a dot. -/
theorem dotted_append (h : Plain cs) (hlast : cs.getLast? ≠ some '_') (rest : List Char) :
    dotted (cs ++ '_' :: '_' :: rest) = cs ++ '.' :: dotted rest := by
  induction cs with
  | nil => rfl
  | cons c cs ih =>
    obtain ⟨hhead, htail⟩ := plain_cons_iff.mp h
    cases cs with
    | nil =>
      have hc : c ≠ '_' := fun hc ↦ hlast (congrArg some hc)
      have hprefix : ¬ ['_', '_'] <+: c :: '_' :: '_' :: rest := by
        rintro ⟨ds, hds⟩
        exact hc (List.cons.inj hds).1.symm
      change dotted (c :: '_' :: '_' :: rest) = _
      rw [dotted_cons hprefix]
      rfl
    | cons d ds =>
      have hprefix : ¬ ['_', '_'] <+: c :: (d :: ds ++ '_' :: '_' :: rest) := by
        rintro ⟨es, hes⟩
        obtain ⟨hc, htail⟩ := List.cons.inj hes
        obtain ⟨hd, -⟩ := List.cons.inj htail
        exact hhead ⟨ds, by rw [← hc, ← hd]; rfl⟩
      rw [List.cons_append, dotted_cons hprefix, ih htail (by simpa using hlast)]
      rfl

/-! ## Paths -/

/-- Dots written as pairs of underscores. -/
def spell (cs : List Char) : List Char := cs.flatMap fun c ↦ if c = '.' then ['_', '_'] else [c]

/-- The key that a path is written as. -/
def spelled (path : String) : String := String.ofList (spell path.toList)

theorem spell_append (cs ds : List Char) : spell (cs ++ ds) = spell cs ++ spell ds :=
  List.flatMap_append

theorem spell_of_undotted (h : '.' ∉ cs) : spell cs = cs := by
  induction cs with
  | nil => rfl
  | cons c cs ih =>
    obtain ⟨hc, hcs⟩ : c ≠ '.' ∧ '.' ∉ cs := by simpa [eq_comm] using h
    change (if c = '.' then ['_', '_'] else [c]) ++ spell cs = _
    rw [if_neg hc, ih hcs]
    rfl

/-- The parts of a path keep apart when it is spelled: no part holds a dot or a pair of underscores,
and only the last may end in an underscore. -/
structure Parts (parts : List String) : Prop where
  undotted : ∀ part ∈ parts, '.' ∉ part.toList
  plain : ∀ part ∈ parts, Plain part.toList
  apart : ∀ part ∈ parts.dropLast, part.toList.getLast? ≠ some '_'

/-- The path of its parts. -/
def path (parts : List String) : String := ".".intercalate parts

namespace Parts

variable {part : String} {parts : List String}

theorem tail (h : Parts (part :: parts)) : Parts parts where
  undotted s hs := h.undotted s (List.mem_cons_of_mem part hs)
  plain s hs := h.plain s (List.mem_cons_of_mem part hs)
  apart s hs := by
    refine h.apart s ?_
    cases parts with
    | nil => exact absurd hs List.not_mem_nil
    | cons next parts => exact List.mem_cons_of_mem part hs

theorem spell_path (h : ∀ part ∈ parts, '.' ∉ part.toList) :
    spell (path parts).toList = ['_', '_'].intercalate (parts.map String.toList) := by
  rw [path, String.toList_intercalate]
  induction parts with
  | nil => rfl
  | cons part parts ih =>
    obtain ⟨hpart, hparts⟩ := List.forall_mem_cons.mp h
    cases parts with
    | nil => simpa using spell_of_undotted hpart
    | cons next parts =>
      rw [List.map_cons, List.map_cons, List.intercalate_cons_cons, List.intercalate_cons_cons,
        spell_append, spell_append, spell_of_undotted hpart]
      exact congrArg (_ ++ ·) (ih hparts)

/-- Dots take the places of the pairs that stand for them. -/
theorem dotted_spell (h : Parts parts) :
    dotted (spell (path parts).toList) = (path parts).toList := by
  rw [spell_path h.undotted, path, String.toList_intercalate]
  induction parts with
  | nil => rfl
  | cons part parts ih =>
    have hplain : Plain part.toList := h.plain part List.mem_cons_self
    cases parts with
    | nil => simpa using hplain.dotted_eq
    | cons next parts =>
      have hlast := h.apart part List.mem_cons_self
      rw [List.map_cons, List.map_cons, List.intercalate_cons_cons, List.intercalate_cons_cons,
        List.append_assoc, List.append_assoc]
      exact (dotted_append hplain hlast _).trans (congrArg (part.toList ++ '.' :: ·) (ih h.tail))

end Parts

/-! ## Reading what is spelled -/

/-- A part without the underscore that it may start with. -/
def withoutUnderscore (part : String) : String :=
  match part.toList with
  | '_' :: cs => String.ofList cs
  | _ => part

/-- A key without a pair is an equality on the field of its name. -/
theorem read_of_plain {key : String} (h : Plain key.toList) : read key = (key, .eq) := by
  rw [read, h.splitLast_eq_none, h.dotted_eq, String.ofList_toList]

/-- A key is read by what stands behind its last pair. -/
theorem read_of_splitLast {key : String} {before behind : List Char}
    (h : splitLast key.toList = some (before, behind)) :
    read key =
      match Operator.ofName? (String.ofList behind) with
      | some operator => (String.ofList (dotted before), operator)
      | none => (String.ofList (dotted key.toList), .eq) := by
  cases hname : Operator.ofName? (String.ofList behind) with
  | none => simp only [read, h, hname]
  | some operator => simp only [read, h, hname]

/-- No name of an operator has a pair in it, nor makes one with an underscore before it. -/
theorem plain_underscore_name (o : Operator) : Plain ('_' :: o.name.toList) := by
  have hplain : ∀ o ∈ Operator.all, Plain ('_' :: o.name.toList) := by decide
  exact hplain o (Operator.mem_all o)

theorem ofName?_eq_none {s : String} (h : s ∉ Operator.all.map Operator.name) :
    Operator.ofName? s = none := by
  rw [Operator.ofName?, List.find?_eq_none]
  intro o ho hname
  exact h (List.mem_map.mpr ⟨o, ho, beq_iff_eq.mp hname⟩)

/-- An operator behind a spelled path is the one that is read. -/
theorem read_spelled_name {parts : List String} (h : Parts parts) (o : Operator) :
    read (spelled (path parts) ++ "__" ++ o.name) = (path parts, o) := by
  have hkey : (spelled (path parts) ++ "__" ++ o.name).toList =
      spell (path parts).toList ++ '_' :: '_' :: o.name.toList := by
    simp [spelled]
  have hcut := splitLast_append (plain_underscore_name o) (spell (path parts).toList)
  rw [← hkey] at hcut
  rw [read_of_splitLast hcut, String.ofList_toList, Operator.ofName?_name]
  exact Prod.ext (by rw [h.dotted_spell, String.ofList_toList]) rfl

/-- With no operator behind its last pair, a spelled path is read as a whole. -/
theorem read_spelled_of_unknown {parts : List String} (h : Parts parts) {before behind : List Char}
    (hcut : spell (path parts).toList = before ++ '_' :: '_' :: behind)
    (hplain : Plain ('_' :: behind))
    (hname : String.ofList behind ∉ Operator.all.map Operator.name) :
    read (spelled (path parts)) = (path parts, .eq) := by
  have hkey : (spelled (path parts)).toList = before ++ '_' :: '_' :: behind := by
    rw [spelled, String.toList_ofList, hcut]
  have hsplit : splitLast (spelled (path parts)).toList = some (before, behind) := by
    rw [hkey, splitLast_append hplain]
  rw [read_of_splitLast hsplit, ofName?_eq_none hname]
  change (String.ofList (dotted (spelled (path parts)).toList), Operator.eq) = _
  rw [spelled, String.toList_ofList, h.dotted_spell, String.ofList_toList]

/-- A path of several parts ends in a pair and its last part. -/
theorem spell_path_concat {parts : List String} {last : String}
    (h : ∀ part ∈ parts ++ [last], '.' ∉ part.toList) (hne : parts ≠ []) :
    spell (path (parts ++ [last])).toList =
      spell (path parts).toList ++ '_' :: '_' :: last.toList := by
  have hparts : ∀ part ∈ parts, '.' ∉ part.toList := fun part hpart ↦
    h part (List.mem_append_left [last] hpart)
  rw [Parts.spell_path h, Parts.spell_path hparts]
  induction parts with
  | nil => exact absurd rfl hne
  | cons part parts ih =>
    cases parts with
    | nil => simp [List.intercalate_cons_cons]
    | cons next parts =>
      have hih := ih (fun s hs ↦ h s (List.mem_cons_of_mem part hs)) (List.cons_ne_nil _ _)
        (fun s hs ↦ hparts s (List.mem_cons_of_mem part hs))
      simp only [List.cons_append, List.map_cons, List.intercalate_cons_cons] at hih ⊢
      rw [hih]
      simp

/-- The last part of a path of several is cut off, without the underscore that it may start with. -/
theorem exists_cut {parts : List String} {last : String} (h : Parts (parts ++ [last]))
    (hne : parts ≠ []) :
    ∃ before behind, spell (path (parts ++ [last])).toList = before ++ '_' :: '_' :: behind ∧
      Plain ('_' :: behind) ∧ String.ofList behind = withoutUnderscore last := by
  have hspell := spell_path_concat h.undotted hne
  have hplain : Plain last.toList := h.plain last (List.mem_append_right parts (by simp))
  unfold withoutUnderscore
  split
  · rename_i cs hcs
    -- the row of three gives its last two away
    rw [hcs] at hspell hplain
    exact ⟨spell (path parts).toList ++ ['_'], cs, by simpa using hspell, hplain, rfl⟩
  · rename_i hstart
    have hhead : last.toList.head? ≠ some '_' := by
      intro hhead
      obtain ⟨cs, hcs⟩ := List.head?_eq_some_iff.mp hhead
      exact hstart cs hcs
    exact ⟨_, _, hspell, hplain.underscore hhead, String.ofList_toList⟩

/--
Keys decode what they encode.  Of a path whose parts hold neither dots nor pairs of underscores, and
of which only the last may end in an underscore: spelled with a pair and an operator behind, it is
read as this path and this operator; and spelled alone, it is read as an equality on this path,
if it has only one part or its last part, less one underscore that it may start with, is no name of
an operator.
-/
theorem read_spelled {parts : List String} (h : Parts parts) :
    (∀ o : Operator, read (spelled (path parts) ++ "__" ++ o.name) = (path parts, o)) ∧
    ((parts.length = 1 ∨ ∀ last ∈ parts.getLast?,
        withoutUnderscore last ∉ Operator.all.map Operator.name) →
      read (spelled (path parts)) = (path parts, .eq)) := by
  refine ⟨read_spelled_name h, fun hlast ↦ ?_⟩
  rcases List.eq_nil_or_concat parts with rfl | ⟨before, last, hparts⟩
  · rfl
  rw [List.concat_eq_append] at hparts
  subst hparts
  rcases before with _ | ⟨part, before⟩
  · have hpart : '.' ∉ last.toList := h.undotted last (by simp)
    have hplain : Plain last.toList := h.plain last (by simp)
    have hspelled : spelled (path [last]) = last := by
      simp [spelled, path, spell_of_undotted hpart]
    change read (spelled (path [last])) = (path [last], .eq)
    rw [hspelled, read_of_plain hplain]
    simp [path]
  · rcases hlast with hone | hname
    · simp at hone
    · obtain ⟨before, behind, hcut, hplain, hbehind⟩ := exists_cut h (List.cons_ne_nil part before)
      refine read_spelled_of_unknown h hcut hplain ?_
      rw [hbehind]
      exact hname last List.getLast?_concat

/-- A row of five underscores: two stand for a dot, two before the operator, one is a part. -/
theorem read_spelled_of_row :
    let parts := ["info", "_"]
    Parts parts ∧ read "info_____ne" = ("info._", .ne) ∧ read "info___" = ("info._", .eq) := by
  intro parts
  have h : Parts parts := ⟨by decide, by decide, by decide⟩
  have hpath : path parts = "info._" := by cbv
  have hspelled : spelled (path parts) = "info___" := by cbv
  have hkey : spelled (path parts) ++ "__" ++ Operator.ne.name = "info_____ne" := by cbv
  have hname : withoutUnderscore "_" ∉ Operator.all.map Operator.name := by decide
  obtain ⟨hoperator, halone⟩ := read_spelled h
  have hread := hoperator .ne
  rw [hkey, hpath] at hread
  rw [hspelled, hpath] at halone
  exact ⟨h, hread, halone (.inr fun last hlast ↦ Option.some.inj hlast ▸ hname)⟩

end SearchCriteria.LookupKey
