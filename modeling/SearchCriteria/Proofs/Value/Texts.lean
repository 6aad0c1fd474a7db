import SearchCriteria.Proofs.Value.Agreement

/-!
# Texts of the raw fragments in a value

Equal values are the same key if the raw fragments that equality looks into read alike, one by one,
and for no other reason.
-/

namespace SearchCriteria

mutual

/--
The literal texts of the raw fragments in a value, in order. What is in a mapping or a set is left
out: keys and members are told apart as keys already, and the values of a mapping are not hashed.
-/
def Value.rawTexts : Value → List (Option String)
  | .list items | .tuple items => itemTexts items
  | .node e => e.rawTexts
  | .null | .bool _ | .int _ | .real _ | .text _ | .map _ | .set _ _ => []
termination_by structural v => v

def Expression.rawTexts : Expression → List (Option String)
  | .base | .present _ => []
  | .term _ value | .script _ value => value.rawTexts
  | .range _ limits => limitTexts limits
  | .and nodes | .or nodes => nodeTexts nodes
  | .not node | .cached node => node.rawTexts
  | .raw fragment => [(Value.map fragment).literal?]
  | .lookup lookups => lookupTexts lookups
termination_by structural e => e

def itemTexts : List Value → List (Option String)
  | [] => []
  | v :: vs => v.rawTexts ++ itemTexts vs
termination_by structural vs => vs

def Limit.rawTexts : Limit Value → List (Option String)
  | ⟨_, value, .tuple⟩ | ⟨_, value, .list⟩ => value.rawTexts
  | ⟨_, _, .map _ _⟩ | ⟨_, _, .set _⟩ => []
termination_by structural l => l

def limitTexts : List (Limit Value) → List (Option String)
  | [] => []
  | l :: limits => l.rawTexts ++ limitTexts limits
termination_by structural ls => ls

def nodeTexts : List Expression → List (Option String)
  | [] => []
  | e :: es => e.rawTexts ++ nodeTexts es
termination_by structural es => es

def lookupTexts : List (String × Value) → List (Option String)
  | [] => []
  | (_, value) :: lookups => value.rawTexts ++ lookupTexts lookups
termination_by structural ls => ls

end

/-! ## Keys by their texts -/

/-- What is equal has as many texts, and is the same key if the texts are the same. -/
structure KeyedBy (equal key : Bool) (texts others : List (Option String)) : Prop where
  length (h : equal = true) : texts.length = others.length
  key_iff : key = true ↔ equal = true ∧ texts = others

namespace KeyedBy

variable {equal key : Bool} {texts others : List (Option String)}

/-- Where equality does not look at texts. -/
theorem of_eq (h : equal = true → texts = others) : KeyedBy equal equal texts others where
  length hequal := congrArg List.length (h hequal)
  key_iff := ⟨fun hequal ↦ ⟨hequal, h hequal⟩, And.left⟩

theorem single (equal : Bool) (s t : Option String) :
    KeyedBy (equal && (!false || s == t)) (equal && (!true || s == t)) [s] [t] where
  length _ := rfl
  key_iff := by simp

theorem guard (h : KeyedBy equal key texts others) (test : Bool) :
    KeyedBy (test && equal) (test && key) texts others where
  length hequal := h.length (Bool.and_eq_true_iff.mp hequal).2
  key_iff := by rw [Bool.and_eq_true_iff, Bool.and_eq_true_iff, h.key_iff, and_assoc]

theorem append {equal' key' : Bool} {texts' others' : List (Option String)}
    (h : KeyedBy equal key texts others) (h' : KeyedBy equal' key' texts' others') :
    KeyedBy (equal && equal') (key && key') (texts ++ texts') (others ++ others') where
  length hequal := by
    obtain ⟨hleft, hright⟩ := Bool.and_eq_true_iff.mp hequal
    rw [List.length_append, List.length_append, h.length hleft, h'.length hright]
  key_iff := by
    rw [Bool.and_eq_true_iff, Bool.and_eq_true_iff, h.key_iff, h'.key_iff]
    constructor
    · rintro ⟨⟨hleft, rfl⟩, hright, rfl⟩
      exact ⟨⟨hleft, hright⟩, rfl⟩
    · rintro ⟨⟨hleft, hright⟩, happend⟩
      obtain ⟨htexts, htexts'⟩ := List.append_inj happend (h.length hleft)
      exact ⟨⟨hleft, htexts⟩, hright, htexts'⟩

end KeyedBy

mutual

theorem Value.keyedBy : ∀ a b : Value,
    KeyedBy (a.agrees false b) (a.agrees true b) a.rawTexts b.rawTexts
  | .null, b | .bool _, b | .int _, b | .real _, b | .text _, b | .map _, b | .set _ _, b => by
    cases b <;> exact .of_eq fun h ↦ by first | rfl | cases h
  | .list xs, b => by
    cases b with
    | list ys => exact items_keyedBy xs ys
    | _ => exact .of_eq fun h ↦ by cases h
  | .tuple xs, b => by
    cases b with
    | tuple ys => exact items_keyedBy xs ys
    | _ => exact .of_eq fun h ↦ by cases h
  | .node d, b => by
    cases b with
    | node e => exact d.keyedBy e
    | _ => exact .of_eq fun h ↦ by cases h
termination_by structural a => a

theorem Expression.keyedBy : ∀ a b : Expression,
    KeyedBy (a.agrees false b) (a.agrees true b) a.rawTexts b.rawTexts
  | .base, b | .present _, b => by
    cases b <;> exact .of_eq fun h ↦ by first | rfl | cases h
  | .term f v, b => by
    cases b with
    | term g w => exact (v.keyedBy w).guard (f == g)
    | _ => exact .of_eq fun h ↦ by cases h
  | .script s v, b => by
    cases b with
    | script t w => exact (v.keyedBy w).guard (s == t)
    | _ => exact .of_eq fun h ↦ by cases h
  | .range f ls, b => by
    cases b with
    | range g ms => exact (limits_keyedBy ls ms).guard (f == g)
    | _ => exact .of_eq fun h ↦ by cases h
  | .and xs, b => by
    cases b with
    | and ys => exact nodes_keyedBy xs ys
    | _ => exact .of_eq fun h ↦ by cases h
  | .or xs, b => by
    cases b with
    | or ys => exact nodes_keyedBy xs ys
    | _ => exact .of_eq fun h ↦ by cases h
  | .not x, b => by
    cases b with
    | not y => exact x.keyedBy y
    | _ => exact .of_eq fun h ↦ by cases h
  | .cached x, b => by
    cases b with
    | cached y => exact x.keyedBy y
    | _ => exact .of_eq fun h ↦ by cases h
  | .raw es, b => by
    cases b with
    | raw fs =>
      exact .single (agreeEntries es fs) (Value.map es).literal? (Value.map fs).literal?
    | _ => exact .of_eq fun h ↦ by cases h
  | .lookup xs, b => by
    cases b with
    | lookup ys => exact lookups_keyedBy xs ys
    | _ => exact .of_eq fun h ↦ by cases h
termination_by structural a => a

theorem items_keyedBy : ∀ xs ys : List Value,
    KeyedBy (agreeItems false xs ys) (agreeItems true xs ys) (itemTexts xs) (itemTexts ys)
  | [], ys => by cases ys <;> exact .of_eq fun h ↦ by first | rfl | cases h
  | x :: xs, ys => by
    cases ys with
    | nil => exact .of_eq fun h ↦ by cases h
    | cons y ys => exact (x.keyedBy y).append (items_keyedBy xs ys)
termination_by structural xs => xs

theorem Limit.keyedBy : ∀ l m : Limit Value,
    KeyedBy (l.agrees false m) (l.agrees true m) l.rawTexts m.rawTexts
  | ⟨b, v, .tuple⟩, m => by
    obtain ⟨c, w, form⟩ := m
    cases form with
    | tuple => exact (v.keyedBy w).guard (b == c)
    | _ => exact .of_eq fun h ↦ by cases h
  | ⟨b, v, .list⟩, m => by
    obtain ⟨c, w, form⟩ := m
    cases form with
    | list => exact (v.keyedBy w).guard (b == c)
    | _ => exact .of_eq fun h ↦ by cases h
  | ⟨b, v, .map p q⟩, m | ⟨b, v, .set frozen⟩, m => by
    obtain ⟨c, w, form⟩ := m
    cases form <;> exact .of_eq fun h ↦ by first | rfl | cases h
termination_by structural l => l

theorem limits_keyedBy : ∀ xs ys : List (Limit Value),
    KeyedBy (agreeLimits false xs ys) (agreeLimits true xs ys) (limitTexts xs) (limitTexts ys)
  | [], ys => by cases ys <;> exact .of_eq fun h ↦ by first | rfl | cases h
  | l :: xs, ys => by
    cases ys with
    | nil => exact .of_eq fun h ↦ by cases h
    | cons m ys => exact (l.keyedBy m).append (limits_keyedBy xs ys)
termination_by structural xs => xs

theorem nodes_keyedBy : ∀ xs ys : List Expression,
    KeyedBy (agreeNodes false xs ys) (agreeNodes true xs ys) (nodeTexts xs) (nodeTexts ys)
  | [], ys => by cases ys <;> exact .of_eq fun h ↦ by first | rfl | cases h
  | x :: xs, ys => by
    cases ys with
    | nil => exact .of_eq fun h ↦ by cases h
    | cons y ys => exact (x.keyedBy y).append (nodes_keyedBy xs ys)
termination_by structural xs => xs

theorem lookups_keyedBy : ∀ xs ys : List (String × Value),
    KeyedBy (agreeLookups false xs ys) (agreeLookups true xs ys) (lookupTexts xs) (lookupTexts ys)
  | [], ys => by cases ys <;> exact .of_eq fun h ↦ by first | rfl | cases h
  | (k, v) :: xs, ys => by
    cases ys with
    | nil => exact .of_eq fun h ↦ by cases h
    | cons y ys => exact ((v.keyedBy y.2).guard _).append (lookups_keyedBy xs ys)
termination_by structural xs => xs

end

namespace Value

variable {a b : Value}

/-- The same key is what is equal and has the same texts. -/
theorem sameKey_iff : a.sameKey b = true ↔ a.Alike b ∧ a.rawTexts = b.rawTexts :=
  (a.keyedBy b).key_iff

theorem alike_of_agrees {asKey : Bool} (h : a.agrees asKey b = true) : a.Alike b := by
  cases asKey with
  | false => exact h
  | true => exact (sameKey_iff.mp h).1

end Value

end SearchCriteria
