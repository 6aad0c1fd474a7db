import SearchCriteria.Value.Literal

/-!
# Equality of values

Numbers and truth values are equal by what they are worth, lists and tuples item by item, mappings
and sets when each holds what the other does, nodes of one kind part by part. A key or a member has
to agree in its raw fragments' literal text as well.
-/

namespace SearchCriteria

/-- Numbers and truth values of equal worth. -/
def Value.sameQuantity (a b : Value) : Bool :=
  match a.quantity?, b.quantity? with
  | some p, some q => p = q
  | _, _ => false

/-- The list without its first item that passes the test, if one does. -/
def extract? {α : Type} (test : α → Bool) : List α → Option (List α)
  | [] => none
  | x :: xs => if test x then some xs else (extract? test xs).map (x :: ·)

mutual

/-- Equality of values, or with `asKey` their being the same key. -/
def Value.agrees (asKey : Bool) : Value → Value → Bool
  | .null, .null => true
  | .text s, .text t => s == t
  | .list xs, .list ys => agreeItems asKey xs ys
  | .tuple xs, .tuple ys => agreeItems asKey xs ys
  | .map es, .map fs => agreeEntries es fs
  | .set _ xs, .set _ ys => agreeMembers xs ys
  | .node a, .node b => a.agrees asKey b
  | a, b => a.sameQuantity b
termination_by structural a => a

def Expression.agrees (asKey : Bool) : Expression → Expression → Bool
  | .base, .base => true
  | .term f v, .term g w => f == g && v.agrees asKey w
  | .range f ls, .range g ms => f == g && agreeLimits asKey ls ms
  | .present f, .present g => f == g
  | .script s v, .script t w => s == t && v.agrees asKey w
  | .and xs, .and ys => agreeNodes asKey xs ys
  | .or xs, .or ys => agreeNodes asKey xs ys
  | .not x, .not y => x.agrees asKey y
  | .cached x, .cached y => x.agrees asKey y
  | .raw es, .raw fs =>
    agreeEntries es fs && (!asKey || (Value.map es).literal? == (Value.map fs).literal?)
  | .lookup xs, .lookup ys => agreeLookups asKey xs ys
  | _, _ => false
termination_by structural a => a

def agreeItems (asKey : Bool) : List Value → List Value → Bool
  | [], [] => true
  | x :: xs, y :: ys => x.agrees asKey y && agreeItems asKey xs ys
  | _, _ => false
termination_by structural xs => xs

/-- The entries of one mapping are those of the other, in any order. -/
def agreeEntries : List (Value × Value) → List (Value × Value) → Bool
  | [], fs => fs.isEmpty
  | (key, value) :: es, fs =>
    match extract? (fun f => key.agrees true f.1 && value.agrees false f.2) fs with
    | some rest => agreeEntries es rest
    | none => false
termination_by structural es => es

/-- The members of one set are those of the other, in any order. -/
def agreeMembers : List Value → List Value → Bool
  | [], ys => ys.isEmpty
  | x :: xs, ys =>
    match extract? (fun y => x.agrees true y) ys with
    | some rest => agreeMembers xs rest
    | none => false
termination_by structural xs => xs

/-- The pairs that two limits were given as agree. -/
def Limit.agrees (asKey : Bool) : Limit Value → Limit Value → Bool
  | ⟨b, v, .tuple⟩, ⟨c, w, .tuple⟩ | ⟨b, v, .list⟩, ⟨c, w, .list⟩ => b == c && v.agrees asKey w
  | ⟨b, v, .map p q⟩, ⟨c, w, .map r s⟩ =>
    -- the entries agree in place, or crosswise
    if b == c && p.agrees false r then v.agrees true w && q.agrees false s
    else w.isText b.name && p.agrees false s && (v.isText c.name && q.agrees false r)
  | ⟨b, v, .set _⟩, ⟨c, w, .set _⟩ =>
    if b == c then v.agrees true w else w.isText b.name && v.isText c.name
  | _, _ => false
termination_by structural l => l

def agreeLimits (asKey : Bool) : List (Limit Value) → List (Limit Value) → Bool
  | [], [] => true
  | l :: ls, m :: ms => l.agrees asKey m && agreeLimits asKey ls ms
  | _, _ => false
termination_by structural ls => ls

def agreeNodes (asKey : Bool) : List Expression → List Expression → Bool
  | [], [] => true
  | x :: xs, y :: ys => x.agrees asKey y && agreeNodes asKey xs ys
  | _, _ => false
termination_by structural xs => xs

def agreeLookups (asKey : Bool) : List (String × Value) → List (String × Value) → Bool
  | [], [] => true
  | (k, v) :: ls, (l, w) :: ms => k == l && v.agrees asKey w && agreeLookups asKey ls ms
  | _, _ => false
termination_by structural ls => ls

end

namespace Value

def equal (a b : Value) : Bool := a.agrees false b

/-- The same key of a mapping, or the same member of a set. -/
def sameKey (a b : Value) : Bool := a.agrees true b

theorem agrees_text (asKey : Bool) (s t : String) :
    agrees asKey (.text s) (.text t) = (s == t) := rfl

theorem agrees_tuple (asKey : Bool) (xs ys : List Value) :
    agrees asKey (.tuple xs) (.tuple ys) = agreeItems asKey xs ys := rfl

theorem agrees_map (asKey : Bool) (es fs : Mapping) :
    agrees asKey (.map es) (.map fs) = agreeEntries es fs := rfl

theorem agrees_node (asKey : Bool) (a b : Expression) :
    agrees asKey (.node a) (.node b) = a.agrees asKey b := rfl

/-- Nothing but a text is the same key as a text. -/
theorem sameKey_text (a : Value) (s : String) : sameKey a (.text s) = sameText a (.text s) := by
  cases a <;> rfl

end Value

end SearchCriteria
