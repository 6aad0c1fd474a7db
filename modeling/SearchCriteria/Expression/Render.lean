import SearchCriteria.Value.Convert

/-!
# Rendering

Every node stands for one fragment. Groups take their parts' fragments, markers go into the fragment
that they mark, and a negation that is cacheable keeps its marker beside the negated filter.
-/

namespace SearchCriteria

/-- The body of a script, its parameters by name. -/
def scriptBody (source : String) (params : Value) : Except Fault Mapping :=
  let body := Mapping.single "script" (.text source)
  if params.truthy then do
    let named ← Mapping.ofValue params
    return body ++ [Mapping.entry "params" (.map named)]
  else .ok body

mutual

/-- The fragment of a node. -/
def Expression.render : Expression → Except Fault Mapping
  | .base => .error .unrenderable
  | .term field value => .ok (Fragment.term field value)
  | .range field limits => .ok (Fragment.range field limits)
  | .present field => .ok (Fragment.present field)
  | .script source params => do
    let body ← scriptBody source params
    return Mapping.single "script" (.map body)
  | .and nodes => do return Fragment.allOf (← renderNodes nodes)
  | .or nodes => do return Fragment.anyOf (← renderNodes nodes)
  | .not (.cached node) => do return Fragment.cachedNegation (← node.render)
  | .not node => do return Fragment.negation (← node.render)
  | .cached (.not node) => do return Fragment.cachedNegation (← node.render)
  | .cached node => do return Fragment.marked (← node.render)
  | .raw fragment => .ok fragment
  | .lookup lookups => .ok (Lookups.fragment lookups)
termination_by structural e => e

def renderNodes : List Expression → Except Fault (List Mapping)
  | [] => .ok []
  | e :: es => do
    let fragment ← e.render
    let fragments ← renderNodes es
    return fragment :: fragments
termination_by structural es => es

end

namespace Expression

theorem render_condition (c : Condition) : c.toExpression.render = .ok c.fragment := by
  obtain ⟨test, negated⟩ := c
  cases negated <;> cases test <;> rfl

end Expression

/-- A text that is there only if all integers in it can be written. -/
def requireText : Option String → Except Fault String
  | some text => .ok text
  | none => .error .unwritable

/-- The text of a value: texts as they are, nodes as their fragments, the rest literally. -/
def Value.display : Value → Except Fault String
  | .text s => .ok s
  | .node e => do requireText (Value.map (← e.render)).literal?
  | v => requireText v.literal?

theorem requireText_eq_ok_iff {text : Option String} {s : String} :
    requireText text = .ok s ↔ text = some s := by
  cases text <;> simp [requireText]

@[simp] theorem Value.display_text (s : String) : Value.display (.text s) = .ok s := rfl

end SearchCriteria
