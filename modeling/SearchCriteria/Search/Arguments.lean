import SearchCriteria.Expression.Build

/-! # Matching given arguments with parameters -/

namespace SearchCriteria

/-- The parameters of a call, a receiver aside. Optional ones are null when left out. -/
structure Parameters where
  call : String
  required : List String
  optional : List String := []
  /-- The receiver of a method is an argument of its own, always given. -/
  receiver? : Option String := some "self"

namespace Parameters

def names (p : Parameters) : List String := p.required ++ p.optional

/-- A parameter with the argument it has so far. -/
abbrev Slots := List (String × Option Value)

/-- The receiver is there already, and the arguments fill the other parameters in order. -/
def slots (p : Parameters) (args : List Value) : Slots :=
  p.receiver?.toList.map (·, some .null) ++ p.names.zipIdx.map fun (name, i) => (name, args[i]?)

/-- Give a named argument to its parameter, which must be free. -/
def fill (p : Parameters) (slots : Slots) (name : String) (v : Value) : Except Fault Slots :=
  match slots.find? (·.1 == name) with
  | none => .error (.unexpectedArgument p.call name)
  | some (_, some _) => .error (.repeatedArgument p.call name)
  | some (_, none) => .ok (slots.map fun slot => if slot.1 == name then (name, some v) else slot)

/-- The arguments in the order of the parameters. -/
def bind (p : Parameters) (args : List Value) (named : Mapping) : Except Fault (List Value) := do
  let filled ← (← named.named).foldlM (fun acc (name, v) => p.fill acc name v) (p.slots args)
  if p.names.length < args.length then
    let own := p.receiver?.toList.length
    throw (.tooManyArguments p.call (p.required.length + own) (p.names.length + own)
      (args.length + own))
  let missing := p.required.filter fun name => filled.any fun s => s.1 == name && s.2.isNone
  if !missing.isEmpty then throw (.missingArguments p.call missing)
  return (filled.drop p.receiver?.toList.length).map fun s => s.2.getD .null

end Parameters

end SearchCriteria
