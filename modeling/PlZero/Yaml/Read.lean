import PlZero.Yaml.Value

namespace PlZero.Yaml

def Node.label : Node → Nat × List Char
  | .scalar _ _ text => (0, text)
  | .sequence _ => (1, [])
  | .mapping _ => (2, [])
  | .alias name _ => (3, name)

def Node.isMerge : Node → Bool
  | .scalar tag plain text => text == "<<".toList && (tag == some "!!merge".toList || (tag.isNone && plain))
  | _ => false

def hasRepeats {α : Type} [BEq α] : List α → Bool
  | [] => false
  | a :: rest => rest.contains a || hasRepeats rest

namespace Document

def resolve (d : Document) : Node → Except Error Node
  | .alias name number =>
      match d.anchored.lookup number with
      | some node => .ok node
      | none => .error (.recursiveAnchor (String.ofList name))
  | node => .ok node

def readValue (d : Document) (node : Node) : Except Error (Value × List Char) := do
  match ← d.resolve node with
  | .scalar tag plain text => return (← Value.ofScalar tag plain text, text)
  | _ => throw .mismatch

def readText (d : Document) (node : Node) : Except Error (Option (List Char)) := do
  match ← d.readValue node with
  | (.null, _) => return none
  | (.text s, _) => return some s
  | (_, written) => return some written

def half : Int := Int.ofNat (Nat.pow 2 63)

def ofFloating? : Floating → Option Int
  | .finite whole =>
      if whole ≤ half then some (if -half ≤ whole ∧ whole < half then whole else -half) else none
  | .infinite true => some (-half)
  | .infinite false | .undefined => none

def readInteger (d : Document) (bits : Nat) (node : Node) : Except Error (Option Int) := do
  let number ←
    match (← d.readValue node).1 with
    | .null => return none
    | .integer i => pure (some i)
    | .floating f => pure (ofFloating? f)
    | _ => pure none
  match number with
  | some i =>
      let half := Int.ofNat (Nat.pow 2 (bits - 1))
      if -half ≤ i ∧ i < half then return some i else throw .mismatch
  | none => throw .mismatch

def readList {α : Type} (d : Document) (read : Node → Except Error (Option α)) (node : Node) :
    Except Error (Option (List α)) := do
  match ← d.resolve node with
  | .sequence items => return some ((← items.mapM read).filterMap id)
  | node =>
      match ← d.readValue node with
      | (.null, _) => return none
      | _ => throw .mismatch

def mergeSources (d : Document) (node : Node) : Except Error (List (List (Node × Node))) :=
  match node with
  | .sequence items => items.mapM one
  | node => do return [← one node]
where
  one (node : Node) : Except Error (List (Node × Node)) := do
    match ← d.resolve node with
    | .mapping pairs => return pairs
    | _ => throw .mismatch

def entries (d : Document) : Nat → List (List Char) → List (Node × Node) →
    Except Error (List (List Char × Node))
  | 0, _, _ => throw .grammar
  | n + 1, taken, pairs => do
      if hasRepeats (pairs.map (·.1.label)) then throw .repeatedKey
      let own ← (pairs.filter (!·.1.isMerge)).mapM fun (key, value) => do
        return (← d.readText key).map (·, value)
      let own := (own.filterMap id).filter (!taken.contains ·.1)
      match (pairs.filter (·.1.isMerge)).getLast? with
      | none => return own
      | some (_, source) =>
          (← d.mergeSources source).foldlM (fun acc pairs => do
            return acc ++ (← d.entries n (taken ++ acc.map Prod.fst) pairs)) own

-- The number of nodes that may lie below each other without one of them coming again.
def bound (d : Document) : Nat :=
  d.size + 1

def readEntries (d : Document) (node : Node) : Except Error (Option (List (List Char × Node))) := do
  match ← d.resolve node with
  | .mapping pairs => return some (← d.entries d.bound [] pairs)
  | node =>
      match ← d.readValue node with
      | (.null, _) => return none
      | _ => throw .mismatch

def check (d : Document) : Nat → Node → Except Error Unit
  | 0, _ => throw .grammar
  | n + 1, node => do
      match ← d.resolve node with
      | .scalar tag plain text => discard (Value.ofScalar tag plain text)
      | .sequence items => items.forM (d.check n)
      | .mapping pairs =>
          if hasRepeats (pairs.map (·.1.label)) then throw .repeatedKey
          pairs.forM fun (key, value) => do
            if key.isMerge then
              (← d.mergeSources value).forM fun pairs => d.check n (.mapping pairs)
            else
              discard (d.readValue key)
              d.check n value
      | .alias name _ => throw (.recursiveAnchor (String.ofList name))

def readAny (d : Document) (node : Node) : Except Error (Option Value) := do
  match ← d.resolve node with
  | .scalar tag plain text => return some (← Value.ofScalar tag plain text)
  | node =>
      d.check d.bound node
      return none

def readEntry {α : Type} (entries : List (List Char × Node)) (name : String) (default : α)
    (read : Node → Except Error α) : Except Error α :=
  match entries.filter (·.1 == name.toList) with
  | [] => .ok default
  | [(_, node)] => read node
  | _ => .error .repeatedKey

end Document

end PlZero.Yaml
