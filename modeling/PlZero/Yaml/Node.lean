import PlZero.Yaml.Error
import PlZero.Yaml.Token

namespace PlZero.Yaml

inductive Node where
  | scalar (tag : Option (List Char)) (plain : Bool) (text : List Char)
  | sequence (items : List Node)
  | mapping (pairs : List (Node × Node))
  | alias (name : List Char) (target : Nat)
deriving Repr

structure Document where
  root : Option Node
  anchored : List (Nat × Node) := []
  size : Nat := 0
deriving Repr

structure Builder where
  tokens : List Token
  names : List (List Char × Nat) := []
  anchored : List (Nat × Node) := []
  handles : List (List Char × List Char) := []

abbrev Build := StateT Builder (Except Error)

namespace Build

def peek : Build (Option Token) := do
  return (← get).tokens.head?

def advance : Build Unit :=
  modify fun b => { b with tokens := b.tokens.drop 1 }

def commonTags : List Char := "tag:yaml.org,2002:".toList

def commonHandles : List (List Char × List Char) :=
  [("!".toList, "!".toList), ("!!".toList, commonTags)]

def shortTag (tag : List Char) : Option (List Char) :=
  if tag = ['!'] then none
  else if commonTags.isPrefixOf tag then some ("!!".toList ++ tag.drop commonTags.length)
  else some tag

def fullTag (handle suffix : List Char) : Build (List Char) := do
  if handle.isEmpty then return suffix
  match (← get).handles.lookup handle with
  | some text => return text ++ suffix
  | none => throw (.unknownHandle (String.ofList handle))

def anchor? : Build (Option (List Char)) := do
  match ← peek with
  | some (.anchor name) => advance; return some name
  | _ => return none

def tag? : Build (Option (List Char)) := do
  match ← peek with
  | some (.tag handle suffix) => advance; return some (← fullTag handle suffix)
  | _ => return none

def properties : Build (Option (List Char) × Option (List Char)) := do
  match ← anchor? with
  | some name => return (some name, ← tag?)
  | none =>
      let tag ← tag?
      return (← (if tag.isSome then anchor? else pure none), tag)

def announce (name : List Char) : Build Nat := do
  let b ← get
  let number := b.names.length
  set { b with names := (name, number) :: b.names }
  return number

def keep (number : Nat) (node : Node) : Build Unit :=
  modify fun b => { b with anchored := (number, node) :: b.anchored }

def named (name : List Char) : Build Node := do
  match (← get).names.lookup name with
  | some number => return .alias name number
  | none => throw (.unknownAnchor (String.ofList name))

def empty : Node :=
  .scalar none true []

def orEmpty (stops : List Token) (read : Build Node) : Build Node := do
  match ← peek with
  | some t => if stops.contains t then return empty else read
  | none => read

def valueOrEmpty (stops : List Token) (read : Build Node) : Build Node := do
  if (← peek) = some .value then
    advance
    orEmpty stops read
  else return empty

mutual

def node (block flush : Bool) : Nat → Build Node
  | 0 => throw .grammar
  | n + 1 => do
      if let some (.alias name) ← peek then
        advance
        return ← named name
      let (anchor, tag) ← properties
      let number ← anchor.mapM announce
      let result ← content block flush (anchor.isSome || tag.isSome) (tag.bind shortTag) n
      if let some number := number then keep number result
      return result

def content (block flush mayEmpty : Bool) (tag : Option (List Char)) : Nat → Build Node
  | 0 => throw .grammar
  | n + 1 => do
      let next ← peek
      if flush && next == some .item then return .sequence (← flushItems n)
      match next with
      | some (.scalar plain text) => advance; return .scalar tag plain text
      | some .openList => advance; return .sequence (← listItems true n)
      | some .openRecord => advance; return .mapping (← recordPairs true n)
      | some .sequenceStart =>
          if block then
            advance
            return .sequence (← blockItems n)
      | some .mappingStart =>
          if block then
            advance
            return .mapping (← blockPairs n)
      | _ => pure ()
      if mayEmpty then return .scalar tag true [] else throw .grammar

def blockItems : Nat → Build (List Node)
  | 0 => throw .grammar
  | n + 1 => do
      match ← peek with
      | some .item =>
          advance
          let first ← orEmpty [.item, .blockEnd] (node true false n)
          return first :: (← blockItems n)
      | some .blockEnd => advance; return []
      | _ => throw .grammar

def flushItems : Nat → Build (List Node)
  | 0 => throw .grammar
  | n + 1 => do
      match ← peek with
      | some .item =>
          advance
          let first ← orEmpty [.item, .key, .value, .blockEnd] (node true false n)
          return first :: (← flushItems n)
      | _ => return []

def blockPairs : Nat → Build (List (Node × Node))
  | 0 => throw .grammar
  | n + 1 => do
      match ← peek with
      | some .key =>
          advance
          let stops := [.key, .value, .blockEnd]
          let key ← orEmpty stops (node true true n)
          let value ← valueOrEmpty stops (node true true n)
          return (key, value) :: (← blockPairs n)
      | some .blockEnd => advance; return []
      | _ => throw .grammar

def listItems (first : Bool) : Nat → Build (List Node)
  | 0 => throw .grammar
  | n + 1 => do
      if (← peek) = some .closeList then
        advance
        return []
      if !first then
        if (← peek) = some .comma then advance else throw .grammar
      match ← peek with
      | some .closeList => advance; return []
      | some .key =>
          advance
          let pair ← listPair n
          return .mapping [pair] :: (← listItems false n)
      | _ =>
          let item ← node false false n
          return item :: (← listItems false n)

def listPair : Nat → Build (Node × Node)
  | 0 => throw .grammar
  | n + 1 => do
      let key ←
        match ← peek with
        | some .value | some .comma | some .closeList => advance; pure empty
        | _ => node false false n
      return (key, ← valueOrEmpty [.comma, .closeList] (node false false n))

def recordPairs (first : Bool) : Nat → Build (List (Node × Node))
  | 0 => throw .grammar
  | n + 1 => do
      if (← peek) = some .closeRecord then
        advance
        return []
      if !first then
        if (← peek) = some .comma then advance else throw .grammar
      match ← peek with
      | some .closeRecord => advance; return []
      | some .key =>
          advance
          let key ← orEmpty [.value, .comma, .closeRecord] (node false false n)
          let value ← valueOrEmpty [.comma, .closeRecord] (node false false n)
          return (key, value) :: (← recordPairs false n)
      | _ =>
          let key ← node false false n
          return (key, empty) :: (← recordPairs false n)

end

def directives : Nat → Bool → Build Unit
  | 0, _ => throw .grammar
  | n + 1, versioned => do
      match ← peek with
      | some (.version major minor) =>
          if versioned then throw .repeatedDirective
          if major ≠ 1 ∨ minor ≠ 1 then throw .version
          advance
          directives n true
      | some (.shorthand handle text) =>
          let b ← get
          if (b.handles.lookup handle).isSome then throw .repeatedDirective
          set { b with handles := b.handles ++ [(handle, text)] }
          advance
          directives n versioned
      | _ => modify fun b => { b with handles := b.handles ++ commonHandles }

def isPreamble : Token → Bool
  | .version _ _ | .shorthand _ _ | .documentStart => true
  | _ => false

def document (n : Nat) : Build (Option Node) := do
  let some first ← peek | return none
  directives n false
  if isPreamble first then
    if (← peek) ≠ some .documentStart then throw .grammar
    advance
    match ← peek with
    | none | some .documentEnd => return some empty
    | some next => if isPreamble next then return some empty
  return some (← node true false n)

end Build

-- Did reading have to see what is wrong with a text? It looks two tokens ahead, and at all those that tell
-- whether a token begins a key.
def Scan.failedBy (s : Scan) (left : Nat) : Bool :=
  s.failed && (decide (left ≤ 2) || s.undecided?.any fun number => decide (number ≤ s.tokens.length - left))

def Document.ofText (text : List Char) : Except Error Document := do
  let s := scan text
  let (root, b) ← (Build.document (4 * s.tokens.length + 4)).run { tokens := s.tokens }
  if s.failedBy b.tokens.length then throw .tokens
  return ⟨root, b.anchored, 2 * s.tokens.length⟩

def Document.ofBytes (bytes : List UInt8) : Except Error Document :=
  match characters? bytes with
  | some text => Document.ofText text
  | none => .error .characters

end PlZero.Yaml
