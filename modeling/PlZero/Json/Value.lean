import PlZero.Json.Token

namespace PlZero

inductive Json where
  | null
  | bool (value : Bool)
  | number (literal : List Char)
  | string (value : List Char)
  | array (items : List Json)
  | object (members : List (List Char × Json))
deriving Repr

namespace Json

inductive Frame where
  | array (items : List Json)
  | object (members : List (List Char × Json)) (name : List Char)

inductive Reading where
  | expectValue (mayClose : Bool) (frames : List Frame)
  | expectName (mayClose : Bool) (members : List (List Char × Json)) (frames : List Frame)
  | expectColon (members : List (List Char × Json)) (name : List Char) (frames : List Frame)
  | complete (value : Json) (frames : List Frame)

def maxDepth : Nat := 10000

def enter (frames : List Frame) (begun : Reading) : Option Reading :=
  if frames.length < maxDepth then some begun else none

def Reading.step : Reading → Token → Option Reading
  | .expectValue mayClose frames, token =>
      match token with
      | .null => some (.complete .null frames)
      | .bool b => some (.complete (.bool b) frames)
      | .number literal => some (.complete (.number literal) frames)
      | .string s => some (.complete (.string s) frames)
      | .openBracket => enter frames (.expectValue true (.array [] :: frames))
      | .openBrace => enter frames (.expectName true [] frames)
      | .closeBracket =>
          match mayClose, frames with
          | true, .array items :: frames => some (.complete (.array items.reverse) frames)
          | _, _ => none
      | _ => none
  | .expectName mayClose members frames, token =>
      match token with
      | .string name => some (.expectColon members name frames)
      | .closeBrace => if mayClose then some (.complete (.object members.reverse) frames) else none
      | _ => none
  | .expectColon members name frames, token =>
      match token with
      | .colon => some (.expectValue false (.object members name :: frames))
      | _ => none
  | .complete value frames, token =>
      match token, frames with
      | .comma, .array items :: frames => some (.expectValue false (.array (value :: items) :: frames))
      | .closeBracket, .array items :: frames =>
          some (.complete (.array (value :: items).reverse) frames)
      | .comma, .object members name :: frames => some (.expectName false ((name, value) :: members) frames)
      | .closeBrace, .object members name :: frames =>
          some (.complete (.object ((name, value) :: members).reverse) frames)
      | _, _ => none

def Reading.result? : Reading → Option Json
  | .complete value [] => some value
  | _ => none

def parse? (cs : List Char) : Option Json := do
  let tokens ← tokens? cs
  let reading ← tokens.foldlM Reading.step (.expectValue false [])
  reading.result?

end Json

end PlZero
