import PlZero.Yaml.Character

namespace PlZero.Yaml

structure Cursor where
  rest : List Char
  line : Nat := 0
  column : Nat := 0
  index : Nat := 0
deriving Repr

namespace Cursor

def next? (c : Cursor) : Option Char :=
  c.rest.head?

def peek? (c : Cursor) (n : Nat) : Option Char :=
  c.rest[n]?

def skip (n : Nat) (c : Cursor) : Cursor :=
  ⟨c.rest.drop n, c.line, c.column + n, c.index + n⟩

def skipWhile (p : Char → Bool) (c : Cursor) : Cursor :=
  c.skip (c.rest.takeWhile p).length

def break? (c : Cursor) : Option (Char × Cursor) :=
  match c.rest with
  | '\r' :: '\n' :: rest => some ('\n', ⟨rest, c.line + 1, 0, c.index + 2⟩)
  | b :: rest =>
      if b == '\u2028' || b == '\u2029' then some (b, ⟨rest, c.line + 1, 0, c.index + 1⟩)
      else if isBreak b then some ('\n', ⟨rest, c.line + 1, 0, c.index + 1⟩)
      else none
  | [] => none

def skipBreak (c : Cursor) : Cursor :=
  (c.break?.map Prod.snd).getD c

def skipLine (c : Cursor) : Cursor :=
  c.skipWhile (!isBreak ·)

def atMarker (c : Cursor) (mark : Char) : Bool :=
  c.column == 0 && c.rest.take 3 == [mark, mark, mark] && isGap (c.peek? 3)

def atDivision (c : Cursor) : Bool :=
  c.atMarker '-' || c.atMarker '.'

def skipTrailingComment (c : Cursor) : Cursor :=
  let d := c.skipWhile isBlank
  if d.next? == some '#' then d.skipLine else c

def skipEmpty : Nat → Cursor → Cursor
  | 0, c => c
  | n + 1, c =>
      match c.next? with
      | some '\n' | some '\r' => skipEmpty n c.skipBreak
      | some b => if isBlank b then skipEmpty n (c.skip 1) else c
      | none => c

def commentReach : Nat := 512

def skipComments : Nat → Cursor → Cursor
  | 0, c => c
  | n + 1, c =>
      let c := c.skipLine
      let below := c.skipEmpty commentReach
      if below.next? == some '#' then skipComments n below else c

end Cursor

end PlZero.Yaml
