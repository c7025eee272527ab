import PlZero.Yaml.Scalar

namespace PlZero.Yaml

inductive Token where
  | version (major minor : Nat)
  | shorthand (handle text : List Char)
  | documentStart
  | documentEnd
  | sequenceStart
  | mappingStart
  | blockEnd
  | item
  | key
  | value
  | openList
  | closeList
  | openRecord
  | closeRecord
  | comma
  | alias (name : List Char)
  | anchor (name : List Char)
  | tag (handle suffix : List Char)
  | scalar (plain : Bool) (text : List Char)
deriving DecidableEq, Repr

structure KeyStart where
  number : Nat
  required : Bool
  line : Nat
  column : Nat
  index : Nat
deriving Repr

structure Layout where
  cursor : Cursor
  tokens : List Token := []
  count : Nat := 0
  indents : List Nat := []
  starts : List (Option KeyStart) := [none]
  mayStart : Bool := true
deriving Repr

namespace Layout

-- The indentation of the innermost block; without a block it is less than zero.
def indent (l : Layout) : Int :=
  match l.indents with
  | i :: _ => i
  | [] => -1

def depth (l : Layout) : Nat :=
  l.starts.length - 1

def inFlow (l : Layout) : Bool :=
  0 < l.depth

def push (t : Token) (l : Layout) : Layout :=
  { l with tokens := t :: l.tokens, count := l.count + 1 }

def insert (number : Nat) (t : Token) (l : Layout) : Layout :=
  { l with tokens := l.tokens.insertIdx (l.count - number) t, count := l.count + 1 }

def mark (t : Token) (size : Nat) (l : Layout) : Layout :=
  { l.push t with cursor := l.cursor.skip size }

def maxDepth : Nat := 10000

def openBlock (column number : Nat) (t : Token) (l : Layout) : Option Layout :=
  if l.inFlow ∨ (column : Int) ≤ l.indent then some l
  else if maxDepth < l.indents.length + 1 then none
  else some { l.insert number t with indents := column :: l.indents }

def closeBlocks (column : Int) (l : Layout) : Layout :=
  if l.inFlow then l
  else
    let closed := l.indents.takeWhile fun i => decide (column < Int.ofNat i)
    { l with
      tokens := closed.map (fun _ => Token.blockEnd) ++ l.tokens
      count := l.count + closed.length
      indents := l.indents.drop closed.length }

def start? (l : Layout) : Option KeyStart :=
  l.starts.head?.join

def setStart (s : Option KeyStart) (l : Layout) : Layout :=
  { l with starts := s :: l.starts.drop 1 }

def dropStart (l : Layout) : Option Layout :=
  match l.start? with
  | some s => if s.required then none else some (l.setStart none)
  | none => some l

def noteStart (l : Layout) : Option Layout :=
  if l.mayStart then do
    let c := l.cursor
    let required := !l.inFlow && l.indent == (c.column : Int)
    let l ← l.dropStart
    return l.setStart (some ⟨l.count, required, c.line, c.column, c.index⟩)
  else some l

def keyReach : Nat := 1024

def near (l : Layout) (s : KeyStart) : Bool :=
  decide (l.cursor.line ≤ s.line) && decide (l.cursor.index ≤ s.index + keyReach)

def skipGap : Nat → Layout → Layout
  | 0, l => l
  | n + 1, l =>
      let c := if l.cursor.column = 0 ∧ l.cursor.next? = some '\ufeff' then l.cursor.skip 1 else l.cursor
      let c := c.skipWhile fun b => b == ' ' || (b == '\t' && (l.inFlow || !l.mayStart))
      let c := if c.next? == some '#' then c.skipComments c.rest.length else c
      match c.break? with
      | some (_, d) => skipGap n { l with cursor := d, mayStart := l.mayStart || !l.inFlow }
      | none => { l with cursor := c }

def division (t : Token) (l : Layout) : Option Layout := do
  let l ← (l.closeBlocks (-1)).dropStart
  return { l with mayStart := false }.mark t 3

def openBracket (t : Token) (l : Layout) : Option Layout := do
  let l ← l.noteStart
  if maxDepth < l.depth + 1 then none
  else some ({ l with starts := none :: l.starts, mayStart := true }.mark t 1)

def closeBracket (t : Token) (l : Layout) : Option Layout := do
  let l ← l.dropStart
  let starts := if l.inFlow then l.starts.drop 1 else l.starts
  return { l with starts, mayStart := false }.mark t 1

def comma (l : Layout) : Option Layout := do
  let l ← l.dropStart
  return { l with mayStart := true }.mark .comma 1

def item (l : Layout) : Option Layout := do
  let l ← if l.inFlow then some l
    else if l.mayStart then l.openBlock l.cursor.column l.count .sequenceStart else none
  let l ← l.dropStart
  return { l with mayStart := true }.mark .item 1

def markedKey (l : Layout) : Option Layout := do
  let l ← if l.inFlow then some l
    else if l.mayStart then l.openBlock l.cursor.column l.count .mappingStart else none
  let l ← l.dropStart
  return { l with mayStart := !l.inFlow }.mark .key 1

def value (l : Layout) : Option Layout :=
  match l.start? with
  | some s =>
      if l.near s then do
        let l ← (l.insert s.number .key).openBlock s.column s.number .mappingStart
        return { l.setStart none with mayStart := false }.mark .value 1
      else if s.required then none
      else unkeyed (l.setStart none)
  | none => unkeyed l
where
  unkeyed (l : Layout) : Option Layout := do
    let l ← if l.inFlow then some l
      else if l.mayStart then l.openBlock l.cursor.column l.count .mappingStart else none
    return { l with mayStart := !l.inFlow }.mark .value 1

def afterName (c : Option Char) : Bool :=
  isGap c || c.any ("?:,]\x7d%@\x60".toList.contains ·)

def named (make : List Char → Token) (l : Layout) : Option Layout := do
  let l ← l.noteStart
  let name := (l.cursor.rest.drop 1).takeWhile isNameChar
  if name.isEmpty || !afterName (l.cursor.peek? (name.length + 1)) then none
  else some ({ l with mayStart := false }.mark (make name) (name.length + 1))

def readUri : Nat → List UInt8 → List Char → Option (List UInt8 × List Char)
  | 0, _, _ => none
  | n + 1, acc, cs =>
      match cs with
      | '%' :: a :: b :: rest => do
          let a ← Quotes.hexValue? a
          let b ← Quotes.hexValue? b
          readUri n (acc ++ [UInt8.ofNat (a * 16 + b)]) rest
      | '%' :: _ => none
      | c :: rest =>
          if isNameChar c || ";/?:@&=+$,.!~*'()[]".toList.contains c then
            readUri n (acc ++ c.toString.toUTF8.toList) rest
          else some (acc, c :: rest)
      | [] => some (acc, [])

def uri? (head cs : List Char) : Option (List Char × List Char) := do
  let (bytes, rest) ← readUri (cs.length + 1) (String.ofList head).toUTF8.toList cs
  let text ← Text.Utf8.decode? bytes
  return (text, rest)

def handle (cs : List Char) : List Char :=
  let name := (cs.drop 1).takeWhile isNameChar
  let closing := if cs[name.length + 1]? == some '!' then ['!'] else []
  '!' :: name ++ closing

def tag? (cs : List Char) : Option (List Char × List Char × List Char) :=
  match cs with
  | '!' :: '<' :: rest =>
      match uri? [] rest with
      | some (suffix, '>' :: after) => if suffix.isEmpty then none else some ([], suffix, after)
      | _ => none
  | _ =>
      let h := handle cs
      if 1 < h.length ∧ h.getLast? = some '!' then
        match uri? [] (cs.drop h.length) with
        | some (suffix, after) => if suffix.isEmpty then none else some (h, suffix, after)
        | none => none
      else
        match uri? (h.drop 1) (cs.drop h.length) with
        | some (suffix, after) => if suffix.isEmpty then some ([], h, after) else some (['!'], suffix, after)
        | none => none

def tag (l : Layout) : Option Layout := do
  let l ← l.noteStart
  let (handle, suffix, after) ← tag? l.cursor.rest
  let size := l.cursor.rest.length - after.length
  if isGap after.head? then some ({ l with mayStart := false }.mark (.tag handle suffix) size) else none

def versionNumber? (cs : List Char) : Option (Nat × List Char) :=
  let digits := cs.takeWhile Char.isDigit
  if digits.isEmpty ∨ 2 < digits.length then none
  else some (digits.foldl (fun n d => n * 10 + (d.toNat - '0'.toNat)) 0, cs.drop digits.length)

def directive? (cs : List Char) : Option (Token × List Char) := do
  let name := (cs.drop 1).takeWhile isNameChar
  let rest := cs.drop (name.length + 1)
  if !isGap rest.head? then none
  let rest := rest.dropWhile isBlank
  match String.ofList name with
  | "YAML" =>
      let (major, rest) ← versionNumber? rest
      let '.' :: rest := rest | none
      let (minor, rest) ← versionNumber? rest
      return (.version major minor, rest)
  | "TAG" =>
      if rest.head? ≠ some '!' then none
      let h := handle rest
      if h ≠ ['!'] ∧ (h.length = 1 ∨ h.getLast? ≠ some '!') then none
      let rest := rest.drop h.length
      if !rest.head?.any isBlank then none
      let (text, rest) ← uri? [] (rest.dropWhile isBlank)
      if text.isEmpty || !isGap rest.head? then none
      return (.shorthand h text, rest)
  | _ => none

def directive (l : Layout) : Option Layout := do
  let l ← (l.closeBlocks (-1)).dropStart
  let (t, after) ← directive? l.cursor.rest
  let c := (l.cursor.skip (l.cursor.rest.length - after.length)).skipTrailingComment.skipWhile isBlank
  if isLineEnd c.next? then some { l.push t with cursor := c.skipBreak, mayStart := false } else none

def block (folded : Bool) (l : Layout) : Option Layout := do
  let l ← l.dropStart
  let (text, c) ← BlockStyle.read? folded l.indent l.cursor
  return { l.push (.scalar false text) with cursor := c, mayStart := true }

def quoted (q : Quotes) (l : Layout) : Option Layout := do
  let l ← l.noteStart
  let (text, c) ← q.read? l.cursor
  return { l.push (.scalar false text) with cursor := c, mayStart := false }

def plain (l : Layout) : Option Layout := do
  let l ← l.noteStart
  let p ← Plain.read? l.inFlow (l.indent + 1).toNat l.cursor
  return { l.push (.scalar true p.text) with cursor := p.after, mayStart := p.broken }

def startsPlain (inFlow : Bool) (c : Char) (next : Option Char) : Bool :=
  !(isGap (some c) || "-?:,[]\x7b\x7d#&*!|>'\"%@\x60".toList.contains c) ||
    (c == '-' && !next.any isBlank) || (!inFlow && (c == '?' || c == ':') && !isGap next)

def finish (l : Layout) : Layout :=
  { l with cursor := l.cursor.skipTrailingComment }

def fetch (c : Char) (l : Layout) : Option Layout :=
  let next := l.cursor.peek? 1
  if l.cursor.column = 0 ∧ c = '%' then l.directive
  else if l.cursor.atMarker '-' then l.division .documentStart
  else if l.cursor.atMarker '.' then l.division .documentEnd
  else if c = '[' then (l.openBracket .openList).map finish
  else if c = '\x7b' then (l.openBracket .openRecord).map finish
  else if c = ']' then (l.closeBracket .closeList).map finish
  else if c = '\x7d' then (l.closeBracket .closeRecord).map finish
  else if c = ',' then l.comma.map finish
  else if c = '-' ∧ isGap next then l.item
  else if c = '?' ∧ (l.inFlow ∨ isGap next) then l.markedKey.map finish
  else if c = ':' ∧ (l.inFlow ∨ isGap next) then l.value.map finish
  else if c = '*' then (l.named .alias).map finish
  else if c = '&' then (l.named .anchor).map finish
  else if c = '!' then l.tag.map finish
  else if c = '|' ∧ !l.inFlow then l.block false
  else if c = '>' ∧ !l.inFlow then l.block true
  else if c = '\'' then (l.quoted .single).map finish
  else if c = '"' then (l.quoted .double).map finish
  else if startsPlain l.inFlow c next then l.plain.map finish
  else none

def undecided? (l : Layout) : Option Nat :=
  (((l.starts.filterMap id).filter l.near).map KeyStart.number).min?

end Layout

structure Scan where
  tokens : List Token
  failed : Bool
  undecided? : Option Nat := none
deriving Repr

namespace Layout

def stop (l : Layout) : Scan :=
  ⟨l.tokens.reverse, true, l.undecided?⟩

def scan : Nat → Layout → Scan
  | 0, l => l.stop
  | n + 1, l =>
      let m := l.skipGap (n + 1)
      match m.cursor.next? with
      | none =>
          match (m.closeBlocks (-1)).dropStart with
          | some m => ⟨m.tokens.reverse, false, none⟩
          | none => l.stop
      | some c =>
          match (m.closeBlocks m.cursor.column).fetch c with
          | some m => scan n m
          | none => l.stop

end Layout

def scan (text : List Char) : Scan :=
  Layout.scan (text.length + 1) { cursor := ⟨text, 0, 0, 0⟩ }

end PlZero.Yaml
