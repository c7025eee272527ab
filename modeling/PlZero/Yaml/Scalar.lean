import PlZero.Yaml.Cursor

namespace PlZero.Yaml

inductive Gap where
  | blanks (blanks : List Char)
  | breaks (first more : List Char)
deriving Repr

namespace Gap

def isBreaks : Gap → Bool
  | blanks _ => false
  | breaks _ _ => true

def text : Gap → List Char
  | blanks bs => bs
  | breaks ['\n'] [] => [' ']
  | breaks ['\n'] more => more
  | breaks first more => first ++ more

def read (reserved : Nat) : Nat → Gap → Cursor → Option (Gap × Cursor)
  | 0, g, c => some (g, c)
  | n + 1, g, c =>
      match c.break?, c.next? with
      | some (b, d), _ =>
          match g with
          | blanks _ => read reserved n (breaks [b] []) d
          | breaks first more => read reserved n (breaks first (more ++ [b])) d
      | none, some b =>
          if isBlank b then
            match g with
            | blanks bs => read reserved n (blanks (bs ++ [b])) (c.skip 1)
            | breaks _ _ =>
                if b == '\t' && decide (c.column < reserved) then none
                else read reserved n g (c.skip 1)
          else some (g, c)
      | none, none => some (g, c)

end Gap

structure Plain where
  text : List Char
  broken : Bool
  after : Cursor
deriving Repr

namespace Plain

def ends (inFlow : Bool) (c : Char) (next : Option Char) : Bool :=
  c == ':' && isGap next ||
    inFlow && (c == ',' || c == '[' || c == ']' || c == '\x7b' || c == '\x7d' ||
      c == '?' && next != some '\t' && isGap next)

def word (inFlow : Bool) : List Char → List Char
  | [] => []
  | c :: rest =>
      if isBlank c || isBreak c || ends inFlow c rest.head? then [] else c :: word inFlow rest

def readWords (inFlow : Bool) (indent : Nat) : Nat → List Char → Gap → Cursor → Option Plain
  | 0, _, _, _ => none
  | n + 1, sofar, gap, c =>
      if c.atDivision || c.next? == some '#' then some ⟨sofar.reverse, gap.isBreaks, c⟩
      else
        let w := word inFlow c.rest
        let sofar := if w.isEmpty then sofar else w.reverseAux (gap.text.reverseAux sofar)
        let gap := if w.isEmpty then gap else .blanks []
        let c := c.skip w.length
        match c.next? with
        | some b =>
            if isBlank b || isBreak b then
              match gap.read indent n c with
              | none => none
              | some (gap, d) =>
                  if !inFlow && decide (d.column < indent) then some ⟨sofar.reverse, gap.isBreaks, d⟩
                  else readWords inFlow indent n sofar gap d
            else some ⟨sofar.reverse, gap.isBreaks, c⟩
        | none => some ⟨sofar.reverse, gap.isBreaks, c⟩

def read? (inFlow : Bool) (indent : Nat) (c : Cursor) : Option Plain :=
  readWords inFlow indent (c.rest.length + 1) [] (.blanks []) c

end Plain

inductive Quotes where
  | single
  | double
deriving DecidableEq, Repr

namespace Quotes

def mark : Quotes → Char
  | single => '\''
  | double => '"'

def hexValue? (c : Char) : Option Nat :=
  if c.isDigit then some (c.toNat - '0'.toNat)
  else if 'a' ≤ c ∧ c ≤ 'f' then some (c.toNat - 'a'.toNat + 10)
  else if 'A' ≤ c ∧ c ≤ 'F' then some (c.toNat - 'A'.toNat + 10)
  else none

def hexNumber? : Nat → Nat → List Char → Option Nat
  | 0, acc, _ => some acc
  | _ + 1, _, [] => none
  | n + 1, acc, c :: rest => (hexValue? c).bind fun v => hexNumber? n (acc * 16 + v) rest

def hexChar? (n : Nat) (cs : List Char) : Option Char := do
  let code ← hexNumber? n 0 cs
  if code.isValidChar then some (Char.ofNat code) else none

def escaped? : List Char → Option (Char × Nat)
  | [] => none
  | c :: rest =>
      match c with
      | '0' => some ('\x00', 1)
      | 'a' => some ('\x07', 1)
      | 'b' => some ('\x08', 1)
      | 't' | '\t' => some ('\t', 1)
      | 'n' => some ('\n', 1)
      | 'v' => some ('\x0b', 1)
      | 'f' => some ('\x0c', 1)
      | 'r' => some ('\r', 1)
      | 'e' => some ('\x1b', 1)
      | ' ' => some (' ', 1)
      | '"' => some ('"', 1)
      | '\'' => some ('\'', 1)
      | '\\' => some ('\\', 1)
      | 'N' => some ('\x85', 1)
      | '_' => some ('\xa0', 1)
      | 'L' => some ('\u2028', 1)
      | 'P' => some ('\u2029', 1)
      | 'x' => (hexChar? 2 rest).map (·, 3)
      | 'u' => (hexChar? 4 rest).map (·, 5)
      | 'U' => (hexChar? 8 rest).map (·, 9)
      | _ => none

def readWord (q : Quotes) : Nat → List Char → Cursor → Option (List Char × Bool × Cursor)
  | 0, _, _ => none
  | n + 1, sofar, c =>
      match c.rest with
      | [] => some (sofar, false, c)
      | a :: rest =>
          if isBlank a || isBreak a then some (sofar, false, c)
          else if a == q.mark then
            if q == single && rest.head? == some '\'' then readWord q n ('\'' :: sofar) (c.skip 2)
            else some (sofar, false, c)
          else if q == double && a == '\\' then
            match (c.skip 1).break? with
            | some (_, d) => some (sofar, true, d)
            | none =>
                match escaped? rest with
                | some (e, size) => readWord q n (e :: sofar) (c.skip (size + 1))
                | none => none
          else readWord q n (a :: sofar) (c.skip 1)

def readWords (q : Quotes) : Nat → List Char → Cursor → Option (List Char × Cursor)
  | 0, _, _ => none
  | n + 1, sofar, c =>
      if c.atDivision || c.rest.isEmpty then none
      else
        match readWord q (n + 1) sofar c with
        | none => none
        | some (sofar, joined, c) =>
            if c.next? == some q.mark then some (sofar.reverse, c.skip 1)
            else
              match (if joined then Gap.breaks [] [] else .blanks []).read 0 n c with
              | none => none
              | some (gap, d) => readWords q n (gap.text.reverseAux sofar) d

def read? (q : Quotes) (c : Cursor) : Option (List Char × Cursor) :=
  readWords q (c.rest.length + 1) [] (c.skip 1)

end Quotes

inductive Chomp where
  | strip
  | clip
  | keep
deriving DecidableEq, Repr

structure BlockStyle where
  folded : Bool
  chomp : Chomp := .clip
  indent? : Option Nat := none
deriving Repr

namespace BlockStyle

def chomp? : Option Char → Option Chomp
  | some '+' => some .keep
  | some '-' => some .strip
  | _ => none

def readIndent (s : BlockStyle) (c : Cursor) : Option (BlockStyle × Cursor) :=
  match c.next? with
  | some '0' => none
  | some d =>
      if d.isDigit then some ({ s with indent? := some (d.toNat - '0'.toNat) }, c.skip 1)
      else some (s, c)
  | none => some (s, c)

def readChomp (s : BlockStyle) (c : Cursor) : BlockStyle × Cursor :=
  match chomp? c.next? with
  | some chomp => ({ s with chomp }, c.skip 1)
  | none => (s, c)

def readHead (s : BlockStyle) (c : Cursor) : Option (BlockStyle × Cursor) := do
  let (s, c) ←
    if (chomp? c.next?).isSome then
      let (s, c) := s.readChomp c
      s.readIndent c
    else do
      let (s, d) ← s.readIndent c
      if s.indent?.isSome then some (s.readChomp d) else some (s, d)
  let c := (c.skipWhile isBlank)
  let c := if c.next? == some '#' then c.skipLine else c
  if isLineEnd c.next? then some (s, c.skipBreak) else none

def skipIndent (indent : Nat) (c : Cursor) : Cursor :=
  let blanks := (c.rest.takeWhile (· == ' ')).length
  c.skip (if indent = 0 then blanks else min blanks (indent - c.column))

def readBreaks (indent : Nat) : Nat → Nat → List Char → Cursor → Option (Nat × List Char × Cursor)
  | 0, _, _, _ => none
  | n + 1, widest, breaks, c =>
      let c := skipIndent indent c
      let widest := max widest c.column
      if (indent = 0 ∨ c.column < indent) ∧ c.next? = some '\t' then none
      else
        match c.break? with
        | some (b, d) => readBreaks indent n widest (breaks ++ [b]) d
        | none => some (widest, breaks, c)

structure Lines where
  sofar : List Char := []
  last : List Char := []
  empty : List Char := []
  inset : Bool := false

def Lines.join (s : BlockStyle) (ls : Lines) (inset : Bool) : List Char :=
  if s.folded && !ls.inset && !inset && ls.last == ['\n'] then
    if ls.empty.isEmpty then [' '] else ls.empty
  else ls.last ++ ls.empty

def readLines (s : BlockStyle) (indent : Nat) : Nat → Lines → Cursor → Option (Lines × Cursor)
  | 0, _, _ => none
  | n + 1, ls, c =>
      match c.next? with
      | none => some (ls, c)
      | some first =>
          if c.column ≠ indent then some (ls, c)
          else
            let inset := isBlank first
            let line := c.rest.takeWhile (!isBreak ·)
            let sofar := line.reverseAux ((ls.join s inset).reverseAux ls.sofar)
            let c := c.skip line.length
            let (last, d) :=
              match c.break? with
              | some (b, d) => ([b], d)
              | none => ([], c)
            match readBreaks indent (n + 1) 0 [] d with
            | none => none
            | some (_, empty, d) => readLines s indent n ⟨sofar, last, empty, inset⟩ d

def Lines.close (s : BlockStyle) (ls : Lines) : List Char :=
  match s.chomp with
  | .strip => ls.sofar.reverse
  | .clip => ls.sofar.reverse ++ ls.last
  | .keep => ls.sofar.reverse ++ ls.last ++ ls.empty

def read? (folded : Bool) (outer : Int) (c : Cursor) : Option (List Char × Cursor) := do
  let (s, c) ← readHead { folded } (c.skip 1)
  let given := (s.indent?.map fun i => outer.toNat + i).getD 0
  let (widest, empty, c) ← readBreaks given (c.rest.length + 1) 0 [] c
  let indent := if given = 0 then max (max widest (outer + 1).toNat) 1 else given
  let (ls, c) ← readLines s indent (c.rest.length + 1) { empty } c
  return (ls.close s, c)

end BlockStyle

end PlZero.Yaml
