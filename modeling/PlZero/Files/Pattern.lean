namespace PlZero.Files

inductive Wildcard where
  | literal (c : Char)
  | any
  | among (excluded : Bool) (ranges : List (Char × Char))
  | star
deriving DecidableEq, Repr

namespace Wildcard

def accepts (w : Wildcard) (c : Char) : Bool :=
  match w with
  | literal d => c == d
  | any => c != '/'
  | among excluded ranges => ranges.any (fun (low, high) => low ≤ c && c ≤ high) != excluded
  | star => false

end Wildcard

abbrev Pattern := List Wildcard

namespace Pattern

def tails : List Char → List (List Char)
  | [] => [[]]
  | c :: name => (c :: name) :: if c = '/' then [] else tails name

def fits : Pattern → List Char → Bool
  | [], name => name.isEmpty
  | .star :: rest, name => (tails name).any (fits rest)
  | w :: rest, name =>
      match name with
      | [] => false
      | c :: name => w.accepts c && fits rest name

def listed? : List Char → Option (Char × List Char)
  | '-' :: _ | ']' :: _ => none
  | '\\' :: c :: d :: rest => some (c, d :: rest)
  | '\\' :: _ => none
  | c :: d :: rest => some (c, d :: rest)
  | _ => none

def ranges? : Nat → Bool → List Char → Option (List (Char × Char) × List Char)
  | 0, _, _ => none
  | n + 1, first, cs =>
      match cs with
      | ']' :: rest => if first then none else some ([], rest)
      | cs => do
          let (low, rest) ← listed? cs
          let (high, rest) ←
            match rest with
            | '-' :: rest => listed? rest
            | rest => some (low, rest)
          let (more, rest) ← ranges? n false rest
          return ((low, high) :: more, rest)

def ofChars? : Nat → List Char → Option Pattern
  | 0, _ => none
  | _ + 1, [] => some []
  | n + 1, c :: rest =>
      match c with
      | '*' => (ofChars? n rest).map (.star :: ·)
      | '?' => (ofChars? n rest).map (.any :: ·)
      | '\\' =>
          match rest with
          | d :: rest => (ofChars? n rest).map (.literal d :: ·)
          | [] => none
      | '[' => do
          let excluded := rest.head? == some '^'
          let (ranges, rest) ← ranges? (rest.length + 1) true (if excluded then rest.drop 1 else rest)
          return .among excluded ranges :: (← ofChars? n rest)
      | c => (ofChars? n rest).map (.literal c :: ·)

def parse? (text : List Char) : Option Pattern :=
  ofChars? (text.length + 1) text

def isWild (text : List Char) : Bool :=
  text.any fun c => c == '*' || c == '?' || c == '[' || c == '\\'

end Pattern

end PlZero.Files
