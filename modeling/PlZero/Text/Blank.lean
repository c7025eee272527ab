import PlZero.Text.CodeRange

namespace PlZero.Text

def blankRanges : List (Nat × Nat) := [
  (0x9, 0xD), (0x20, 0x20), (0x85, 0x85), (0xA0, 0xA0), (0x1680, 0x1680), (0x2000, 0x200A),
  (0x2028, 0x2029), (0x202F, 0x202F), (0x205F, 0x205F), (0x3000, 0x3000)]

def isBlank (c : Char) : Bool :=
  inRanges blankRanges c.toNat

def splitWords : List Char → List Char × List (List Char)
  | [] => ([], [])
  | c :: cs =>
      let (word, more) := splitWords cs
      if isBlank c then ([], if word.isEmpty then more else word :: more) else (c :: word, more)

def words (cs : List Char) : List (List Char) :=
  let (word, more) := splitWords cs
  if word.isEmpty then more else word :: more

end PlZero.Text
