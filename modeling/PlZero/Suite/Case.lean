import PlZero.Files.Path

namespace PlZero.Suite

structure Expectation where
  output : List Int32 := []
  error : String := ""
  line : Int := 0
  column : Int := 0
  listing : Option (List String) := none
deriving DecidableEq, Repr

inductive SkipMark where
  | flag (b : Bool)
  | reason (text : String)
  | other
deriving DecidableEq, Repr

def SkipMark.reason? : SkipMark → Option String
  | flag true => some "skipped"
  | flag false => none
  | reason text => some text
  | other => none

structure Case where
  file : String := ""
  suite : String := ""
  name : String := ""
  description : String := ""
  skip : SkipMark := .other
  source : List Char := []
  expect : Expectation := {}
deriving DecidableEq, Repr

-- What the bytes of a file stand for, before the cases know which file they are from.
structure Sheet where
  name : String := ""
  cases : List Case := []
deriving DecidableEq, Repr

abbrev Decoder := List UInt8 → Except String Sheet

def Case.title (c : Case) : String :=
  Files.base c.file ++ "/" ++ c.suite ++ "/" ++ c.name

end PlZero.Suite
