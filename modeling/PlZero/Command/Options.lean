import PlZero.Text.Numeral
import PlZero.Text.Quoted

namespace PlZero.Command

inductive Mode where
  | run
  | tokens
  | listing
  | assembly
  | suites
deriving DecidableEq, Repr

structure Options where
  mode : Mode := .run
  trace : Bool := false
  output : String := ""
  snapshot : String := ""
  jobs : Nat := 0
  input : String := ""
deriving DecidableEq, Repr

inductive UsageError where
  | unknownOption (letter : Char)
  | missingValue (letter : Char)
  | jobCount (text : String)
  | severalModes
  | inputCount
deriving DecidableEq, Repr

def commandName : String := "plc0"

def UsageError.message : UsageError → String
  | unknownOption letter => commandName ++ ": unknown option -" ++ letter.toString
  | missingValue letter => commandName ++ ": expected argument for -" ++ letter.toString
  | jobCount text => "invalid job count " ++ Text.quote text
  | severalModes => "at most one of -t, -l, -r, -a, -c may be given"
  | inputCount => "exactly one input file is required"

def usage : String :=
  "usage: plc0 [-t | -l | -r | -a] [-x] [-o output] [-s snapshot] input\n" ++
    "       plc0 -c suite.yaml|dir [-j jobs]"

structure Switch where
  letter : Char
  value : String := ""
deriving DecidableEq, Repr

def hasValue? : Char → Option Bool
  | 't' | 'l' | 'r' | 'a' | 'x' | 'c' => some false
  | 'o' | 's' | 'j' => some true
  | _ => none

def cluster : List Char → Except UsageError (List Switch × Option Char)
  | [] => .ok ([], none)
  | c :: rest =>
      match hasValue? c with
      | none => .error (.unknownOption c)
      | some false => (cluster rest).map fun (switches, open?) => (⟨c, ""⟩ :: switches, open?)
      | some true => if rest.isEmpty then .ok ([], some c) else .ok ([⟨c, String.ofList rest⟩], none)

def split : Option Char → List String → Except UsageError (List Switch × List String)
  | some c, [] => .error (.missingValue c)
  | some c, value :: rest => (split none rest).map fun (switches, rest) => (⟨c, value⟩ :: switches, rest)
  | none, [] => .ok ([], [])
  | none, arg :: rest =>
      match arg.toList with
      | ['-', '-'] => .ok ([], rest)
      | '-' :: letter :: letters =>
          match cluster (letter :: letters) with
          | .error e => .error e
          | .ok (switches, open?) =>
              (split open? rest).map fun (more, rest) => (switches ++ more, rest)
      | _ => .ok ([], arg :: rest)

def Mode.ofLetter? : Char → Option Mode
  | 't' => some .tokens
  | 'l' => some .listing
  | 'r' => some .run
  | 'a' => some .assembly
  | 'c' => some .suites
  | _ => none

def readJobs (text : String) : Except UsageError Nat :=
  match Text.readSigned 64 text.toList with
  | .ok n => if n < 1 then .error (.jobCount text) else .ok n.toNat
  | .error _ => .error (.jobCount text)

def Options.take (o : Options) (s : Switch) : Except UsageError Options :=
  match Mode.ofLetter? s.letter, s.letter with
  | some mode, _ => .ok { o with mode }
  | none, 'x' => .ok { o with trace := true }
  | none, 'o' => .ok { o with output := s.value }
  | none, 's' => .ok { o with snapshot := s.value }
  | none, 'j' => (readJobs s.value).map ({ o with jobs := · })
  | none, _ => .ok o

def Options.parse (args : List String) : Except UsageError Options := do
  let (switches, rest) ← split none args
  let o ← switches.foldlM Options.take {}
  if 1 < (switches.filter fun s => (Mode.ofLetter? s.letter).isSome).length then throw .severalModes
  match rest with
  | [input] => return { o with input }
  | _ => throw .inputCount

end PlZero.Command
