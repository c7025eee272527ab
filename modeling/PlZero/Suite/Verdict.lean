import PlZero.Analysis.Analyser
import PlZero.Assembly.Listing
import PlZero.Machine.Basic
import PlZero.Suite.Case

namespace PlZero.Suite

inductive Discrepancy where
  | compileError (error : CompileError)
  | otherCompileError (expected : String) (error : CompileError)
  | line (expected got : Int)
  | column (expected got : Int)
  | noCompileError (expected : String)
  | listing (expected got : List String)
  | runtimeError (error : RuntimeError)
  | otherRuntimeError (expected : String) (error : RuntimeError)
  | noRuntimeError (expected : String)
  | output (expected got : List Int32)
deriving DecidableEq, Repr

namespace Discrepancy

def renderValues (values : List Int32) : String :=
  "[" ++ " ".intercalate (values.map fun v => toString v.toInt) ++ "]"

def message : Discrepancy → String
  | compileError error => "unexpected compile error: " ++ error.render
  | otherCompileError expected error =>
      "expected compile error " ++ expected ++ ", got " ++ error.cause.code.name ++ " (" ++ error.render ++ ")"
  | line expected got => s!"expected error on line {expected}, got {got}"
  | column expected got => s!"expected error at column {expected}, got {got}"
  | noCompileError expected => "expected compile error " ++ expected ++ ", compilation succeeded"
  | listing expected got =>
      "listing: expected [" ++ ", ".intercalate expected ++ "], got [" ++ ", ".intercalate got ++ "]"
  | runtimeError error => "unexpected runtime error: " ++ error.render
  | otherRuntimeError expected error => "expected runtime error " ++ expected ++ ", got " ++ error.render
  | noRuntimeError expected => "expected runtime error " ++ expected ++ ", program completed"
  | output expected got => "output: expected " ++ renderValues expected ++ ", got " ++ renderValues got

end Discrepancy

-- The verdict with the default values is that of a case that was never run.
structure Verdict where
  case : Case := {}
  passed : Bool := false
  skipped : Bool := false
  reason : String := ""
  output : List Int32 := []
  discrepancy : Option Discrepancy := none
deriving DecidableEq, Repr

namespace Expectation

def checkCompileError (e : Expectation) (error : CompileError) : Option Discrepancy :=
  if e.error = "" then some (.compileError error)
  else if error.cause.code.name ≠ e.error then some (.otherCompileError e.error error)
  else if e.line ≠ 0 ∧ error.position.line + 1 ≠ e.line then
    some (.line e.line (error.position.line + 1))
  else if e.column ≠ 0 ∧ error.position.column + 1 ≠ e.column then
    some (.column e.column (error.position.column + 1))
  else none

def checkProgram (e : Expectation) (program : Array Instruction) : Option Discrepancy :=
  if (ErrorCode.ofName? e.error).isSome then some (.noCompileError e.error)
  else
    match e.listing with
    | some expected =>
        if PlZero.listing program ≠ expected then some (.listing expected (PlZero.listing program)) else none
    | none => none

def checkRun (e : Expectation) (error : Option RuntimeError) (output : List Int32) :
    Option Discrepancy :=
  match error with
  | some error =>
      if e.error = "" then some (.runtimeError error)
      else if error.fault.name?.getD "" ≠ e.error then some (.otherRuntimeError e.error error)
      else if output ≠ e.output then some (.output e.output output)
      else none
  | none =>
      if e.error ≠ "" then some (.noRuntimeError e.error)
      else if output ≠ e.output then some (.output e.output output)
      else none

end Expectation

def execute (program : Array Instruction) : Option RuntimeError × List Int32 :=
  let ended := Execution.run ⟨{ program }, { sink := some (.recorder #[]) }⟩
  (ended.1, ((ended.2.console.sink.map Sink.values).getD #[]).toList)

def Case.verdict (c : Case) : Verdict :=
  match c.skip.reason? with
  | some reason => { case := c, skipped := true, reason }
  | none =>
      match (compile c.source).1 with
      | .error error =>
          let discrepancy := c.expect.checkCompileError error
          { case := c, passed := discrepancy.isNone, discrepancy }
      | .ok program =>
          match c.expect.checkProgram program with
          | some discrepancy => { case := c, discrepancy := some discrepancy }
          | none =>
              let ended := execute program
              let discrepancy := c.expect.checkRun ended.1 ended.2
              { case := c, passed := discrepancy.isNone, output := ended.2, discrepancy }

end PlZero.Suite
