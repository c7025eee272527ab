import PlZero.Machine.Fault
import PlZero.Source.Diagnostic

namespace PlZero

inductive Failure where
  | plain (text : String)
  | compile (error : CompileError)
  | fault (fault : Fault)
  | runtime (error : RuntimeError)
  | during (remark : String) (failure : Failure)
deriving DecidableEq, Repr

namespace Failure

def render : Failure → String
  | plain text => text
  | compile error => error.render
  | fault f => f.message
  | runtime error => error.render
  | during remark failure => remark ++ ": " ++ failure.render

def compileError? : Failure → Option CompileError
  | compile error => some error
  | during _ failure => failure.compileError?
  | _ => none

def fault? : Failure → Option Fault
  | fault f => some f
  | runtime error => some error.fault
  | during _ failure => failure.fault?
  | _ => none

def faultName (f : Failure) : String :=
  (f.fault?.map Fault.name).getD ""

def isLexical (f : Failure) : Bool :=
  f.compileError?.any (·.cause.isLexical)

def diagnose (f : Failure) (source : List UInt8) : List UInt8 :=
  match f.compileError? with
  | some error => error.diagnose source
  | none => (Text.Utf8.encode f.render).toList

end Failure

end PlZero
