import PlZero.Files.Access
import PlZero.Suite.Case

namespace PlZero.Suite

inductive LoadError where
  | file (error : Files.FileError)
  | document (path message : String)
  | noTests (path : String)
  | noSuites (directory : String)
  | pattern
deriving DecidableEq, Repr

def LoadError.message : LoadError → String
  | file error => error.message
  | document path message => "parse " ++ path ++ ": " ++ message
  | noTests path => path ++ ": suite has no tests"
  | noSuites directory => "no .yaml suites in " ++ directory
  | pattern => "syntax error in pattern"

def ofBytes (decode : Decoder) (path : String) (bytes : List UInt8) : Except LoadError (List Case) :=
  match decode bytes with
  | .error message => .error (.document path message)
  | .ok sheet =>
      if sheet.cases.isEmpty then .error (.noTests path)
      else .ok (sheet.cases.map ({ · with file := path, suite := sheet.name }))

variable {m : Type → Type} [Monad m] [Files.Access m] (decode : Decoder)

def loadFile (path : String) : m (Except LoadError (List Case)) := do
  match ← Files.Access.read path with
  | .ok bytes => return ofBytes decode path bytes
  | .error e => return .error (.file e)

def loadFiles : List (List Char) → m (Except LoadError (List Case))
  | [] => return .ok []
  | path :: rest => do
      match ← loadFile decode (String.ofList path) with
      | .error e => return .error e
      | .ok cases =>
          match ← loadFiles rest with
          | .error e => return .error e
          | .ok more => return .ok (cases ++ more)

def loadDirectory (directory : String) : m (Except LoadError (List Case)) := do
  match ← Files.search (Files.join directory.toList "*.yaml".toList) with
  | none => return .error .pattern
  | some [] => return .error (.noSuites directory)
  | some paths => loadFiles decode (paths.mergeSort Files.inOrder)

end PlZero.Suite
