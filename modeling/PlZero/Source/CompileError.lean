import PlZero.Source.Token

namespace PlZero

inductive ErrorCode where
  | invalidInput
  | integerOverflow
  | expectedToken
  | duplicateDeclaration
  | notDeclared
  | notInitialized
  | assignToConstant
  | other (code : Int)
deriving DecidableEq, Repr

namespace ErrorCode

def all : List ErrorCode :=
  [invalidInput, integerOverflow, expectedToken, duplicateDeclaration, notDeclared, notInitialized,
    assignToConstant]

def toCode : ErrorCode → Int
  | invalidInput => 1
  | integerOverflow => 2
  | expectedToken => 3
  | duplicateDeclaration => 4
  | notDeclared => 5
  | notInitialized => 6
  | assignToConstant => 7
  | other code => code

def ofCode : Int → ErrorCode
  | 1 => invalidInput
  | 2 => integerOverflow
  | 3 => expectedToken
  | 4 => duplicateDeclaration
  | 5 => notDeclared
  | 6 => notInitialized
  | 7 => assignToConstant
  | code => other code

def name : ErrorCode → String
  | invalidInput => "InvalidInput"
  | integerOverflow => "IntegerOverflow"
  | expectedToken => "ExpectedToken"
  | duplicateDeclaration => "DuplicateDeclaration"
  | notDeclared => "NotDeclared"
  | notInitialized => "NotInitialized"
  | assignToConstant => "AssignToConstant"
  | other code => s!"ErrorCode({code})"

def ofName? (name : String) : Option ErrorCode :=
  all.find? (·.name == name)

end ErrorCode

def maxLiteral : UInt64 := 2147483648

inductive CompileCause where
  | invalidInput
  | integerOverflow
  | expectedToken (expected : List TokenKind) (found : Token)
  | duplicateDeclaration (name : String)
  | notDeclared (name : String)
  | notInitialized (name : String)
  | assignToConstant (name : String)
  | other (code : Int)
deriving DecidableEq, Repr

namespace CompileCause

def code : CompileCause → ErrorCode
  | invalidInput => .invalidInput
  | integerOverflow => .integerOverflow
  | expectedToken _ _ => .expectedToken
  | duplicateDeclaration _ => .duplicateDeclaration
  | notDeclared _ => .notDeclared
  | notInitialized _ => .notInitialized
  | assignToConstant _ => .assignToConstant
  | other code => .other code

def subject : CompileCause → String
  | duplicateDeclaration name => name
  | notDeclared name => name
  | notInitialized name => name
  | assignToConstant name => name
  | _ => ""

def message : CompileCause → String
  | invalidInput => "invalid input character"
  | integerOverflow => s!"integer literal exceeds {maxLiteral.toNat}"
  | expectedToken expected found =>
      "expected " ++ " or ".intercalate (expected.map TokenKind.name) ++ ", got " ++ found.kind.name
  | duplicateDeclaration name => "duplicate declaration of " ++ Text.quote name
  | notDeclared name => Text.quote name ++ " is not declared"
  | notInitialized name => Text.quote name ++ " is used before it is initialized"
  | assignToConstant name => "cannot assign to constant " ++ Text.quote name
  | other code => (ErrorCode.other code).name

def isLexical : CompileCause → Bool
  | invalidInput => true
  | integerOverflow => true
  | _ => false

end CompileCause

structure CompileError where
  position : Position
  cause : CompileCause
deriving DecidableEq, Repr

namespace CompileError

def render (e : CompileError) : String :=
  e.position.render ++ ": " ++ e.cause.message

end CompileError

end PlZero
