import PlZero.Analysis.SymbolTable
import PlZero.Machine.Instruction
import PlZero.Source.CompileError

namespace PlZero

structure Draft where
  symbols : SymbolTable := {}
  code : Array Instruction := #[]

namespace Draft

def emit (d : Draft) (i : Instruction) : Draft :=
  { d with code := d.code.push i }

def declare (d : Draft) (name : Token) (constant initialized : Bool) : Option CompileError × Draft :=
  match d.symbols.declare name.lexeme constant initialized with
  | .ok (_, symbols) => (none, { d with symbols })
  | .error _ => (some ⟨name.start, .duplicateDeclaration name.lexeme⟩, d)

def mark (d : Draft) (name : Token) : Draft :=
  { d with symbols := (d.symbols.markInitialized? name.lexeme).getD d.symbols }

end Draft

namespace SymbolTable

def target (t : SymbolTable) (name : Token) : Except CompileError Symbol :=
  match t.lookup? name.lexeme with
  | none => .error ⟨name.start, .notDeclared name.lexeme⟩
  | some symbol =>
      if symbol.constant then .error ⟨name.start, .assignToConstant name.lexeme⟩ else .ok symbol

def source (t : SymbolTable) (name : Token) : Except CompileError Symbol :=
  match t.lookup? name.lexeme with
  | none => .error ⟨name.start, .notDeclared name.lexeme⟩
  | some symbol =>
      if symbol.initialized then .ok symbol else .error ⟨name.start, .notInitialized name.lexeme⟩

end SymbolTable

inductive Action where
  | emit (i : Instruction)
  | declare (name : Token) (constant initialized : Bool)
  | mark (name : Token)
deriving DecidableEq, Repr

def Action.perform (d : Draft) : Action → Option CompileError × Draft
  | .emit i => (none, d.emit i)
  | .declare name constant initialized => d.declare name constant initialized
  | .mark name => (none, d.mark name)

-- program    = "begin" constant* variable* statement* "end"
-- constant   = "const" identifier "=" ("+" | "-")? number ";"
-- variable   = "var" identifier ("=" expression)? ";"
-- statement  = identifier "=" expression ";" | "print" "(" expression ")" ";" | ";"
-- expression = term (("+" | "-") term)*
-- term       = factor (("*" | "/") factor)*
-- factor     = ("+" | "-")? operand
-- operand    = identifier | number | "(" expression ")"
inductive Goal where
  | token (kind : TokenKind) (inside : kind ≠ .eof := by decide)
  | constants
  | constantName
  | constantValue
  | constantDigits (negative : Bool)
  | variables
  | variableName
  | initializer (name : Token)
  | statements
  | factor
  | operand
  | moreFactors
  | moreTerms
deriving DecidableEq, Repr

inductive Task where
  | see (goal : Goal)
  | act (action : Action)
deriving DecidableEq, Repr

inductive Reaction where
  | take (tasks : List Task)
  | pass
  | refuse (error : CompileError) (taken : Bool)
deriving DecidableEq, Repr

def literal (t : Token) : Int32 :=
  t.value.toUInt32.toInt32

def slot (symbol : Symbol) : Int32 :=
  Int32.ofNat symbol.offset

def unexpected (found : Token) (expected : List TokenKind) : CompileError :=
  ⟨found.start, .expectedToken expected found⟩

namespace Task

def token (kind : TokenKind) (inside : kind ≠ .eof := by decide) : Task := .see (.token kind inside)

def emit (op : Opcode) (operand : Int32 := 0) : Task := .act (.emit ⟨op, operand⟩)

def expression : List Task := [.see .factor, .see .moreFactors, .see .moreTerms]

def program : List Task :=
  [.token .beginWord, .see .constants, .see .variables, .see .statements, .token .endWord]

def constantEnd (value : Int32) : List Task :=
  [.token .semicolon, .emit .lit value]

end Task

namespace Goal

def reactOperand (s : SymbolTable) (t : Token) : Reaction :=
  match t.kind with
  | .identifier =>
      match s.source t with
      | .ok symbol => .take [.emit .lod (slot symbol)]
      | .error e => .refuse e true
  | .number => .take [.emit .lit (literal t)]
  | .leftParen => .take (Task.expression ++ [.token .rightParen])
  | _ => .refuse (unexpected t [.identifier, .number, .leftParen]) true

def reactStatement (s : SymbolTable) (t : Token) : Reaction :=
  match t.kind with
  | .identifier =>
      match s.target t with
      | .ok symbol =>
          .take ([.act (.mark t), .token .equals] ++ Task.expression
            ++ [.token .semicolon, .emit .sto (slot symbol), .see .statements])
      | .error e => .refuse e true
  | .printWord =>
      .take ([.token .leftParen] ++ Task.expression
        ++ [.token .rightParen, .token .semicolon, .emit .wrt, .see .statements])
  | .semicolon => .take [.see .statements]
  | _ => .pass

def react (s : SymbolTable) (t : Token) : Goal → Reaction
  | .token kind _ => if t.kind = kind then .take [] else .refuse (unexpected t [kind]) false
  | .constants =>
      match t.kind with
      | .constWord => .take [.see .constantName, .token .equals, .see .constantValue, .see .constants]
      | _ => .pass
  | .constantName =>
      match t.kind with
      | .identifier => .take [.act (.declare t true true)]
      | _ => .refuse (unexpected t [.identifier]) false
  | .constantValue =>
      match t.kind with
      | .plus => .take [.see (.constantDigits false)]
      | .minus => .take [.see (.constantDigits true)]
      | .number => .take (Task.constantEnd (literal t))
      | _ => .refuse (unexpected t [.number]) false
  | .constantDigits negative =>
      match t.kind with
      | .number => .take (Task.constantEnd (if negative then -literal t else literal t))
      | _ => .refuse (unexpected t [.number]) false
  | .variables =>
      match t.kind with
      | .varWord => .take [.see .variableName, .see .variables]
      | _ => .pass
  | .variableName =>
      match t.kind with
      | .identifier => .take [.see (.initializer t)]
      | _ => .refuse (unexpected t [.identifier]) false
  | .initializer name =>
      match t.kind with
      | .equals => .take (Task.expression ++ [.token .semicolon, .act (.declare name false true)])
      | .semicolon => .take [.act (.declare name false false), .emit .lit]
      | _ => .refuse (unexpected t [.semicolon]) false
  | .statements => reactStatement s t
  | .factor =>
      match t.kind with
      | .minus => .take [.emit .lit, .see .operand, .emit .sub]
      | .plus => .take [.see .operand]
      | _ => reactOperand s t
  | .operand => reactOperand s t
  | .moreFactors =>
      match t.kind with
      | .times => .take [.see .factor, .emit .mul, .see .moreFactors]
      | .divide => .take [.see .factor, .emit .div, .see .moreFactors]
      | _ => .pass
  | .moreTerms =>
      match t.kind with
      | .plus => .take [.see .factor, .see .moreFactors, .emit .add, .see .moreTerms]
      | .minus => .take [.see .factor, .see .moreFactors, .emit .sub, .see .moreTerms]
      | _ => .pass

theorem react_eof {t : Token} (h : t.kind = .eof) (s : SymbolTable) (g : Goal) (new : List Task) :
    g.react s t ≠ .take new := by
  cases g with
  | token kind inside => simp [react, h, Ne.symm inside]
  | _ => simp [react, reactStatement, reactOperand, h]

end Goal

end PlZero
