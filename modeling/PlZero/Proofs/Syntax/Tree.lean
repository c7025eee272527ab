import PlZero.Source.Token

namespace PlZero

abbrev Leaf (kind : TokenKind) := { t : Token // t.kind = kind }

inductive Category where
  | operand
  | factor
  | term
  | expression
deriving DecidableEq, Repr

-- A repetition of the grammar is written with its last member outermost:
-- `a - b + c` is the sum of `a - b` and `c`.
inductive Tree : Category → Type where
  | name (t : Leaf .identifier) : Tree .operand
  | number (t : Leaf .number) : Tree .operand
  | group (l : Leaf .leftParen) (e : Tree .expression) (r : Leaf .rightParen) : Tree .operand
  | plain (o : Tree .operand) : Tree .factor
  | positive (s : Leaf .plus) (o : Tree .operand) : Tree .factor
  | negative (s : Leaf .minus) (o : Tree .operand) : Tree .factor
  | single (f : Tree .factor) : Tree .term
  | product (a : Tree .term) (s : Leaf .times) (b : Tree .factor) : Tree .term
  | quotient (a : Tree .term) (s : Leaf .divide) (b : Tree .factor) : Tree .term
  | lone (t : Tree .term) : Tree .expression
  | sum (a : Tree .expression) (s : Leaf .plus) (b : Tree .term) : Tree .expression
  | difference (a : Tree .expression) (s : Leaf .minus) (b : Tree .term) : Tree .expression

abbrev Expression := Tree .expression

namespace Tree

def tokens : {c : Category} → Tree c → List Token
  | _, .name t => [t.1]
  | _, .number t => [t.1]
  | _, .group l e r => l.1 :: (e.tokens ++ [r.1])
  | _, .plain o => o.tokens
  | _, .positive s o => s.1 :: o.tokens
  | _, .negative s o => s.1 :: o.tokens
  | _, .single f => f.tokens
  | _, .product a s b => a.tokens ++ s.1 :: b.tokens
  | _, .quotient a s b => a.tokens ++ s.1 :: b.tokens
  | _, .lone t => t.tokens
  | _, .sum a s b => a.tokens ++ s.1 :: b.tokens
  | _, .difference a s b => a.tokens ++ s.1 :: b.tokens

def names : {c : Category} → Tree c → List String
  | _, .name t => [t.1.lexeme]
  | _, .number _ => []
  | _, .group _ e _ => e.names
  | _, .plain o => o.names
  | _, .positive _ o => o.names
  | _, .negative _ o => o.names
  | _, .single f => f.names
  | _, .product a _ b => a.names ++ b.names
  | _, .quotient a _ b => a.names ++ b.names
  | _, .lone t => t.names
  | _, .sum a _ b => a.names ++ b.names
  | _, .difference a _ b => a.names ++ b.names

theorem kind_ne_eof {c : Category} (t : Tree c) : ∀ x ∈ t.tokens, x.kind ≠ .eof := by
  induction t with
  | name t => simp [tokens, t.2]
  | number t => simp [tokens, t.2]
  | group l e r ih => simpa [tokens, l.2, r.2, or_imp, forall_and] using ih
  | plain o ih => exact ih
  | positive s o ih => simpa [tokens, s.2] using ih
  | negative s o ih => simpa [tokens, s.2] using ih
  | single f ih => exact ih
  | product a s b iha ihb => simpa [tokens, s.2, or_imp, forall_and] using And.intro iha ihb
  | quotient a s b iha ihb => simpa [tokens, s.2, or_imp, forall_and] using And.intro iha ihb
  | lone t ih => exact ih
  | sum a s b iha ihb => simpa [tokens, s.2, or_imp, forall_and] using And.intro iha ihb
  | difference a s b iha ihb => simpa [tokens, s.2, or_imp, forall_and] using And.intro iha ihb

end Tree

inductive Sign where
  | plus (t : Leaf .plus)
  | minus (t : Leaf .minus)

namespace Sign

def token : Sign → Token
  | .plus t => t.1
  | .minus t => t.1

def apply (n : Int) : Option Sign → Int
  | some (.minus _) => -n
  | _ => n

end Sign

structure Constant where
  word : Leaf .constWord
  ident : Leaf .identifier
  equals : Leaf .equals
  sign : Option Sign
  number : Leaf .number
  stop : Leaf .semicolon

namespace Constant

def tokens (c : Constant) : List Token :=
  [c.word.1, c.ident.1, c.equals.1] ++ (c.sign.map Sign.token).toList ++ [c.number.1, c.stop.1]

def name (c : Constant) : String := c.ident.1.lexeme

def integer (c : Constant) : Int := Sign.apply c.number.1.value.toNat c.sign

end Constant

structure Variable where
  word : Leaf .varWord
  ident : Leaf .identifier
  initial : Option (Leaf .equals × Expression)
  stop : Leaf .semicolon

namespace Variable

def tokens (v : Variable) : List Token :=
  [v.word.1, v.ident.1] ++ (v.initial.map fun i => i.1.1 :: i.2.tokens).getD [] ++ [v.stop.1]

def name (v : Variable) : String := v.ident.1.lexeme

def used (v : Variable) : List String := (v.initial.map fun i => i.2.names).getD []

end Variable

inductive Statement where
  | assign (ident : Leaf .identifier) (equals : Leaf .equals) (e : Expression) (stop : Leaf .semicolon)
  | print (word : Leaf .printWord) (l : Leaf .leftParen) (e : Expression) (r : Leaf .rightParen)
      (stop : Leaf .semicolon)
  | empty (stop : Leaf .semicolon)

namespace Statement

def tokens : Statement → List Token
  | .assign ident equals e stop => [ident.1, equals.1] ++ e.tokens ++ [stop.1]
  | .print word l e r stop => [word.1, l.1] ++ e.tokens ++ [r.1, stop.1]
  | .empty stop => [stop.1]

def used : Statement → List String
  | .assign _ _ e _ => e.names
  | .print _ _ e _ _ => e.names
  | .empty _ => []

def target? : Statement → Option String
  | .assign ident _ _ _ => some ident.1.lexeme
  | _ => none

end Statement

structure Program where
  opening : Leaf .beginWord
  constants : List Constant
  vars : List Variable
  statements : List Statement
  closing : Leaf .endWord
  final : Leaf .eof

namespace Program

def body (p : Program) : List Token :=
  p.constants.flatMap Constant.tokens ++ p.vars.flatMap Variable.tokens
    ++ p.statements.flatMap Statement.tokens

def tokens (p : Program) : List Token :=
  p.opening.1 :: (p.body ++ [p.closing.1, p.final.1])

def names (p : Program) : List String :=
  p.constants.map Constant.name ++ p.vars.map Variable.name

end Program

end PlZero
