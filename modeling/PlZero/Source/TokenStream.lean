import PlZero.Source.Lexer

namespace PlZero

inductive StreamEnd (ε : Type) where
  | eof (position : Position)
  | failure (error : ε)
deriving DecidableEq, Repr

structure TokenStream (ε : Type) where
  pending : List (Except ε Token)
  ending : StreamEnd ε
  served : Nat := 0

namespace TokenStream

variable {ε : Type}

def ofTokens (tokens : List Token) : TokenStream ε :=
  ⟨tokens.map .ok, .eof .start, 0⟩

def failingAfter (tokens : List Token) (error : ε) : TokenStream ε :=
  ⟨tokens.map .ok, .failure error, 0⟩

def ofText (cs : List Char) : TokenStream CompileError :=
  let scanned := (Lexer.ofText cs).answers
  ⟨scanned.1, .eof scanned.2, 0⟩

end TokenStream

end PlZero
