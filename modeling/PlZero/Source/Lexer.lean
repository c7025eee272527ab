import PlZero.Source.CompileError
import PlZero.Text.Blank
import PlZero.Text.Digit
import PlZero.Text.Letter

namespace PlZero

structure Lexer where
  rest : List Char
  position : Position
deriving DecidableEq, Repr

abbrev Answer := Except CompileError Token

namespace Lexer

def ofText (cs : List Char) : Lexer := ⟨cs, .start⟩

def takeRun (class? : Char → Bool) (l : Lexer) : List Char × Lexer :=
  let run := l.rest.takeWhile class?
  (run, ⟨l.rest.dropWhile class?, l.position.after run⟩)

def skipBlanks (l : Lexer) : Lexer :=
  (l.takeRun Text.isBlank).2

def appendDigit (v : UInt64) (digit : Char) : UInt64 :=
  v * 10 + UInt64.ofNat (Text.digitValue digit)

def extendLiteral (value : Option UInt64) (digit : Char) : Option UInt64 :=
  value.bind fun v =>
    let v := appendDigit v digit
    if maxLiteral < v then none else some v

def literalValue (digits : List Char) : Option UInt64 :=
  digits.foldl extendLiteral (some 0)

def wordKind (word : String) : TokenKind :=
  (TokenKind.keyword? word).getD .identifier

def number (l : Lexer) : Answer × Lexer :=
  let run := l.takeRun Text.isDigit
  match literalValue run.1 with
  | some value => (.ok ⟨.number, String.ofList run.1, value, l.position, run.2.position⟩, run.2)
  | none => (.error ⟨l.position, .integerOverflow⟩, run.2)

def word (l : Lexer) : Answer × Lexer :=
  let run := l.takeRun (fun c => Text.isLetter c || Text.isDecimal c)
  let lexeme := String.ofList run.1
  (.ok ⟨wordKind lexeme, lexeme, 0, l.position, run.2.position⟩, run.2)

def sign (l : Lexer) (c : Char) : Answer × Lexer :=
  let after : Lexer := ⟨l.rest.drop 1, l.position.advance c⟩
  match TokenKind.sign? c with
  | some kind => (.ok ⟨kind, String.singleton c, 0, l.position, after.position⟩, after)
  | none => (.error ⟨l.position, .invalidInput⟩, after)

def token (l : Lexer) (c : Char) : Answer × Lexer :=
  if Text.isDigit c then l.number
  else if Text.isLetter c then l.word
  else l.sign c

def next (l : Lexer) : Answer × Lexer :=
  let l := l.skipBlanks
  match l.rest with
  | [] => (.ok (Token.endOfText l.position), l)
  | c :: _ => l.token c

theorem length_skipBlanks (l : Lexer) : l.skipBlanks.rest.length ≤ l.rest.length :=
  (List.dropWhile_suffix _).length_le

theorem length_takeRun {class? : Char → Bool} {l : Lexer} {c : Char} {cs : List Char}
    (h : l.rest = c :: cs) (hc : class? c = true) :
    (l.takeRun class?).2.rest.length < l.rest.length := by
  have hs : (cs.dropWhile class?).length ≤ cs.length := (List.dropWhile_suffix _).length_le
  simp only [takeRun, h, List.dropWhile_cons, hc, if_true, List.length_cons]
  omega

theorem length_token {l : Lexer} {c : Char} {cs : List Char} (h : l.rest = c :: cs) :
    (l.token c).2.rest.length < l.rest.length := by
  unfold token
  split
  · next hc =>
      have := length_takeRun h hc
      simp only [number]
      split <;> exact this
  · split
    · next hc => exact length_takeRun h (by simp [hc])
    · unfold sign
      split <;> simp [h]

def answers (l : Lexer) : List Answer × Position :=
  match h : l.skipBlanks.rest with
  | [] => ([], l.skipBlanks.position)
  | c :: _ =>
      let step := l.skipBlanks.token c
      have : step.2.rest.length < l.rest.length :=
        Nat.lt_of_lt_of_le (length_token h) (length_skipBlanks l)
      let more := step.2.answers
      (step.1 :: more.1, more.2)
termination_by l.rest.length

end Lexer

def firstError : List Answer → List Token × Option CompileError
  | [] => ([], none)
  | .error e :: _ => ([], some e)
  | .ok t :: more =>
      let (tokens, e) := firstError more
      (t :: tokens, e)

def lex (cs : List Char) : List Token × Option CompileError :=
  let (answers, final) := (Lexer.ofText cs).answers
  match firstError answers with
  | (tokens, some e) => (tokens, some e)
  | (tokens, none) => (tokens ++ [Token.endOfText final], none)

end PlZero
