import PlZero.Text.Digit

namespace PlZero.Text

inductive NumeralError where
  | malformed
  | outOfRange
deriving DecidableEq, Repr

def readDigits (limit : Nat) : Nat → List Char → Except NumeralError Nat
  | acc, [] => .ok acc
  | acc, c :: more =>
      if isDigit c then
        let acc := acc * 10 + digitValue c
        if limit < acc then .error .outOfRange else readDigits limit acc more
      else .error .malformed

def readUnsigned (bits : Nat) (cs : List Char) : Except NumeralError Nat :=
  if cs.isEmpty then .error .malformed else readDigits (Nat.pow 2 bits - 1) 0 cs

def readSigned (bits : Nat) (cs : List Char) : Except NumeralError Int :=
  let half := Nat.pow 2 (bits - 1)
  match cs with
  | '-' :: digits => do
      let n ← readUnsigned bits digits
      if half < n then .error .outOfRange else .ok (-(n : Int))
  | '+' :: digits => do
      let n ← readUnsigned bits digits
      if half ≤ n then .error .outOfRange else .ok n
  | digits => do
      let n ← readUnsigned bits digits
      if half ≤ n then .error .outOfRange else .ok n

end PlZero.Text
