namespace PlZero.Text.Base64

def value? (c : Char) : Option Nat :=
  if 'A' ≤ c ∧ c ≤ 'Z' then some (c.toNat - 'A'.toNat)
  else if 'a' ≤ c ∧ c ≤ 'z' then some (c.toNat - 'a'.toNat + 26)
  else if '0' ≤ c ∧ c ≤ '9' then some (c.toNat - '0'.toNat + 52)
  else if c = '+' then some 62
  else if c = '/' then some 63
  else none

def bytes (n number : Nat) : List UInt8 :=
  [UInt8.ofNat (number / 65536), UInt8.ofNat (number / 256 % 256), UInt8.ofNat (number % 256)].take n

def groups : List Char → Option (List UInt8)
  | [] => some []
  | [a, b, '=', '='] => do
      return bytes 1 (((← value? a) * 64 + (← value? b)) * 4096)
  | [a, b, c, '='] => do
      return bytes 2 ((((← value? a) * 64 + (← value? b)) * 64 + (← value? c)) * 64)
  | a :: b :: c :: d :: rest => do
      let number := (((← value? a) * 64 + (← value? b)) * 64 + (← value? c)) * 64 + (← value? d)
      return bytes 3 number ++ (← groups rest)
  | _ => none

def decode? (cs : List Char) : Option (List UInt8) :=
  groups (cs.filter fun c => c != '\n' && c != '\r')

end PlZero.Text.Base64
