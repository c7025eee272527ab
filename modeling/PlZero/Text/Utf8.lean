namespace PlZero.Text.Utf8

def replacement : Char := '�'

def continuation? (b : UInt8) : Option Nat :=
  if 0x80 ≤ b ∧ b < 0xC0 then some (b.toNat - 0x80) else none

def scalar? (least n : Nat) : Option Char :=
  if least ≤ n ∧ (n < 0xD800 ∨ 0xE000 ≤ n) ∧ n < 0x110000 then some (Char.ofNat n) else none

def leading? : List UInt8 → Option (Char × Nat)
  | [] => none
  | b :: rest =>
      if b < 0x80 then some (Char.ofNat b.toNat, 0)
      else if b < 0xC0 then none
      else if b < 0xE0 then
        match rest with
        | b₁ :: _ => do
            let x ← continuation? b₁
            let c ← scalar? 0x80 ((b.toNat - 0xC0) * 0x40 + x)
            return (c, 1)
        | _ => none
      else if b < 0xF0 then
        match rest with
        | b₁ :: b₂ :: _ => do
            let x ← continuation? b₁
            let y ← continuation? b₂
            let c ← scalar? 0x800 (((b.toNat - 0xE0) * 0x40 + x) * 0x40 + y)
            return (c, 2)
        | _ => none
      else if b < 0xF8 then
        match rest with
        | b₁ :: b₂ :: b₃ :: _ => do
            let x ← continuation? b₁
            let y ← continuation? b₂
            let z ← continuation? b₃
            let c ← scalar? 0x10000 ((((b.toNat - 0xF0) * 0x40 + x) * 0x40 + y) * 0x40 + z)
            return (c, 3)
        | _ => none
      else none

-- Reads bytes of which the first `skip` belong to a character already read.
def decodeFrom : Nat → List UInt8 → List Char
  | _, [] => []
  | skip + 1, _ :: rest => decodeFrom skip rest
  | 0, b :: rest =>
      match leading? (b :: rest) with
      | some (c, more) => c :: decodeFrom more rest
      | none => replacement :: decodeFrom 0 rest

def decode (bytes : List UInt8) : List Char :=
  decodeFrom 0 bytes

def decodeStrictFrom : Nat → List UInt8 → Option (List Char)
  | _, [] => some []
  | skip + 1, _ :: rest => decodeStrictFrom skip rest
  | 0, b :: rest =>
      match leading? (b :: rest) with
      | some (c, more) => (decodeStrictFrom more rest).map (c :: ·)
      | none => none

def decode? (bytes : List UInt8) : Option (List Char) :=
  decodeStrictFrom 0 bytes

def encode (s : String) : ByteArray :=
  s.toUTF8

def text (bytes : ByteArray) : String :=
  String.ofList (decode bytes.toList)

end PlZero.Text.Utf8
