import PlZero.Text.Utf8

namespace PlZero.Yaml

def isPermitted (c : Char) : Bool :=
  c == '\t' || c == '\n' || c == '\r' || c == '\x85' || (' ' ≤ c && c ≤ '~') ||
    (0xa0 ≤ c.toNat && c.toNat ≤ 0xfffd) || 0x10000 ≤ c.toNat

def isBlank (c : Char) : Bool :=
  c == ' ' || c == '\t'

def isBreak (c : Char) : Bool :=
  c == '\n' || c == '\r' || c == '\x85' || c == '\u2028' || c == '\u2029'

def isGap : Option Char → Bool
  | none => true
  | some c => isBlank c || isBreak c

def isLineEnd : Option Char → Bool
  | none => true
  | some c => isBreak c

def isNameChar (c : Char) : Bool :=
  c.isAlphanum || c == '_' || c == '-'

def units (join : UInt8 → UInt8 → Nat) : List UInt8 → Option (List Nat)
  | [] => some []
  | [_] => none
  | a :: b :: rest => (units join rest).map (join a b :: ·)

def ofUnits : List Nat → Option (List Char)
  | [] => some []
  | u :: rest =>
      if 0xd800 ≤ u ∧ u < 0xdc00 then
        match rest with
        | v :: rest =>
            if 0xdc00 ≤ v ∧ v < 0xe000 then
              (ofUnits rest).map (Char.ofNat (0x10000 + (u - 0xd800) * 0x400 + (v - 0xdc00)) :: ·)
            else none
        | [] => none
      else if 0xdc00 ≤ u ∧ u < 0xe000 then none
      else (ofUnits rest).map (Char.ofNat u :: ·)

def decode? (bytes : List UInt8) : Option (List Char) :=
  match bytes with
  | 0xff :: 0xfe :: rest => (units (fun a b => a.toNat + 256 * b.toNat) rest).bind ofUnits
  | 0xfe :: 0xff :: rest => (units (fun a b => 256 * a.toNat + b.toNat) rest).bind ofUnits
  | 0xef :: 0xbb :: 0xbf :: rest => Text.Utf8.decode? rest
  | bytes => Text.Utf8.decode? bytes

def characters? (bytes : List UInt8) : Option (List Char) :=
  (decode? bytes).filter (·.all isPermitted)

end PlZero.Yaml
