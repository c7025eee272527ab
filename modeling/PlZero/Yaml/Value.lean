import PlZero.Yaml.Node
import PlZero.Yaml.Timestamp
import PlZero.Text.Base64

namespace PlZero.Yaml

inductive Floating where
  | finite (whole : Int)
  | infinite (negative : Bool)
  | undefined
deriving DecidableEq, Repr

inductive Value where
  | null
  | bool (b : Bool)
  | integer (i : Int)
  | floating (f : Floating)
  | timestamp
  | text (s : List Char)
deriving DecidableEq, Repr

namespace Value

def roundQuotient (num den : Nat) : Nat :=
  let q := num / den
  let r := num % den
  if 2 * r < den then q
  else if den < 2 * r then q + 1
  else if q % 2 = 0 then q else q + 1

def wholePart (num den : Nat) : Nat :=
  let bits := if num / den = 0 then 0 else Nat.log2 (num / den) + 1
  if bits ≤ 53 then roundQuotient (num * Nat.pow 2 (53 - bits)) den / Nat.pow 2 (53 - bits)
  else roundQuotient num (den * Nat.pow 2 (bits - 53)) * Nat.pow 2 (bits - 53)

def floatingLimit : Nat := Nat.pow 2 1024 - Nat.pow 2 970

def floating? (negative : Bool) (digits : Nat) (exponent : Int) : Option Floating :=
  let sign (n : Nat) : Int := if negative then -(n : Int) else n
  if digits = 0 then some (.finite 0)
  else
    let size : Int := (Nat.toDigits 10 digits).length + exponent
    if 400 < size then none
    else if size < -30 then some (.finite 0)
    else
      let num := digits * Nat.pow 10 exponent.toNat
      let den := Nat.pow 10 (-exponent).toNat
      if floatingLimit * den ≤ num then none else some (.finite (sign (wholePart num den)))

def digitsValue (ds : List Char) : Nat :=
  ds.foldl (fun n d => n * 10 + (d.toNat - '0'.toNat)) 0

def splitSign : List Char → Option Bool × List Char
  | '+' :: rest => (some false, rest)
  | '-' :: rest => (some true, rest)
  | cs => (none, cs)

def exponent? : List Char → Option Int
  | [] => some 0
  | mark :: rest =>
      let (negative, ds) := splitSign rest
      if (mark == 'e' || mark == 'E') && !ds.isEmpty && ds.all Char.isDigit then
        some (if negative == some true then -(digitsValue ds : Int) else digitsValue ds)
      else none

def decimal? (cs : List Char) : Option Floating := do
  let (negative, cs) := splitSign cs
  let whole := cs.takeWhile Char.isDigit
  let rest := cs.drop whole.length
  let fraction := if rest.head? == some '.' then (rest.drop 1).takeWhile Char.isDigit else []
  let rest := if rest.head? == some '.' then rest.drop (fraction.length + 1) else rest
  if whole.isEmpty ∧ fraction.isEmpty then none
  let exponent ← exponent? rest
  floating? (negative == some true) (digitsValue (whole ++ fraction)) (exponent - fraction.length)

def digit? (c : Char) : Option Nat :=
  if c.isDigit then some (c.toNat - '0'.toNat)
  else if 'a' ≤ c ∧ c ≤ 'z' then some (c.toNat - 'a'.toNat + 10)
  else if 'A' ≤ c ∧ c ≤ 'Z' then some (c.toNat - 'A'.toNat + 10)
  else none

def inBase? (base : Nat) (cs : List Char) : Option Nat :=
  cs.foldlM (fun n c => (digit? c).bind fun d => if d < base then some (n * base + d) else none) 0

def unsigned? : List Char → Option Nat
  | [] => none
  | '0' :: mark :: d :: rest =>
      match mark.toLower with
      | 'b' => inBase? 2 (d :: rest)
      | 'o' => inBase? 8 (d :: rest)
      | 'x' => inBase? 16 (d :: rest)
      | _ => inBase? 8 (mark :: d :: rest)
  | '0' :: rest => inBase? 8 rest
  | cs => inBase? 10 cs

def signed? (negative : Option Bool) (n : Nat) : Option Int :=
  match negative with
  | none => if n < Nat.pow 2 64 then some n else none
  | some false => if n < Nat.pow 2 63 then some n else none
  | some true => if n ≤ Nat.pow 2 63 then some (-n) else none

def marked? (mark : Char) (base : Nat) (cs : List Char) : Option Int :=
  match cs with
  | '0' :: m :: rest =>
      if m = mark then
        let (negative, ds) := splitSign rest
        if ds.isEmpty then none else (inBase? base ds).bind (signed? negative)
      else none
  | _ => none

def integer? (cs : List Char) : Option Int :=
  let (negative, rest) := splitSign cs
  (unsigned? rest).bind (signed? negative)

def number? (cs : List Char) : Option Value :=
  let cs := cs.filter (· != '_')
  ((integer? cs).map integer) <|> ((decimal? cs).map floating) <|>
    ((marked? 'b' 2 cs).map integer) <|> ((marked? 'o' 8 cs).map integer)

def constant? (cs : List Char) : Option Value :=
  match String.ofList cs with
  | "true" | "True" | "TRUE" => some (bool true)
  | "false" | "False" | "FALSE" => some (bool false)
  | "" | "~" | "null" | "Null" | "NULL" => some null
  | ".nan" | ".NaN" | ".NAN" => some (floating .undefined)
  | ".inf" | ".Inf" | ".INF" | "+.inf" | "+.Inf" | "+.INF" => some (floating (.infinite false))
  | "-.inf" | "-.Inf" | "-.INF" => some (floating (.infinite true))
  | _ => none

def ofPlain (mayTime : Bool) (cs : List Char) : Value :=
  match constant? cs, cs.head? with
  | some v, _ => v
  | none, some '.' => ((decimal? cs).map floating).getD (text cs)
  | none, some c =>
      if c.isDigit || c == '+' || c == '-' then
        if mayTime && isTimestamp cs then timestamp else (number? cs).getD (text cs)
      else text cs
  | none, none => text cs

def tag : Value → String
  | null => "!!null"
  | bool _ => "!!bool"
  | integer _ => "!!int"
  | floating _ => "!!float"
  | timestamp => "!!timestamp"
  | text _ => "!!str"

def toFloating (i : Int) : Floating :=
  .finite (if i < 0 then -(wholePart i.natAbs 1 : Int) else wholePart i.natAbs 1)

def ofTagged (tag : String) (cs : List Char) : Except Error Value :=
  match tag with
  | "!!str" => .ok (text cs)
  | "!!binary" =>
      match Text.Base64.decode? cs with
      | some bytes => .ok (text (Text.Utf8.decode bytes))
      | none => .error .mismatch
  | "!!bool" | "!!int" | "!!float" | "!!null" | "!!timestamp" =>
      let v := ofPlain (tag == "!!timestamp") cs
      if v.tag == tag then .ok v
      else
        match v, tag with
        | integer i, "!!float" =>
            if i < Int.ofNat (Nat.pow 2 63) then .ok (floating (toFloating i)) else .error .mismatch
        | _, _ => .error .mismatch
  | _ => .ok (text cs)

end Value

def Value.ofScalar (tag : Option (List Char)) (plain : Bool) (cs : List Char) : Except Error Value :=
  match tag with
  | some t => ofTagged (String.ofList t) cs
  | none => .ok (if plain then ofPlain true cs else text cs)

end PlZero.Yaml
