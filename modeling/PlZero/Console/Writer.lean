import PlZero.Text.Utf8

namespace PlZero

-- A closed channel remembers what it took of the write that it refused first.
inductive Allowance where
  | unlimited
  | writes (count : Nat)
  | bytes (count : Nat)
  | wholes (count : Nat)
  | closed (part : List UInt8)
deriving DecidableEq, Repr

namespace Allowance

-- What is left after a write, or the part of it that is taken all the same.
def spend (piece : List UInt8) : Allowance → Except (List UInt8) Allowance
  | unlimited => .ok unlimited
  | writes 0 => .error []
  | writes (count + 1) => .ok (writes count)
  | bytes count =>
      if piece.length ≤ count then .ok (bytes (count - piece.length)) else .error (piece.take count)
  | wholes count =>
      if piece.length ≤ count then .ok (wholes (count - piece.length)) else .error []
  | closed part => .error part

def part : Allowance → List UInt8
  | closed part => part
  | _ => []

end Allowance

structure Writer where
  text : String := ""
  allowance : Allowance := .unlimited
  refusal : String := "sink closed"
deriving DecidableEq, Repr

namespace Writer

def write (w : Writer) (s : String) : Except String Unit × Writer :=
  match w.allowance.spend (Text.Utf8.encode s).toList with
  | .ok left => (.ok (), { w with text := w.text ++ s, allowance := left })
  | .error part => (.error w.refusal, { w with allowance := .closed part })

def put (w : Writer) (s : String) : Writer :=
  (w.write s).2

def bytes (w : Writer) : List UInt8 :=
  (Text.Utf8.encode w.text).toList ++ w.allowance.part

def drained (w : Writer) : Writer :=
  { w with text := "" }

end Writer

end PlZero
