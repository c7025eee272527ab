import PlZero.Console.Writer

namespace PlZero

inductive Sink where
  | recorder (values : Array Int32)
  | lines (writer : Writer)
deriving DecidableEq, Repr

namespace Sink

def line (v : Int32) : String :=
  toString v.toInt ++ "\n"

def emit (s : Sink) (v : Int32) : Except String Unit × Sink :=
  match s with
  | recorder values => (.ok (), recorder (values.push v))
  | lines writer =>
      let written := writer.write (line v)
      (written.1, lines written.2)

def values : Sink → Array Int32
  | recorder values => values
  | lines _ => #[]

def text : Sink → String
  | recorder _ => ""
  | lines writer => writer.text

def drained : Sink → Sink
  | recorder _ => recorder #[]
  | lines writer => lines writer.drained

end Sink

end PlZero
