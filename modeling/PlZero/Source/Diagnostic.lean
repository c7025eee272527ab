import PlZero.Source.CompileError
import PlZero.Text.Lines
import PlZero.Text.Utf8

namespace PlZero

def sourceLine (source : List UInt8) (line : Int) : List UInt8 :=
  let found := if 0 ≤ line then (Text.split 0x0A source)[line.toNat]? else none
  found.getD (Text.Utf8.encode "<source unavailable>").toList

def margin (line : List Char) (column : Int) : List Char :=
  (line.take column.toNat).map fun c => if c = '\t' then c else ' '

-- The line is shown as it is stored, and only the margin below it is measured in characters.
def CompileError.diagnose (e : CompileError) (source : List UInt8) : List UInt8 :=
  let line := sourceLine source e.position.line
  let indent := String.ofList (margin (Text.Utf8.decode line) e.position.column)
  (Text.Utf8.encode (e.render ++ "\n  |> ")).toList ++ line
    ++ (Text.Utf8.encode ("\n  |> " ++ indent ++ "^")).toList

end PlZero
