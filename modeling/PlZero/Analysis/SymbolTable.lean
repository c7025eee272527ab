import PlZero.Text.Column
import Std.Data.HashMap

namespace PlZero

structure Symbol where
  name : String
  constant : Bool
  initialized : Bool
  offset : Nat
deriving DecidableEq, Repr

structure SymbolTable where
  index : Std.HashMap String Nat := {}
  symbols : Array Symbol := #[]

namespace SymbolTable

def size (t : SymbolTable) : Nat :=
  t.symbols.size

def lookup? (t : SymbolTable) (name : String) : Option Symbol :=
  t.index[name]?.bind (t.symbols[·]?)

def declare (t : SymbolTable) (name : String) (constant initialized : Bool) :
    Except Symbol (Symbol × SymbolTable) :=
  match t.lookup? name with
  | some symbol => .error symbol
  | none =>
      let symbol : Symbol := ⟨name, constant, initialized, t.size⟩
      .ok (symbol, ⟨t.index.insert name t.size, t.symbols.push symbol⟩)

def markInitialized? (t : SymbolTable) (name : String) : Option SymbolTable :=
  t.index[name]?.map fun i => { t with symbols := t.symbols.modify i ({ · with initialized := true }) }

def renderSymbol (s : Symbol) : String :=
  let kind := if s.constant then "const" else "var"
  "  " ++ Text.padRight 20 s.name ++ s!"  Offset: {s.offset} ({kind}, initialized: {s.initialized})\n"

def render (t : SymbolTable) : String :=
  if t.symbols.isEmpty then "Symbols: (empty)\n"
  else "Symbols:\n" ++ String.join (t.symbols.toList.map renderSymbol)

end SymbolTable

end PlZero
