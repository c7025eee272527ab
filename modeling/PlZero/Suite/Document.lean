import PlZero.Suite.Case
import PlZero.Yaml.Read

namespace PlZero.Suite

open Yaml (Node Document)

def readString (d : Document) (default : String) (node : Node) : Except Yaml.Error String := do
  return ((← d.readText node).map String.ofList).getD default

def readInt (d : Document) (node : Node) : Except Yaml.Error Int := do
  return (← d.readInteger 64 node).getD 0

def readWords (d : Document) (node : Node) : Except Yaml.Error (List Int32) := do
  let words ← d.readList (d.readInteger 32) node
  return (words.getD []).map Int32.ofInt

def readLines (d : Document) (node : Node) : Except Yaml.Error (Option (List String)) := do
  let lines ← d.readList d.readText node
  return lines.map (·.map String.ofList)

def readSkip (d : Document) (node : Node) : Except Yaml.Error SkipMark := do
  match ← d.readAny node with
  | some (.bool b) => return .flag b
  | some (.text s) => return .reason (String.ofList s)
  | _ => return .other

def readExpectation (d : Document) (node : Node) : Except Yaml.Error Expectation := do
  let some entries ← d.readEntries node | return {}
  return {
    output := ← Document.readEntry entries "output" [] (readWords d)
    error := ← Document.readEntry entries "error" "" (readString d "")
    line := ← Document.readEntry entries "line" 0 (readInt d)
    column := ← Document.readEntry entries "column" 0 (readInt d)
    listing := ← Document.readEntry entries "listing" none (readLines d) }

def readCase (d : Document) (node : Node) : Except Yaml.Error (Option Case) := do
  let some entries ← d.readEntries node | return none
  return some {
    name := ← Document.readEntry entries "name" "" (readString d "")
    description := ← Document.readEntry entries "description" "" (readString d "")
    skip := ← Document.readEntry entries "skip" .other (readSkip d)
    source := ← Document.readEntry entries "source" [] fun node => return (← readString d "" node).toList
    expect := ← Document.readEntry entries "expect" {} (readExpectation d) }

def readSheet (d : Document) : Except Yaml.Error Sheet := do
  let some root := d.root | return {}
  let some entries ← d.readEntries root | return {}
  let name ← Document.readEntry entries "name" "" (readString d "")
  let _ ← Document.readEntry entries "description" "" (readString d "")
  let cases ← Document.readEntry entries "tests" none (d.readList (readCase d))
  return ⟨name, cases.getD []⟩

def ofYaml : Decoder := fun bytes =>
  ((Yaml.Document.ofBytes bytes).bind readSheet).mapError Yaml.Error.message

end PlZero.Suite
