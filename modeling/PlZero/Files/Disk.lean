import PlZero.Console.Writer
import PlZero.Files.Tree

namespace PlZero.Files

-- How many bytes a file takes, if there is a bound, and why it takes no more.
structure Room where
  capacity : Option Nat := none
  cause : Cause := .full

def Room.allowance (r : Room) : Allowance :=
  match r.capacity with
  | none => .unlimited
  | some count => .bytes count

structure Rules where
  bars : List (List Char) → Option Cause := fun _ => none
  room : Tree → List (List Char) → Room := fun _ _ => {}

structure Disk where
  root : Tree
  home : List (List Char) := []
  rules : Rules := {}

namespace Disk

def origin (d : Disk) (path : List Char) : List (List Char) :=
  if isRooted path then [] else d.home.reverse

def find (d : Disk) (path : List Char) : Except Cause Tree := do
  validate path
  let here ← d.root.walk (d.origin path) (steps path)
  match d.root.get? here.reverse with
  | some t => return t
  | none => throw .missing

def read (d : Disk) (path : String) : Except FileError (List UInt8) :=
  match d.find path.toList with
  | .ok (.file contents) => .ok contents
  | .ok (.directory _) => .error ⟨.reading, path, .isDirectory⟩
  | .error cause => .error ⟨.opening, path, cause⟩

def isDirectory (d : Disk) (path : List Char) : Bool :=
  (d.find path).toOption.any Tree.isDirectory

def list (d : Disk) (path : List Char) : List (List Char) :=
  match d.find path with
  | .ok (.directory entries) => entries.map Prod.fst
  | _ => []

-- Where a file of a given path is to be made.
def target (d : Disk) (path : List Char) : Except Cause (List (List Char)) := do
  validate path
  let some last := (names path).getLast? | throw .isDirectory
  let parent ← d.root.walk (d.origin path) (names path).dropLast
  if !(d.root.get? parent.reverse).any Tree.isDirectory then throw .notDirectory
  if last = ['.'] ∨ last = ['.', '.'] ∨ path.getLast? = some '/' then throw .isDirectory
  if nameLimit < byteSize last then throw .tooLong
  let place := (last :: parent).reverse
  if (d.root.get? place).any Tree.isDirectory then throw .isDirectory
  match d.rules.bars place with
  | some cause => throw cause
  | none => return place

def room (d : Disk) (place : List (List Char)) : Room :=
  d.rules.room d.root place

def put (d : Disk) (contents : List UInt8) (place : List (List Char)) : Disk :=
  { d with root := d.root.put contents place }

def writer (d : Disk) (path : String) (place : List (List Char)) : Writer :=
  { allowance := (d.room place).allowance
    refusal := (FileError.mk .writing path (d.room place).cause).message }

-- The file is emptied first, and holds in the end what it has taken.
def output {α : Type} (d : Disk) (path : String) (act : Writer → α × Writer) : Except FileError α × Disk :=
  match d.target path.toList with
  | .error cause => (.error ⟨.opening, path, cause⟩, d)
  | .ok place =>
      let acted := act (d.writer path place)
      (.ok acted.1, d.put acted.2.bytes place)

def write (d : Disk) (path : String) (contents : List UInt8) : Except FileError Unit × Disk :=
  match d.target path.toList with
  | .error cause => (.error ⟨.opening, path, cause⟩, d)
  | .ok place =>
      match (d.room place).allowance.spend contents with
      | .ok _ => (.ok (), d.put contents place)
      | .error part => (.error ⟨.writing, path, (d.room place).cause⟩, d.put part place)

end Disk

end PlZero.Files
