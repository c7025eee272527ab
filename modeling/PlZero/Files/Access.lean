import PlZero.Files.Disk
import PlZero.Files.Pattern

namespace PlZero.Files

class Access (m : Type → Type) where
  read : String → m (Except FileError (List UInt8))
  write : String → List UInt8 → m (Except FileError Unit)
  output : {α : Type} → String → (Writer → α × Writer) → m (Except FileError α)
  isDirectory : List Char → m Bool
  list : List Char → m (List (List Char))

instance : Access (StateM Disk) where
  read path := do return (← get).read path
  write path contents := modifyGet (·.write path contents)
  output path act := modifyGet (·.output path act)
  isDirectory path := do return (← get).isDirectory path
  list path := do return (← get).list path

variable {m : Type → Type} [Monad m] [Access m]

def inOrder (a b : List Char) : Bool :=
  decide (String.ofList a ≤ String.ofList b)

def searchIn (directory : List Char) (pattern : Pattern) : m (List (List Char)) := do
  if ← Access.isDirectory directory then
    let names := (← Access.list directory).mergeSort inOrder
    return (names.filter pattern.fits).map (join directory)
  else return []

def searchNames (rooted : Bool) : List (List Char) → m (Option (List (List Char)))
  | [] => return some [assemble rooted []]
  | last :: before => do
      let text := assemble rooted (last :: before).reverse
      if (Pattern.parse? text).isNone then return none
      let directory := assemble rooted before.reverse
      let some directories ←
        if Pattern.isWild directory then searchNames rooted before else pure (some [directory])
        | return none
      match Pattern.parse? last with
      | some pattern => return some (← directories.mapM (searchIn · pattern)).flatten
      | none => return none

def search (pattern : List Char) : m (Option (List (List Char))) :=
  searchNames (isRooted pattern) (names pattern).reverse

end PlZero.Files
