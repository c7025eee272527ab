import PlZero.Files.Path

namespace PlZero.Files

inductive Tree where
  | file (contents : List UInt8)
  | directory (entries : List (List Char × Tree))

inductive Cause where
  | missing
  | notDirectory
  | isDirectory
  | tooLong
  | invalid
  | denied
  | full
  | other (message : String)
deriving DecidableEq, Repr

def Cause.message : Cause → String
  | missing => "no such file or directory"
  | notDirectory => "not a directory"
  | isDirectory => "is a directory"
  | tooLong => "file name too long"
  | invalid => "invalid argument"
  | denied => "permission denied"
  | full => "no space left on device"
  | other message => message

inductive Attempt where
  | opening
  | reading
  | writing
deriving DecidableEq, Repr

structure FileError where
  attempt : Attempt
  path : String
  cause : Cause
deriving DecidableEq, Repr

def FileError.message (e : FileError) : String :=
  let attempt :=
    match e.attempt with
    | .opening => "open "
    | .reading => "read "
    | .writing => "write "
  attempt ++ e.path ++ ": " ++ e.cause.message

def nameLimit : Nat := 255

def pathLimit : Nat := 4096

def byteSize (cs : List Char) : Nat :=
  cs.foldl (fun size c => size + c.utf8Size) 0

def validate (path : List Char) : Except Cause Unit :=
  if path.contains '\x00' then .error .invalid
  else if path.isEmpty then .error .missing
  else if pathLimit ≤ byteSize path then .error .tooLong
  else .ok ()

-- The names that a path goes through. A slash at its end asks for a directory.
def steps (path : List Char) : List (List Char) :=
  names path ++ if path.getLast? == some '/' then [['.']] else []

namespace Tree

def get? : List (List Char) → Tree → Option Tree
  | [], t => some t
  | _ :: _, file _ => none
  | name :: rest, directory entries => (entries.lookup name).bind (get? rest)

def putEntry (name : List Char) (t : Tree) : List (List Char × Tree) → List (List Char × Tree)
  | [] => [(name, t)]
  | (other, u) :: rest => if other = name then (name, t) :: rest else (other, u) :: putEntry name t rest

def put (contents : List UInt8) : List (List Char) → Tree → Tree
  | [], _ => file contents
  | name :: rest, file _ => directory [(name, put contents rest (directory []))]
  | name :: rest, directory entries =>
      directory (putEntry name (put contents rest ((entries.lookup name).getD (directory []))) entries)

def isDirectory : Tree → Bool
  | directory _ => true
  | file _ => false

-- Follows names through directories. The answer is the way from the root, latest name first.
def walk (root : Tree) : List (List Char) → List (List Char) → Except Cause (List (List Char))
  | here, [] => .ok here
  | here, name :: rest =>
      if (root.get? here.reverse).any isDirectory then
        if name = ['.'] then walk root here rest
        else if name = ['.', '.'] then walk root (here.drop 1) rest
        else if nameLimit < byteSize name then .error .tooLong
        else if (root.get? (name :: here).reverse).isSome then walk root (name :: here) rest
        else .error .missing
      else .error .notDirectory

theorem lookup_putEntry_self (name : List Char) (t : Tree) (entries : List (List Char × Tree)) :
    (putEntry name t entries).lookup name = some t := by
  induction entries with
  | nil => simp [putEntry]
  | cons e rest ih =>
      obtain ⟨other, u⟩ := e
      by_cases h : other = name
      · simp [putEntry, h]
      · have hn : (name == other) = false := by simpa using fun heq => h heq.symm
        simp [putEntry, h, List.lookup_cons, hn, ih]

theorem lookup_putEntry_ne {name other : List Char} (h : other ≠ name) (t : Tree)
    (entries : List (List Char × Tree)) :
    (putEntry name t entries).lookup other = entries.lookup other := by
  induction entries with
  | nil =>
      have hn : (other == name) = false := by simpa using h
      simp [putEntry, List.lookup_cons, hn]
  | cons e rest ih =>
      obtain ⟨key, u⟩ := e
      by_cases hk : key = name
      · subst hk
        have hn : (other == key) = false := by simpa using h
        simp [putEntry, List.lookup_cons, hn]
      · simp only [putEntry, hk, ↓reduceIte, List.lookup_cons]
        split
        · rfl
        · exact ih

end Tree

end PlZero.Files
