namespace PlZero.Files

def segments : List Char → List (List Char)
  | [] => [[]]
  | '/' :: rest => [] :: segments rest
  | c :: rest =>
      match segments rest with
      | s :: more => (c :: s) :: more
      | [] => [[c]]

def names (path : List Char) : List (List Char) :=
  (segments path).filter (!·.isEmpty)

def isRooted (path : List Char) : Bool :=
  path.head? == some '/'

-- Takes a name that follows the names so far, latest first: a dot stands for the place reached, and two dots
-- go back.
def settle (rooted : Bool) (sofar : List (List Char)) (name : List Char) : List (List Char) :=
  if name = ['.'] then sofar
  else if name = ['.', '.'] then
    match sofar with
    | [] => if rooted then [] else [name]
    | last :: before => if last = ['.', '.'] then name :: sofar else before
  else name :: sofar

def assemble (rooted : Bool) (names : List (List Char)) : List Char :=
  let relative := ['/'].intercalate names
  if rooted then '/' :: relative else if names.isEmpty then ['.'] else relative

def clean (path : List Char) : List Char :=
  assemble (isRooted path) ((names path).foldl (settle (isRooted path)) []).reverse

def join (directory name : List Char) : List Char :=
  if directory.isEmpty then clean name else clean (directory ++ '/' :: name)

def base (path : String) : String :=
  match (names path.toList).getLast? with
  | some name => String.ofList name
  | none => if path.isEmpty then "." else "/"

end PlZero.Files
