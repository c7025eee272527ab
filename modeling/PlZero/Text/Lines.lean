namespace PlZero.Text

def breakAt {α : Type} [DecidableEq α] (mark : α) : List α → List α × List (List α)
  | [] => ([], [])
  | a :: as =>
      let rest := breakAt mark as
      if a = mark then ([], rest.1 :: rest.2) else (a :: rest.1, rest.2)

def split {α : Type} [DecidableEq α] (mark : α) (as : List α) : List (List α) :=
  let parts := breakAt mark as
  parts.1 :: parts.2

def lines (cs : List Char) : List (List Char) :=
  split '\n' cs

end PlZero.Text
