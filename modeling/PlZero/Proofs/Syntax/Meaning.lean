import PlZero.Proofs.Syntax.Code

namespace PlZero

-- The value of a tree when `n` divisions have been made so far, with their number afterwards; or, at a
-- divisor of zero, the number of divisions made before that one.
def Tree.eval (value : String → Int32) :
    {c : Category} → Tree c → Nat → Except Nat (Int32 × Nat)
  | _, .name t, n => .ok (value t.1.lexeme, n)
  | _, .number t, n => .ok (Int32.ofInt t.1.value.toNat, n)
  | _, .group _ e _, n => e.eval value n
  | _, .plain o, n => o.eval value n
  | _, .positive _ o, n => o.eval value n
  | _, .negative _ o, n => do
      let (x, n) ← o.eval value n
      .ok (Int32.ofInt (0 - x.toInt), n)
  | _, .single f, n => f.eval value n
  | _, .product a _ b, n => do
      let (x, n) ← a.eval value n
      let (y, n) ← b.eval value n
      .ok (Int32.ofInt (x.toInt * y.toInt), n)
  | _, .quotient a _ b, n => do
      let (x, n) ← a.eval value n
      let (y, n) ← b.eval value n
      if y = 0 then .error n else .ok (Int32.ofInt (x.toInt.tdiv y.toInt), n + 1)
  | _, .lone t, n => t.eval value n
  | _, .sum a _ b, n => do
      let (x, n) ← a.eval value n
      let (y, n) ← b.eval value n
      .ok (Int32.ofInt (x.toInt + y.toInt), n)
  | _, .difference a _ b, n => do
      let (x, n) ← a.eval value n
      let (y, n) ← b.eval value n
      .ok (Int32.ofInt (x.toInt - y.toInt), n)

structure Store where
  value : String → Int32 := fun _ => 0
  printed : List Int32 := []
  divisions : Nat := 0

namespace Store

def set (σ : Store) (x : String) (v : Int32) : Store :=
  { σ with value := fun y => if y = x then v else σ.value y }

def print (σ : Store) (v : Int32) : Store :=
  { σ with printed := σ.printed ++ [v] }

def eval (σ : Store) (e : Expression) : Except Store (Int32 × Store) :=
  match e.eval σ.value σ.divisions with
  | .ok (v, n) => .ok (v, { σ with divisions := n })
  | .error n => .error { σ with divisions := n }

end Store

def Item.exec (σ : Store) : Item → Except Store Store
  | .const c => .ok (σ.set c.name (Int32.ofInt c.integer))
  | .var ⟨_, ident, none, _⟩ => .ok (σ.set ident.1.lexeme 0)
  | .var ⟨_, ident, some (_, e), _⟩ => do
      let (v, σ) ← σ.eval e
      .ok (σ.set ident.1.lexeme v)
  | .stmt (.assign ident _ e _) => do
      let (v, σ) ← σ.eval e
      .ok (σ.set ident.1.lexeme v)
  | .stmt (.print _ _ e _ _) => do
      let (v, σ) ← σ.eval e
      .ok (σ.print v)
  | .stmt (.empty _) => .ok σ

def execAll (items : List Item) (σ : Store) : Except Store Store := items.foldlM Item.exec σ

def Program.exec (p : Program) : Except Store Store := execAll p.items {}

end PlZero
