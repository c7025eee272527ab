import PlZero.Machine.Instruction
import PlZero.Proofs.Syntax.Tree

namespace PlZero

def Tree.code (offset : String → Nat) : {c : Category} → Tree c → List Instruction
  | _, .name t => [⟨.lod, Int32.ofNat (offset t.1.lexeme)⟩]
  | _, .number t => [⟨.lit, Int32.ofNat t.1.value.toNat⟩]
  | _, .group _ e _ => e.code offset
  | _, .plain o => o.code offset
  | _, .positive _ o => o.code offset
  | _, .negative _ o => ⟨.lit, 0⟩ :: (o.code offset ++ [⟨.sub, 0⟩])
  | _, .single f => f.code offset
  | _, .product a _ b => a.code offset ++ (b.code offset ++ [⟨.mul, 0⟩])
  | _, .quotient a _ b => a.code offset ++ (b.code offset ++ [⟨.div, 0⟩])
  | _, .lone t => t.code offset
  | _, .sum a _ b => a.code offset ++ (b.code offset ++ [⟨.add, 0⟩])
  | _, .difference a _ b => a.code offset ++ (b.code offset ++ [⟨.sub, 0⟩])

theorem Tree.code_congr {f g : String → Nat} {c : Category} (t : Tree c)
    (h : ∀ x ∈ t.names, f x = g x) : t.code f = t.code g := by
  induction t with
  | name t => simp [code, h t.1.lexeme (by simp [names])]
  | number t => rfl
  | group l e r ih => exact ih h
  | plain o ih => exact ih h
  | positive s o ih => exact ih h
  | negative s o ih => simp [code, ih h]
  | single f ih => exact ih h
  | lone t ih => exact ih h
  | product a s b iha ihb | quotient a s b iha ihb | sum a s b iha ihb | difference a s b iha ihb =>
      have ha := iha fun x hx => h x (by simp [names, hx])
      have hb := ihb fun x hx => h x (by simp [names, hx])
      simp [code, ha, hb]

inductive Item where
  | const (c : Constant)
  | var (v : Variable)
  | stmt (s : Statement)

namespace Item

def code (offset : String → Nat) : Item → List Instruction
  | .const c => [⟨.lit, Int32.ofInt c.integer⟩]
  | .var ⟨_, _, none, _⟩ => [⟨.lit, 0⟩]
  | .var ⟨_, _, some (_, e), _⟩ => e.code offset
  | .stmt (.assign ident _ e _) =>
      e.code offset ++ [⟨.sto, Int32.ofNat (offset ident.1.lexeme)⟩]
  | .stmt (.print _ _ e _ _) => e.code offset ++ [⟨.wrt, 0⟩]
  | .stmt (.empty _) => []

def tokens : Item → List Token
  | .const c => c.tokens
  | .var v => v.tokens
  | .stmt s => s.tokens

def declares? : Item → Option String
  | .const c => some c.name
  | .var v => some v.name
  | .stmt _ => none

@[elab_as_elim] theorem forms {motive : Item → Prop} (const : ∀ c, motive (.const c))
    (plain : ∀ word ident stop, motive (.var ⟨word, ident, none, stop⟩))
    (initial : ∀ word ident equals e stop, motive (.var ⟨word, ident, some (equals, e), stop⟩))
    (assign : ∀ ident equals e stop, motive (.stmt (.assign ident equals e stop)))
    (print : ∀ word l e r stop, motive (.stmt (.print word l e r stop)))
    (empty : ∀ stop, motive (.stmt (.empty stop))) (i : Item) : motive i := by
  rcases i with c | ⟨word, ident, _ | ⟨equals, e⟩, stop⟩ | s
  · exact const c
  · exact plain word ident stop
  · exact initial word ident equals e stop
  · cases s with
    | assign ident equals e stop => exact assign ident equals e stop
    | print word l e r stop => exact print word l e r stop
    | empty stop => exact empty stop

theorem filterMap_declares_cons (i : Item) (l : List Item) :
    (i :: l).filterMap declares? = i.declares?.toList ++ l.filterMap declares? := by
  cases h : i.declares? <;> simp [h]

end Item

namespace Program

def items (p : Program) : List Item :=
  p.constants.map .const ++ p.vars.map .var ++ p.statements.map .stmt

def offset (p : Program) (x : String) : Nat := p.names.idxOf x

def code (p : Program) : List Instruction := p.items.flatMap (Item.code p.offset)

theorem flatMap_items_tokens (p : Program) : p.items.flatMap Item.tokens = p.body := by
  simp [items, body, List.flatMap_map, Item.tokens]

theorem filterMap_items_declares (p : Program) : p.items.filterMap Item.declares? = p.names := by
  simp [items, names, Item.declares?, List.filterMap_map, Function.comp_def]

end Program

end PlZero
