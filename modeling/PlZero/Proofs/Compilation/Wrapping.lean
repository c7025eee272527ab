import Mathlib.Data.Int.ModEq
import PlZero.Proofs.Compilation.Correctness
import PlZero.Proofs.Compilation.Replay
import PlZero.Proofs.Source.Literals

namespace PlZero

def Token.written (t : Token) : Nat := Nat.ofDigitChars 10 t.lexeme.toList 0

-- The value of a tree in unbounded integers, with its literals as they are written.
def Tree.exact (value : String → Int) : {c : Category} → Tree c → Int
  | _, .name t => value t.1.lexeme
  | _, .number t => t.1.written
  | _, .group _ e _ => e.exact value
  | _, .plain o => o.exact value
  | _, .positive _ o => o.exact value
  | _, .negative _ o => -o.exact value
  | _, .single f => f.exact value
  | _, .product a _ b => a.exact value * b.exact value
  | _, .quotient a _ b => (a.exact value).tdiv (b.exact value)
  | _, .lone t => t.exact value
  | _, .sum a _ b => a.exact value + b.exact value
  | _, .difference a _ b => a.exact value - b.exact value

structure ExactStore where
  value : String → Int := fun _ => 0
  printed : List Int := []

namespace ExactStore

def set (ζ : ExactStore) (x : String) (z : Int) : ExactStore :=
  { ζ with value := fun y => if y = x then z else ζ.value y }

def print (ζ : ExactStore) (z : Int) : ExactStore :=
  { ζ with printed := ζ.printed ++ [z] }

def perform (ζ : ExactStore) : Item → ExactStore
  | .const c => ζ.set c.name (Sign.apply c.number.1.written c.sign)
  | .var ⟨_, ident, none, _⟩ => ζ.set ident.1.lexeme 0
  | .var ⟨_, ident, some (_, e), _⟩ => ζ.set ident.1.lexeme (e.exact ζ.value)
  | .stmt (.assign ident _ e _) => ζ.set ident.1.lexeme (e.exact ζ.value)
  | .stmt (.print _ _ e _ _) => ζ.print (e.exact ζ.value)
  | .stmt (.empty _) => ζ

end ExactStore

def Program.exact (P : Program) : ExactStore := P.items.foldl ExactStore.perform {}

-- No division, and a literal that has the value that is written.
structure Token.Plain (t : Token) : Prop where
  kind : t.kind ≠ .divide
  value : t.kind = .number → t.value.toNat = t.written

theorem Leaf.written_eq {t : Leaf .number} (h : t.1.Plain) : t.1.value.toNat = t.1.written :=
  h.value t.2

theorem Tree.eval_eq_exact {value : String → Int32} {exactly : String → Int}
    (hvalue : ∀ x, value x = Int32.ofInt (exactly x)) {c : Category} (t : Tree c)
    (h : ∀ x ∈ t.tokens, x.Plain) (n : Nat) :
    t.eval value n = .ok (Int32.ofInt (t.exact exactly), n) := by
  induction t generalizing n with
  | name t => rw [eval, hvalue, exact]
  | number t => rw [eval, Leaf.written_eq (h t.1 (by simp [tokens])), exact]
  | group l e r ih => exact ih (fun x hx => h x (by simp [tokens, hx])) n
  | plain o ih => exact ih h n
  | positive s o ih => exact ih (fun x hx => h x (by simp [tokens, hx])) n
  | single f ih => exact ih h n
  | lone t ih => exact ih h n
  | negative s o ih =>
      have ho := ih (fun x hx => h x (by simp [tokens, hx])) n
      have hneg : Int32.ofInt (0 - (Int32.ofInt (o.exact exactly)).toInt) =
          Int32.ofInt (-o.exact exactly) := by
        rw [Int32.ofInt_sub, Int32.ofInt_toInt, ← Int32.ofInt_sub, Int.zero_sub]
      simp only [eval, exact, ho, bind, Except.bind, hneg]
  | product a s b iha ihb =>
      have ha := iha (fun x hx => h x (by simp [tokens, hx])) n
      have hb := ihb (fun x hx => h x (by simp [tokens, hx])) n
      simp only [eval, exact, ha, hb, bind, Except.bind, Int32.ofInt_mul, Int32.ofInt_toInt]
  | quotient a s b => exact absurd s.2 (h s.1 (by simp [tokens])).kind
  | sum a s b iha ihb =>
      have ha := iha (fun x hx => h x (by simp [tokens, hx])) n
      have hb := ihb (fun x hx => h x (by simp [tokens, hx])) n
      simp only [eval, exact, ha, hb, bind, Except.bind, Int32.ofInt_add, Int32.ofInt_toInt]
  | difference a s b iha ihb =>
      have ha := iha (fun x hx => h x (by simp [tokens, hx])) n
      have hb := ihb (fun x hx => h x (by simp [tokens, hx])) n
      simp only [eval, exact, ha, hb, bind, Except.bind, Int32.ofInt_sub, Int32.ofInt_toInt]

-- A store of words that is the reduction of a store of integers.
structure Store.Wraps (σ : Store) (ζ : ExactStore) : Prop where
  value : ∀ x, σ.value x = Int32.ofInt (ζ.value x)
  printed : σ.printed = ζ.printed.map Int32.ofInt

namespace Store.Wraps

variable {σ : Store} {ζ : ExactStore}

theorem set (h : σ.Wraps ζ) (x : String) (z : Int) :
    (σ.set x (Int32.ofInt z)).Wraps (ζ.set x z) where
  value := by
    intro y
    by_cases hy : y = x
    · simp [Store.set, ExactStore.set, hy]
    · simp [Store.set, ExactStore.set, hy, h.value]
  printed := h.printed

theorem print (h : σ.Wraps ζ) (z : Int) : (σ.print (Int32.ofInt z)).Wraps (ζ.print z) where
  value := h.value
  printed := by simp [Store.print, ExactStore.print, h.printed]

theorem eval (h : σ.Wraps ζ) {e : Expression} (he : ∀ t ∈ e.tokens, t.Plain) :
    σ.eval e = .ok (Int32.ofInt (e.exact ζ.value), σ) := by
  rw [Store.eval, e.eval_eq_exact h.value he]

theorem perform (h : σ.Wraps ζ) {i : Item} (hi : ∀ t ∈ i.tokens, t.Plain) :
    ∃ τ, i.exec σ = .ok τ ∧ τ.Wraps (ζ.perform i) := by
  cases i using Item.forms with
  | const c =>
      have hc := Leaf.written_eq (hi c.number.1 (by simp [Item.tokens, Constant.tokens]))
      refine ⟨_, rfl, ?_⟩
      rw [Constant.integer, hc]
      exact h.set _ _
  | plain word ident stop => exact ⟨_, rfl, h.set _ 0⟩
  | initial word ident equals e stop =>
      have he := h.eval (e := e) fun t ht => hi t (by simp [Item.tokens, Variable.tokens, ht])
      exact ⟨_, by rw [Item.exec, he]; rfl, h.set _ _⟩
  | assign ident equals e stop =>
      have he := h.eval (e := e) fun t ht => hi t (by simp [Item.tokens, Statement.tokens, ht])
      exact ⟨_, by rw [Item.exec, he]; rfl, h.set _ _⟩
  | print word l e r stop =>
      have he := h.eval (e := e) fun t ht => hi t (by simp [Item.tokens, Statement.tokens, ht])
      exact ⟨_, by rw [Item.exec, he]; rfl, h.print _⟩
  | empty stop => exact ⟨σ, rfl, h⟩

theorem performAll (h : σ.Wraps ζ) {l : List Item} (hl : ∀ i ∈ l, ∀ t ∈ i.tokens, t.Plain) :
    ∃ τ, execAll l σ = .ok τ ∧ τ.Wraps (l.foldl ExactStore.perform ζ) := by
  induction l generalizing σ ζ with
  | nil => exact ⟨σ, rfl, h⟩
  | cons i l ih =>
      obtain ⟨τ, hτ, hwraps⟩ := h.perform (hl i (by simp))
      obtain ⟨ρ, hρ, hwraps⟩ := ih hwraps fun j hj => hl j (by simp [hj])
      refine ⟨ρ, ?_, hwraps⟩
      rw [execAll, List.foldlM_cons, hτ]
      exact hρ

end Store.Wraps

theorem Program.exec_wraps (P : Program) (h : ∀ t ∈ P.tokens, t.Plain) :
    ∃ σ, P.exec = .ok σ ∧ σ.Wraps P.exact := by
  have hempty : Store.Wraps {} {} := ⟨fun _ => rfl, rfl⟩
  apply hempty.performAll
  intro i hi t ht
  have hbody : t ∈ P.body := by
    rw [← P.flatMap_items_tokens]
    exact List.mem_flatMap.mpr ⟨i, hi, ht⟩
  exact h t (by simp [tokens, hbody])

theorem Token.Spelt.written_eq {t : Token} (h : t.Spelt) (hkind : t.kind = .number) :
    t.value.toNat = t.written := by
  cases h with
  | number kind nonempty digits value => exact ((Lexer.literalValue_eq_some_iff digits).mp value).2
  | word c cs lexeme digit letter word kind value =>
      rw [hkind] at kind
      unfold Lexer.wordKind TokenKind.keyword? at kind
      split at kind <;> cases kind
  | sign c lexeme digit letter kind value =>
      rw [hkind] at kind
      unfold TokenKind.sign? at kind
      split at kind <;> cases kind

theorem plain_of_lex {source : List Char} {tokens : List Token} (hlex : lex source = (tokens, none))
    (hdivide : ∀ t ∈ tokens, t.kind ≠ .divide) : ∀ t ∈ tokens, t.Plain := by
  intro t ht
  refine ⟨hdivide t ht, fun hkind => ?_⟩
  obtain ⟨body, hbody, rfl⟩ := tokens_of_lex_none hlex
  rcases List.mem_append.mp ht with ht | ht
  · exact ((Lexer.ofText source).answers_spelt t (by simp [hbody, ht])).written_eq hkind
  · rw [List.mem_singleton.mp ht] at hkind
    cases hkind

-- The one word that is congruent to the integer.
def Residue (v : Int32) (z : Int) : Prop := ∀ w : Int32, w.toInt ≡ z [ZMOD 0x100000000] ↔ w = v

theorem residue_ofInt (z : Int) : Residue (Int32.ofInt z) z := by
  intro w
  have hlow := w.le_toInt
  have hhigh := w.toInt_lt
  rw [eq_comm (a := w), Int32.ofInt_eq_iff_bmod_eq_toInt, Int.ModEq, Int.bmod_def]
  split <;> omega

theorem forall₂_residue_ofInt (zs : List Int) : List.Forall₂ Residue (zs.map Int32.ofInt) zs := by
  rw [List.forall₂_map_left_iff, List.forall₂_same]
  exact fun z _ => residue_ofInt z

theorem wrapping_only_reduces {source : List Char} {code : Array Instruction}
    (hcode : (compile source).1 = .ok code) (hsize : (compile source).2.size ≤ 0x80000000)
    (hdivide : ∀ t ∈ (lex source).1, t.kind ≠ .divide) (console : Console) :
    let ended := (Execution.start code { console with sink := some (.recorder #[]) }).run
    ∃ P : Program, lex source = (P.tokens, none) ∧
      (∀ Q : Program, lex source = (Q.tokens, none) → Q = P) ∧ ended.1 = none ∧
      (∃ printed : Array Int32, ended.2.console.sink = some (.recorder printed) ∧
        List.Forall₂ Residue printed.toList P.exact.printed) ∧
      List.Forall₂ Residue ended.2.machine.stack.toList (P.names.map P.exact.value) := by
  intro ended
  obtain ⟨P, hlex, hlawful, hP, _⟩ := program_of_compile hcode
  have hnames : P.names.length ≤ 0x80000000 := size_compile hlex hlawful ▸ hsize
  obtain rfl : P.code.toArray = code := by rw [← hP]
  rw [hlex] at hdivide
  obtain ⟨σ, hexec, hwraps⟩ := P.exec_wraps (plain_of_lex hlex hdivide)
  have hconsole : { console with sink := some (.recorder #[]) : Console }.sink = some (.recorder #[]) :=
    rfl
  obtain ⟨hrun, hsink, hstack⟩ := P.run_ok hlawful hnames hconsole hexec
  refine ⟨P, hlex, ?_, hrun, ⟨_, hsink, ?_⟩, ?_⟩
  · intro Q hQ
    exact Program.tokens_injective (congrArg Prod.fst (hQ.symm.trans hlex))
  · rw [hwraps.printed]
    exact forall₂_residue_ofInt _
  · have hvalues : P.names.map σ.value = (P.names.map P.exact.value).map Int32.ofInt := by
      simp [hwraps.value]
    rw [hstack, hvalues]
    exact forall₂_residue_ofInt _

def overflowText : List Char :=
  "begin const k=-2147483648;var a=65536;a=a*a*a+k;print(a-1);end".toList

def Program.overflow : Program :=
  ⟨.sample .beginWord "begin" 0 0,
    [⟨.sample .constWord "const" 6 0, .sample .identifier "k" 12 0, .sample .equals "=" 13 0,
      some (.minus (.sample .minus "-" 14 0)), .sample .number "2147483648" 15 2147483648,
      .sample .semicolon ";" 25 0⟩],
    [⟨.sample .varWord "var" 26 0, .sample .identifier "a" 30 0,
      some (.sample .equals "=" 31 0,
        .lone (.single (.plain (.number (.sample .number "65536" 32 65536))))),
      .sample .semicolon ";" 37 0⟩],
    [.assign (.sample .identifier "a" 38 0) (.sample .equals "=" 39 0)
        (.sum (.lone (.product (.product (.single (.plain (.name (.sample .identifier "a" 40 0))))
          (.sample .times "*" 41 0) (.plain (.name (.sample .identifier "a" 42 0))))
          (.sample .times "*" 43 0) (.plain (.name (.sample .identifier "a" 44 0)))))
          (.sample .plus "+" 45 0) (.single (.plain (.name (.sample .identifier "k" 46 0)))))
        (.sample .semicolon ";" 47 0),
      .print (.sample .printWord "print" 48 0) (.sample .leftParen "(" 53 0)
        (.difference (.lone (.single (.plain (.name (.sample .identifier "a" 54 0)))))
          (.sample .minus "-" 55 0) (.single (.plain (.number (.sample .number "1" 56 1)))))
        (.sample .rightParen ")" 57 0) (.sample .semicolon ";" 58 0)],
    .sample .endWord "end" 59 0,
    .sample .eof "" 62 0⟩

theorem Program.lawful_overflow : overflow.Lawful := by
  refine ⟨by decide, ?_, ?_, ?_⟩
  · simp [overflow, forall_split_cons, Variable.used, Tree.names]
  · simp [overflow, Statement.target?, Leaf.sample, Variable.name]
  · simp [overflow, forall_split_cons, Statement.used, Tree.names, Readable, Constant.name,
      Variable.name, Leaf.sample]

theorem lex_overflowText : lex overflowText = (Program.overflow.tokens, none) := by decide +kernel

theorem wrapping_only_reduces_overflowText :
    (compile overflowText).1 = .ok Program.overflow.code.toArray ∧
    (compile overflowText).2.size ≤ 0x80000000 ∧
    (∀ t ∈ (lex overflowText).1, t.kind ≠ .divide) ∧
    Program.overflow.exact.printed = [281472829227007] ∧
    (Execution.start Program.overflow.code.toArray
      { sink := some (.recorder #[]) }).run.2.console.sink = some (.recorder #[2147483647]) := by
  have hcode := compile_of_program lex_overflowText Program.lawful_overflow
  have hsize : (compile overflowText).2.size ≤ 0x80000000 := by
    rw [size_compile lex_overflowText Program.lawful_overflow]
    decide
  have hdivide : ∀ t ∈ (lex overflowText).1, t.kind ≠ .divide := by
    rw [lex_overflowText]
    decide
  have hexact : Program.overflow.exact.printed = [281472829227007] := by decide +kernel
  refine ⟨hcode, hsize, hdivide, hexact, ?_⟩
  obtain ⟨P, _, hunique, _, ⟨⟨printed⟩, hsink, hprinted⟩, _⟩ :=
    wrapping_only_reduces hcode hsize hdivide {}
  obtain rfl := hunique Program.overflow lex_overflowText
  rw [hexact] at hprinted
  obtain _ | ⟨hv, _ | _⟩ := hprinted
  obtain rfl := (hv 2147483647).mp (by decide)
  rw [← hsink]

end PlZero
