import Mathlib.Data.List.Forall2
import Mathlib.Data.Set.Function
import PlZero.Analysis.Analyser
import PlZero.Proofs.Analysis.Table

namespace PlZero

def Symbol.rename (ρ : String → String) (s : Symbol) : Symbol := { s with name := ρ s.name }

namespace SymbolTable

-- The tables hold the same symbols up to their names, which are all of the set `N`.
structure Renamed (ρ : String → String) (N : Set String) (s s' : SymbolTable) : Prop where
  valid : s.Valid
  valid' : s'.Valid
  symbols : s'.symbols.toList = s.symbols.toList.map (Symbol.rename ρ)
  known : ∀ x ∈ s.names, x ∈ N

variable {ρ : String → String} {N : Set String} {s s' : SymbolTable}

theorem renamed_empty : Renamed ρ N {} {} :=
  ⟨valid_empty, valid_empty, rfl, by simp [names]⟩

namespace Renamed

theorem size_eq (h : Renamed ρ N s s') : s'.size = s.size := by
  have hlength := congrArg List.length h.symbols
  simpa [size] using hlength

theorem names_eq (h : Renamed ρ N s s') : s'.names = s.names.map ρ := by
  simp [names, h.symbols, Symbol.rename, Function.comp_def]

theorem mem_names (h : Renamed ρ N s s') (hρ : Set.InjOn ρ N) {x : String} (hx : x ∈ N) :
    ρ x ∈ s'.names ↔ x ∈ s.names := by
  rw [h.names_eq, List.mem_map]
  constructor
  · rintro ⟨y, hy, hxy⟩
    rwa [← hρ (h.known y hy) hx hxy]
  · intro hmem
    exact ⟨x, hmem, rfl⟩

theorem lookup? (h : Renamed ρ N s s') (hρ : Set.InjOn ρ N) {x : String} (hx : x ∈ N) :
    s'.lookup? (ρ x) = (s.lookup? x).map (Symbol.rename ρ) := by
  cases hl : s.lookup? x with
  | none =>
      rw [Option.map_none, h.valid'.lookup?_eq_none_iff, h.mem_names hρ hx]
      exact h.valid.lookup?_eq_none_iff.mp hl
  | some symbol =>
      obtain ⟨hmem, hname⟩ := h.valid.lookup?_eq_some_iff.mp hl
      rw [Option.map_some, h.valid'.lookup?_eq_some_iff, h.symbols]
      exact ⟨List.mem_map_of_mem hmem, congrArg ρ hname⟩

theorem add (h : Renamed ρ N s s') (hρ : Set.InjOn ρ N) {x : String} (hx : x ∈ N)
    (hfresh : s.lookup? x = none) (c i : Bool) : Renamed ρ N (s.add x c i) (s'.add (ρ x) c i) := by
  have hnew : x ∉ s.names := h.valid.lookup?_eq_none_iff.mp hfresh
  refine ⟨h.valid.add hnew c i, h.valid'.add ?_ c i, ?_, ?_⟩
  · rwa [h.mem_names hρ hx]
  · simp [h.symbols, h.size_eq, Symbol.rename]
  · intro y hy
    rw [names_add, List.mem_append, List.mem_singleton] at hy
    rcases hy with hy | rfl
    · exact h.known y hy
    · exact hx

theorem mark (h : Renamed ρ N s s') (hρ : Set.InjOn ρ N) {x : String} (hx : x ∈ N) :
    Renamed ρ N (s.mark x) (s'.mark (ρ x)) := by
  refine ⟨h.valid.mark x, h.valid'.mark (ρ x), ?_, ?_⟩
  · rw [h.valid.symbols_mark, h.valid'.symbols_mark, h.symbols, List.map_map, List.map_map]
    refine List.map_congr_left fun symbol hsymbol => ?_
    have hname : symbol.name ∈ N := h.known _ (List.mem_map_of_mem hsymbol)
    by_cases hxs : symbol.name = x
    · simp [markSymbol, Symbol.rename, hxs]
    · have hne : ¬ ρ symbol.name = ρ x := fun heq => hxs (hρ hname hx heq)
      simp [markSymbol, Symbol.rename, hxs, hne]
  · rw [h.valid.names_mark]
    exact h.known

end Renamed

end SymbolTable

-- A token of the same kind. A name is renamed, and a literal has the same value in 32 bits.
structure Token.Renamed (ρ : String → String) (t u : Token) : Prop where
  kind : u.kind = t.kind
  name : t.kind = .identifier → u.lexeme = ρ t.lexeme
  value : t.kind = .number → u.value.toNat % UInt32.size = t.value.toNat % UInt32.size

theorem Token.Renamed.literal_eq {ρ : String → String} {t u : Token} (h : t.Renamed ρ u)
    (ht : t.kind = .number) : literal u = literal t := by
  have hvalue : u.value.toUInt32 = t.value.toUInt32 := by
    rw [← UInt32.toNat_inj]
    simpa using h.value ht
  rw [literal, hvalue, literal]

-- What can be said about a token.
inductive Complaint where
  | expected (kinds : List TokenKind)
  | duplicate
  | undeclared
  | uninitialized
  | constant

def Complaint.about (t : Token) : Complaint → CompileError
  | expected kinds => ⟨t.start, .expectedToken kinds t⟩
  | duplicate => ⟨t.start, .duplicateDeclaration t.lexeme⟩
  | undeclared => ⟨t.start, .notDeclared t.lexeme⟩
  | uninitialized => ⟨t.start, .notInitialized t.lexeme⟩
  | constant => ⟨t.start, .assignToConstant t.lexeme⟩

-- The names that one of two lists of tokens spells, when `Pair` holds of the tokens at the same place.
def Spelled (Pair : Token → Token → Prop) : Set String :=
  { x | ∃ t u, Pair t u ∧ t.kind = .identifier ∧ t.lexeme = x }

structure Pairing (ρ : String → String) (Pair : Token → Token → Prop) : Prop where
  renamed : ∀ {t u}, Pair t u → t.Renamed ρ u
  injective : Set.InjOn ρ (Spelled Pair)

-- Tasks that hold no token.
def Task.isPlain : Task → Bool
  | .see (.initializer _) => false
  | .act (.declare _ _ _) => false
  | .act (.mark _) => false
  | _ => true

inductive Task.Twin (Pair : Token → Token → Prop) : Task → Task → Prop where
  | same (task : Task) (plain : task.isPlain = true) : Twin Pair task task
  | initializer {t u : Token} (pair : Pair t u) (name : t.kind = .identifier) :
      Twin Pair (.see (.initializer t)) (.see (.initializer u))
  | declare {t u : Token} (pair : Pair t u) (name : t.kind = .identifier) (constant initialized : Bool) :
      Twin Pair (.act (.declare t constant initialized)) (.act (.declare u constant initialized))
  | mark {t u : Token} (pair : Pair t u) (name : t.kind = .identifier) :
      Twin Pair (.act (.mark t)) (.act (.mark u))

theorem Task.twins_same {Pair : Token → Token → Prop} {tasks : List Task}
    (h : tasks.all Task.isPlain = true) : List.Forall₂ (Task.Twin Pair) tasks tasks := by
  rw [List.forall₂_same]
  intro task htask
  exact .same task (List.all_eq_true.mp h task htask)

inductive Reaction.Twin (Pair : Token → Token → Prop) (t u : Token) : Reaction → Reaction → Prop where
  | take {new new' : List Task} (tasks : List.Forall₂ (Task.Twin Pair) new new') :
      Twin Pair t u (.take new) (.take new')
  | pass : Twin Pair t u .pass .pass
  | refuse (c : Complaint) (taken : Bool) :
      Twin Pair t u (.refuse (c.about t) taken) (.refuse (c.about u) taken)

variable {ρ : String → String} {Pair : Token → Token → Prop} {t u : Token} {s s' : SymbolTable}

theorem Pairing.lookup? (h : Pairing ρ Pair) (ht : Pair t u) (hname : t.kind = .identifier)
    (hs : s.Renamed ρ (Spelled Pair) s') :
    s'.lookup? u.lexeme = (s.lookup? t.lexeme).map (Symbol.rename ρ) := by
  rw [(h.renamed ht).name hname]
  exact hs.lookup? h.injective ⟨t, u, ht, hname, rfl⟩

namespace SymbolTable

theorem target_twin (h : Pairing ρ Pair) (ht : Pair t u) (hname : t.kind = .identifier)
    (hs : s.Renamed ρ (Spelled Pair) s') :
    (∃ symbol, s.target t = .ok symbol ∧ s'.target u = .ok (symbol.rename ρ)) ∨
      ∃ c : Complaint, s.target t = .error (c.about t) ∧ s'.target u = .error (c.about u) := by
  simp only [target, h.lookup? ht hname hs]
  cases s.lookup? t.lexeme with
  | none => exact .inr ⟨.undeclared, rfl, rfl⟩
  | some symbol =>
      cases hc : symbol.constant with
      | true =>
          exact .inr ⟨.constant, by simp [hc, Complaint.about], by simp [Symbol.rename, hc, Complaint.about]⟩
      | false => exact .inl ⟨symbol, by simp [hc], by simp [Symbol.rename, hc]⟩

theorem source_twin (h : Pairing ρ Pair) (ht : Pair t u) (hname : t.kind = .identifier)
    (hs : s.Renamed ρ (Spelled Pair) s') :
    (∃ symbol, s.source t = .ok symbol ∧ s'.source u = .ok (symbol.rename ρ)) ∨
      ∃ c : Complaint, s.source t = .error (c.about t) ∧ s'.source u = .error (c.about u) := by
  simp only [source, h.lookup? ht hname hs]
  cases s.lookup? t.lexeme with
  | none => exact .inr ⟨.undeclared, rfl, rfl⟩
  | some symbol =>
      cases hi : symbol.initialized with
      | true => exact .inl ⟨symbol, by simp [hi], by simp [Symbol.rename, hi]⟩
      | false =>
          refine .inr ⟨.uninitialized, ?_, ?_⟩
          · simp [hi, Complaint.about]
          · simp [Symbol.rename, hi, Complaint.about]

end SymbolTable

namespace Goal

theorem reactOperand_twin (h : Pairing ρ Pair) (ht : Pair t u)
    (hs : s.Renamed ρ (Spelled Pair) s') :
    Reaction.Twin Pair t u (reactOperand s t) (reactOperand s' u) := by
  simp only [reactOperand, (h.renamed ht).kind]
  split
  · next hkind =>
      obtain ⟨symbol, hok, hok'⟩ | ⟨c, herror, herror'⟩ := SymbolTable.source_twin h ht hkind hs
      · rw [hok, hok']
        exact .take (Task.twins_same rfl)
      · rw [herror, herror']
        exact .refuse c true
  · next hkind =>
      rw [(h.renamed ht).literal_eq hkind]
      exact .take (Task.twins_same rfl)
  · exact .take (Task.twins_same rfl)
  · exact .refuse (.expected _) true

theorem reactStatement_twin (h : Pairing ρ Pair) (ht : Pair t u)
    (hs : s.Renamed ρ (Spelled Pair) s') :
    Reaction.Twin Pair t u (reactStatement s t) (reactStatement s' u) := by
  simp only [reactStatement, (h.renamed ht).kind]
  split
  · next hkind =>
      obtain ⟨symbol, hok, hok'⟩ | ⟨c, herror, herror'⟩ := SymbolTable.target_twin h ht hkind hs
      · rw [hok, hok']
        exact .take (.cons (.mark ht hkind) (Task.twins_same rfl))
      · rw [herror, herror']
        exact .refuse c true
  · exact .take (Task.twins_same rfl)
  · exact .take (Task.twins_same rfl)
  · exact .pass

theorem react_twin (h : Pairing ρ Pair) (ht : Pair t u) (hs : s.Renamed ρ (Spelled Pair) s')
    {g g' : Goal} (hg : Task.Twin Pair (.see g) (.see g')) :
    Reaction.Twin Pair t u (g.react s t) (g'.react s' u) := by
  have hkind := (h.renamed ht).kind
  cases hg with
  | initializer pair name =>
      simp only [react, hkind]
      split
      · exact .take (.cons (.same _ rfl) (.cons (.same _ rfl) (.cons (.same _ rfl)
          (.cons (.same _ rfl) (.cons (.declare pair name false true) .nil)))))
      · exact .take (.cons (.declare pair name false false) (Task.twins_same rfl))
      · exact .refuse (.expected _) false
  | same _ plain =>
      cases g with
      | initializer name => cases plain
      | statements => exact reactStatement_twin h ht hs
      | operand => exact reactOperand_twin h ht hs
      | factor =>
          simp only [react, hkind]
          split
          · exact .take (Task.twins_same rfl)
          · exact .take (Task.twins_same rfl)
          · exact reactOperand_twin h ht hs
      | token kind =>
          simp only [react, hkind]
          split
          · exact .take .nil
          · exact .refuse (.expected _) false
      | constantName =>
          simp only [react, hkind]
          split
          · next hname => exact .take (.cons (.declare ht hname true true) .nil)
          · exact .refuse (.expected _) false
      | variableName =>
          simp only [react, hkind]
          split
          · next hname => exact .take (.cons (.initializer ht hname) .nil)
          · exact .refuse (.expected _) false
      | constantValue =>
          simp only [react, hkind]
          split
          · exact .take (Task.twins_same rfl)
          · exact .take (Task.twins_same rfl)
          · next hnumber =>
              rw [(h.renamed ht).literal_eq hnumber]
              exact .take (Task.twins_same rfl)
          · exact .refuse (.expected _) false
      | constantDigits negative =>
          simp only [react, hkind]
          split
          · next hnumber =>
              rw [(h.renamed ht).literal_eq hnumber]
              exact .take (Task.twins_same rfl)
          · exact .refuse (.expected _) false
      | moreFactors | moreTerms =>
          simp only [react, hkind]
          split
          · exact .take (Task.twins_same rfl)
          · exact .take (Task.twins_same rfl)
          · exact .pass
      -- What is left is the two lists of declarations.
      | _ =>
          simp only [react, hkind]
          split
          · exact .take (Task.twins_same rfl)
          · exact .pass

end Goal

structure Draft.Twin (ρ : String → String) (N : Set String) (d d' : Draft) : Prop where
  symbols : d.symbols.Renamed ρ N d'.symbols
  code : d'.code = d.code

inductive Ending.Twin (Pair : Token → Token → Prop) : Ending → Ending → Prop where
  | complete : Twin Pair .complete .complete
  | failed {t u : Token} (pair : Pair t u) (c : Complaint) (taken : Bool) :
      Twin Pair (.failed (c.about t) taken) (.failed (c.about u) taken)

inductive Progress.Twin (Pair : Token → Token → Prop) : Progress → Progress → Prop where
  | ongoing {tasks tasks' : List Task} (h : List.Forall₂ (Task.Twin Pair) tasks tasks') :
      Twin Pair (.ongoing tasks) (.ongoing tasks')
  | ended {last last' : Ending} (h : last.Twin Pair last') : Twin Pair (.ended last) (.ended last')

theorem Progress.Twin.ending {progress progress' : Progress} (htwin : progress.Twin Pair progress')
    (h : ∀ more, progress ≠ .ongoing more) (h' : ∀ more, progress' ≠ .ongoing more) :
    (progress.ending h).Twin Pair (progress'.ending h') := by
  cases htwin with
  | ongoing => exact absurd rfl (h _)
  | ended hlast => exact hlast

-- An action is done on both sides, or there is the same to say about two tokens of a pair.
inductive Performed (ρ : String → String) (Pair : Token → Token → Prop) :
    Option CompileError × Draft → Option CompileError × Draft → Prop where
  | done {d d' : Draft} (draft : d.Twin ρ (Spelled Pair) d') : Performed ρ Pair (none, d) (none, d')
  | refused {t u : Token} (pair : Pair t u) (c : Complaint) {d d' : Draft}
      (draft : d.Twin ρ (Spelled Pair) d') :
      Performed ρ Pair (some (c.about t), d) (some (c.about u), d')

variable {d d' : Draft} {tasks tasks' : List Task}

theorem perform_twin (h : Pairing ρ Pair) (hd : d.Twin ρ (Spelled Pair) d') {a a' : Action}
    (ha : Task.Twin Pair (.act a) (.act a')) : Performed ρ Pair (a.perform d) (a'.perform d') := by
  cases ha with
  | same _ plain =>
      cases a with
      | emit i => exact .done ⟨hd.symbols, by simp [Draft.emit, hd.code]⟩
      | declare | mark => cases plain
  | @declare t u pair name constant initialized =>
      have hlookup := h.lookup? pair name hd.symbols
      simp only [Action.perform, Draft.declare]
      cases hl : d.symbols.lookup? t.lexeme with
      | some symbol =>
          rw [hl] at hlookup
          rw [SymbolTable.declare_of_declared hl, SymbolTable.declare_of_declared hlookup]
          exact .refused pair .duplicate hd
      | none =>
          rw [hl] at hlookup
          rw [SymbolTable.declare_of_fresh hl, SymbolTable.declare_of_fresh hlookup,
            (h.renamed pair).name name]
          exact .done ⟨hd.symbols.add h.injective ⟨t, u, pair, name, rfl⟩ hl _ _, hd.code⟩
  | @mark t u pair name =>
      have hmark := hd.symbols.mark h.injective ⟨t, u, pair, name, rfl⟩
      rw [← (h.renamed pair).name name] at hmark
      exact .done ⟨hmark, hd.code⟩

theorem settle_twin (h : Pairing ρ Pair) (hd : d.Twin ρ (Spelled Pair) d')
    (htasks : List.Forall₂ (Task.Twin Pair) tasks tasks') :
    (settle d tasks).1.Twin ρ (Spelled Pair) (settle d' tasks').1 ∧
      Progress.Twin Pair (settle d tasks).2 (settle d' tasks').2 := by
  induction htasks generalizing d d' with
  | nil => exact ⟨hd, .ongoing .nil⟩
  | @cons task task' tasks tasks' htask htasks ih =>
      have hall := List.Forall₂.cons htask htasks
      cases task with
      | see goal =>
          obtain ⟨goal', rfl⟩ : ∃ goal', task' = .see goal' := by cases htask <;> exact ⟨_, rfl⟩
          exact ⟨hd, .ongoing hall⟩
      | act action =>
          obtain ⟨action', rfl⟩ : ∃ action', task' = .act action' := by cases htask <;> exact ⟨_, rfl⟩
          have hperform := perform_twin h hd htask
          simp only [settle]
          generalize action.perform d = r, action'.perform d' = r' at hperform
          cases hperform with
          | done draft => exact ih draft
          | refused pair c draft => exact ⟨draft, .ended (.failed pair c true)⟩

theorem accept_twin (h : Pairing ρ Pair) (ht : Pair t u) (hd : d.Twin ρ (Spelled Pair) d')
    (htasks : List.Forall₂ (Task.Twin Pair) tasks tasks') :
    (accept t d tasks).1.Twin ρ (Spelled Pair) (accept u d' tasks').1 ∧
      Progress.Twin Pair (accept t d tasks).2 (accept u d' tasks').2 := by
  induction htasks generalizing d d' with
  | nil =>
      simp only [accept, (h.renamed ht).kind]
      split
      · exact ⟨hd, .ended .complete⟩
      · exact ⟨hd, .ended (.failed ht (.expected _) false)⟩
  | @cons task task' tasks tasks' htask htasks ih =>
      cases task with
      | see goal =>
          obtain ⟨goal', rfl⟩ : ∃ goal', task' = .see goal' := by cases htask <;> exact ⟨_, rfl⟩
          have hreact := Goal.react_twin h ht hd.symbols htask
          simp only [accept]
          generalize goal.react d.symbols t = r, goal'.react d'.symbols u = r' at hreact
          cases hreact with
          | take new => exact settle_twin h hd (List.rel_append new htasks)
          | pass => exact ih hd
          | refuse c taken => exact ⟨hd, .ended (.failed ht c taken)⟩
      | act action =>
          obtain ⟨action', rfl⟩ : ∃ action', task' = .act action' := by cases htask <;> exact ⟨_, rfl⟩
          have hperform := perform_twin h hd htask
          simp only [accept]
          generalize action.perform d = r, action'.perform d' = r' at hperform
          cases hperform with
          | done draft => exact ih draft
          | refused pair c draft => exact ⟨draft, .ended (.failed pair c false)⟩

namespace Analyser

variable {ε : Type}

-- Two analyses give the same code, or say the same about the tokens of a pair.
structure Verdict.Twin (ρ : String → String) (Pair : Token → Token → Prop) (v w : Verdict ε) : Prop where
  answer : (∃ code, v.1 = .ok code ∧ w.1 = .ok code) ∨
    ∃ (c : Complaint) (t u : Token), Pair t u ∧ v.1 = .error (.program (c.about t)) ∧
      w.1 = .error (.program (c.about u))
  draft : v.2.draft.Twin ρ (Spelled Pair) w.2.draft

theorem conclude_twin {stream stream' : TokenStream ε} (hd : d.Twin ρ (Spelled Pair) d')
    {last last' : Ending} (h : last.Twin Pair last') :
    (conclude stream t d last).Twin ρ Pair (conclude stream' u d' last') := by
  cases h with
  | complete => exact ⟨.inl ⟨d.code, rfl, congrArg Except.ok hd.code⟩, hd⟩
  | failed pair c taken => exact ⟨.inr ⟨c, _, _, pair, rfl, rfl⟩, hd⟩

theorem pursue_twin (h : Pairing ρ Pair) {p q : Position}
    (hend : Pair (Token.endOfText p) (Token.endOfText q)) {ts us : List Token}
    (hpending : List.Forall₂ Pair ts us) (n : Nat) (hd : d.Twin ρ (Spelled Pair) d')
    (htasks : List.Forall₂ (Task.Twin Pair) tasks tasks') :
    (pursue (ε := ε) (.eof p) n d tasks (ts.map .ok)).Twin ρ Pair
      (pursue (.eof q) n d' tasks' (us.map .ok)) := by
  induction hpending generalizing n d d' tasks tasks' with
  | nil =>
      obtain ⟨hdraft, hprogress⟩ := accept_twin h hend hd htasks
      exact conclude_twin hdraft (hprogress.ending _ _)
  | @cons t u ts us ht hpending ih =>
      obtain ⟨hdraft, hprogress⟩ := accept_twin h ht hd htasks
      simp only [List.map_cons, pursue]
      generalize (accept t d tasks).2 = progress, (accept u d' tasks').2 = progress' at hprogress
      cases hprogress with
      | ongoing hmore => exact ih _ hdraft hmore
      | ended hlast => exact conclude_twin hdraft hlast

end Analyser

-- Tokens at the same place of two lists.
def Abreast (ts us : List Token) (t u : Token) : Prop := ∃ i : Nat, ts[i]? = some t ∧ us[i]? = some u

theorem abreast_of_forall₂ {R : Token → Token → Prop} {ts us : List Token} (h : List.Forall₂ R ts us)
    {t u : Token} (ht : Abreast ts us t u) : R t u := by
  obtain ⟨i, hi, hi'⟩ := ht
  obtain ⟨hlt, rfl⟩ := List.getElem?_eq_some_iff.mp hi
  obtain ⟨hlt', rfl⟩ := List.getElem?_eq_some_iff.mp hi'
  exact h.get hlt hlt'

theorem forall₂_abreast {ts us : List Token} (h : ts.length = us.length) (p q : Token) :
    List.Forall₂ (Abreast (ts ++ [p]) (us ++ [q])) ts us := by
  rw [List.forall₂_iff_get]
  refine ⟨h, fun i hi hi' => ⟨i, ?_, ?_⟩⟩
  · simp [List.getElem?_append_left hi]
  · simp [List.getElem?_append_left hi']

theorem pairing_abreast {ρ : String → String} {ts us : List Token}
    (hsame : List.Forall₂ (Token.Renamed ρ) ts us)
    (hρ : Set.InjOn ρ { x | ∃ t ∈ ts, t.kind = .identifier ∧ t.lexeme = x }) (p q : Position) :
    Pairing ρ (Abreast (ts ++ [Token.endOfText p]) (us ++ [Token.endOfText q])) where
  renamed := by
    have hend : (Token.endOfText p).Renamed ρ (Token.endOfText q) :=
      ⟨rfl, fun hname => (by cases hname), fun hnumber => (by cases hnumber)⟩
    have hall : List.Forall₂ (Token.Renamed ρ) (ts ++ [Token.endOfText p]) (us ++ [Token.endOfText q]) :=
      List.rel_append hsame (.cons hend .nil)
    intro t u ht
    exact abreast_of_forall₂ hall ht
  injective := by
    refine hρ.mono ?_
    rintro x ⟨t, u, ⟨i, hi, _⟩, hname, rfl⟩
    rcases List.mem_append.mp (List.mem_of_getElem? hi) with hmem | hmem
    · exact ⟨t, hmem, hname, rfl⟩
    · rw [List.mem_singleton.mp hmem] at hname
      cases hname

theorem analyse_up_to_renaming {ε : Type} {ρ : String → String} {ts us : List Token}
    (hsame : List.Forall₂ (Token.Renamed ρ) ts us)
    (hρ : Set.InjOn ρ { x | ∃ t ∈ ts, t.kind = .identifier ∧ t.lexeme = x }) (p q : Position) :
    let v := (Analyser.mk (ε := ε) ⟨ts.map .ok, .eof p, 0⟩ none {}).analyse
    let w := (Analyser.mk (ε := ε) ⟨us.map .ok, .eof q, 0⟩ none {}).analyse
    ((∃ code, v.1 = .ok code ∧ w.1 = .ok code) ∨
      ∃ (c : Complaint) (i : Nat) (t u : Token), (ts ++ [Token.endOfText p])[i]? = some t ∧
        (us ++ [Token.endOfText q])[i]? = some u ∧ v.1 = .error (.program (c.about t)) ∧
        w.1 = .error (.program (c.about u))) ∧
    w.2.draft.symbols.symbols.toList = v.2.draft.symbols.symbols.toList.map (Symbol.rename ρ) := by
  intro v w
  have hpairing := pairing_abreast hsame hρ p q
  have hpending := forall₂_abreast hsame.length_eq (Token.endOfText p) (Token.endOfText q)
  have hend : Abreast (ts ++ [Token.endOfText p]) (us ++ [Token.endOfText q]) (Token.endOfText p)
      (Token.endOfText q) :=
    ⟨ts.length, by simp, by simp [hsame.length_eq]⟩
  have htwin : v.Twin ρ (Abreast (ts ++ [Token.endOfText p]) (us ++ [Token.endOfText q])) w :=
    Analyser.pursue_twin hpairing hend hpending 0 ⟨SymbolTable.renamed_empty, rfl⟩
      (Task.twins_same rfl)
  refine ⟨?_, htwin.draft.symbols.symbols⟩
  rcases htwin.answer with hok | ⟨c, t, u, ⟨i, hi, hi'⟩, hv, hw⟩
  · exact .inl hok
  · exact .inr ⟨c, i, t, u, hi, hi', hv, hw⟩

-- A declaration whose initializer breaks off.
def brokenOff (name : String) (value : UInt64) (line : Int) : List Token :=
  let token (kind : TokenKind) (lexeme : String) (column : Int) : Token :=
    ⟨kind, lexeme, value, ⟨line, column⟩, ⟨line, column + 1⟩⟩
  [token .beginWord name 0, token .varWord "var" 1, token .identifier name 2, token .equals "" 3,
    token .number "" 4, token .plus name 5, token .endWord "end" 6]

theorem analyse_up_to_renaming_brokenOff :
    List.Forall₂ (Token.Renamed fun _ => "b") (brokenOff "a" 7 0) (brokenOff "b" 4294967303 9) ∧
    Set.InjOn (fun _ => "b")
      { x | ∃ t ∈ brokenOff "a" 7 0, t.kind = .identifier ∧ t.lexeme = x } ∧
    ∃ (c : Complaint) (i : Nat) (t u : Token),
      (brokenOff "a" 7 0 ++ [Token.endOfText .start])[i]? = some t ∧
      (brokenOff "b" 4294967303 9 ++ [Token.endOfText .start])[i]? = some u ∧
      analyse (ε := Empty) (.ofTokens (brokenOff "a" 7 0)) = .error (.program (c.about t)) ∧
      analyse (ε := Empty) (.ofTokens (brokenOff "b" 4294967303 9)) = .error (.program (c.about u)) := by
  have hsame : List.Forall₂ (Token.Renamed fun _ => "b") (brokenOff "a" 7 0)
      (brokenOff "b" 4294967303 9) := by
    repeat' constructor
    all_goals decide
  have hinj : Set.InjOn (fun _ => "b")
      { x | ∃ t ∈ brokenOff "a" 7 0, t.kind = .identifier ∧ t.lexeme = x } := by
    have hname : ∀ t ∈ brokenOff "a" 7 0, t.kind = .identifier → t.lexeme = "a" := by decide
    rintro x ⟨t, ht, hkind, rfl⟩ y ⟨t', ht', hkind', rfl⟩ -
    rw [hname t ht hkind, hname t' ht' hkind']
  refine ⟨hsame, hinj, ?_⟩
  obtain ⟨⟨code, hok, _⟩ | hcase, _⟩ := analyse_up_to_renaming (ε := Empty) hsame hinj .start .start
  · cases hok
  · exact hcase

end PlZero
