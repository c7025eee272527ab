import PlZero.Proofs.Analysis.Items
import PlZero.Proofs.Syntax.Rules

namespace PlZero

def numbered (l : List (String × Bool × Bool)) : List Symbol :=
  l.mapIdx fun i f => ⟨f.1, f.2.1, f.2.2, i⟩

theorem exists_mem_numbered (l : List (String × Bool × Bool)) (Q : String × Bool × Bool → Prop) :
    (∃ s ∈ numbered l, Q (s.name, s.constant, s.initialized)) ↔ ∃ f ∈ l, Q f := by
  constructor
  · rintro ⟨s, hs, hQ⟩
    obtain ⟨i, hi, rfl⟩ := List.mem_mapIdx.mp hs
    exact ⟨l[i], List.getElem_mem hi, hQ⟩
  · rintro ⟨f, hf, hQ⟩
    obtain ⟨i, hi, rfl⟩ := List.getElem_of_mem hf
    exact ⟨_, List.mem_mapIdx.mpr ⟨i, hi, rfl⟩, hQ⟩

theorem names_numbered (l : List (String × Bool × Bool)) :
    (numbered l).map Symbol.name = l.map Prod.fst := by
  apply List.ext_getElem?
  intro i
  simp [numbered, Function.comp_def]

theorem numbered_concat (l : List (String × Bool × Bool)) (f : String × Bool × Bool) :
    numbered (l ++ [f]) = numbered l ++ [⟨f.1, f.2.1, f.2.2, (numbered l).length⟩] := by
  simp [numbered, List.mapIdx_append]

theorem numbered_mark (x : String) (l : List (String × Bool × Bool)) :
    (numbered l).map (SymbolTable.markSymbol x) =
      numbered (l.map fun f => (f.1, f.2.1, f.2.2 || f.1 == x)) := by
  apply List.ext_getElem?
  intro i
  simp only [numbered, List.getElem?_map, List.getElem?_mapIdx, Option.map_map]
  cases l[i]? with
  | none => rfl
  | some f => by_cases hx : f.1 = x <;> simp [SymbolTable.markSymbol, hx]

section symbolList

variable (cs : List Constant) (vs : List Variable) (ss : List Statement)

theorem symbolList_eq_numbered :
    symbolList cs vs ss = numbered (cs.map Constant.flags ++ vs.map (Variable.flags ss)) := rfl

theorem exists_mem_symbolList (Q : String × Bool × Bool → Prop) :
    (∃ s ∈ symbolList cs vs ss, Q (s.name, s.constant, s.initialized)) ↔
      (∃ c ∈ cs, Q c.flags) ∨ ∃ v ∈ vs, Q (v.flags ss) := by
  rw [symbolList_eq_numbered, exists_mem_numbered]
  simp [or_and_right, exists_or]

theorem names_symbolList :
    (symbolList cs vs ss).map Symbol.name = cs.map Constant.name ++ vs.map Variable.name := by
  rw [symbolList_eq_numbered, names_numbered, List.map_append, List.map_map, List.map_map]
  rfl

theorem symbolList_constant (c : Constant) :
    symbolList (cs ++ [c]) [] [] =
      symbolList cs [] [] ++ [⟨c.name, true, true, (symbolList cs [] []).length⟩] := by
  simp only [symbolList_eq_numbered, List.map_nil, List.append_nil, List.map_append, List.map_singleton]
  exact numbered_concat _ c.flags

theorem symbolList_variable (v : Variable) :
    symbolList cs (vs ++ [v]) [] =
      symbolList cs vs [] ++ [⟨v.name, false, v.initial.isSome, (symbolList cs vs []).length⟩] := by
  simp only [symbolList_eq_numbered, List.map_append, List.map_singleton, ← List.append_assoc]
  rw [numbered_concat]
  simp [Variable.flags]

theorem symbolList_target {s : Statement} {x : String} (h : s.target? = some x) :
    symbolList cs vs (ss ++ [s]) = (symbolList cs vs ss).map (SymbolTable.markSymbol x) := by
  have hvariables (v : Variable) :
      v.flags (ss ++ [s]) = ((v.flags ss).1, (v.flags ss).2.1, (v.flags ss).2.2 || (v.flags ss).1 == x) := by
    simp [Variable.flags, h, Bool.or_assoc, BEq.comm]
  rw [symbolList_eq_numbered, symbolList_eq_numbered, numbered_mark, List.map_append, List.map_map,
    List.map_map]
  -- A constant is initialized already.
  congr 2
  exact List.map_congr_left fun v _ => hvariables v

theorem symbolList_no_target {s : Statement} (h : s.target? = none) :
    symbolList cs vs (ss ++ [s]) = symbolList cs vs ss := by
  have : Variable.flags (ss ++ [s]) = Variable.flags ss := by
    funext v
    simp [Variable.flags, h]
  rw [symbolList, this, symbolList]

end symbolList

structure SymbolTable.Fits (t : SymbolTable) (cs : List Constant) (vs : List Variable)
    (ss : List Statement) : Prop where
  valid : t.Valid
  symbols : t.symbols.toList = symbolList cs vs ss

namespace SymbolTable.Fits

variable {t : SymbolTable} {cs : List Constant} {vs : List Variable} {ss : List Statement}

theorem names (h : t.Fits cs vs ss) : t.names = cs.map Constant.name ++ vs.map Variable.name := by
  rw [SymbolTable.names, h.symbols, names_symbolList]

theorem fresh_iff (h : t.Fits cs vs ss) {x : String} :
    t.lookup? x = none ↔ x ∉ cs.map Constant.name ++ vs.map Variable.name := by
  rw [h.valid.lookup?_eq_none_iff, h.names]

theorem exists_lookup_iff (h : t.Fits cs vs ss) {x : String} (Q : Bool → Bool → Prop) :
    (∃ s, t.lookup? x = some s ∧ Q s.constant s.initialized) ↔
      (∃ c ∈ cs, c.name = x ∧ Q true true) ∨
        ∃ v ∈ vs, v.name = x ∧ Q false (v.flags ss).2.2 := by
  have hm := exists_mem_symbolList cs vs ss fun f => f.1 = x ∧ Q f.2.1 f.2.2
  rw [← h.symbols] at hm
  refine Iff.trans ?_ hm
  constructor
  · rintro ⟨s, hs, hQ⟩
    obtain ⟨hm, hx⟩ := h.valid.lookup?_eq_some_iff.mp hs
    exact ⟨s, hm, hx, hQ⟩
  · rintro ⟨s, hm, hx, hQ⟩
    exact ⟨s, h.valid.lookup?_eq_some_iff.mpr ⟨hm, hx⟩, hQ⟩

theorem defined_iff (h : t.Fits cs vs ss) {x : String} : t.Defined x ↔ Readable cs vs ss x := by
  rw [SymbolTable.Defined, h.exists_lookup_iff fun _ i => i = true, Readable]
  constructor
  · rintro (⟨c, hc, hx, _⟩ | ⟨v, hv, hx, hi⟩)
    · exact .inl ⟨c, hc, hx⟩
    · refine .inr ⟨v, hv, hx, ?_⟩
      simpa [Variable.flags, hx] using hi
  · rintro (⟨c, hc, hx⟩ | ⟨v, hv, hx, hi⟩)
    · exact .inl ⟨c, hc, hx, rfl⟩
    · refine .inr ⟨v, hv, hx, ?_⟩
      simpa [Variable.flags, hx] using hi

theorem target_iff (h : t.Fits cs vs ss) {x : String} :
    (∃ s, t.lookup? x = some s ∧ s.constant = false) ↔ ∃ v ∈ vs, v.name = x := by
  rw [h.exists_lookup_iff fun c _ => c = false]
  simp

theorem add_constant (h : t.Fits cs [] []) {c : Constant}
    (hx : c.name ∉ cs.map Constant.name) : (t.add c.name true true).Fits (cs ++ [c]) [] [] := by
  have hn : c.name ∉ t.names := by rw [h.names]; simpa using hx
  refine ⟨h.valid.add hn true true, ?_⟩
  rw [SymbolTable.symbols_add, symbolList_constant, ← h.symbols]
  simp [SymbolTable.size]

theorem add_variable (h : t.Fits cs vs []) {v : Variable}
    (hx : v.name ∉ cs.map Constant.name ++ vs.map Variable.name) :
    (t.add v.name false v.initial.isSome).Fits cs (vs ++ [v]) [] := by
  have hn : v.name ∉ t.names := by rwa [h.names]
  refine ⟨h.valid.add hn false _, ?_⟩
  rw [SymbolTable.symbols_add, symbolList_variable, ← h.symbols]
  simp [SymbolTable.size]

theorem mark (h : t.Fits cs vs ss) {s : Statement} {x : String} (hs : s.target? = some x) :
    (t.mark x).Fits cs vs (ss ++ [s]) :=
  ⟨h.valid.mark x, by rw [h.valid.symbols_mark, h.symbols, symbolList_target cs vs ss hs]⟩

theorem no_target (h : t.Fits cs vs ss) {s : Statement} (hs : s.target? = none) :
    t.Fits cs vs (ss ++ [s]) :=
  ⟨h.valid, by rw [h.symbols, symbolList_no_target cs vs ss hs]⟩

end SymbolTable.Fits

namespace Draft

theorem admits_constants {d : Draft} {cs : List Constant} (h : d.symbols.Fits cs [] [])
    (new : List Constant) :
    (d.Admits (new.map .const) ↔ ((cs ++ new).map Constant.name).Nodup) ∧
    (d.Admits (new.map .const) → ((new.map .const).foldl record d).symbols.Fits (cs ++ new) [] []) := by
  induction new generalizing d cs with
  | nil =>
      have hn := h.valid.nodup
      rw [h.names] at hn
      simpa [Admits] using And.intro hn h
  | cons c new ih =>
      have step (hx : c.name ∉ cs.map Constant.name) :
          (d.record (.const c)).symbols.Fits (cs ++ [c]) [] [] := h.add_constant hx
      have fresh : (Item.const c).Legal d.symbols ↔ c.name ∉ cs.map Constant.name := by
        simpa [Item.Legal] using h.fresh_iff
      refine ⟨⟨?_, ?_⟩, ?_⟩
      · rintro ⟨hx, hl⟩
        simpa using (ih (step (fresh.mp hx))).1.mp hl
      · intro hn
        have hx : c.name ∉ cs.map Constant.name := by
          intro hm
          rw [List.map_append, List.nodup_append] at hn
          exact hn.2.2 _ hm _ (by simp) rfl
        exact ⟨fresh.mpr hx, (ih (step hx)).1.mpr (by simpa using hn)⟩
      · rintro ⟨hx, hl⟩
        simpa using (ih (step (fresh.mp hx))).2 hl

theorem admits_variables {d : Draft} {cs : List Constant} {vs : List Variable}
    (h : d.symbols.Fits cs vs []) (new : List Variable) :
    (d.Admits (new.map .var) ↔
      (cs.map Constant.name ++ (vs ++ new).map Variable.name).Nodup ∧
      ∀ before v after, new = before ++ v :: after →
        ∀ x ∈ v.used, Readable cs (vs ++ before) [] x) ∧
    (d.Admits (new.map .var) → ((new.map .var).foldl record d).symbols.Fits cs (vs ++ new) []) := by
  induction new generalizing d vs with
  | nil =>
      have hn := h.valid.nodup
      rw [h.names] at hn
      simpa [Admits] using And.intro hn h
  | cons v new ih =>
      have step (hx : v.name ∉ cs.map Constant.name ++ vs.map Variable.name) :
          (d.record (.var v)).symbols.Fits cs (vs ++ [v]) [] := h.add_variable hx
      have legal : (Item.var v).Legal d.symbols ↔ (∀ x ∈ v.used, Readable cs vs [] x) ∧
          v.name ∉ cs.map Constant.name ++ vs.map Variable.name := by
        simp only [Item.Legal, h.defined_iff, h.fresh_iff]
      rw [forall_split_cons]
      refine ⟨⟨?_, ?_⟩, ?_⟩
      · rintro ⟨hv, hl⟩
        obtain ⟨hu, hx⟩ := legal.mp hv
        obtain ⟨hn, hs⟩ := (ih (step hx)).1.mp hl
        exact ⟨by simpa using hn, by simpa using hu, by simpa using hs⟩
      · rintro ⟨hn, hu, hs⟩
        have hx : v.name ∉ cs.map Constant.name ++ vs.map Variable.name := by
          intro hm
          rw [List.map_append, ← List.append_assoc, List.nodup_append] at hn
          exact hn.2.2 _ hm _ (by simp) rfl
        exact ⟨legal.mpr ⟨by simpa using hu, hx⟩,
          (ih (step hx)).1.mpr ⟨by simpa using hn, by simpa using hs⟩⟩
      · rintro ⟨hv, hl⟩
        simpa using (ih (step (legal.mp hv).2)).2 hl

theorem admits_statements {d : Draft} {cs : List Constant} {vs : List Variable} {ss : List Statement}
    (h : d.symbols.Fits cs vs ss) (new : List Statement) :
    (d.Admits (new.map .stmt) ↔
      (∀ s ∈ new, ∀ x ∈ s.target?, ∃ v ∈ vs, v.name = x) ∧
      ∀ before s after, new = before ++ s :: after →
        ∀ x ∈ s.used, Readable cs vs (ss ++ before ++ [s]) x) ∧
    (d.Admits (new.map .stmt) →
      ((new.map .stmt).foldl record d).symbols.Fits cs vs (ss ++ new)) := by
  induction new generalizing d ss with
  | nil => simpa [Admits] using h
  | cons s new ih =>
      have step : (d.record (.stmt s)).symbols.Fits cs vs (ss ++ [s]) := by
        cases s with
        | assign ident equals e stop => exact h.mark rfl
        | print word l e r stop => exact h.no_target rfl
        | empty stop => exact h.no_target rfl
      have legal : (Item.stmt s).Legal d.symbols ↔ (∀ x ∈ s.target?, ∃ v ∈ vs, v.name = x) ∧
          ∀ x ∈ s.used, Readable cs vs (ss ++ [s]) x := by
        cases s with
        | assign ident equals e stop =>
            have hm := h.mark (s := .assign ident equals e stop) rfl
            simp only [Item.Legal, h.target_iff, hm.defined_iff, Statement.target?, Statement.used,
              Option.mem_def, Option.some.injEq, forall_eq']
        | print word l e r stop =>
            have hm := h.no_target (s := .print word l e r stop) rfl
            simp [Item.Legal, hm.defined_iff, Statement.target?, Statement.used]
        | empty stop => simp [Item.Legal, Statement.target?, Statement.used]
      rw [forall_split_cons]
      refine ⟨⟨?_, ?_⟩, ?_⟩
      · rintro ⟨hs, hl⟩
        obtain ⟨ht, hu⟩ := legal.mp hs
        obtain ⟨hts, hus⟩ := (ih step).1.mp hl
        exact ⟨by simpa using ⟨ht, hts⟩, by simpa using hu, by simpa using hus⟩
      · rintro ⟨hts, hu, hus⟩
        obtain ⟨ht, hts⟩ := List.forall_mem_cons.mp hts
        exact ⟨legal.mpr ⟨ht, by simpa using hu⟩, (ih step).1.mpr ⟨hts, by simpa using hus⟩⟩
      · rintro ⟨hs, hl⟩
        simpa using (ih step).2 hl

end Draft

theorem SymbolTable.fits_empty : SymbolTable.Fits {} [] [] [] := ⟨SymbolTable.valid_empty, rfl⟩

namespace Program

theorem admits_items (P : Program) :
    (Draft.Admits {} P.items ↔ P.Lawful) ∧
    (Draft.Admits {} P.items →
      (P.items.foldl Draft.record {}).symbols.Fits P.constants P.vars P.statements) := by
  have hc := Draft.admits_constants (d := {}) SymbolTable.fits_empty P.constants
  have hv (h : Draft.Admits {} (P.constants.map .const)) := Draft.admits_variables (hc.2 h) P.vars
  have hs (h : Draft.Admits {} (P.constants.map .const)) (h' : Draft.Admits _ (P.vars.map .var)) :=
    Draft.admits_statements ((hv h).2 h') P.statements
  simp only [items, Draft.admits_append, List.foldl_append]
  refine ⟨⟨?_, ?_⟩, ?_⟩
  · rintro ⟨⟨h₁, h₂⟩, h₃⟩
    obtain ⟨hn, hi⟩ := (hv h₁).1.mp h₂
    obtain ⟨ht, hu⟩ := (hs h₁ h₂).1.mp h₃
    exact ⟨by simpa [names] using hn, by simpa using hi, by simpa using ht, by simpa using hu⟩
  · rintro ⟨hn, hi, ht, hu⟩
    have h₁ := hc.1.mpr (by simpa using (List.nodup_append.mp hn).1)
    have h₂ := (hv h₁).1.mpr ⟨by simpa [names] using hn, by simpa using hi⟩
    exact ⟨⟨h₁, h₂⟩, (hs h₁ h₂).1.mpr ⟨by simpa using ht, by simpa using hu⟩⟩
  · rintro ⟨⟨h₁, h₂⟩, h₃⟩
    simpa using (hs h₁ h₂).2 h₃

end Program

namespace Item

def used : Item → List String
  | .const _ => []
  | .var v => v.used
  | .stmt s => s.used ++ s.target?.toList

theorem code_congr {f g : String → Nat} (i : Item) (h : ∀ x ∈ i.used, f x = g x) :
    i.code f = i.code g := by
  cases i using forms with
  | const c => rfl
  | plain word ident stop => rfl
  | initial word ident equals e stop => exact e.code_congr h
  | assign ident equals e stop =>
      have he := e.code_congr fun x hx => h x (by simp [used, Statement.used, hx])
      have ht := h ident.1.lexeme (by simp [used, Statement.target?])
      simp [code, he, ht]
  | print word l e r stop =>
      have he := e.code_congr fun x hx => h x (by simp [used, Statement.used, hx])
      simp [code, he]
  | empty stop => rfl

theorem Legal.declared {i : Item} {t : SymbolTable} (ht : t.Valid) (h : i.Legal t) :
    ∀ x ∈ i.used, x ∈ t.names := by
  have mem {x : String} {s : Symbol} (hl : t.lookup? x = some s) : x ∈ t.names := by
    by_contra hn
    rw [ht.lookup?_eq_none_iff.mpr hn] at hl
    cases hl
  have defined {x : String} (hd : t.Defined x) : x ∈ t.names := by
    obtain ⟨s, hl, _⟩ := hd
    exact mem hl
  intro x hx
  cases i with
  | const c => simp [used] at hx
  | var v => exact defined (h.1 x hx)
  | stmt s =>
      cases s with
      | assign ident equals e stop =>
          simp only [used, Statement.used, Statement.target?, Option.toList_some, List.mem_append,
            List.mem_singleton] at hx
          rcases hx with hx | rfl
          · obtain ⟨s, hl, _⟩ := h.2 x hx
            rw [(ht.mark ident.1.lexeme).lookup?_eq_some_iff] at hl
            rw [← ht.names_mark ident.1.lexeme]
            exact List.mem_map.mpr ⟨s, hl⟩
          · obtain ⟨⟨s, hl, _⟩, _⟩ := h
            exact mem hl
      | print word l e r stop =>
          simp only [used, Statement.used, Statement.target?, Option.toList_none, List.append_nil] at hx
          exact defined (h x hx)
      | empty stop => simp [used, Statement.used, Statement.target?] at hx

theorem enter_valid {i : Item} {t : SymbolTable} (ht : t.Valid) (h : i.Legal t) :
    (i.enter t).Valid ∧ (i.enter t).names = t.names ++ i.declares?.toList := by
  cases i with
  | const c => exact ⟨ht.add (ht.lookup?_eq_none_iff.mp h) _ _, by simp [enter, declares?]⟩
  | var v => exact ⟨ht.add (ht.lookup?_eq_none_iff.mp h.2) _ _, by simp [enter, declares?]⟩
  | stmt s =>
      cases s with
      | assign ident equals e stop =>
          exact ⟨ht.mark _, by simp [enter, declares?, ht.names_mark]⟩
      | print word l e r stop => exact ⟨ht, by simp [enter, declares?]⟩
      | empty stop => exact ⟨ht, by simp [enter, declares?]⟩

theorem Legal.fresh {i : Item} {t : SymbolTable} (ht : t.Valid) (h : i.Legal t) :
    ∀ x ∈ i.declares?, x ∉ t.names := by
  intro x hx
  cases i with
  | const c =>
      cases hx
      exact ht.lookup?_eq_none_iff.mp h
  | var v =>
      cases hx
      exact ht.lookup?_eq_none_iff.mp h.2
  | stmt s => cases hx

end Item

-- Every item refers only to names that are declared before it, and declares only new ones.
def Scoped : List String → List Item → Prop
  | _, [] => True
  | names, i :: l =>
      (∀ x ∈ i.used, x ∈ names) ∧ (∀ x ∈ i.declares?, x ∉ names) ∧
        Scoped (names ++ i.declares?.toList) l

theorem scoped_append (names : List String) (l l' : List Item) :
    Scoped names (l ++ l') ↔
      Scoped names l ∧ Scoped (names ++ l.filterMap Item.declares?) l' := by
  induction l generalizing names with
  | nil => simp [Scoped]
  | cons i l ih =>
      rw [Item.filterMap_declares_cons, ← List.append_assoc]
      simp only [List.cons_append, Scoped, ih, and_assoc]

namespace Draft

theorem scoped_of_admits {d : Draft} (hd : d.symbols.Valid) {l : List Item} (h : d.Admits l) :
    Scoped d.symbols.names l := by
  induction l generalizing d with
  | nil => trivial
  | cons i l ih =>
      obtain ⟨hv, hn⟩ := Item.enter_valid hd h.1
      refine ⟨h.1.declared hd, h.1.fresh hd, ?_⟩
      rw [← hn]
      exact ih (d := d.record i) hv h.2

theorem names_prefix {d : Draft} (hd : d.symbols.Valid) {l : List Item} (h : d.Admits l) :
    d.symbols.names <+: (l.foldl record d).symbols.names := by
  induction l generalizing d with
  | nil => exact List.prefix_rfl
  | cons i l ih =>
      obtain ⟨hv, hn⟩ := Item.enter_valid hd h.1
      have hp : d.symbols.names <+: (i.enter d.symbols).names := ⟨_, hn.symm⟩
      exact hp.trans (ih hv h.2)

theorem code_of_admits {d : Draft} (hd : d.symbols.Valid) {l : List Item} (h : d.Admits l) :
    (l.foldl record d).code.toList =
      d.code.toList ++ l.flatMap (Item.code (l.foldl record d).symbols.names.idxOf) := by
  -- Names are only added behind the ones that an item refers to, so their places are final.
  induction l generalizing d with
  | nil => simp
  | cons i l ih =>
      obtain ⟨hv, hp⟩ := Item.enter_valid hd h.1
      have hnames := names_prefix hd h
      have hcode : i.code d.symbols.offset =
          i.code ((i :: l).foldl record d).symbols.names.idxOf := by
        apply i.code_congr
        intro x hx
        have hm := h.1.declared hd x hx
        obtain ⟨s, hs⟩ : ∃ s, d.symbols.lookup? x = some s := by
          obtain ⟨s, hs, he⟩ := List.mem_map.mp hm
          exact ⟨s, hd.lookup?_eq_some_iff.mpr ⟨hs, he⟩⟩
        obtain ⟨more, hmore⟩ := hnames
        rw [← hmore, List.idxOf_append_of_mem hm, ← hd.offset_eq_idxOf hs]
        simp [SymbolTable.offset, hs]
      have hi := ih (d := d.record i) hv h.2
      rw [List.foldl_cons] at hcode ⊢
      rw [hi, List.flatMap_cons, ← hcode]
      simp [record]

end Draft

theorem Program.scoped_items {P : Program} (h : P.Lawful) : Scoped [] P.items :=
  Draft.scoped_of_admits SymbolTable.valid_empty (P.admits_items.1.mpr h)

end PlZero
