import PlZero.Proofs.Analysis.Declarations
import PlZero.Proofs.Analysis.Renaming

namespace PlZero

def Tree.identifiers : {c : Category} → Tree c → List (Leaf .identifier)
  | _, .name t => [t]
  | _, .number _ => []
  | _, .group _ e _ => e.identifiers
  | _, .plain o => o.identifiers
  | _, .positive _ o => o.identifiers
  | _, .negative _ o => o.identifiers
  | _, .single f => f.identifiers
  | _, .product a _ b => a.identifiers ++ b.identifiers
  | _, .quotient a _ b => a.identifiers ++ b.identifiers
  | _, .lone t => t.identifiers
  | _, .sum a _ b => a.identifiers ++ b.identifiers
  | _, .difference a _ b => a.identifiers ++ b.identifiers

-- What one identifier is there for.
inductive Check where
  | declare (ident : Leaf .identifier) (constant initialized : Bool)
  | assign (ident : Leaf .identifier)
  | use (ident : Leaf .identifier)

namespace Check

def ident : Check → Leaf .identifier
  | declare ident _ _ => ident
  | assign ident => ident
  | use ident => ident

def declares? : Check → Option (String × Bool × Bool)
  | declare ident constant initialized => some (ident.1.lexeme, constant, initialized)
  | _ => none

def assigns? : Check → Option String
  | assign ident => some ident.1.lexeme
  | _ => none

end Check

-- A variable is visible after its first value, and an assigned variable has a value before its new one.
def Item.checks : Item → List Check
  | .const c => [.declare c.ident true true]
  | .var ⟨_, ident, none, _⟩ => [.declare ident false false]
  | .var ⟨_, ident, some (_, e), _⟩ => e.identifiers.map .use ++ [.declare ident false true]
  | .stmt (.assign ident _ e _) => .assign ident :: e.identifiers.map .use
  | .stmt (.print _ _ e _ _) => e.identifiers.map .use
  | .stmt (.empty _) => []

def Program.checks (P : Program) : List Check := P.items.flatMap Item.checks

def declarations (before : List Check) : List (String × Bool × Bool) :=
  before.filterMap Check.declares?

def assigned (before : List Check) (x : String) : Bool :=
  before.any (·.assigns? == some x)

-- The names that the checks declare, in order, with those initialized that are declared so or assigned.
def symbolsAfter (before : List Check) : List Symbol :=
  numbered ((declarations before).map fun f => (f.1, f.2.1, f.2.2 || assigned before f.1))

-- The rule that a check breaks when it comes after the checks `before`.
inductive Violates (before : List Check) : Check → Complaint → Prop where
  | duplicate {ident : Leaf .identifier} {constant initialized : Bool} {f : String × Bool × Bool}
      (declared : f ∈ declarations before) (same : f.1 = ident.1.lexeme) :
      Violates before (.declare ident constant initialized) .duplicate
  | unknownTarget {ident : Leaf .identifier}
      (undeclared : ∀ f ∈ declarations before, f.1 ≠ ident.1.lexeme) :
      Violates before (.assign ident) .undeclared
  | constantTarget {ident : Leaf .identifier} {initialized : Bool}
      (constant : (ident.1.lexeme, true, initialized) ∈ declarations before) :
      Violates before (.assign ident) .constant
  | unknownSource {ident : Leaf .identifier}
      (undeclared : ∀ f ∈ declarations before, f.1 ≠ ident.1.lexeme) :
      Violates before (.use ident) .undeclared
  | emptySource {ident : Leaf .identifier} {constant : Bool}
      (valueless : (ident.1.lexeme, constant, false) ∈ declarations before)
      (unassigned : assigned before ident.1.lexeme = false) :
      Violates before (.use ident) .uninitialized

namespace Violates

variable {before : List Check} (ident : Leaf .identifier)

theorem not_declare (c i : Bool) (hfresh : ∀ f ∈ declarations before, f.1 ≠ ident.1.lexeme)
    (v : Complaint) : ¬ Violates before (.declare ident c i) v := by
  intro hv
  cases hv with
  | duplicate hf hsame => exact hfresh _ hf hsame

theorem not_assign (hdeclared : ∃ f ∈ declarations before, f.1 = ident.1.lexeme)
    (hvariable : ∀ i, (ident.1.lexeme, true, i) ∉ declarations before) (v : Complaint) :
    ¬ Violates before (.assign ident) v := by
  obtain ⟨f, hf, hsame⟩ := hdeclared
  intro hv
  cases hv with
  | unknownTarget hno => exact hno f hf hsame
  | constantTarget hconstant => exact hvariable _ hconstant

theorem not_use (hdeclared : ∃ f ∈ declarations before, f.1 = ident.1.lexeme)
    (hvalue : ∀ c, (ident.1.lexeme, c, false) ∈ declarations before →
      assigned before ident.1.lexeme = true) (v : Complaint) : ¬ Violates before (.use ident) v := by
  obtain ⟨f, hf, hsame⟩ := hdeclared
  intro hv
  cases hv with
  | unknownSource hno => exact hno f hf hsame
  | emptySource hvalueless hunassigned =>
      rw [hvalue _ hvalueless] at hunassigned
      cases hunassigned

theorem functional {c : Check} {v v' : Complaint} (h : Violates before c v)
    (h' : Violates before c v') : v = v' := by
  cases h with
  | duplicate hf hsame =>
      cases h' with
      | duplicate => rfl
  | unknownTarget hno =>
      cases h' with
      | unknownTarget => rfl
      | constantTarget hf => exact absurd rfl (hno _ hf)
  | constantTarget hf =>
      cases h' with
      | unknownTarget hno => exact absurd rfl (hno _ hf)
      | constantTarget => rfl
  | unknownSource hno =>
      cases h' with
      | unknownSource => rfl
      | emptySource hf => exact absurd rfl (hno _ hf)
  | emptySource hf =>
      cases h' with
      | unknownSource hno => exact absurd rfl (hno _ hf)
      | emptySource => rfl

end Violates

def Clean (checks : List Check) : Prop :=
  ∀ before c after, checks = before ++ c :: after → ∀ v, ¬ Violates before c v

-- The checks begin with `before`, which are in order, and then comes the first that is not.
structure FirstViolation (checks before : List Check) (c : Check) (v : Complaint) : Prop where
  split : ∃ after, checks = before ++ c :: after
  clean : Clean before
  violates : Violates before c v

theorem FirstViolation.unique {checks before before' : List Check} {c c' : Check} {v v' : Complaint}
    (h : FirstViolation checks before c v) (h' : FirstViolation checks before' c' v') :
    before = before' ∧ c = c' ∧ v = v' := by
  obtain ⟨after, rfl⟩ := h.split
  obtain ⟨after', hsplit⟩ := h'.split
  rcases List.append_eq_append_iff.mp hsplit with ⟨mid, rfl, hmid⟩ | ⟨mid, rfl, hmid⟩
  · cases mid with
    | nil =>
        obtain ⟨rfl, -⟩ := List.cons.inj hmid
        exact ⟨by simp, rfl, h.violates.functional (by simpa using h'.violates)⟩
    | cons first mid =>
        obtain ⟨rfl, -⟩ := List.cons.inj hmid
        exact absurd h.violates (h'.clean before _ mid rfl v)
  · cases mid with
    | nil =>
        obtain ⟨rfl, -⟩ := List.cons.inj hmid
        exact ⟨by simp, rfl, (by simpa using h.violates : Violates before' c' v).functional h'.violates⟩
    | cons first mid =>
        obtain ⟨rfl, -⟩ := List.cons.inj hmid
        exact absurd h'.violates (h.clean before' _ mid rfl v')

-- One check against a table of symbols.
def Check.run (s : SymbolTable) : Check → Except CompileError SymbolTable
  | .declare ident constant initialized =>
      match s.lookup? ident.1.lexeme with
      | none => .ok (s.add ident.1.lexeme constant initialized)
      | some _ => .error (Complaint.duplicate.about ident.1)
  | .assign ident => (s.target ident.1).map fun _ => s.mark ident.1.lexeme
  | .use ident => (s.source ident.1).map fun _ => s

def audit (s : SymbolTable) : List Check → Option CompileError × SymbolTable
  | [] => (none, s)
  | c :: l =>
      match c.run s with
      | .ok s' => audit s' l
      | .error e => (some e, s)

theorem audit_append (s : SymbolTable) (l m : List Check) :
    audit s (l ++ m) =
      match audit s l with
      | (none, s') => audit s' m
      | (some e, s') => (some e, s') := by
  induction l generalizing s with
  | nil => rfl
  | cons c l ih =>
      simp only [List.cons_append, audit]
      cases c.run s with
      | ok s' => exact ih s'
      | error e => rfl

section concat

variable (before : List Check) (c : Check)

theorem declarations_concat :
    declarations (before ++ [c]) = declarations before ++ c.declares?.toList := by
  cases h : c.declares? <;> simp [declarations, h]

theorem assigned_concat (x : String) :
    assigned (before ++ [c]) x = (assigned before x || c.assigns? == some x) := by
  simp [assigned]

end concat

-- The table holds what the checks that went before have declared and assigned.
structure SymbolTable.Models (s : SymbolTable) (before : List Check) : Prop where
  valid : s.Valid
  symbols : s.symbols.toList = symbolsAfter before
  known : ∀ x, assigned before x = true → ∃ f ∈ declarations before, f.1 = x

namespace SymbolTable.Models

variable {s : SymbolTable} {before : List Check} {x : String}

theorem empty : Models {} [] := ⟨valid_empty, rfl, by simp [assigned]⟩

theorem lookup?_eq_none_iff (h : s.Models before) :
    s.lookup? x = none ↔ ∀ f ∈ declarations before, f.1 ≠ x := by
  rw [h.valid.lookup?_eq_none_iff, names, h.symbols, symbolsAfter, names_numbered, List.map_map]
  simp only [List.mem_map, Function.comp, not_exists, not_and, ne_eq]

theorem exists_lookup_iff (h : s.Models before) (Q : Bool → Bool → Prop) :
    (∃ symbol, s.lookup? x = some symbol ∧ Q symbol.constant symbol.initialized) ↔
      ∃ c i, (x, c, i) ∈ declarations before ∧ Q c (i || assigned before x) := by
  have hm := exists_mem_numbered
    ((declarations before).map fun f => (f.1, f.2.1, f.2.2 || assigned before f.1))
    fun f => f.1 = x ∧ Q f.2.1 f.2.2
  rw [← symbolsAfter, ← h.symbols] at hm
  simp only [h.valid.lookup?_eq_some_iff, and_assoc]
  rw [hm]
  constructor
  · rintro ⟨_, hmem, rfl, hQ⟩
    obtain ⟨⟨y, c, i⟩, hf, rfl⟩ := List.mem_map.mp hmem
    exact ⟨c, i, hf, hQ⟩
  · rintro ⟨c, i, hf, hQ⟩
    exact ⟨_, List.mem_map_of_mem hf, rfl, hQ⟩

theorem declared_of_lookup? (h : s.Models before) {symbol : Symbol} (hx : s.lookup? x = some symbol) :
    ∃ f ∈ declarations before, f.1 = x := by
  obtain ⟨c, i, hf, -⟩ := (h.exists_lookup_iff fun _ _ => True).mp ⟨symbol, hx, trivial⟩
  exact ⟨_, hf, rfl⟩

theorem unassigned (h : s.Models before) (hx : s.lookup? x = none) : assigned before x = false := by
  by_contra hassigned
  obtain ⟨f, hf, hfx⟩ := h.known x (by simpa using hassigned)
  exact h.lookup?_eq_none_iff.mp hx f hf hfx

theorem declare (h : s.Models before) {ident : Leaf .identifier} (c i : Bool)
    (hx : s.lookup? ident.1.lexeme = none) :
    (s.add ident.1.lexeme c i).Models (before ++ [.declare ident c i]) := by
  refine ⟨h.valid.add (h.valid.lookup?_eq_none_iff.mp hx) c i, ?_, fun x hx' => ?_⟩
  · have hassigned (y : String) : assigned (before ++ [.declare ident c i]) y = assigned before y := by
      simp [assigned_concat, Check.assigns?]
    rw [symbols_add, h.symbols, symbolsAfter, symbolsAfter, declarations_concat]
    simp only [hassigned, Check.declares?, Option.toList_some, List.map_append, List.map_singleton]
    rw [numbered_concat, h.unassigned hx, Bool.or_false]
    have hsize := congrArg List.length h.symbols
    simp only [Array.length_toList, symbolsAfter] at hsize
    rw [size, hsize]
  · rw [assigned_concat] at hx'
    obtain ⟨f, hf, hfx⟩ := h.known x (by simpa [Check.assigns?] using hx')
    exact ⟨f, by simp [declarations_concat, hf], hfx⟩

theorem assign (h : s.Models before) {ident : Leaf .identifier} {symbol : Symbol}
    (hx : s.lookup? ident.1.lexeme = some symbol) :
    (s.mark ident.1.lexeme).Models (before ++ [.assign ident]) := by
  have hdeclarations : declarations (before ++ [.assign ident]) = declarations before := by
    simp [declarations_concat, Check.declares?]
  refine ⟨h.valid.mark _, ?_, fun x hx' => ?_⟩
  · rw [h.valid.symbols_mark, h.symbols, symbolsAfter, symbolsAfter, numbered_mark, hdeclarations,
      List.map_map]
    simp [assigned_concat, Check.assigns?, Bool.or_assoc, BEq.comm, Function.comp_def]
  · rw [hdeclarations]
    simp only [assigned_concat, Check.assigns?, Bool.or_eq_true, beq_iff_eq, Option.some.injEq] at hx'
    rcases hx' with hx' | rfl
    · exact h.known x hx'
    · exact h.declared_of_lookup? hx

theorem use (h : s.Models before) (ident : Leaf .identifier) : s.Models (before ++ [.use ident]) := by
  have hdeclarations : declarations (before ++ [.use ident]) = declarations before := by
    simp [declarations_concat, Check.declares?]
  have hassigned (x : String) : assigned (before ++ [.use ident]) x = assigned before x := by
    simp [assigned_concat, Check.assigns?]
  refine ⟨h.valid, ?_, ?_⟩
  · rw [h.symbols]
    simp [symbolsAfter, hdeclarations, hassigned]
  · simpa [hdeclarations, hassigned] using h.known

end SymbolTable.Models

variable {s : SymbolTable} {before : List Check}

theorem run_declare (h : s.Models before) (ident : Leaf .identifier) (c i : Bool) :
    (∃ s', (Check.declare ident c i).run s = .ok s' ∧ s'.Models (before ++ [.declare ident c i]) ∧
      ∀ v, ¬ Violates before (.declare ident c i) v) ∨
    ∃ v, (Check.declare ident c i).run s = .error (v.about ident.1) ∧
      Violates before (.declare ident c i) v := by
  cases hl : s.lookup? ident.1.lexeme with
  | none =>
      exact .inl ⟨_, by rw [Check.run, hl], h.declare c i hl,
        Violates.not_declare ident c i (h.lookup?_eq_none_iff.mp hl)⟩
  | some symbol =>
      obtain ⟨f, hf, hsame⟩ := h.declared_of_lookup? hl
      exact .inr ⟨.duplicate, by rw [Check.run, hl], .duplicate hf hsame⟩

theorem run_assign (h : s.Models before) (ident : Leaf .identifier) :
    (∃ s', (Check.assign ident).run s = .ok s' ∧ s'.Models (before ++ [.assign ident]) ∧
      ∀ v, ¬ Violates before (.assign ident) v) ∨
    ∃ v, (Check.assign ident).run s = .error (v.about ident.1) ∧ Violates before (.assign ident) v := by
  cases hl : s.lookup? ident.1.lexeme with
  | none =>
      refine .inr ⟨.undeclared, ?_, .unknownTarget (h.lookup?_eq_none_iff.mp hl)⟩
      simp [Check.run, SymbolTable.target, hl, Except.map, Complaint.about]
  | some symbol =>
      by_cases hc : symbol.constant = true
      · obtain ⟨c, i, hf, rfl⟩ := (h.exists_lookup_iff fun c _ => c = true).mp ⟨symbol, hl, hc⟩
        refine .inr ⟨.constant, ?_, .constantTarget hf⟩
        simp [Check.run, SymbolTable.target, hl, hc, Except.map, Complaint.about]
      · refine .inl ⟨_, by simp [Check.run, SymbolTable.target, hl, hc, Except.map], h.assign hl,
          Violates.not_assign ident (h.declared_of_lookup? hl) fun i hf => ?_⟩
        obtain ⟨other, hother, hconstant⟩ :=
          (h.exists_lookup_iff fun c _ => c = true).mpr ⟨true, i, hf, rfl⟩
        rw [hl] at hother
        cases hother
        exact hc hconstant

theorem run_use (h : s.Models before) (ident : Leaf .identifier) :
    (∃ s', (Check.use ident).run s = .ok s' ∧ s'.Models (before ++ [.use ident]) ∧
      ∀ v, ¬ Violates before (.use ident) v) ∨
    ∃ v, (Check.use ident).run s = .error (v.about ident.1) ∧ Violates before (.use ident) v := by
  cases hl : s.lookup? ident.1.lexeme with
  | none =>
      refine .inr ⟨.undeclared, ?_, .unknownSource (h.lookup?_eq_none_iff.mp hl)⟩
      simp [Check.run, SymbolTable.source, hl, Except.map, Complaint.about]
  | some symbol =>
      by_cases hi : symbol.initialized = true
      · refine .inl ⟨_, by simp [Check.run, SymbolTable.source, hl, hi, Except.map], h.use ident,
          Violates.not_use ident (h.declared_of_lookup? hl) fun c hf => ?_⟩
        obtain ⟨other, hother, hvalue⟩ := (h.exists_lookup_iff
          fun _ i => i = assigned before ident.1.lexeme).mpr ⟨c, false, hf, Bool.false_or _⟩
        rw [hl] at hother
        cases hother
        rw [← hvalue, hi]
      · obtain ⟨c, i, hf, hvalueless⟩ :=
          (h.exists_lookup_iff fun _ i => i = false).mp ⟨symbol, hl, by simpa using hi⟩
        obtain ⟨rfl, hunassigned⟩ := Bool.or_eq_false_iff.mp hvalueless
        refine .inr ⟨.uninitialized, ?_, .emptySource hf hunassigned⟩
        simp [Check.run, SymbolTable.source, hl, hi, Except.map, Complaint.about]

theorem Check.run_cases (h : s.Models before) (c : Check) :
    (∃ s', c.run s = .ok s' ∧ s'.Models (before ++ [c]) ∧ ∀ v, ¬ Violates before c v) ∨
      ∃ v, c.run s = .error (v.about c.ident.1) ∧ Violates before c v := by
  cases c with
  | declare ident constant initialized => exact run_declare h ident constant initialized
  | assign ident => exact run_assign h ident
  | use ident => exact run_use h ident

theorem clean_nil : Clean [] := by
  intro before c after h
  simp at h

theorem Clean.concat (h : Clean before) {c : Check} (hc : ∀ v, ¬ Violates before c v) :
    Clean (before ++ [c]) := by
  intro b c' a hsplit
  rcases List.eq_nil_or_concat a with rfl | ⟨a, last, rfl⟩
  · obtain ⟨rfl, hlast⟩ := List.append_inj' hsplit rfl
    cases hlast
    exact hc
  · rw [List.concat_eq_append, ← List.cons_append, ← List.append_assoc] at hsplit
    obtain ⟨rfl, -⟩ := List.append_inj' hsplit rfl
    exact h b c' a rfl

theorem audit_cases (h : s.Models before) (hclean : Clean before) (checks : List Check) :
    (∃ s', audit s checks = (none, s')) ∨
      ∃ mid c v s', FirstViolation (before ++ checks) (before ++ mid) c v ∧ s'.Models (before ++ mid) ∧
        audit s checks = (some (v.about c.ident.1), s') := by
  induction checks generalizing s before with
  | nil => exact .inl ⟨s, rfl⟩
  | cons c checks ih =>
      rcases c.run_cases h with ⟨s', hrun, hs', hno⟩ | ⟨v, hrun, hv⟩
      · have haudit : audit s (c :: checks) = audit s' checks := by rw [audit, hrun]
        rw [haudit]
        rcases ih hs' (hclean.concat hno) with hpassed | ⟨mid, c', v, r, hfirst, hr, hfailed⟩
        · exact .inl hpassed
        · exact .inr ⟨c :: mid, c', v, r, by simpa using hfirst, by simpa using hr, hfailed⟩
      · have hfirst : FirstViolation (before ++ c :: checks) before c v := ⟨⟨checks, rfl⟩, hclean, hv⟩
        exact .inr ⟨[], c, v, s, by simpa using hfirst, by simpa using h, by rw [audit, hrun]⟩

end PlZero
