import PlZero.Proofs.Assembly.RoundTrip

namespace PlZero

-- A sign in front of an operand stands for two instructions, any other token for one at most.
theorem Tree.length_code_le (offset : String → Nat) {c : Category} (t : Tree c) :
    (t.code offset).length ≤ 2 * t.tokens.length := by
  induction t with
  | name t | number t => simp [code, tokens]
  | group l e r ih =>
      simp only [code, tokens, List.length_cons, List.length_append]
      omega
  | plain o ih => exact ih
  | positive s o ih =>
      simp only [code, tokens, List.length_cons]
      omega
  | negative s o ih =>
      simp only [code, tokens, List.length_cons, List.length_append, List.length_nil]
      omega
  | single f ih => exact ih
  | lone t ih => exact ih
  | product a s b iha ihb | quotient a s b iha ihb | sum a s b iha ihb | difference a s b iha ihb =>
      simp only [code, tokens, List.length_cons, List.length_append, List.length_nil]
      omega

theorem Item.length_code_le (offset : String → Nat) (i : Item) :
    (i.code offset).length ≤ 2 * i.tokens.length := by
  induction i using Item.forms with
  | const c =>
      simp [code, tokens, Constant.tokens]
      omega
  | plain word ident stop => simp [code, tokens, Variable.tokens]
  | initial word ident equals e stop =>
      have he := e.length_code_le offset
      simp [code, tokens, Variable.tokens]
      omega
  | assign ident equals e stop | print word l e r stop =>
      have he := e.length_code_le offset
      simp [code, tokens, Statement.tokens]
      omega
  | empty stop => simp [code]

theorem Program.length_code_le (P : Program) : P.code.length ≤ 2 * P.tokens.length := by
  have hitems (items : List Item) :
      (items.flatMap (Item.code P.offset)).length ≤ 2 * (items.flatMap Item.tokens).length := by
    induction items with
    | nil => exact Nat.le_refl _
    | cons i items ih =>
        have hi := i.length_code_le P.offset
        simp only [List.flatMap_cons, List.length_append]
        omega
  have hbody := hitems P.items
  rw [P.flatMap_items_tokens] at hbody
  simp only [code, tokens, List.length_cons, List.length_append]
  omega

theorem Lexer.length_answers_le (l : Lexer) : l.answers.1.length ≤ l.rest.length := by
  fun_induction answers l with
  | case1 => exact Nat.zero_le _
  | case2 l c _ _ step hshorter more ih =>
      exact Nat.lt_of_le_of_lt ih hshorter

theorem length_compile_le {source : List Char} {code : Array Instruction}
    (h : (compile source).1 = .ok code) : code.size ≤ 2 * (source.length + 1) := by
  obtain ⟨P, hlex, _, hcode, _⟩ := program_of_compile h
  obtain ⟨body, hbody, htokens⟩ := tokens_of_lex_none hlex
  have hanswers := (Lexer.ofText source).length_answers_le
  have hlength := P.length_code_le
  rw [hbody, List.length_map] at hanswers
  rw [← hcode, htokens, List.length_append] at hlength
  simp only [Array.length_toList, List.length_singleton, Lexer.ofText] at hlength hanswers
  omega

theorem Text.length_lines_le (cs : List Char) : (lines cs).length ≤ cs.length + 1 := by
  rw [lines_eq_splitOn, length_splitOn]
  exact Nat.succ_le_succ List.count_le_length

theorem Assembly.length_readLines_le {line : Nat} {lines : List (List Char)} {program : List Instruction}
    (h : readLines line lines = .ok program) : program.length ≤ lines.length := by
  induction lines generalizing line program with
  | nil =>
      cases h
      exact Nat.le_refl _
  | cons cs lines ih =>
      obtain ⟨first, _, h⟩ := of_bind_eq_ok h
      obtain ⟨rest, hrest, h⟩ := of_bind_eq_ok h
      cases h
      have htail := ih hrest
      cases first <;> simp <;> omega

theorem length_assemble_le {source : List Char} {code : Array Instruction}
    (h : assemble source = .ok code) : code.size ≤ source.length + 1 := by
  obtain ⟨program, hread, rfl⟩ := of_map_eq_ok h
  exact Nat.le_trans (Assembly.length_readLines_le hread) (Text.length_lines_le source)

theorem Text.Utf8.length_decode_le (bytes : List UInt8) : (decode bytes).length ≤ bytes.length := by
  have general (skip : Nat) : (decodeFrom skip bytes).length ≤ bytes.length := by
    induction bytes generalizing skip with
    | nil => cases skip <;> exact Nat.le_refl _
    | cons b rest ih =>
        cases skip with
        | succ skip => exact Nat.le_succ_of_le (ih skip)
        | zero =>
            simp only [decodeFrom]
            split <;> exact Nat.succ_le_succ (ih _)
  exact general 0

end PlZero
