import PlZero.Proofs.Compilation.Standing

namespace PlZero

theorem Tree.of_mem_code {offset : String → Nat} {c : Category} (t : Tree c) :
    ∀ i ∈ t.code offset, i.op ≠ .sto ∧ i.op ≠ .wrt ∧
      (i.op = .lod → ∃ x ∈ t.names, i.operand = Int32.ofNat (offset x)) := by
  induction t with
  | name t => simp [code, names]
  | number t => simp [code]
  | group l e r ih => exact ih
  | plain o ih => exact ih
  | positive s o ih => exact ih
  | single f ih => exact ih
  | lone t ih => exact ih
  | negative s o ih =>
      intro i hi
      simp only [code, List.mem_cons, List.mem_append, List.not_mem_nil, or_false] at hi
      rcases hi with rfl | hi | rfl
      · simp
      · exact ih i hi
      · simp
  | product a _ b iha ihb | quotient a _ b iha ihb | sum a _ b iha ihb
  | difference a _ b iha ihb =>
      intro i hi
      simp only [code, List.mem_append, List.mem_singleton] at hi
      rcases hi with hi | hi | rfl
      · obtain ⟨hs, hw, hl⟩ := iha i hi
        exact ⟨hs, hw, fun h => (hl h).imp fun x hx => ⟨by simp [names, hx.1], hx.2⟩⟩
      · obtain ⟨hs, hw, hl⟩ := ihb i hi
        exact ⟨hs, hw, fun h => (hl h).imp fun x hx => ⟨by simp [names, hx.1], hx.2⟩⟩
      · simp

namespace Item

def target? : Item → Option String
  | .stmt s => s.target?
  | _ => none

theorem lod_of_mem {offset : String → Nat} {i : Item} {j : Instruction} (hj : j ∈ i.code offset)
    (hop : j.op = .lod) : ∃ x ∈ i.used, j.operand = Int32.ofNat (offset x) := by
  have inside {e : Expression} {d : List Instruction} (hd : ∀ j ∈ d, j.op ≠ .lod)
      (hused : ∀ x ∈ e.names, x ∈ i.used) (hj : j ∈ e.code offset ++ d) :
      ∃ x ∈ i.used, j.operand = Int32.ofNat (offset x) := by
    rcases List.mem_append.mp hj with hj | hj
    · obtain ⟨x, hx, heq⟩ := (e.of_mem_code j hj).2.2 hop
      exact ⟨x, hused x hx, heq⟩
    · exact absurd hop (hd j hj)
  cases i using forms with
  | const | plain =>
      obtain rfl := List.mem_singleton.mp hj
      cases hop
  | initial word ident equals e stop =>
      exact inside (e := e) (d := []) (by simp) (fun x hx => hx) (by simpa [code] using hj)
  | assign ident equals e stop =>
      exact inside (by simp) (by simp +contextual [used, Statement.used]) hj
  | print word l e r stop =>
      exact inside (by simp) (by simp +contextual [used, Statement.used]) hj
  | empty stop => cases hj

theorem sto_of_split {offset : String → Nat} {i : Item} {part rest : List Instruction}
    {j : Instruction} (hsplit : i.code offset = part ++ j :: rest) (hop : j.op = .sto) :
    ∃ ident equals e stop, i = .stmt (.assign ident equals e stop) ∧ part = e.code offset ∧
      j = ⟨.sto, Int32.ofNat (offset ident.1.lexeme)⟩ := by
  have hj : j ∈ i.code offset := by simp [hsplit]
  have no_sto {e : Expression} (hj : j ∈ e.code offset) : False := (e.of_mem_code j hj).1 hop
  cases i using forms with
  | const | plain =>
      obtain rfl := List.mem_singleton.mp hj
      cases hop
  | initial word ident equals e stop => exact (no_sto hj).elim
  | assign ident equals e stop =>
      rcases List.append_eq_append_iff.mp hsplit with ⟨x, rfl, hx⟩ | ⟨x, hx, hlast⟩
      · cases x with
        | nil => exact ⟨ident, equals, e, stop, rfl, by simp, (List.cons.inj hx).1.symm⟩
        | cons y x => simp at hx
      · cases x with
        | nil => exact ⟨ident, equals, e, stop, rfl, by simpa using hx.symm, (List.cons.inj hlast).1⟩
        | cons y x =>
            obtain rfl := (List.cons.inj hlast).1
            exact (no_sto (e := e) (by simp [hx])).elim
  | print word l e r stop =>
      rcases List.mem_append.mp hj with hj | hj
      · exact (no_sto hj).elim
      · obtain rfl := List.mem_singleton.mp hj
        cases hop
  | empty stop => cases hj

theorem exec_value {i : Item} {σ τ : Store} (h : i.exec σ = .ok τ) {x : String}
    (hd : i.declares? ≠ some x) (ht : i.target? ≠ some x) : τ.value x = σ.value x := by
  have evaluated {e : Expression} {g : Int32 → Store → Store}
      (hg : ∀ v m, (g v { σ with divisions := m }).value x = σ.value x)
      (h : (σ.eval e >>= fun y => .ok (g y.1 y.2)) = .ok τ) : τ.value x = σ.value x := by
    obtain ⟨y, hy, h⟩ := of_bind_eq_ok h
    cases h
    unfold Store.eval at hy
    rcases he : e.eval σ.value σ.divisions with m | ⟨v, m⟩
    · rw [he] at hy
      cases hy
    · rw [he] at hy
      cases hy
      exact hg v m
  have other {y : String} (hy : some y ≠ some x) (ρ : Store) (v : Int32) :
      (ρ.set y v).value x = ρ.value x := if_neg fun hxy => hy (congrArg some hxy.symm)
  cases i using forms with
  | const | plain =>
      cases h
      exact other hd σ _
  | initial word ident equals e stop =>
      exact evaluated (g := fun v ρ => ρ.set ident.1.lexeme v) (fun v m => other hd _ v) h
  | assign ident equals e stop =>
      exact evaluated (g := fun v ρ => ρ.set ident.1.lexeme v) (fun v m => other ht _ v) h
  | print word l e r stop => exact evaluated (g := fun v ρ => ρ.print v) (fun v m => rfl) h
  | empty stop =>
      cases h
      rfl

theorem of_target {i : Item} {x : String} (h : i.target? = some x) :
    ∃ ident equals e stop, i = .stmt (.assign ident equals e stop) ∧ ident.1.lexeme = x := by
  cases i using forms with
  | assign ident equals e stop => exact ⟨ident, equals, e, stop, rfl, Option.some.inj h⟩
  | const | plain | initial | print | empty => cases h

end Item

theorem execAll_value {l : List Item} {σ τ : Store} (h : execAll l σ = .ok τ) {x : String}
    (hl : ∀ i ∈ l, i.declares? ≠ some x ∧ i.target? ≠ some x) : τ.value x = σ.value x := by
  induction l generalizing σ with
  | nil =>
      cases h
      rfl
  | cons i l ih =>
      obtain ⟨hi, hl⟩ := List.forall_mem_cons.mp hl
      rw [execAll, List.foldlM_cons] at h
      obtain ⟨ρ, hexec, h⟩ := of_bind_eq_ok h
      rw [ih h hl, Item.exec_value hexec hi.1 hi.2]

theorem of_execAll_append {l l' : List Item} {σ τ : Store} (h : execAll (l ++ l') σ = .ok τ) :
    ∃ ρ, execAll l σ = .ok ρ ∧ execAll l' ρ = .ok τ := by
  rw [execAll, List.foldlM_append] at h
  exact of_bind_eq_ok h

namespace Program

theorem offset_of_names {P : Program} (h : P.Lawful) {j : Nat} {x : String}
    (hx : P.names[j]? = some x) : P.offset x = j := by
  obtain ⟨hlt, rfl⟩ := List.getElem?_eq_some_iff.mp hx
  exact h.distinct.idxOf_getElem j hlt

theorem items_of_constants {P : Program} {j : Nat} {c : Constant} (h : P.constants[j]? = some c) :
    P.items[j]? = some (.const c) := by
  obtain ⟨hlt, rfl⟩ := List.getElem?_eq_some_iff.mp h
  simp [items, List.getElem?_append, hlt]

theorem names_of_constants {P : Program} {j : Nat} {c : Constant} (h : P.constants[j]? = some c) :
    P.names[j]? = some c.name := by
  obtain ⟨hlt, rfl⟩ := List.getElem?_eq_some_iff.mp h
  simp [names, List.getElem?_append, hlt]

theorem target_ne_constant {P : Program} (h : P.Lawful) {c : Constant} (hc : c ∈ P.constants)
    {i : Item} (hi : i ∈ P.items) : i.target? ≠ some c.name := by
  intro ht
  cases i with
  | const c => cases ht
  | var v => cases ht
  | stmt s =>
      have hs : s ∈ P.statements := by simpa [items] using hi
      obtain ⟨v, hv, hname⟩ := h.target s hs c.name ht
      have hdistinct := (List.nodup_append.mp h.distinct).2.2
      exact hdistinct c.name (List.mem_map_of_mem hc) v.name (List.mem_map_of_mem hv) hname.symm

theorem constant_value {P : Program} (h : P.Lawful) {s : Nat} {σ : Store}
    (hexec : execAll (P.items.take s) {} = .ok σ) {j : Nat} {c : Constant}
    (hc : P.constants[j]? = some c) (hj : j < s) : σ.value c.name = Int32.ofInt c.integer := by
  obtain ⟨hlt, hget⟩ := List.getElem?_eq_some_iff.mp (items_of_constants hc)
  have hsplit : P.items.take s =
      P.items.take j ++ .const c :: (P.items.drop (j + 1)).take (s - (j + 1)) := by
    have hs : s = j + (s - (j + 1) + 1) := by omega
    rw [hs, List.take_add, List.drop_eq_getElem_cons hlt, hget, List.take_succ_cons, ← hs]
  have hnew : c.name ∉ (P.items.drop (j + 1)).filterMap Item.declares? := by
    have hdistinct := h.distinct
    rw [← P.filterMap_items_declares, ← List.take_append_drop j P.items,
      List.drop_eq_getElem_cons hlt, hget, List.filterMap_append,
      List.filterMap_cons_some (by rfl : Item.declares? (.const c) = some c.name)] at hdistinct
    exact (List.nodup_cons.mp (List.nodup_append.mp hdistinct).2.1).1
  rw [hsplit] at hexec
  obtain ⟨ρ, _, hrest⟩ := of_execAll_append hexec
  change execAll _ (ρ.set c.name (Int32.ofInt c.integer)) = .ok σ at hrest
  rw [execAll_value hrest]
  · simp [Store.set]
  · intro i hi
    have hi := List.mem_of_mem_take hi
    refine ⟨fun hd => hnew (List.mem_filterMap.mpr ⟨i, hi, hd⟩), ?_⟩
    exact target_ne_constant h (List.mem_of_getElem? hc) (List.mem_of_mem_drop hi)

namespace Standing

variable {P : Program} {k : Nat} {r : Trail} {s : Nat} {σ : Store}

theorem assigned (hs : P.Standing k r s σ) (h : P.Lawful) (hsize : P.names.length ≤ 0x80000000)
    {i : Instruction} (hi : P.code[k]? = some i) {r' : Trail} (hr' : r.follow [i] = .ok r') {j : Nat}
    (hj : j < s) {x : String} (hx : P.names[j]? = some x) (hne : r'.stack[j]? ≠ r.stack[j]?) :
    ∃ ident equals e stop, P.items[s]? = some (.stmt (.assign ident equals e stop)) ∧
      ident.1.lexeme = x ∧ k + 1 = P.address (s + 1) ∧ i = ⟨.sto, Int32.ofNat j⟩ := by
  obtain ⟨item, hitem⟩ := hs.exists_item (List.getElem?_eq_some_iff.mp hi).1
  obtain ⟨part, i', rest, hsplit, hcode, hplace, hr⟩ := hs.inside hitem
  obtain rfl : i' = i := Option.some.inj (hcode.symm.trans hi)
  rw [hs.slot hj hx] at hne
  have hrun : (σ.image (P.names.take s)).follow (part ++ [i']) = .ok r' := by
    rw [Trail.follow_append_of_ok hr, hr']
  cases rest with
  | cons i'' rest =>
      have hsplit : item.code P.offset = part ++ [i'] ++ i'' :: rest := by simpa using hsplit
      have hlifts := Item.lifts hsplit (List.cons_ne_nil i'' rest) hrun
      exact absurd (slot_of_below hlifts.1 hj hx) hne
  | nil =>
      obtain ⟨hused, hnew⟩ := scoped_item h hitem
      have hframe := (P.frame h hsize).restrict (List.take_prefix s P.names)
      have hperforms := item.performs hframe hused hnew σ
      rw [hsplit] at hperforms
      obtain ⟨τ, hexec, rfl⟩ := hperforms.of_follow hrun
      have hmem : x ∈ P.names.take s :=
        List.mem_of_getElem? (by rw [List.getElem?_take_of_lt hj, hx])
      have hbelow : (P.names.take s).map τ.value <+:
          (τ.image (P.names.take s ++ item.declares?.toList)).stack.toList := by
        simp [Store.image]
      have hslot := slot_of_below hbelow hj hx
      have hvalue : τ.value x ≠ σ.value x := by
        intro heq
        exact hne (hslot.trans (congrArg some heq))
      have htarget : item.target? = some x := by
        by_contra ht
        exact hvalue (Item.exec_value hexec (fun hd => hnew x hd hmem) ht)
      obtain ⟨ident, equals, e, stop, rfl, rfl⟩ := Item.of_target htarget
      refine ⟨ident, equals, e, stop, hitem, rfl, ?_, ?_⟩
      · rw [address_succ hitem, hsplit, List.length_append, ← hplace]
        rfl
      · have hlast := (List.append_inj' hsplit rfl).2
        rw [← (List.cons.inj hlast).1, P.offset_of_names h hx]

theorem addressed (hs : P.Standing k r s σ) (h : P.Lawful) (hsize : P.names.length ≤ 0x80000000)
    {i : Instruction} (hi : P.code[k]? = some i) (hop : i.op = .lod ∨ i.op = .sto) :
    ∃ j : Nat, i.operand.toInt = j ∧ j < min s P.names.length ∧
      (i.op = .sto → min s P.names.length < r.stack.size) := by
  obtain ⟨item, hitem⟩ := hs.exists_item (List.getElem?_eq_some_iff.mp hi).1
  obtain ⟨part, i', rest, hsplit, hcode, _, hr⟩ := hs.inside hitem
  obtain rfl : i' = i := Option.some.inj (hcode.symm.trans hi)
  obtain ⟨hused, _⟩ := scoped_item h hitem
  have hframe := (P.frame h hsize).restrict (List.take_prefix s P.names)
  have hslot {x : String} (hx : x ∈ item.used) :
      (Int32.ofNat (P.offset x)).toInt = P.offset x ∧ P.offset x < min s P.names.length := by
    refine ⟨toInt_ofNat_slot (hframe.slot_small (hused x hx)), ?_⟩
    simpa using hframe.slot_lt (hused x hx)
  rcases hop with hop | hop
  · have hmem : i' ∈ item.code P.offset := by simp [hsplit]
    obtain ⟨x, hx, hoperand⟩ := Item.lod_of_mem hmem hop
    rw [hoperand, hop]
    exact ⟨P.offset x, (hslot hx).1, (hslot hx).2, by simp⟩
  · obtain ⟨ident, equals, e, stop, rfl, rfl, rfl⟩ := Item.sto_of_split hsplit hop
    obtain ⟨v, rfl⟩ := (e.lifts P.offset).whole hr
    have hx : ident.1.lexeme ∈ (Item.stmt (.assign ident equals e stop)).used := by
      simp [Item.used, Statement.target?]
    refine ⟨P.offset ident.1.lexeme, (hslot hx).1, (hslot hx).2, fun _ => ?_⟩
    simp [Store.image]

end Standing

end Program

theorem Execution.advance_lifts {m : Execution} {k : Nat} (hk : m.machine.ip = k)
    {c after : List Instruction} (hcode : m.machine.program.toList.drop k = c ++ after)
    (hc : Lifts c) (hsilent : ∀ i ∈ c, i.op ≠ .wrt) {j : Nat} (hj : j ≤ c.length) :
    (m.machine.stack.toList <+: (m.advance j).2.machine.stack.toList ∧
      (m.advance j).2.console.sink = m.console.sink ∧
      (m.advance j).2.console.stdout = m.console.stdout) ∧
    (m.machine.halted = false → j = c.length → (m.advance j).1 = none →
      (m.advance j).2.machine.ip = (k + c.length : Nat) ∧
      ∃ v, (m.advance j).2.machine.stack = m.machine.stack.push v) := by
  cases busy : m.machine.halted with
  | true =>
      rw [advance_of_halted busy]
      exact ⟨⟨List.prefix_rfl, rfl, rfl⟩, by simp⟩
  | false =>
      obtain ⟨done, q, hq, hcase⟩ := advance_split j hk busy
      have hprefix := hq.code
      rw [hcode] at hprefix
      obtain ⟨rest, rfl⟩ : done <+: c :=
        List.prefix_of_prefix_length_le hprefix (List.prefix_append c after) (by omega)
      obtain ⟨new, hnew, _⟩ := hq.trail []
      obtain ⟨hstack, _, hpush⟩ := hc done rest _ _ rfl hnew
      obtain ⟨hsink, hstdout⟩ := hq.silent fun i hi => hsilent i (List.mem_append_left rest hi)
      rcases hcase with ⟨hlen, hadvance⟩ | ⟨hlen, last⟩
      · rw [hadvance]
        refine ⟨⟨hstack, hsink, hstdout⟩, ?_⟩
        rintro - rfl -
        obtain rfl : rest = [] := List.length_eq_zero_iff.mp (by simpa using hlen)
        exact ⟨by simpa using hq.place, hpush rfl⟩
      · obtain ⟨i, more, rfl⟩ : ∃ i more, rest = i :: more := by
          apply List.exists_cons_of_ne_nil
          rintro rfl
          simp at hj
          omega
        have here : q.machine.instruction? = some i := by
          rw [instruction?_of_ip hq.place, hq.program, ← List.getElem?_drop, hcode]
          simp
        have hwrt (i' : Instruction) (h : q.machine.instruction? = some i') : i'.op ≠ .wrt := by
          obtain rfl : i = i' := Option.some.inj (here.symm.trans h)
          exact hsilent i (by simp)
        refine ⟨?_, ?_⟩
        · rw [last.machine_eq, last.console_eq hwrt]
          exact ⟨hstack, hsink, hstdout⟩
        · rintro - - hnone
          rw [hnone] at last
          cases here.symm.trans last.past_of_none

end PlZero
