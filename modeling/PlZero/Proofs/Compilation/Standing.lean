import PlZero.Proofs.Compilation.Programs

namespace PlZero

-- However far the code has been run, it has only put values on top; all of it puts one there.
def Lifts (code : List Instruction) : Prop :=
  ∀ (part rest : List Instruction) (r q : Trail), code = part ++ rest → r.follow part = .ok q →
    r.stack.toList <+: q.stack.toList ∧ q.written = r.written ∧
      (rest = [] → ∃ v, q.stack = r.stack.push v)

theorem toList_prefix_push (s : Stack) (v : Int32) : s.toList <+: (s.push v).toList := by
  simp

theorem of_follow_singleton {r q : Trail} {i : Instruction} (h : r.follow [i] = .ok q) :
    ∃ s v, i.execute r.stack = .ok (s, v) ∧ q = ⟨s, r.written ++ v.toList⟩ := by
  rcases hi : i.execute r.stack with f | ⟨s, v⟩
  · rw [Trail.follow_cons, Trail.step_of_error hi] at h
    cases h
  · rw [Trail.follow_cons, Trail.step_of_ok hi] at h
    cases h
    exact ⟨s, v, rfl, rfl⟩

namespace Lifts

theorem instruction {i : Instruction}
    (h : ∀ s s' v, i.execute s = .ok (s', v) → ∃ x, s' = s.push x ∧ v = none) : Lifts [i] := by
  intro part rest r q hsplit hf
  cases part with
  | nil =>
      cases hf
      exact ⟨List.prefix_rfl, rfl, by rintro rfl; cases hsplit⟩
  | cons j part =>
      obtain ⟨rfl, hnil⟩ := List.cons.inj hsplit
      obtain ⟨rfl, rfl⟩ := List.append_eq_nil_iff.mp hnil.symm
      obtain ⟨s, v, hs, rfl⟩ := of_follow_singleton hf
      obtain ⟨x, rfl, rfl⟩ := h _ _ _ hs
      exact ⟨toList_prefix_push _ _, by simp, fun _ => ⟨x, rfl⟩⟩

theorem whole {c : List Instruction} (hc : Lifts c) {r q : Trail} (hf : r.follow c = .ok q) :
    ∃ v, q = ⟨r.stack.push v, r.written⟩ := by
  obtain ⟨_, hw, hv⟩ := hc c [] r q (by simp) hf
  obtain ⟨v, hv⟩ := hv rfl
  exact ⟨v, by cases q; simp_all⟩

theorem operation {c d : List Instruction} (hc : Lifts c) (hd : Lifts d) {i : Instruction}
    (hi : ∀ s x y s' v, i.execute (Array.push (Array.push s x) y) = .ok (s', v) →
      ∃ z, s' = s.push z ∧ v = none) :
    Lifts (c ++ (d ++ [i])) := by
  intro part rest r q hsplit hf
  rcases List.append_eq_append_iff.mp hsplit with ⟨e, rfl, he⟩ | ⟨e, rfl, rfl⟩
  · -- The run has gone past the first operand.
    obtain ⟨r₁, hr₁, hf⟩ := Trail.of_follow_append hf
    obtain ⟨x, rfl⟩ := hc.whole hr₁
    rcases List.append_eq_append_iff.mp he with ⟨e', rfl, he'⟩ | ⟨e', rfl, rfl⟩
    · obtain ⟨r₂, hr₂, hf⟩ := Trail.of_follow_append hf
      obtain ⟨y, rfl⟩ := hd.whole hr₂
      cases e' with
      | nil =>
          cases hf
          refine ⟨(toList_prefix_push _ x).trans (toList_prefix_push _ y), rfl, ?_⟩
          rintro rfl
          cases he'
      | cons j e' =>
          obtain ⟨rfl, hnil⟩ := List.cons.inj he'
          obtain ⟨rfl, rfl⟩ := List.append_eq_nil_iff.mp hnil.symm
          obtain ⟨s, v, hs, rfl⟩ := of_follow_singleton hf
          obtain ⟨z, rfl, rfl⟩ := hi _ _ _ _ _ hs
          exact ⟨toList_prefix_push _ _, by simp, fun _ => ⟨z, rfl⟩⟩
    · obtain ⟨hp, hw, _⟩ := hd e e' _ q rfl hf
      refine ⟨(toList_prefix_push _ x).trans hp, hw, ?_⟩
      intro hnil
      simp at hnil
  · obtain ⟨hp, hw, _⟩ := hc part e r q rfl hf
    refine ⟨hp, hw, ?_⟩
    intro hnil
    simp at hnil

end Lifts

theorem Stack.combine_lifts {s s' : Stack} {x y : Int32} {v : Option Int32}
    {f : Int32 → Int32 → Except Fault Int32}
    (h : (do let t ← Stack.combine ((s.push x).push y) f; .ok (t, none)) =
      (.ok (s', v) : Except Fault (Stack × Option Int32))) :
    ∃ z, s' = s.push z ∧ v = none := by
  obtain ⟨t, ht, h⟩ := of_bind_eq_ok h
  rw [Stack.combine_push] at ht
  cases h
  cases hf : f x y with
  | error e =>
      rw [hf] at ht
      cases ht
  | ok z =>
      rw [hf] at ht
      cases ht
      exact ⟨z, rfl, rfl⟩

theorem Tree.lifts (offset : String → Nat) {c : Category} (t : Tree c) : Lifts (t.code offset) := by
  have literal (a : Int32) : Lifts [⟨.lit, a⟩] := by
    apply Lifts.instruction
    intro s s' v h
    cases h
    exact ⟨a, rfl, rfl⟩
  induction t with
  | name t =>
      apply Lifts.instruction
      intro s s' v h
      obtain ⟨x, _, hx⟩ := of_bind_eq_ok h
      cases hx
      exact ⟨x, rfl, rfl⟩
  | number t => exact literal _
  | group l e r ih => exact ih
  | plain o ih => exact ih
  | positive s o ih => exact ih
  | single f ih => exact ih
  | lone t ih => exact ih
  | negative _ o ih => exact (literal 0).operation ih fun _ _ _ _ _ h => Stack.combine_lifts h
  | product a _ b iha ihb | quotient a _ b iha ihb | sum a _ b iha ihb
  | difference a _ b iha ihb => exact iha.operation ihb fun _ _ _ _ _ h => Stack.combine_lifts h

-- The last instruction of an item is the only one that may do more than an expression does.
theorem Item.lifts {offset : String → Nat} {i : Item} {part rest : List Instruction} {r q : Trail}
    (hsplit : i.code offset = part ++ rest) (hrest : rest ≠ []) (hf : r.follow part = .ok q) :
    r.stack.toList <+: q.stack.toList ∧ q.written = r.written := by
  have inside {e : Expression} {d : List Instruction} (hd : d.length ≤ 1)
      (hsplit : e.code offset ++ d = part ++ rest) :
      r.stack.toList <+: q.stack.toList ∧ q.written = r.written := by
    rcases List.append_eq_append_iff.mp hsplit with ⟨x, rfl, rfl⟩ | ⟨x, hx, rfl⟩
    · have hpos := List.length_pos_iff.mpr hrest
      rw [List.length_append] at hd
      obtain rfl : x = [] := List.length_eq_zero_iff.mp (by omega)
      obtain ⟨hp, hw, _⟩ := e.lifts offset _ [] r q (by simp) hf
      exact ⟨hp, hw⟩
    · obtain ⟨hp, hw, _⟩ := e.lifts offset part x r q hx hf
      exact ⟨hp, hw⟩
  have alone {j : Instruction} (hsplit : [j] = part ++ rest) :
      r.stack.toList <+: q.stack.toList ∧ q.written = r.written := by
    cases part with
    | nil =>
        cases hf
        exact ⟨List.prefix_rfl, rfl⟩
    | cons k part => exact absurd (List.append_eq_nil_iff.mp (List.cons.inj hsplit).2.symm).2 hrest
  cases i using Item.forms with
  | const c => exact alone hsplit
  | plain word ident stop => exact alone hsplit
  | initial word ident equals e stop =>
      exact inside (e := e) (d := []) (by simp) (by rw [← hsplit]; simp [code])
  | assign ident equals e stop => exact inside (by simp) hsplit
  | print word l e r stop => exact inside (by simp) hsplit
  | empty stop => exact absurd (List.append_eq_nil_iff.mp hsplit.symm).2 hrest

namespace Program

-- Where the code of an item begins.
def address (P : Program) (s : Nat) : Nat :=
  ((P.items.take s).flatMap (Item.code P.offset)).length

theorem address_mono (P : Program) {s s' : Nat} (h : s ≤ s') : P.address s ≤ P.address s' := by
  obtain ⟨more, hmore⟩ := List.take_prefix_take_left (l := P.items) h
  simp [address, ← hmore]

theorem address_succ {P : Program} {s : Nat} {i : Item} (h : P.items[s]? = some i) :
    P.address (s + 1) = P.address s + (i.code P.offset).length := by
  simp [address, List.take_add_one, h]

theorem code_split (P : Program) (s : Nat) :
    P.code = (P.items.take s).flatMap (Item.code P.offset) ++
      (P.items.drop s).flatMap (Item.code P.offset) := by
  rw [← List.flatMap_append, List.take_append_drop, code]

theorem exists_address (P : Program) (k : Nat) :
    ∃ s ≤ P.items.length, P.address s ≤ k ∧ ∀ i, P.items[s]? = some i → k < P.address (s + 1) := by
  have search (s : Nat) (hs : s ≤ P.items.length) (hk : P.address s ≤ k) :
      ∃ s ≤ P.items.length, P.address s ≤ k ∧
        ∀ i, P.items[s]? = some i → k < P.address (s + 1) := by
    induction hn : P.items.length - s generalizing s with
    | zero =>
        refine ⟨s, hs, hk, ?_⟩
        intro i hi
        have hlt := (List.getElem?_eq_some_iff.mp hi).1
        omega
    | succ n ih =>
        by_cases hlt : k < P.address (s + 1)
        · exact ⟨s, hs, hk, fun _ _ => hlt⟩
        · exact ih (s + 1) (by omega) (by omega) (by omega)
  exact search 0 (Nat.zero_le _) (by simp [address])

theorem declared_take (P : Program) (s : Nat) :
    (P.items.take s).filterMap Item.declares? = P.names.take s := by
  simp [items, names, List.take_append, ← List.map_take, List.filterMap_map, Item.declares?,
    Function.comp_def]

-- The machine has run the first `k` instructions and is in the state `r`: the first `s` items are
-- complete and have led to the store `σ`, and their names are at the bottom of the stack.
structure Standing (P : Program) (k : Nat) (r : Trail) (s : Nat) (σ : Store) : Prop where
  bound : s ≤ P.items.length
  begun : P.address s ≤ k
  within : ∀ i, P.items[s]? = some i → k < P.address (s + 1)
  stored : execAll (P.items.take s) {} = .ok σ
  reached : ∃ part, part <+: (P.items.drop s).flatMap (Item.code P.offset) ∧
    P.address s + part.length = k ∧ (σ.image (P.names.take s)).follow part = .ok r

theorem exists_standing {P : Program} (h : P.Lawful) (hsize : P.names.length ≤ 0x80000000) {k : Nat}
    (hk : k ≤ P.code.length) {r : Trail} (hr : Trail.follow {} (P.code.take k) = .ok r) :
    ∃ s σ, P.Standing k r s σ := by
  obtain ⟨s, hs, hbegun, hwithin⟩ := P.exists_address k
  obtain ⟨part, hpart⟩ : (P.items.take s).flatMap (Item.code P.offset) <+: P.code.take k := by
    apply List.prefix_of_prefix_length_le _ (List.take_prefix k P.code)
    · rw [List.length_take, Nat.min_eq_left hk]
      exact hbegun
    · exact ⟨_, (P.code_split s).symm⟩
  have hplace : P.address s + part.length = k := by
    rw [address, ← List.length_append, hpart, List.length_take, Nat.min_eq_left hk]
  have hnext : part <+: (P.items.drop s).flatMap (Item.code P.offset) := by
    have hprefix := List.take_prefix k P.code
    rw [← hpart, P.code_split s] at hprefix
    exact (List.prefix_append_right_inj _).mp hprefix
  have hscoped := P.scoped_items h
  rw [← List.take_append_drop s P.items, scoped_append] at hscoped
  have hframe : Frame P.offset ([] ++ (P.items.take s).filterMap Item.declares?) := by
    rw [List.nil_append, declared_take]
    exact (P.frame h hsize).restrict (List.take_prefix s P.names)
  have hperforms := performs_items _ hframe hscoped.1 {}
  rw [List.nil_append, declared_take] at hperforms
  rw [← hpart] at hr
  obtain ⟨q, hq, hrest⟩ := Trail.of_follow_append hr
  obtain ⟨σ, hexec, rfl⟩ := hperforms.of_follow hq
  exact ⟨s, σ, hs, hbegun, hwithin, hexec, part, hnext, hplace, hrest⟩

theorem slot_of_below {names : List String} {s : Nat} {value : String → Int32} {stack : Stack}
    (h : (names.take s).map value <+: stack.toList) {j : Nat} (hj : j < s) {x : String}
    (hx : names[j]? = some x) : stack[j]? = some (value x) := by
  obtain ⟨more, hmore⟩ := h
  have hget : ((names.take s).map value)[j]? = some (value x) := by
    simp [List.getElem?_take_of_lt hj, hx]
  rw [← Array.getElem?_toList, ← hmore,
    List.getElem?_append_left (List.getElem?_eq_some_iff.mp hget).1, hget]

theorem scoped_item {P : Program} (h : P.Lawful) {s : Nat} {i : Item} (hi : P.items[s]? = some i) :
    (∀ x ∈ i.used, x ∈ P.names.take s) ∧ ∀ x ∈ i.declares?, x ∉ P.names.take s := by
  obtain ⟨hlt, hget⟩ := List.getElem?_eq_some_iff.mp hi
  have hscoped := P.scoped_items h
  rw [← List.take_append_drop s P.items, List.drop_eq_getElem_cons hlt, hget, scoped_append,
    List.nil_append, declared_take] at hscoped
  exact ⟨hscoped.2.1, hscoped.2.2.1⟩

namespace Standing

variable {P : Program} {k : Nat} {r : Trail} {s : Nat} {σ : Store}

theorem le (h : P.Standing k r s σ) {d : Nat} (hd : d ≤ P.items.length) (hk : P.address d ≤ k) :
    d ≤ s := by
  refine Nat.le_of_not_lt fun hlt => ?_
  have hwithin := h.within _ (List.getElem?_eq_getElem (Nat.lt_of_lt_of_le hlt hd))
  have hmono : P.address (s + 1) ≤ P.address d := P.address_mono hlt
  omega

theorem inside (h : P.Standing k r s σ) {i : Item} (hi : P.items[s]? = some i) :
    ∃ part j rest, i.code P.offset = part ++ j :: rest ∧ P.code[k]? = some j ∧
      P.address s + part.length = k ∧ (σ.image (P.names.take s)).follow part = .ok r := by
  obtain ⟨part, hpart, hplace, hr⟩ := h.reached
  obtain ⟨hlt, hget⟩ := List.getElem?_eq_some_iff.mp hi
  have hcode := P.code_split s
  rw [List.drop_eq_getElem_cons hlt, hget, List.flatMap_cons] at hpart hcode
  have hwithin := h.within i hi
  rw [address_succ hi] at hwithin
  obtain ⟨rest, hrest⟩ : part <+: i.code P.offset :=
    List.prefix_of_prefix_length_le hpart (List.prefix_append _ _) (by omega)
  cases rest with
  | nil =>
      rw [← hrest, List.append_nil] at hwithin
      omega
  | cons j rest =>
      refine ⟨part, j, rest, hrest.symm, ?_, hplace, hr⟩
      rw [hcode, ← hrest, ← hplace, address, List.getElem?_append_right (by omega)]
      simp

theorem exists_item (h : P.Standing k r s σ) (hk : k < P.code.length) :
    ∃ i, P.items[s]? = some i := by
  cases hi : P.items[s]? with
  | some i => exact ⟨i, rfl⟩
  | none =>
      have hall : P.items.take s = P.items := List.take_of_length_le (List.getElem?_eq_none_iff.mp hi)
      have hbegun := h.begun
      rw [address, hall] at hbegun
      exact absurd hk (Nat.not_lt.mpr hbegun)

theorem outside (h : P.Standing k r s σ) (hi : P.items[s]? = none) :
    k = P.address s ∧ r = σ.image (P.names.take s) := by
  obtain ⟨part, hpart, hplace, hr⟩ := h.reached
  rw [List.drop_eq_nil_of_le (List.getElem?_eq_none_iff.mp hi)] at hpart
  obtain rfl := List.prefix_nil.mp hpart
  cases hr
  exact ⟨by simpa using hplace.symm, rfl⟩

theorem eq_image (h : P.Standing k r s σ) (hk : k = P.address s) :
    r = σ.image (P.names.take s) := by
  obtain ⟨part, _, hplace, hr⟩ := h.reached
  obtain rfl : part = [] := List.length_eq_zero_iff.mp (by omega)
  cases hr
  rfl

theorem below (h : P.Standing k r s σ) :
    (P.names.take s).map σ.value <+: r.stack.toList := by
  cases hi : P.items[s]? with
  | none =>
      obtain ⟨_, rfl⟩ := h.outside hi
      exact List.prefix_rfl
  | some i =>
      obtain ⟨part, j, rest, hsplit, _, _, hr⟩ := h.inside hi
      exact (Item.lifts hsplit (List.cons_ne_nil j rest) hr).1

theorem slot (h : P.Standing k r s σ) {j : Nat} (hj : j < s) {x : String}
    (hx : P.names[j]? = some x) : r.stack[j]? = some (σ.value x) :=
  slot_of_below h.below hj hx

theorem size_le (h : P.Standing k r s σ) : min s P.names.length ≤ r.stack.size := by
  have hlen := h.below.length_le
  simpa using hlen

end Standing

end Program

end PlZero
