import PlZero.Proofs.Machine.Trail
import PlZero.Proofs.Syntax.Meaning

namespace PlZero

theorem toInt_ofNat_slot {k : Nat} (hk : k < 0x80000000) : (Int32.ofNat k).toInt = k := by
  rw [← Int32.ofInt_eq_ofNat]
  exact Int32.toInt_ofInt_of_le (by omega) (by omega)

theorem ofInt_add_toInt (x y : Int32) : Int32.ofInt (x.toInt + y.toInt) = x + y := by
  simp [Int32.ofInt_add]

theorem ofInt_sub_toInt (x y : Int32) : Int32.ofInt (x.toInt - y.toInt) = x - y := by
  simp [Int32.ofInt_sub]

theorem ofInt_mul_toInt (x y : Int32) : Int32.ofInt (x.toInt * y.toInt) = x * y := by
  simp [Int32.ofInt_mul]

theorem ofInt_tdiv_toInt (x y : Int32) : Int32.ofInt (x.toInt.tdiv y.toInt) = x / y := by
  apply Int32.toInt_inj.mp
  rw [Int32.toInt_ofInt, Int32.toInt_div]

namespace Stack

theorem pop_push (s : Stack) (v : Int32) : Stack.pop (s.push v) = .ok (v, s) := by
  simp [Stack.pop]

theorem combine_push (s : Stack) (x y : Int32) (f : Int32 → Int32 → Except Fault Int32) :
    Stack.combine ((s.push x).push y) f = (f x y).map s.push := by
  simp only [Stack.combine, Stack.operands, pop_push, bind, Except.bind]
  cases f x y <;> rfl

theorem load_slot {s : Stack} {k : Nat} {v : Int32} (hk : k < 0x80000000) (h : s[k]? = some v) :
    s.load (Int32.ofNat k) = .ok v := by
  simp [Stack.load, toInt_ofNat_slot hk, h]

theorem store_slot {s : Stack} {k : Nat} (hk : k < 0x80000000) (h : k < s.size) (v : Int32) :
    Stack.store (s.push v) (Int32.ofNat k) = .ok (s.set! k v) := by
  simp only [Stack.store, pop_push, toInt_ofNat_slot hk]
  simp [bind, Except.bind, h]

end Stack

def divisions (code : List Instruction) : Nat := code.countP (·.op == .div)

@[simp] theorem divisions_append (c d : List Instruction) :
    divisions (c ++ d) = divisions c + divisions d := List.countP_append

-- The code stops at a division by zero, before which `m - n` divisions are made and the values `w` are
-- written.
def Traps (code : List Instruction) (r : Trail) (w : List Int32) (n m : Nat) : Prop :=
  ∃ done rest s, code = done ++ ⟨.div, 0⟩ :: rest ∧ r.follow done = .ok ⟨s, w⟩ ∧
    Instruction.execute ⟨.div, 0⟩ s = .error .divisionByZero ∧ m = n + divisions done

namespace Traps

variable {c d : List Instruction} {r q : Trail} {w : List Int32} {n m : Nat}

theorem append (h : Traps c r w n m) : Traps (c ++ d) r w n m := by
  obtain ⟨done, rest, s, rfl, hs⟩ := h
  exact ⟨done, rest ++ d, s, by simp, hs⟩

theorem prepend (hc : r.follow c = .ok q) (h : Traps d q w (n + divisions c) m) :
    Traps (c ++ d) r w n m := by
  obtain ⟨done, rest, s, rfl, hs, hdiv, rfl⟩ := h
  refine ⟨c ++ done, rest, s, by simp, ?_, hdiv, by simp [Nat.add_assoc]⟩
  rw [Trail.follow_append_of_ok hc, hs]

theorem not_ok (h : Traps c r w n m) : r.follow c ≠ .ok q := by
  obtain ⟨done, rest, s, rfl, hs, hdiv, rfl⟩ := h
  rw [Trail.follow_append_of_ok hs, Trail.follow_cons, Trail.step_of_error hdiv]
  rintro ⟨⟩

end Traps

-- From the stack `s` the code puts the value on top of `base` and writes nothing, or it traps.
def Computes (code : List Instruction) (s base : Stack) (n : Nat) :
    Except Nat (Int32 × Nat) → Prop
  | .ok (v, m) =>
      (∀ w, Trail.follow ⟨s, w⟩ code = .ok ⟨base.push v, w⟩) ∧ m = n + divisions code
  | .error m => ∀ w, Traps code ⟨s, w⟩ w n m

theorem follow_silent {i : Instruction} {s s' : Stack} (h : i.execute s = .ok (s', none))
    (w : List Int32) : Trail.follow ⟨s, w⟩ [i] = .ok ⟨s', w⟩ := by
  rw [Trail.follow_cons, Trail.step_of_ok h]
  simp [Except.bind]

namespace Computes

theorem bind {c d : List Instruction} {s base top : Stack} {n : Nat}
    {a : Except Nat (Int32 × Nat)} {f : Int32 × Nat → Except Nat (Int32 × Nat)}
    (hc : Computes c s base n a) (hd : ∀ v m, Computes d (base.push v) top m (f (v, m))) :
    Computes (c ++ d) s top n (a >>= f) := by
  cases a with
  | error m => exact fun w => (hc w).append
  | ok x =>
      obtain ⟨v, m⟩ := x
      obtain ⟨hv, rfl⟩ := hc
      have hd := hd v (n + divisions c)
      change Computes (c ++ d) s top n (f (v, n + divisions c))
      cases hf : f (v, n + divisions c) with
      | error m =>
          rw [hf] at hd
          exact fun w => .prepend (hv w) (hd w)
      | ok x =>
          rw [hf] at hd
          obtain ⟨hx, hm⟩ := hd
          refine ⟨?_, by simp [hm, Nat.add_assoc]⟩
          intro w
          rw [Trail.follow_append_of_ok (hv w), hx]

theorem instruction {i : Instruction} {s base : Stack} {v : Int32} {n : Nat} (hi : i.op ≠ .div)
    (h : i.execute s = .ok (base.push v, none)) : Computes [i] s base n (.ok (v, n)) :=
  ⟨follow_silent h, by simp [divisions, hi]⟩

theorem operation {op : Opcode} (hop : op ≠ .div) {f : Int32 → Int32 → Int32}
    (h : ∀ s, Instruction.execute ⟨op, 0⟩ s =
      do let s ← s.combine fun a b => .ok (f a b); .ok (s, none))
    (s : Stack) (x y : Int32) (n : Nat) :
    Computes [⟨op, 0⟩] ((s.push x).push y) s n (.ok (f x y, n)) := by
  apply Computes.instruction hop
  rw [h, Stack.combine_push]
  rfl

theorem addition (s : Stack) (x y : Int32) (n : Nat) :
    Computes [⟨.add, 0⟩] ((s.push x).push y) s n (.ok (Int32.ofInt (x.toInt + y.toInt), n)) := by
  rw [ofInt_add_toInt]
  exact operation (by simp) (fun _ => rfl) s x y n

theorem subtraction (s : Stack) (x y : Int32) (n : Nat) :
    Computes [⟨.sub, 0⟩] ((s.push x).push y) s n (.ok (Int32.ofInt (x.toInt - y.toInt), n)) := by
  rw [ofInt_sub_toInt]
  exact operation (by simp) (fun _ => rfl) s x y n

theorem multiplication (s : Stack) (x y : Int32) (n : Nat) :
    Computes [⟨.mul, 0⟩] ((s.push x).push y) s n (.ok (Int32.ofInt (x.toInt * y.toInt), n)) := by
  rw [ofInt_mul_toInt]
  exact operation (by simp) (fun _ => rfl) s x y n

theorem division (s : Stack) (x y : Int32) (n : Nat) :
    Computes [⟨.div, 0⟩] ((s.push x).push y) s n
      (if y = 0 then .error n else .ok (Int32.ofInt (x.toInt.tdiv y.toInt), n + 1)) := by
  by_cases hy : y = 0
  · rw [if_pos hy]
    intro w
    refine ⟨[], [], _, rfl, rfl, ?_, rfl⟩
    simp only [Instruction.execute, Stack.combine_push, divide, if_pos hy]
    rfl
  · rw [if_neg hy]
    refine ⟨follow_silent ?_, by simp [divisions]⟩
    simp only [Instruction.execute, Stack.combine_push, divide, if_neg hy, ofInt_tdiv_toInt]
    rfl

end Computes

-- The names of `xs` have their values in the slots that the code addresses.
def Holds (offset : String → Nat) (value : String → Int32) (s : Stack) (xs : List String) : Prop :=
  ∀ x ∈ xs, offset x < 0x80000000 ∧ s[offset x]? = some (value x)

theorem Holds.push {offset : String → Nat} {value : String → Int32} {s : Stack} {xs : List String}
    (h : Holds offset value s xs) (v : Int32) : Holds offset value (s.push v) xs := by
  intro x hx
  obtain ⟨hlt, hget⟩ := h x hx
  obtain ⟨hs, _⟩ := Array.getElem?_eq_some_iff.mp hget
  exact ⟨hlt, by rwa [Array.getElem?_push_lt hs, ← Array.getElem?_eq_getElem hs]⟩

theorem Holds.left {offset : String → Nat} {value : String → Int32} {s : Stack} {xs ys : List String}
    (h : Holds offset value s (xs ++ ys)) : Holds offset value s xs :=
  fun x hx => h x (List.mem_append_left ys hx)

theorem Holds.right {offset : String → Nat} {value : String → Int32} {s : Stack} {xs ys : List String}
    (h : Holds offset value s (xs ++ ys)) : Holds offset value s ys :=
  fun x hx => h x (List.mem_append_right xs hx)

theorem Tree.computes {offset : String → Nat} {value : String → Int32} {c : Category} (t : Tree c)
    {s : Stack} (h : Holds offset value s t.names) (n : Nat) :
    Computes (t.code offset) s s n (t.eval value n) := by
  induction t generalizing s n with
  | name t =>
      obtain ⟨hlt, hget⟩ := h t.1.lexeme (by simp [names])
      apply Computes.instruction (by simp)
      simp only [Instruction.execute, Stack.load_slot hlt hget]
      rfl
  | number t =>
      rw [eval, Int32.ofInt_eq_ofNat]
      exact Computes.instruction (by simp) rfl
  | group l e r ih => exact ih h n
  | plain o ih => exact ih h n
  | positive s o ih => exact ih h n
  | single f ih => exact ih h n
  | lone t ih => exact ih h n
  | negative _ o ih =>
      have hzero : Computes [⟨.lit, 0⟩] s s n (.ok (0, n)) := .instruction (by simp) rfl
      have hneg := hzero.bind (f := fun z => o.eval value z.2 >>= fun x =>
          .ok (Int32.ofInt (z.1.toInt - x.1.toInt), x.2)) fun z m =>
        (ih (h.push z) m).bind fun x m => .subtraction s z x m
      exact hneg
  | product a _ b iha ihb =>
      exact (iha h.left n).bind fun x m => (ihb (h.right.push x) m).bind fun y m =>
        .multiplication s x y m
  | quotient a _ b iha ihb =>
      exact (iha h.left n).bind fun x m => (ihb (h.right.push x) m).bind fun y m =>
        .division s x y m
  | sum a _ b iha ihb =>
      exact (iha h.left n).bind fun x m => (ihb (h.right.push x) m).bind fun y m =>
        .addition s x y m
  | difference a _ b iha ihb =>
      exact (iha h.left n).bind fun x m => (ihb (h.right.push x) m).bind fun y m =>
        .subtraction s x y m

end PlZero
