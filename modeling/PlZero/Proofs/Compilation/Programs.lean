import PlZero.Proofs.Analysis.Declarations
import PlZero.Proofs.Compilation.Expressions

namespace PlZero

namespace Store

def image (σ : Store) (names : List String) : Trail := ⟨(names.map σ.value).toArray, σ.printed⟩

theorem map_set_of_not_mem {names : List String} {x : String} (hx : x ∉ names) (σ : Store)
    (v : Int32) : names.map (σ.set x v).value = names.map σ.value := by
  apply List.map_congr_left
  intro y hy
  have hyx : y ≠ x := ne_of_mem_of_not_mem hy hx
  exact if_neg hyx

theorem set_idxOf_map {names : List String} (hn : names.Nodup) {x : String} (hx : x ∈ names)
    (σ : Store) (v : Int32) :
    (names.map σ.value).set (names.idxOf x) v = names.map (σ.set x v).value := by
  induction names with
  | nil => cases hx
  | cons y names ih =>
      obtain ⟨hy, hn⟩ := List.nodup_cons.mp hn
      by_cases hyx : y = x
      · subst hyx
        rw [List.idxOf_cons_self, List.map_cons, List.set_cons_zero, List.map_cons,
          map_set_of_not_mem hy]
        simp [set]
      · have hx : x ∈ names := by
          rcases List.mem_cons.mp hx with rfl | hx
          · exact absurd rfl hyx
          · exact hx
        rw [List.idxOf_cons_ne names hyx, List.map_cons, List.set_cons_succ, ih hn hx, List.map_cons]
        simp [set, hyx]

end Store

-- The slot of a name is its place among the names.
structure Frame (offset : String → Nat) (names : List String) : Prop where
  nodup : names.Nodup
  small : names.length ≤ 0x80000000
  place : ∀ x ∈ names, offset x = names.idxOf x

namespace Frame

variable {offset : String → Nat} {names : List String}

theorem restrict (h : Frame offset names) {first : List String} (hp : first <+: names) :
    Frame offset first := by
  obtain ⟨more, rfl⟩ := hp
  refine ⟨(List.nodup_append.mp h.nodup).1, ?_, ?_⟩
  · exact Nat.le_trans (List.prefix_append first more).length_le h.small
  · intro x hx
    rw [h.place x (List.mem_append_left more hx), List.idxOf_append_of_mem hx]

theorem slot_lt (h : Frame offset names) {x : String} (hx : x ∈ names) :
    offset x < names.length := by
  rw [h.place x hx]
  exact List.idxOf_lt_length_of_mem hx

theorem slot_small (h : Frame offset names) {x : String} (hx : x ∈ names) : offset x < 0x80000000 :=
  Nat.lt_of_lt_of_le (h.slot_lt hx) h.small

theorem holds (h : Frame offset names) (σ : Store) {xs : List String} (hxs : ∀ x ∈ xs, x ∈ names) :
    Holds offset σ.value (σ.image names).stack xs := by
  intro x hx
  refine ⟨h.slot_small (hxs x hx), ?_⟩
  rw [h.place x (hxs x hx)]
  have hlt := List.idxOf_lt_length_of_mem (hxs x hx)
  simp [Store.image, hlt]

end Frame

-- The code takes the machine from the state of `σ` to the state that the result stands for.
def Performs (code : List Instruction) (names names' : List String) (σ : Store) :
    Except Store Store → Prop
  | .ok τ =>
      (σ.image names).follow code = .ok (τ.image names') ∧ τ.divisions = σ.divisions + divisions code
  | .error τ => Traps code (σ.image names) τ.printed σ.divisions τ.divisions

namespace Performs

theorem bind {c d : List Instruction} {names names' names'' : List String} {σ : Store}
    {a : Except Store Store} {f : Store → Except Store Store}
    (hc : Performs c names names' σ a) (hd : ∀ τ, Performs d names' names'' τ (f τ)) :
    Performs (c ++ d) names names'' σ (a >>= f) := by
  cases a with
  | error τ => exact hc.append
  | ok τ =>
      obtain ⟨hc, hdiv⟩ := hc
      have hd := hd τ
      change Performs (c ++ d) names names'' σ (f τ)
      cases hf : f τ with
      | error ρ =>
          rw [hf] at hd
          exact .prepend hc (hdiv ▸ hd)
      | ok ρ =>
          rw [hf] at hd
          obtain ⟨hd, hdiv'⟩ := hd
          refine ⟨?_, by rw [hdiv', hdiv, divisions_append, Nat.add_assoc]⟩
          rw [Trail.follow_append_of_ok hc, hd]

theorem of_follow {c : List Instruction} {names names' : List String} {σ : Store}
    {a : Except Store Store} (h : Performs c names names' σ a) {q : Trail}
    (hq : (σ.image names).follow c = .ok q) : ∃ τ, a = .ok τ ∧ q = τ.image names' := by
  cases a with
  | error τ => exact absurd hq (Traps.not_ok h)
  | ok τ => exact ⟨τ, rfl, Except.ok.inj (hq.symm.trans h.1)⟩

theorem expression {offset : String → Nat} {names names' : List String} (h : Frame offset names)
    {σ : Store} {e : Expression} (he : ∀ x ∈ e.names, x ∈ names) {d : List Instruction}
    (hd : divisions d = 0) {g : Int32 → Store → Store}
    (hg : ∀ v m, (g v { σ with divisions := m }).divisions = m)
    (hrest : ∀ v m, Trail.follow ⟨(σ.image names).stack.push v, σ.printed⟩ d =
      .ok ((g v { σ with divisions := m }).image names')) :
    Performs (e.code offset ++ d) names names' σ (σ.eval e >>= fun x => .ok (g x.1 x.2)) := by
  have hcomputes := e.computes (h.holds σ he) σ.divisions
  unfold Store.eval
  rcases he : e.eval σ.value σ.divisions with m | ⟨v, m⟩
  · rw [he] at hcomputes
    exact (hcomputes σ.printed).append
  · rw [he] at hcomputes
    obtain ⟨hv, hm⟩ := hcomputes
    have hv : (σ.image names).follow (e.code offset) = _ := hv σ.printed
    refine ⟨?_, ?_⟩
    · rw [Trail.follow_append_of_ok hv, hrest v m]
    · rw [hg, hm, divisions_append, hd, Nat.add_zero]

end Performs

namespace Store

theorem image_declare (σ : Store) {names : List String} {x : String} (hx : x ∉ names) (v : Int32) :
    (σ.set x v).image (names ++ [x]) = ⟨(σ.image names).stack.push v, σ.printed⟩ := by
  have hold := map_set_of_not_mem hx σ v
  simp only [image, List.map_append, hold]
  simp [set]

theorem image_assign (σ : Store) {offset : String → Nat} {names : List String}
    (h : Frame offset names) {x : String} (hx : x ∈ names) (v : Int32) :
    Trail.follow ⟨(σ.image names).stack.push v, σ.printed⟩ [⟨.sto, Int32.ofNat (offset x)⟩] =
      .ok ((σ.set x v).image names) := by
  have hlt : offset x < (σ.image names).stack.size := by simpa [image] using h.slot_lt hx
  have hexecute : Instruction.execute ⟨.sto, Int32.ofNat (offset x)⟩
      ((σ.image names).stack.push v) = .ok (((σ.set x v).image names).stack, none) := by
    simp only [Instruction.execute, Stack.store_slot (h.slot_small hx) hlt]
    rw [h.place x hx, image, image, ← set_idxOf_map h.nodup hx]
    simp [bind, Except.bind]
  exact follow_silent hexecute σ.printed

theorem image_print (σ : Store) (names : List String) (v : Int32) :
    Trail.follow ⟨(σ.image names).stack.push v, σ.printed⟩ [⟨.wrt, 0⟩] =
      .ok ((σ.print v).image names) := by
  simp only [Trail.follow_cons, Trail.step, Instruction.execute, Stack.pop_push]
  rfl

end Store

theorem Performs.declare {names : List String} {x : String} (hx : x ∉ names) (v : Int32)
    (σ : Store) : Performs [⟨.lit, v⟩] names (names ++ [x]) σ (.ok (σ.set x v)) := by
  refine ⟨?_, rfl⟩
  rw [σ.image_declare hx v]
  exact follow_silent rfl σ.printed

namespace Item

theorem performs {offset : String → Nat} {names : List String} (h : Frame offset names) (i : Item)
    (hused : ∀ x ∈ i.used, x ∈ names) (hnew : ∀ x ∈ i.declares?, x ∉ names) (σ : Store) :
    Performs (i.code offset) names (names ++ i.declares?.toList) σ (i.exec σ) := by
  cases i using forms with
  | const c => exact .declare (hnew c.name rfl) _ σ
  | plain word ident stop => exact .declare (hnew ident.1.lexeme rfl) 0 σ
  | initial word ident equals e stop =>
      have hx : ident.1.lexeme ∉ names := hnew ident.1.lexeme rfl
      have hperforms := Performs.expression h (σ := σ) (e := e) (d := []) hused rfl
        (g := fun v τ => τ.set ident.1.lexeme v) (fun v m => rfl) fun v m =>
          congrArg Except.ok (Store.image_declare { σ with divisions := m } hx v).symm
      rw [List.append_nil] at hperforms
      exact hperforms
  | assign ident equals e stop =>
      rw [declares?, Option.toList_none, List.append_nil]
      have hx : ident.1.lexeme ∈ names := hused _ (by simp [used, Statement.target?])
      have he (x : String) (hx : x ∈ e.names) : x ∈ names :=
        hused x (by simp [used, Statement.used, hx])
      exact Performs.expression h he rfl (g := fun v τ => τ.set ident.1.lexeme v)
        (fun v m => rfl) fun v m => Store.image_assign { σ with divisions := m } h hx v
  | print word l e r stop =>
      rw [declares?, Option.toList_none, List.append_nil]
      have he (x : String) (hx : x ∈ e.names) : x ∈ names :=
        hused x (by simp [used, Statement.used, hx])
      exact Performs.expression h he rfl (g := fun v τ => τ.print v)
        (fun v m => rfl) fun v m => Store.image_print { σ with divisions := m } names v
  | empty stop =>
      rw [declares?, Option.toList_none, List.append_nil]
      exact ⟨rfl, rfl⟩

end Item

theorem performs_items {offset : String → Nat} {names : List String} (l : List Item)
    (h : Frame offset (names ++ l.filterMap Item.declares?)) (hs : Scoped names l) (σ : Store) :
    Performs (l.flatMap (Item.code offset)) names (names ++ l.filterMap Item.declares?) σ
      (execAll l σ) := by
  induction l generalizing names σ with
  | nil =>
      rw [List.filterMap_nil, List.append_nil]
      exact ⟨rfl, rfl⟩
  | cons i l ih =>
      obtain ⟨hused, hnew, hs⟩ := hs
      rw [Item.filterMap_declares_cons, ← List.append_assoc] at h ⊢
      have hframe : Frame offset names := h.restrict (by simp)
      exact (i.performs hframe hused hnew σ).bind fun τ => ih h hs τ

namespace Program

theorem frame {P : Program} (h : P.Lawful) (hsize : P.names.length ≤ 0x80000000) :
    Frame P.offset P.names :=
  ⟨h.distinct, hsize, fun _ _ => rfl⟩

theorem performs {P : Program} (h : P.Lawful) (hsize : P.names.length ≤ 0x80000000) :
    Performs P.code [] P.names {} P.exec := by
  have hframe := P.frame h hsize
  rw [← P.filterMap_items_declares] at hframe ⊢
  exact performs_items P.items hframe (P.scoped_items h) {}

end Program

end PlZero
