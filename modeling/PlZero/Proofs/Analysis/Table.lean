import Mathlib.Data.List.Nodup
import PlZero.Analysis.SymbolTable

namespace PlZero

namespace SymbolTable

def names (t : SymbolTable) : List String := t.symbols.toList.map Symbol.name

structure Valid (t : SymbolTable) : Prop where
  place : ∀ (x : String) (i : Nat), t.index[x]? = some i ↔ t.names[i]? = some x
  offset : ∀ (i : Nat) (s : Symbol), t.symbols[i]? = some s → s.offset = i

theorem names_getElem? (t : SymbolTable) (i : Nat) :
    t.names[i]? = t.symbols[i]?.map Symbol.name := by
  simp [names]

theorem length_names (t : SymbolTable) : t.names.length = t.symbols.size := by
  simp [names]

theorem valid_empty : Valid {} := by
  constructor
  · intro x i
    simp [names]
  · intro i s h
    simp at h

variable {t : SymbolTable}

theorem Valid.nodup (h : t.Valid) : t.names.Nodup := by
  rw [List.nodup_iff_injective_get]
  intro i j hij
  have hi := (h.place (t.names.get i) i).mpr (by simp)
  have hj := (h.place (t.names.get i) j).mpr (by rw [hij]; simp)
  rw [hi] at hj
  exact Fin.ext (Option.some.inj hj)

theorem Valid.lookup?_eq_some_iff (h : t.Valid) {x : String} {s : Symbol} :
    t.lookup? x = some s ↔ s ∈ t.symbols.toList ∧ s.name = x := by
  simp only [lookup?, Option.bind_eq_some_iff, h.place, names_getElem?, Option.map_eq_some_iff]
  constructor
  · rintro ⟨i, ⟨s', hs', hx⟩, hs⟩
    have : s' = s := Option.some.inj (hs'.symm.trans hs)
    subst this
    exact ⟨List.mem_of_getElem? (by simpa using hs), hx⟩
  · rintro ⟨hs, hx⟩
    obtain ⟨i, hi⟩ := List.mem_iff_getElem?.mp hs
    have hi' : t.symbols[i]? = some s := by simpa using hi
    exact ⟨i, ⟨s, hi', hx⟩, hi'⟩

theorem Valid.lookup?_eq_none_iff (h : t.Valid) {x : String} :
    t.lookup? x = none ↔ x ∉ t.names := by
  constructor
  · intro hn hx
    obtain ⟨s, hs, hsx⟩ := List.mem_map.mp hx
    rw [h.lookup?_eq_some_iff.mpr ⟨hs, hsx⟩] at hn
    exact Option.some_ne_none s hn
  · intro hx
    cases hl : t.lookup? x with
    | none => rfl
    | some s =>
        obtain ⟨hs, hsx⟩ := h.lookup?_eq_some_iff.mp hl
        exact absurd (List.mem_map.mpr ⟨s, hs, hsx⟩) hx

theorem Valid.offset_eq_idxOf (h : t.Valid) {x : String} {s : Symbol} (hs : t.lookup? x = some s) :
    s.offset = t.names.idxOf x := by
  obtain ⟨hm, hx⟩ := h.lookup?_eq_some_iff.mp hs
  obtain ⟨i, hi⟩ := List.mem_iff_getElem?.mp hm
  have hi' : t.symbols[i]? = some s := by simpa using hi
  have hn : t.names[i]? = some x := by simp [names_getElem?, hi', hx]
  obtain ⟨hlt, hget⟩ := List.getElem?_eq_some_iff.mp hn
  rw [h.offset i s hi', ← hget, h.nodup.idxOf_getElem]

def add (t : SymbolTable) (x : String) (constant initialized : Bool) : SymbolTable :=
  ⟨t.index.insert x t.size, t.symbols.push ⟨x, constant, initialized, t.size⟩⟩

theorem declare_of_fresh {x : String} (h : t.lookup? x = none) (c i : Bool) :
    t.declare x c i = .ok (⟨x, c, i, t.size⟩, t.add x c i) := by
  simp [declare, h, add]

theorem declare_of_declared {x : String} {s : Symbol} (h : t.lookup? x = some s) (c i : Bool) :
    t.declare x c i = .error s := by
  simp [declare, h]

@[simp] theorem symbols_add (x : String) (c i : Bool) :
    (t.add x c i).symbols.toList = t.symbols.toList ++ [⟨x, c, i, t.size⟩] := by
  simp [add]

@[simp] theorem names_add (x : String) (c i : Bool) : (t.add x c i).names = t.names ++ [x] := by
  simp [names]

theorem Valid.add (h : t.Valid) {x : String} (hx : x ∉ t.names) (c i : Bool) :
    (t.add x c i).Valid := by
  constructor
  · intro y j
    rw [names_add, List.getElem?_append, length_names]
    simp only [SymbolTable.add, Std.HashMap.getElem?_insert, size, beq_iff_eq]
    by_cases hxy : x = y
    · subst hxy
      simp only [if_true, Option.some.injEq]
      split
      · next hj =>
          constructor
          · intro he
            omega
          · intro hy
            exact absurd (List.mem_of_getElem? hy) hx
      · next hj =>
          rw [List.getElem?_singleton]
          constructor
          · intro he
            simp [← he]
          · intro he
            split at he
            · omega
            · simp at he
    · simp only [hxy, if_false, h.place]
      split
      · rfl
      · next hj =>
          rw [List.getElem?_singleton, List.getElem?_eq_none (by rw [length_names]; omega)]
          split <;> simp [hxy]
  · intro j s hs
    simp only [SymbolTable.add, Array.getElem?_push] at hs
    split at hs
    · next hj =>
        cases hs
        exact hj.symm
    · exact h.offset j s hs

def mark (t : SymbolTable) (x : String) : SymbolTable :=
  (t.markInitialized? x).getD t

def markSymbol (x : String) (s : Symbol) : Symbol :=
  if s.name = x then { s with initialized := true } else s

@[simp] theorem name_markSymbol (x : String) (s : Symbol) : (markSymbol x s).name = s.name := by
  unfold markSymbol
  split <;> rfl

@[simp] theorem offset_markSymbol (x : String) (s : Symbol) : (markSymbol x s).offset = s.offset := by
  unfold markSymbol
  split <;> rfl

theorem index_mark (x : String) : (t.mark x).index = t.index := by
  unfold mark markInitialized?
  cases t.index[x]? <;> rfl

theorem Valid.symbols_mark (h : t.Valid) (x : String) :
    (t.mark x).symbols.toList = t.symbols.toList.map (markSymbol x) := by
  unfold mark markInitialized?
  cases hx : t.index[x]? with
  | none =>
      have hn : x ∉ t.names := by
        intro hm
        obtain ⟨i, hi⟩ := List.mem_iff_getElem?.mp hm
        rw [(h.place x i).mpr hi] at hx
        exact Option.some_ne_none i hx
      apply List.ext_getElem?
      intro i
      cases hi : t.symbols[i]? with
      | none => simp [hi]
      | some s =>
          have hs : t.names[i]? = some s.name := by simp [names_getElem?, hi]
          have : s.name ≠ x := fun he => hn (he ▸ List.mem_of_getElem? hs)
          simp [hi, markSymbol, this]
  | some i =>
      have hi := (h.place x i).mp hx
      apply List.ext_getElem?
      intro j
      simp only [Option.map_some, Option.getD_some, Array.getElem?_toList, Array.getElem?_modify,
        List.getElem?_map]
      cases hj : t.symbols[j]? with
      | none => simp
      | some s =>
          -- The name stands at one place only, so the change of that place is the change of the name.
          have hs : t.names[j]? = some s.name := by simp [names_getElem?, hj]
          by_cases he : s.name = x
          · rw [he] at hs
            have : i = j := Option.some.inj (((h.place x i).mpr hi).symm.trans ((h.place x j).mpr hs))
            simp [this, markSymbol, he]
          · have : i ≠ j := by
              intro hij
              rw [← hij, hi] at hs
              exact he (Option.some.inj hs).symm
            simp [this, markSymbol, he]

theorem Valid.names_mark (h : t.Valid) (x : String) : (t.mark x).names = t.names := by
  simp [names, h.symbols_mark, Function.comp_def]

theorem Valid.mark (h : t.Valid) (x : String) : (t.mark x).Valid := by
  constructor
  · intro y i
    rw [index_mark, h.names_mark]
    exact h.place y i
  · intro i s hs
    have hl : (t.symbols.toList.map (markSymbol x))[i]? = some s := by
      rw [← h.symbols_mark]
      simpa using hs
    simp only [List.getElem?_map, Array.getElem?_toList, Option.map_eq_some_iff] at hl
    obtain ⟨s', hs', rfl⟩ := hl
    simpa using h.offset i s' hs'

end SymbolTable

end PlZero
