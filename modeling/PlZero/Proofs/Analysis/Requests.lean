import PlZero.Proofs.Analysis.Table

namespace PlZero

namespace SymbolTable

inductive Request where
  | declare (name : String) (constant initialized : Bool)
  | lookup (name : String)
  | mark (name : String)
  | symbols
  | size
deriving DecidableEq

inductive Reply where
  | declared (symbol : Symbol)
  | refused (symbol : Symbol)
  | found (symbol : Option Symbol)
  | marked (known : Bool)
  | symbols (symbols : List Symbol)
  | size (n : Nat)
deriving DecidableEq

def Reply.isDeclared : Reply → Bool
  | declared _ => true
  | _ => false

def serve (t : SymbolTable) : Request → Reply × SymbolTable
  | .declare x c i =>
      match t.declare x c i with
      | .ok (symbol, t') => (.declared symbol, t')
      | .error symbol => (.refused symbol, t)
  | .lookup x => (.found (t.lookup? x), t)
  | .mark x =>
      match t.markInitialized? x with
      | some t' => (.marked true, t')
      | none => (.marked false, t)
  | .symbols => (.symbols t.symbols.toList, t)
  | .size => (.size t.size, t)

def serveAll (t : SymbolTable) : List Request → List Reply × SymbolTable
  | [] => ([], t)
  | r :: rs => ((t.serve r).1 :: ((t.serve r).2.serveAll rs).1, ((t.serve r).2.serveAll rs).2)

theorem serveAll_append (t : SymbolTable) (rs more : List Request) :
    (t.serveAll (rs ++ more)).2 = ((t.serveAll rs).2.serveAll more).2 := by
  induction rs generalizing t with
  | nil => rfl
  | cons r rs ih => exact ih _

end SymbolTable

-- Of the requests only those that mark a symbol's name make a difference to it.
def Symbol.after (s : Symbol) (rs : List SymbolTable.Request) : Symbol :=
  { s with initialized := s.initialized || decide (.mark s.name ∈ rs) }

theorem Symbol.after_nil (s : Symbol) : s.after [] = s := by
  simp [after]

theorem Symbol.after_cons (s : Symbol) (r : SymbolTable.Request) (rs : List SymbolTable.Request) :
    s.after (r :: rs) = (s.after [r]).after rs := by
  simp [after, Bool.or_assoc]

namespace SymbolTable

-- What a request does: a new name is added, a name is marked, or the table stays as it is.
inductive Serves (t : SymbolTable) : Request → Reply → SymbolTable → Prop where
  | add (x : String) (c i : Bool) (fresh : x ∉ t.names) :
      Serves t (.declare x c i) (.declared ⟨x, c, i, t.size⟩) (t.add x c i)
  | refuse (x : String) (c i : Bool) {s : Symbol} (declared : t.lookup? x = some s) :
      Serves t (.declare x c i) (.refused s) t
  | mark (x : String) : Serves t (.mark x) (.marked (decide (x ∈ t.names))) (t.mark x)
  | look (x : String) : Serves t (.lookup x) (.found (t.lookup? x)) t
  | symbols : Serves t .symbols (.symbols t.symbols.toList) t
  | size : Serves t .size (.size t.names.length) t

variable {t t' : SymbolTable} {r : Request} {reply : Reply}

theorem Valid.mem_index (h : t.Valid) {x : String} : x ∈ t.index ↔ x ∈ t.names := by
  rw [Std.HashMap.mem_iff_isSome_getElem?, Option.isSome_iff_exists, List.mem_iff_getElem?]
  simp only [h.place]

theorem Valid.mem_names (h : t.Valid) {x : String} : x ∈ t.names ↔ ∃ s, t.lookup? x = some s := by
  simp only [h.lookup?_eq_some_iff, names, List.mem_map]

theorem Valid.serves (h : t.Valid) (r : Request) : t.Serves r (t.serve r).1 (t.serve r).2 := by
  cases r with
  | declare x c i =>
      cases hl : t.lookup? x with
      | none =>
          rw [serve, declare_of_fresh hl]
          exact .add x c i (h.lookup?_eq_none_iff.mp hl)
      | some s =>
          rw [serve, declare_of_declared hl]
          exact .refuse x c i hl
  | lookup x => exact .look x
  | mark x =>
      have hknown : decide (x ∈ t.names) = (t.markInitialized? x).isSome := by
        rw [Bool.eq_iff_iff, decide_eq_true_eq, ← h.mem_index, markInitialized?, Option.isSome_map,
          Std.HashMap.mem_iff_isSome_getElem?]
      have hserve : t.serve (.mark x) = (.marked (t.markInitialized? x).isSome, t.mark x) := by
        rw [serve, SymbolTable.mark]
        cases t.markInitialized? x <;> rfl
      rw [hserve, ← hknown]
      exact .mark x
  | symbols => exact .symbols
  | size =>
      rw [serve, SymbolTable.size, ← length_names]
      exact .size

namespace Serves

theorem valid (h : t.Valid) (hs : t.Serves r reply t') : t'.Valid := by
  cases hs with
  | add x c i fresh => exact h.add fresh c i
  | mark x => exact h.mark x
  | refuse | look | symbols | size => exact h

theorem mem_names (h : t.Valid) (hs : t.Serves r reply t') {x : String} :
    x ∈ t'.names ↔ x ∈ t.names ∨ ∃ c i, r = .declare x c i := by
  cases hs with
  | add y c i fresh => simp [eq_comm]
  | refuse y c i declared =>
      have hy := h.mem_names.mpr ⟨_, declared⟩
      constructor
      · exact .inl
      · rintro (hx | ⟨c', i', heq⟩)
        · exact hx
        · cases heq
          exact hy
  | mark y => simp [h.names_mark]
  | look | symbols | size => simp

theorem size_eq (h : t.Valid) (hs : t.Serves r reply t') :
    t'.size = t.size + if reply.isDeclared then 1 else 0 := by
  cases hs with
  | add x c i fresh => simp [SymbolTable.size, SymbolTable.add, Reply.isDeclared]
  | mark x =>
      have hsize := congrArg List.length (h.symbols_mark x)
      simpa [SymbolTable.size, Reply.isDeclared] using hsize
  | refuse | look | symbols | size => rfl

theorem markSymbol_eq (x : String) (s : Symbol) : markSymbol x s = s.after [.mark x] := by
  unfold markSymbol Symbol.after
  by_cases hx : s.name = x
  · simp [hx]
  · simp [hx]

theorem symbols_eq (h : t.Valid) (hs : t.Serves r reply t') :
    ∃ new, t'.symbols.toList = t.symbols.toList.map (·.after [r]) ++ new := by
  have hsame {r : Request} (hr : ∀ x, r ≠ .mark x) :
      t.symbols.toList.map (·.after [r]) = t.symbols.toList := by
    have hafter : ∀ s ∈ t.symbols.toList, s.after [r] = s := by
      intro s _
      simp [Symbol.after, (hr s.name).symm]
    rw [List.map_congr_left hafter, List.map_id']
  cases hs with
  | add x c i fresh => exact ⟨_, by rw [hsame (by simp), symbols_add]⟩
  | mark x => exact ⟨[], by simp [h.symbols_mark, markSymbol_eq]⟩
  | refuse | look | symbols | size => exact ⟨[], by rw [hsame (by simp), List.append_nil]⟩

end Serves

theorem Valid.serveAll (h : t.Valid) (rs : List Request) : (t.serveAll rs).2.Valid := by
  induction rs generalizing t with
  | nil => exact h
  | cons r rs ih => exact ih ((h.serves r).valid h)

theorem Valid.mem_names_serveAll (h : t.Valid) (rs : List Request) {x : String} :
    x ∈ (t.serveAll rs).2.names ↔ x ∈ t.names ∨ ∃ c i, .declare x c i ∈ rs := by
  induction rs generalizing t with
  | nil => simp [SymbolTable.serveAll]
  | cons r rs ih =>
      have hstep := (h.serves r).mem_names h (x := x)
      rw [SymbolTable.serveAll, ih ((h.serves r).valid h), hstep, or_assoc]
      simp only [List.mem_cons, exists_or, eq_comm]

theorem Valid.size_serveAll (h : t.Valid) (rs : List Request) :
    (t.serveAll rs).2.size = t.size + (t.serveAll rs).1.countP Reply.isDeclared := by
  induction rs generalizing t with
  | nil => rfl
  | cons r rs ih =>
      have hstep := (h.serves r).size_eq h
      rw [SymbolTable.serveAll, ih ((h.serves r).valid h), hstep, List.countP_cons]
      omega

theorem Valid.symbols_serveAll (h : t.Valid) (rs : List Request) :
    ∃ new, (t.serveAll rs).2.symbols.toList = t.symbols.toList.map (·.after rs) ++ new := by
  induction rs generalizing t with
  | nil => exact ⟨[], by simp [SymbolTable.serveAll, Symbol.after_nil]⟩
  | cons r rs ih =>
      obtain ⟨first, hfirst⟩ := (h.serves r).symbols_eq h
      obtain ⟨new, hnew⟩ := ih ((h.serves r).valid h)
      refine ⟨first.map (·.after rs) ++ new, ?_⟩
      rw [SymbolTable.serveAll, hnew, hfirst, List.map_append, List.map_map, List.append_assoc]
      congr 1
      apply List.map_congr_left
      intro s _
      exact (s.after_cons r rs).symm

theorem Valid.getElem?_serveAll (h : t.Valid) {i : Nat} {s : Symbol} (hs : t.symbols[i]? = some s)
    (rs : List Request) : (t.serveAll rs).2.symbols[i]? = some (s.after rs) := by
  obtain ⟨new, hnew⟩ := h.symbols_serveAll rs
  have hi : i < t.symbols.size := (Array.getElem?_eq_some_iff.mp hs).1
  rw [← Array.getElem?_toList, hnew, List.getElem?_append_left (by simpa using hi), List.getElem?_map,
    Array.getElem?_toList, hs]
  rfl

theorem Valid.lookup?_serveAll (h : t.Valid) {x : String} {s : Symbol} (hs : t.lookup? x = some s)
    (rs : List Request) : (t.serveAll rs).2.lookup? x = some (s.after rs) := by
  obtain ⟨hmem, hx⟩ := h.lookup?_eq_some_iff.mp hs
  obtain ⟨new, hnew⟩ := h.symbols_serveAll rs
  refine (h.serveAll rs).lookup?_eq_some_iff.mpr ⟨?_, hx⟩
  rw [hnew]
  exact List.mem_append_left _ (List.mem_map_of_mem hmem)

-- A name that is new to the table is found as it is first declared, with all marks since.
theorem Valid.lookup?_of_first (h : t.Valid) {x : String} {c i : Bool} {before after : List Request}
    (hnew : x ∉ t.names) (hfirst : ∀ c i, .declare x c i ∉ before) :
    (t.serveAll (before ++ .declare x c i :: after)).2.lookup? x =
      some ⟨x, c, i || decide (.mark x ∈ after), (t.serveAll before).2.size⟩ := by
  have hvalid := h.serveAll before
  have hfresh : x ∉ (t.serveAll before).2.names := by
    rw [h.mem_names_serveAll]
    rintro (hx | ⟨c, i, hmem⟩)
    · exact hnew hx
    · exact hfirst c i hmem
  have hadd := hvalid.add hfresh c i
  have hserve : ((t.serveAll before).2.serve (.declare x c i)).2 = (t.serveAll before).2.add x c i := by
    rw [serve, declare_of_fresh (hvalid.lookup?_eq_none_iff.mpr hfresh)]
  have hfound : ((t.serveAll before).2.add x c i).lookup? x =
      some ⟨x, c, i, (t.serveAll before).2.size⟩ :=
    hadd.lookup?_eq_some_iff.mpr ⟨by simp, rfl⟩
  rw [serveAll_append, SymbolTable.serveAll, hserve]
  exact hadd.lookup?_serveAll hfound after

theorem exists_first_declare {x : String} {c i : Bool} {rs : List Request} (h : .declare x c i ∈ rs) :
    ∃ before c i after, rs = before ++ .declare x c i :: after ∧ ∀ c i, .declare x c i ∉ before := by
  induction rs with
  | nil => cases h
  | cons r rs ih =>
      by_cases hr : ∃ c i, r = .declare x c i
      · obtain ⟨c, i, rfl⟩ := hr
        exact ⟨[], c, i, rs, rfl, by simp⟩
      · have hrs : .declare x c i ∈ rs := (List.mem_cons.mp h).resolve_left fun heq => hr ⟨c, i, heq.symm⟩
        obtain ⟨before, c, i, after, rfl, hfirst⟩ := ih hrs
        refine ⟨r :: before, c, i, after, rfl, fun c i hmem => ?_⟩
        rcases List.mem_cons.mp hmem with heq | hmem
        · exact hr ⟨c, i, heq.symm⟩
        · exact hfirst c i hmem

theorem declare_eq_error_iff {x : String} {c i : Bool} {s : Symbol} :
    t.declare x c i = .error s ↔ t.lookup? x = some s := by
  cases hl : t.lookup? x with
  | none => simp [declare_of_fresh hl]
  | some s' => simp [declare_of_declared hl]

theorem table_represents_requests (rs : List Request) :
    let t := (serveAll {} rs).2
    t.names.Nodup ∧
    (∀ x, x ∈ t.index ↔ ∃ c i, .declare x c i ∈ rs) ∧
    (∀ (x : String) (i : Nat), t.index[x]? = some i ↔ t.names[i]? = some x) ∧
    (∀ (i : Nat) (s : Symbol), t.symbols[i]? = some s → s.offset = i) ∧
    t.size = (serveAll {} rs).1.countP Reply.isDeclared ∧
    (∀ x c i, (∃ s, t.declare x c i = .error s) ↔ ∃ c i, .declare x c i ∈ rs) ∧
    (∀ x c i s, t.declare x c i = .error s →
      t.lookup? x = some s ∧ t.serve (.declare x c i) = (.refused s, t)) ∧
    (∀ (more : List Request) (i : Nat) (s : Symbol), t.symbols[i]? = some s →
      (t.serveAll more).2.symbols[i]? =
        some { s with initialized := s.initialized || decide (.mark s.name ∈ more) }) ∧
    ∀ x s, t.lookup? x = some s ↔
      ∃ before c i after, rs = before ++ .declare x c i :: after ∧
        let earlier := (serveAll {} before).2
        (earlier.serve (.declare x c i)).1 = .declared ⟨x, c, i, earlier.size⟩ ∧
        s = ⟨x, c, i || decide (.mark x ∈ after), earlier.size⟩ := by
  intro t
  have hempty (x : String) : x ∉ names {} := by simp [names]
  have hvalid (rs : List Request) : (serveAll {} rs).2.Valid := valid_empty.serveAll rs
  have hnames (rs : List Request) (x : String) :
      x ∈ (serveAll {} rs).2.names ↔ ∃ c i, .declare x c i ∈ rs := by
    simpa [hempty] using valid_empty.mem_names_serveAll rs (x := x)
  refine ⟨(hvalid rs).nodup, fun x => (hvalid rs).mem_index.trans (hnames rs x), (hvalid rs).place,
    (hvalid rs).offset, ?_, fun x c i => ?_, fun x c i s hs => ⟨declare_eq_error_iff.mp hs, ?_⟩,
    fun more i s hs => (hvalid rs).getElem?_serveAll hs more, fun x s => ⟨fun hs => ?_, ?_⟩⟩
  · rw [valid_empty.size_serveAll rs]
    exact Nat.zero_add _
  · rw [← hnames, (hvalid rs).mem_names]
    simp only [declare_eq_error_iff, t]
  · rw [serve, hs]
  · obtain ⟨c, i, hmem⟩ := (hnames rs x).mp ((hvalid rs).mem_names.mpr ⟨s, hs⟩)
    obtain ⟨before, c, i, after, hrs, hbefore⟩ := exists_first_declare hmem
    have hfresh : (serveAll {} before).2.lookup? x = none := by
      rw [(hvalid before).lookup?_eq_none_iff, hnames]
      rintro ⟨c, i, hdeclare⟩
      exact hbefore c i hdeclare
    have hlookup : t.lookup? x = some ⟨x, c, i || decide (.mark x ∈ after), (serveAll {} before).2.size⟩ := by
      rw [← valid_empty.lookup?_of_first (hempty x) hbefore, ← hrs]
    refine ⟨before, c, i, after, hrs, ?_, Option.some.inj (hs.symm.trans hlookup)⟩
    rw [serve, declare_of_fresh hfresh]
  · rintro ⟨before, c, i, after, rfl, hreply, rfl⟩
    refine valid_empty.lookup?_of_first (hempty x) fun c' i' hmem => ?_
    obtain ⟨s, hs⟩ := (hvalid before).mem_names.mp ((hnames before x).mpr ⟨c', i', hmem⟩)
    rw [serve, declare_of_declared hs] at hreply
    cases hreply

end SymbolTable

end PlZero
