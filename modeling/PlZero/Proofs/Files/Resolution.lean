import PlZero.Proofs.Files.Paths

namespace PlZero.Files

theorem byteSize_cons (c : Char) (cs : List Char) : byteSize (c :: cs) = c.utf8Size + byteSize cs := by
  have hfrom (cs : List Char) (n : Nat) :
      cs.foldl (fun size c => size + c.utf8Size) n = n + byteSize cs := by
    induction cs generalizing n with
    | nil => rfl
    | cons c cs ih =>
        rw [byteSize, List.foldl_cons, List.foldl_cons, ih, ih]
        omega
  rw [byteSize, List.foldl_cons, hfrom]
  omega

theorem byteSize_append (cs ds : List Char) : byteSize (cs ++ ds) = byteSize cs + byteSize ds := by
  induction cs with
  | nil => simp [byteSize]
  | cons c cs ih => rw [List.cons_append, byteSize_cons, byteSize_cons, ih, Nat.add_assoc]

-- The bytes of names, each with a slash.
def extent : List (List Char) → Nat
  | [] => 0
  | name :: names => byteSize name + 1 + extent names

theorem extent_append (names more : List (List Char)) : extent (names ++ more) = extent names + extent more := by
  induction names with
  | nil => simp [extent]
  | cons name names ih =>
      rw [List.cons_append, extent, extent, ih]
      omega

theorem extent_reverse (names : List (List Char)) : extent names.reverse = extent names := by
  induction names with
  | nil => rfl
  | cons name names ih =>
      rw [List.reverse_cons, extent_append, ih, extent, extent, extent]
      omega

theorem extent_filter_le (p : List Char → Bool) (names : List (List Char)) :
    extent (names.filter p) ≤ extent names := by
  induction names with
  | nil => exact Nat.le_refl _
  | cons name names ih =>
      rw [List.filter_cons]
      split
      · rw [extent, extent]
        omega
      · rw [extent]
        omega

theorem extent_segments (path : List Char) : extent (segments path) = byteSize path + 1 := by
  induction path with
  | nil => rfl
  | cons c path ih =>
      by_cases hc : c = '/'
      · subst hc
        rw [segments_slash, extent, ih, byteSize_cons]
        change 0 + 1 + _ = 1 + _ + 1
        omega
      · obtain ⟨first, more, hpath, hsegments⟩ := segments_cons hc path
        rw [hpath, extent] at ih
        rw [hsegments, extent, byteSize_cons, byteSize_cons]
        omega

theorem extent_names_le (path : List Char) :
    extent (names path) + (if isRooted path then 1 else 0) ≤ byteSize path + 1 := by
  have hnames (path : List Char) : extent (names path) ≤ byteSize path + 1 :=
    Nat.le_trans (extent_filter_le _ _) (Nat.le_of_eq (extent_segments path))
  split
  · next hrooted =>
      obtain ⟨rest, rfl⟩ := List.head?_eq_some_iff.mp (by simpa [isRooted] using hrooted)
      have hrest := hnames rest
      have hslash : '/'.utf8Size = 1 := rfl
      rw [names_slash, byteSize_cons]
      omega
  · exact hnames path

theorem extent_settle_le (rooted : Bool) (sofar : List (List Char)) (name : List Char) :
    extent (settle rooted sofar name) ≤ extent sofar + (byteSize name + 1) := by
  unfold settle
  split
  · omega
  · split
    · split
      · split <;> simp [extent]
      · split
        · simp only [extent]
          omega
        · simp only [extent]
          omega
    · simp only [extent]
      omega

theorem extent_foldl_settle_le (rooted : Bool) (names sofar : List (List Char)) :
    extent (names.foldl (settle rooted) sofar) ≤ extent sofar + extent names := by
  induction names generalizing sofar with
  | nil => exact Nat.le_refl _
  | cons name names ih =>
      have hstep := extent_settle_le rooted sofar name
      have hmore := ih (settle rooted sofar name)
      rw [List.foldl_cons, extent]
      omega

theorem byteSize_intercalate {way : List (List Char)} (h : way ≠ []) :
    byteSize (['/'].intercalate way) + 1 = extent way := by
  induction way with
  | nil => exact absurd rfl h
  | cons first way ih =>
      cases way with
      | nil => simp [extent]
      | cons second way =>
          have hmore := ih (by simp)
          have hslash : byteSize ['/'] = 1 := rfl
          rw [List.intercalate_cons_cons, byteSize_append, byteSize_append, extent]
          omega

theorem byteSize_clean_le {path : List Char} (h : path ≠ []) : byteSize (clean path) ≤ byteSize path := by
  by_cases hway : way path = []
  · have hclean : byteSize (clean path) = 1 := by
      rw [clean_eq, hway]
      cases isRooted path <;> rfl
    obtain ⟨c, rest, rfl⟩ := List.exists_cons_of_ne_nil h
    have hpos := c.utf8Size_pos
    rw [hclean, byteSize_cons]
    omega
  · have hnames := extent_names_le path
    have hfold := extent_foldl_settle_le (isRooted path) (names path) []
    rw [← extent_reverse, extent] at hfold
    change extent (way path) ≤ _ at hfold
    have hsize : byteSize (clean path) + 1 = extent (way path) + if isRooted path then 1 else 0 := by
      rw [clean_eq, assemble, ← byteSize_intercalate hway]
      cases isRooted path with
      | true =>
          rw [if_pos rfl, if_pos rfl, byteSize_cons]
          change 1 + _ + 1 = _
          omega
      | false => simp [hway]
    omega

theorem validate_eq_ok_iff {path : List Char} :
    validate path = .ok () ↔ '\x00' ∉ path ∧ path ≠ [] ∧ byteSize path < pathLimit := by
  unfold validate
  split
  · next hnul => simpa using fun hnone => absurd (by simpa using hnul) hnone
  · next hnul =>
      split
      · next hempty => simp [List.isEmpty_iff.mp hempty]
      · next hempty =>
          split
          · next hlong => simp [Nat.not_lt.mpr hlong]
          · next hlong =>
              have hshort := Nat.lt_of_not_le hlong
              simp_all

theorem mem_intercalate {names : List (List Char)} {c : Char} (h : c ∈ ['/'].intercalate names) :
    c = '/' ∨ ∃ name ∈ names, c ∈ name := by
  induction names with
  | nil => simp at h
  | cons first names ih =>
      cases names with
      | nil => exact .inr ⟨first, List.mem_cons_self, by simpa using h⟩
      | cons second names =>
          rw [List.intercalate_cons_cons, List.append_assoc, List.mem_append, List.singleton_append,
            List.mem_cons] at h
          rcases h with h | rfl | h
          · exact .inr ⟨first, List.mem_cons_self, h⟩
          · exact .inl rfl
          · exact (ih h).imp_right fun ⟨name, hname, hc⟩ => ⟨name, .tail _ hname, hc⟩

theorem mem_clean {path : List Char} {c : Char} (h : c ∈ clean path) : c ∈ path ∨ c = '/' ∨ c = '.' := by
  have hway (hmem : c ∈ ['/'].intercalate (way path)) : c ∈ path ∨ c = '/' ∨ c = '.' := by
    rcases mem_intercalate hmem with rfl | ⟨name, hname, hc⟩
    · exact .inr (.inl rfl)
    · exact .inl (mem_of_mem_names (mem_names_of_mem_way hname) hc)
  rw [clean_eq, assemble] at h
  split at h
  · rcases List.mem_cons.mp h with rfl | h
    · exact .inr (.inl rfl)
    · exact hway h
  · split at h
    · exact .inr (.inr (List.mem_singleton.mp h))
    · exact hway h

theorem validate_clean {path : List Char} (h : validate path = .ok ()) : validate (clean path) = .ok () := by
  obtain ⟨hnul, hnonempty, hshort⟩ := validate_eq_ok_iff.mp h
  refine validate_eq_ok_iff.mpr ⟨fun hmem => ?_, clean_ne_nil path,
    Nat.lt_of_le_of_lt (byteSize_clean_le hnonempty) hshort⟩
  rcases mem_clean hmem with hmem | hmem | hmem
  · exact hnul hmem
  · cases hmem
  · cases hmem

namespace Tree

namespace Walks

variable {t : Tree} {start here there : List (List Char)}

theorem append_iff {first second : List (List Char)} :
    Walks t here (first ++ second) there ↔
      ∃ middle, Walks t here first middle ∧ Walks t middle second there := by
  constructor
  · intro h
    induction first generalizing here with
    | nil => exact ⟨here, .done, h⟩
    | cons name first ih =>
        cases h with
        | stay inside more =>
            obtain ⟨middle, hfirst, hsecond⟩ := ih more
            exact ⟨middle, .stay inside hfirst, hsecond⟩
        | back inside more =>
            obtain ⟨middle, hfirst, hsecond⟩ := ih more
            exact ⟨middle, .back inside hfirst, hsecond⟩
        | enter inside notDot notDots short found more =>
            obtain ⟨middle, hfirst, hsecond⟩ := ih more
            exact ⟨middle, .enter inside notDot notDots short found hfirst, hsecond⟩
  · rintro ⟨middle, hfirst, hsecond⟩
    exact walks_of_walk (by rw [hfirst.walk_append, hsecond.walk])

-- Following a name and then settling it is the same as settling it first, since the way back from a place
-- just entered is the place before.
theorem settle {rooted : Bool} (hstart : rooted = true → start = []) {sofar : List (List Char)}
    {name : List Char} (hsettled : Settled rooted sofar) (h : Walks t start sofar.reverse here)
    (hstep : Walks t here [name] there) : Walks t start (settle rooted sofar name).reverse there := by
  have hafter : Walks t start (name :: sofar).reverse there := by
    rw [List.reverse_cons]
    exact append_iff.mpr ⟨here, h, hstep⟩
  unfold Files.settle
  split
  · next hdot =>
      subst hdot
      cases hstep with
      | stay inside more =>
          cases more
          exact h
      | enter inside notDot => exact absurd rfl notDot
  · split
    · next hdots =>
        subst hdots
        cases hsettled with
        | nil =>
            cases rooted with
            | true =>
                obtain rfl := hstart rfl
                cases h
                cases hstep with
                | back inside more =>
                    cases more
                    exact .done
                | enter inside notDot notDots => exact absurd rfl notDots
            | false => exact hafter
        | back relative before outside => exact hafter
        | name notDot notDots before =>
            dsimp only
            rw [if_neg notDots]
            rw [List.reverse_cons, append_iff] at h
            obtain ⟨middle, hbefore, hlast⟩ := h
            cases hlast with
            | stay => exact absurd rfl notDot
            | back => exact absurd rfl notDots
            | enter inside _ _ _ _ more =>
                cases more
                cases hstep with
                | back inside more =>
                    cases more
                    exact hbefore
                | enter inside notDot notDots => exact absurd rfl notDots
    · exact hafter

theorem foldl_settle {rooted : Bool} (hstart : rooted = true → start = []) {sofar names : List (List Char)}
    (hsettled : Settled rooted sofar) (h : Walks t start sofar.reverse here)
    (hnames : Walks t here names there) :
    Walks t start (names.foldl (Files.settle rooted) sofar).reverse there := by
  induction names generalizing sofar here with
  | nil =>
      cases hnames
      exact h
  | cons name names ih =>
      obtain ⟨middle, hname, hmore⟩ := append_iff.mp (show Walks t here ([name] ++ names) there from hnames)
      exact ih (hsettled.settle name) (h.settle hstart hsettled hname) hmore

theorem way {path : List Char} (hstart : isRooted path = true → start = [])
    (h : Walks t start (names path) there) : Walks t start (way path) there :=
  foldl_settle hstart .nil .done h

end Walks

-- A slash at the end of a path asks no more than that the place is a directory.
theorem walks_steps_iff {t : Tree} {path : List Char} {start here : List (List Char)}
    (h : t.view here.reverse = some none) :
    Walks t start (steps path) here ↔ Walks t start (names path) here := by
  unfold steps
  split
  · rw [Walks.append_iff]
    constructor
    · rintro ⟨middle, hnames, hlast⟩
      cases hlast with
      | stay inside more =>
          cases more
          exact hnames
      | enter inside notDot => exact absurd rfl notDot
    · intro hnames
      exact ⟨here, hnames, .stay h .done⟩
  · rw [List.append_nil]

theorem get?_concat (t : Tree) (place : List (List Char)) (name : List Char) :
    t.get? (place ++ [name]) = (t.get? place).bind (get? [name]) := by
  induction place generalizing t with
  | nil => rfl
  | cons first place ih =>
      cases t with
      | file contents => rfl
      | directory entries =>
          rw [List.cons_append, get?, get?]
          cases entries.lookup first with
          | none => rfl
          | some below => exact ih below

end Tree

namespace Disk

theorem origin_of_rooted {d : Disk} {path : List Char} (h : isRooted path = true) : d.origin path = [] := by
  rw [origin, if_pos h]

theorem find_eq_ok_iff {d : Disk} {u : Tree} {path : List Char} :
    d.find path = .ok u ↔ validate path = .ok () ∧
      ∃ here, d.root.Walks (d.origin path) (steps path) here ∧ d.root.get? here.reverse = some u := by
  constructor
  · intro h
    obtain ⟨⟨⟩, hvalid, h⟩ := of_bind_eq_ok h
    obtain ⟨here, hwalk, h⟩ := of_bind_eq_ok h
    refine ⟨hvalid, here, Tree.walks_of_walk hwalk, ?_⟩
    split at h
    · next hget =>
        cases h
        exact hget
    · cases h
  · rintro ⟨hvalid, here, hwalks, hget⟩
    simp only [find, hvalid, hwalks.walk, bind, Except.bind, hget]
    rfl

theorem ne_nil_of_find {d : Disk} {u : Tree} {path : List Char} (h : d.find path = .ok u) : path ≠ [] :=
  (validate_eq_ok_iff.mp (find_eq_ok_iff.mp h).1).2.1

theorem find_clean {d : Disk} {path : List Char} {entries : List (List Char × Tree)}
    (h : d.find path = .ok (.directory entries)) :
    d.find (clean path) = .ok (.directory entries) ∧
      ∃ here, d.root.Walks (d.origin path) (way path) here ∧
        d.root.get? here.reverse = some (.directory entries) := by
  obtain ⟨hvalid, here, hsteps, hget⟩ := find_eq_ok_iff.mp h
  have horigin : d.origin (clean path) = d.origin path := by rw [origin, isRooted_clean, origin]
  have hinside : d.root.view here.reverse = some none := by
    rw [Tree.view, hget]
    rfl
  have hway := ((Tree.walks_steps_iff hinside).mp hsteps).way origin_of_rooted
  have hnames : d.root.Walks (d.origin path) (names (clean path)) here := by
    by_cases hplace : isRooted path = true ∨ way path ≠ []
    · rwa [clean_eq, names_assemble (isName_of_mem_way path) hplace]
    · obtain ⟨hrelative, hhere⟩ := not_or.mp hplace
      rw [Decidable.not_not] at hhere
      rw [hhere] at hway
      cases hway
      rw [clean_eq, hhere, (Bool.not_eq_true _).mp hrelative]
      exact .stay hinside .done
  refine ⟨find_eq_ok_iff.mpr ⟨validate_clean hvalid, here, ?_, hget⟩, here, hway, hget⟩
  rw [horigin]
  exact (Tree.walks_steps_iff hinside).mpr hnames

-- What a name below a directory leads to is the entry of that name.
theorem lookup_of_find_join {d : Disk} {u : Tree} {directory name : List Char}
    {entries : List (List Char × Tree)} (hdirectory : d.find directory = .ok (.directory entries))
    (hname : IsEntry name) (h : d.find (join directory name) = .ok u) : entries.lookup name = some u := by
  obtain ⟨_, here, hway, hget⟩ := find_clean hdirectory
  obtain ⟨_, there, hsteps, hfound⟩ := find_eq_ok_iff.mp h
  have hnonempty := ne_nil_of_find hdirectory
  have horigin : d.origin (join directory name) = d.origin directory := by
    rw [origin, isRooted_join hnonempty hname, origin]
  have hslash : (join directory name).getLast? ≠ some '/' := by
    rw [join_eq hnonempty hname, assemble_concat, List.getLast?_append,
      List.getLast?_eq_some_getLast hname.nonempty]
    intro hlast
    exact hname.slashless (Option.some.inj hlast ▸ List.getLast_mem hname.nonempty)
  rw [horigin, steps, if_neg (by simpa using hslash), List.append_nil, names_join hnonempty hname,
    Tree.Walks.append_iff] at hsteps
  obtain ⟨middle, hmiddle, hlast⟩ := hsteps
  obtain rfl : middle = here := Except.ok.inj (hmiddle.walk.symm.trans hway.walk)
  cases hlast with
  | stay => exact absurd rfl hname.notDot
  | back => exact absurd rfl hname.notDots
  | enter _ _ _ _ _ more =>
      cases more
      rw [List.reverse_cons, Tree.get?_concat, hget] at hfound
      simpa [Tree.get?] using hfound

end Disk

end PlZero.Files
