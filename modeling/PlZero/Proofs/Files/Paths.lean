import PlZero.Proofs.Files.Places

namespace PlZero.Files

theorem segments_ne_nil (path : List Char) : segments path ≠ [] := by
  fun_cases segments path <;> simp

theorem segments_slash (path : List Char) : segments ('/' :: path) = [] :: segments path := rfl

theorem segments_cons {c : Char} (hc : c ≠ '/') (path : List Char) :
    ∃ first more, segments path = first :: more ∧ segments (c :: path) = (c :: first) :: more := by
  obtain ⟨first, more, hsegments⟩ := List.exists_cons_of_ne_nil (segments_ne_nil path)
  exact ⟨first, more, hsegments, by simp [segments, hsegments]⟩

theorem segments_of_slashless {path : List Char} (h : '/' ∉ path) : segments path = [path] := by
  induction path with
  | nil => rfl
  | cons c path ih =>
      rw [List.mem_cons, not_or] at h
      obtain ⟨first, more, hpath, hsegments⟩ := segments_cons (Ne.symm h.1) path
      rw [ih h.2] at hpath
      cases hpath
      exact hsegments

theorem segments_append (path rest : List Char) :
    segments (path ++ '/' :: rest) = segments path ++ segments rest := by
  induction path with
  | nil => rfl
  | cons c path ih =>
      rw [List.cons_append]
      by_cases hc : c = '/'
      · subst hc
        rw [segments_slash, segments_slash, ih]
        rfl
      · obtain ⟨first, more, hpath, hsegments⟩ := segments_cons hc path
        obtain ⟨first', more', hpath', hsegments'⟩ := segments_cons hc (path ++ '/' :: rest)
        rw [ih, hpath] at hpath'
        cases hpath'
        rw [hsegments', hsegments]
        rfl

theorem of_mem_segments {path segment : List Char} (h : segment ∈ segments path) :
    '/' ∉ segment ∧ ∀ c ∈ segment, c ∈ path := by
  induction path generalizing segment with
  | nil =>
      cases List.mem_singleton.mp h
      simp
  | cons c path ih =>
      by_cases hc : c = '/'
      · subst hc
        rw [segments_slash] at h
        rcases List.mem_cons.mp h with rfl | h
        · simp
        · exact ⟨(ih h).1, fun d hd => .tail _ ((ih h).2 d hd)⟩
      · obtain ⟨first, more, hpath, hsegments⟩ := segments_cons hc path
        rw [hsegments] at h
        rcases List.mem_cons.mp h with rfl | h
        · have hfirst := ih (hpath ▸ List.mem_cons_self)
          refine ⟨?_, fun d hd => ?_⟩
          · simpa [Ne.symm hc] using hfirst.1
          · rcases List.mem_cons.mp hd with rfl | hd
            · exact List.mem_cons_self
            · exact .tail _ (hfirst.2 d hd)
        · have hmore := ih (hpath ▸ List.mem_cons_of_mem first h)
          exact ⟨hmore.1, fun d hd => .tail _ (hmore.2 d hd)⟩

-- What may stand between two slashes and be followed.
structure IsName (name : List Char) : Prop where
  nonempty : name ≠ []
  slashless : '/' ∉ name

theorem IsName.of_mem {path name : List Char} (h : name ∈ names path) : IsName name := by
  obtain ⟨hsegment, hnonempty⟩ := List.mem_filter.mp h
  exact ⟨by simpa using hnonempty, (of_mem_segments hsegment).1⟩

theorem mem_of_mem_names {path name : List Char} (h : name ∈ names path) {c : Char} (hc : c ∈ name) :
    c ∈ path :=
  (of_mem_segments (List.mem_filter.mp h).1).2 c hc

theorem names_append (path rest : List Char) : names (path ++ '/' :: rest) = names path ++ names rest := by
  rw [names, segments_append, List.filter_append]
  rfl

theorem IsName.names {name : List Char} (h : IsName name) : names name = [name] := by
  have hnonempty := h.nonempty
  simp [Files.names, segments_of_slashless h.slashless, hnonempty]

theorem names_slash (path : List Char) : names ('/' :: path) = names path :=
  names_append [] path

theorem intercalate_concat {way : List (List Char)} (h : way ≠ []) (name : List Char) :
    ['/'].intercalate (way ++ [name]) = ['/'].intercalate way ++ '/' :: name := by
  induction way with
  | nil => exact absurd rfl h
  | cons first way ih =>
      cases way with
      | nil => simp
      | cons second way =>
          rw [List.cons_append, List.cons_append, List.intercalate_cons_cons, ← List.cons_append, ih (by simp),
            List.intercalate_cons_cons]
          simp

theorem names_intercalate {way : List (List Char)} (h : ∀ name ∈ way, IsName name) :
    names (['/'].intercalate way) = way := by
  induction way with
  | nil => rfl
  | cons first way ih =>
      obtain ⟨hfirst, hway⟩ := List.forall_mem_cons.mp h
      cases way with
      | nil => rw [List.intercalate_singleton, hfirst.names]
      | cons second way =>
          rw [List.intercalate_cons_cons, List.append_assoc, List.singleton_append, names_append,
            hfirst.names, ih hway]
          rfl

theorem head?_intercalate {way : List (List Char)} (h : ∀ name ∈ way, IsName name) :
    (['/'].intercalate way).head? ≠ some '/' := by
  cases way with
  | nil => simp
  | cons first way =>
      obtain ⟨hfirst, _⟩ := List.forall_mem_cons.mp h
      obtain ⟨c, rest, rfl⟩ := List.exists_cons_of_ne_nil hfirst.nonempty
      have hc : c ≠ '/' := fun hc => hfirst.slashless (by simp [hc])
      cases way with
      | nil => simpa using hc
      | cons second way => simpa [List.intercalate_cons_cons] using hc

theorem isRooted_assemble (rooted : Bool) {way : List (List Char)} (h : ∀ name ∈ way, IsName name) :
    isRooted (assemble rooted way) = rooted := by
  have hhead := head?_intercalate h
  unfold assemble isRooted
  cases rooted with
  | true => rfl
  | false =>
      dsimp only
      rw [if_neg (by simp)]
      split
      · rfl
      · simpa using hhead

theorem names_assemble {rooted : Bool} {way : List (List Char)} (h : ∀ name ∈ way, IsName name)
    (hplace : rooted = true ∨ way ≠ []) : names (assemble rooted way) = way := by
  unfold assemble
  dsimp only
  split
  · rw [names_slash, names_intercalate h]
  · next hrelative =>
      rw [if_neg (by simpa using hplace.resolve_left hrelative), names_intercalate h]

-- What stands before a name that is put at the end of a way.
def lead (rooted : Bool) (way : List (List Char)) : List Char :=
  if way = [] then if rooted then ['/'] else [] else assemble rooted way ++ ['/']

theorem assemble_concat (rooted : Bool) (way : List (List Char)) (name : List Char) :
    assemble rooted (way ++ [name]) = lead rooted way ++ name := by
  unfold lead assemble
  by_cases hway : way = []
  · subst hway
    cases rooted <;> simp
  · cases rooted <;> simp [hway, intercalate_concat hway name]

theorem mem_lead {rooted : Bool} {way : List (List Char)} {c : Char} (h : c ∈ lead rooted way) :
    c = '/' ∨ c ∈ assemble rooted way := by
  unfold lead at h
  split at h
  · cases rooted <;> simp_all
  · simpa [or_comm] using h

-- The names that are left once every dot has been followed, latest first: where two dots are among them,
-- nothing is left to go back from.
inductive Settled (rooted : Bool) : List (List Char) → Prop where
  | nil : Settled rooted []
  | back {sofar : List (List Char)} (relative : rooted = false) (before : Settled rooted sofar)
      (outside : ∀ name ∈ sofar, name = ['.', '.']) : Settled rooted (['.', '.'] :: sofar)
  | name {sofar : List (List Char)} {name : List Char} (notDot : name ≠ ['.']) (notDots : name ≠ ['.', '.'])
      (before : Settled rooted sofar) : Settled rooted (name :: sofar)

namespace Settled

variable {rooted : Bool} {sofar : List (List Char)}

theorem settle (h : Settled rooted sofar) (name : List Char) : Settled rooted (settle rooted sofar name) := by
  unfold Files.settle
  split
  · exact h
  · split
    · next hdots =>
        subst hdots
        cases h with
        | nil =>
            cases rooted with
            | true => exact .nil
            | false => exact .back rfl .nil (by simp)
        | back relative before outside =>
            exact .back relative (.back relative before outside) (by simpa using outside)
        | name notDot notDots before =>
            dsimp only
            rw [if_neg notDots]
            exact before
    · next notDot notDots => exact .name notDot notDots h

theorem settle_name (sofar : List (List Char)) {name : List Char} (notDot : name ≠ ['.'])
    (notDots : name ≠ ['.', '.']) : Files.settle rooted sofar name = name :: sofar := by
  unfold Files.settle
  rw [if_neg notDot, if_neg notDots]

theorem foldl (h : Settled rooted sofar) (names : List (List Char)) :
    Settled rooted (names.foldl (Files.settle rooted) sofar) := by
  induction names generalizing sofar with
  | nil => exact h
  | cons name names ih => exact ih (h.settle name)

theorem foldl_reverse (h : Settled rooted sofar) : sofar.reverse.foldl (Files.settle rooted) [] = sofar := by
  induction h with
  | nil => rfl
  | back relative _ outside ih =>
      rw [List.reverse_cons, List.foldl_append, ih, List.foldl_cons, List.foldl_nil]
      unfold Files.settle
      rw [if_neg (by decide), if_pos rfl]
      split
      · rw [relative]
        rfl
      · rw [if_pos (outside _ List.mem_cons_self)]
  | name notDot notDots _ ih =>
      rw [List.reverse_cons, List.foldl_append, ih, List.foldl_cons, List.foldl_nil,
        settle_name _ notDot notDots]

end Settled

-- The names of the shortest path for the same place.
def way (path : List Char) : List (List Char) :=
  ((names path).foldl (settle (isRooted path)) []).reverse

theorem clean_eq (path : List Char) : clean path = assemble (isRooted path) (way path) := rfl

theorem mem_settle {rooted : Bool} {sofar : List (List Char)} {name other : List Char}
    (h : other ∈ settle rooted sofar name) : other ∈ sofar ∨ other = name := by
  unfold settle at h
  split at h
  · exact .inl h
  · split at h
    · split at h
      · split at h
        · cases h
        · exact .inr (List.mem_singleton.mp h)
      · split at h
        · exact (List.mem_cons.mp h).symm
        · exact .inl (.tail _ h)
    · exact (List.mem_cons.mp h).symm

theorem mem_foldl_settle {rooted : Bool} {names sofar : List (List Char)} {name : List Char}
    (h : name ∈ names.foldl (settle rooted) sofar) : name ∈ sofar ∨ name ∈ names := by
  induction names generalizing sofar with
  | nil => exact .inl h
  | cons first names ih =>
      rcases ih h with hmem | hmem
      · rcases mem_settle hmem with hmem | rfl
        · exact .inl hmem
        · exact .inr List.mem_cons_self
      · exact .inr (.tail _ hmem)

theorem mem_names_of_mem_way {path name : List Char} (h : name ∈ way path) : name ∈ names path :=
  (mem_foldl_settle (List.mem_reverse.mp h)).resolve_left List.not_mem_nil

theorem isName_of_mem_way (path : List Char) : ∀ name ∈ way path, IsName name :=
  fun _ h => .of_mem (mem_names_of_mem_way h)

theorem isRooted_clean (path : List Char) : isRooted (clean path) = isRooted path :=
  isRooted_assemble _ (isName_of_mem_way path)

theorem way_clean (path : List Char) : way (clean path) = way path := by
  by_cases hplace : isRooted path = true ∨ way path ≠ []
  · have hsettled : Settled (isRooted path) (way path).reverse := by
      rw [way, List.reverse_reverse]
      exact Settled.nil.foldl _
    have hfold := hsettled.foldl_reverse
    rw [List.reverse_reverse] at hfold
    rw [way, isRooted_clean, clean_eq, names_assemble (isName_of_mem_way path) hplace, hfold,
      List.reverse_reverse]
  · obtain ⟨hrelative, hway⟩ := not_or.mp hplace
    rw [clean_eq, Decidable.not_not.mp hway, (Bool.not_eq_true _).mp hrelative]
    rfl

theorem clean_ne_nil (path : List Char) : clean path ≠ [] := by
  intro hclean
  have hnames : names (clean path) = [] := by rw [hclean]; rfl
  have hrooted : isRooted path = false := by rw [← isRooted_clean, hclean]; rfl
  by_cases hway : way path = []
  · rw [clean_eq, hway, hrooted] at hclean
    cases hclean
  · rw [clean_eq, names_assemble (isName_of_mem_way path) (.inr hway)] at hnames
    exact hway hnames

-- A name that can be that of an entry.
structure IsEntry (name : List Char) : Prop extends IsName name where
  notDot : name ≠ ['.']
  notDots : name ≠ ['.', '.']

section

variable {directory name : List Char} (hdirectory : directory ≠ []) (hname : IsEntry name)

include hdirectory hname

theorem join_eq : join directory name = assemble (isRooted directory) (way directory ++ [name]) := by
  have hrooted : isRooted (directory ++ '/' :: name) = isRooted directory := by
    obtain ⟨c, rest, rfl⟩ := List.exists_cons_of_ne_nil hdirectory
    rfl
  have hway : way (directory ++ '/' :: name) = way directory ++ [name] := by
    rw [way, hrooted, names_append, hname.names, List.foldl_append, List.foldl_cons, List.foldl_nil,
      Settled.settle_name _ hname.notDot hname.notDots, List.reverse_cons]
    rfl
  rw [join, if_neg (by simpa using hdirectory), clean_eq, hrooted, hway]

theorem join_clean : join (clean directory) name = join directory name := by
  rw [join_eq (clean_ne_nil directory) hname, isRooted_clean, way_clean, join_eq hdirectory hname]

omit hdirectory in
theorem isName_of_mem_concat : ∀ n ∈ way directory ++ [name], IsName n := by
  intro n hn
  rcases List.mem_append.mp hn with hn | hn
  · exact isName_of_mem_way directory n hn
  · rw [List.mem_singleton.mp hn]
    exact hname.toIsName

theorem isRooted_join : isRooted (join directory name) = isRooted directory := by
  rw [join_eq hdirectory hname, isRooted_assemble _ (isName_of_mem_concat hname)]

theorem names_join : names (join directory name) = way directory ++ [name] := by
  rw [join_eq hdirectory hname, names_assemble (isName_of_mem_concat hname) (.inr (by simp))]

end

end PlZero.Files
