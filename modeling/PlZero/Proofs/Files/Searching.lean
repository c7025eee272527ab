import PlZero.Proofs.Files.Queries
import PlZero.Proofs.Files.Resolution

namespace PlZero.Files

namespace Pattern

theorem fits_literals (cs name : List Char) : fits (cs.map .literal) name = true ↔ name = cs := by
  induction cs generalizing name with
  | nil => simp [fits]
  | cons c cs ih =>
      cases name with
      | nil => simp [fits]
      | cons d name => simp [fits, Wildcard.accepts, ih]

theorem mem_tails_iff {name : List Char} (h : '/' ∉ name) {rest : List Char} :
    rest ∈ tails name ↔ rest <:+ name := by
  induction name with
  | nil => simp [tails]
  | cons c name ih =>
      rw [List.mem_cons, not_or] at h
      rw [tails, if_neg (Ne.symm h.1), List.mem_cons, List.suffix_cons_iff, ih h.2]

theorem fits_star {name : List Char} (h : '/' ∉ name) (ending : List Char) :
    fits (.star :: ending.map .literal) name = true ↔ ending <:+ name := by
  simp [fits, fits_literals, mem_tails_iff h]

theorem of_isWild {text : List Char} (h : isWild text = false) {c : Char} (hc : c ∈ text) :
    c ≠ '[' ∧ c ≠ '\\' := by
  have hplain := List.any_eq_false.mp h c hc
  simp only [Bool.or_eq_true, beq_iff_eq, not_or] at hplain
  exact ⟨hplain.1.2, hplain.2⟩

theorem isSome_ofChars? {text : List Char} (h : ∀ c ∈ text, c ≠ '[' ∧ c ≠ '\\') {n : Nat}
    (hn : text.length < n) : (ofChars? n text).isSome = true := by
  induction text generalizing n with
  | nil =>
      cases n with
      | zero => omega
      | succ n => rfl
  | cons c text ih =>
      obtain ⟨hc, htext⟩ := List.forall_mem_cons.mp h
      cases n with
      | zero => omega
      | succ n =>
          have hmore := ih htext (Nat.lt_of_succ_lt_succ hn)
          unfold ofChars?
          split
          · simpa using hmore
          · simpa using hmore
          · exact absurd rfl hc.2
          · exact absurd rfl hc.1
          · simpa using hmore

theorem ofChars?_plain {text : List Char} (h : isWild text = false) {n : Nat} (hn : text.length < n) :
    ofChars? n text = some (text.map .literal) := by
  induction text generalizing n with
  | nil =>
      cases n with
      | zero => omega
      | succ n => rfl
  | cons c text ih =>
      simp only [isWild, List.any_cons, Bool.or_eq_false_iff, beq_eq_false_iff_ne] at h
      obtain ⟨⟨⟨⟨hstar, hany⟩, hlist⟩, hescape⟩, htext⟩ := h
      cases n with
      | zero => omega
      | succ n =>
          have hmore := ih htext (Nat.lt_of_succ_lt_succ hn)
          unfold ofChars?
          split
          · exact absurd rfl hstar
          · exact absurd rfl hany
          · exact absurd rfl hescape
          · exact absurd rfl hlist
          · rw [hmore]
            rfl

theorem parse?_star {ending : List Char} (h : isWild ending = false) :
    parse? ('*' :: ending) = some (.star :: ending.map .literal) := by
  rw [parse?, ofChars?]
  simp [ofChars?_plain h (Nat.lt_succ_self _)]

end Pattern

namespace Disk

theorem searchIn_of_find {d : Disk} {directory : List Char} {entries : List (List Char × Tree)}
    (h : d.find directory = .ok (.directory entries)) (pattern : Pattern) :
    (searchIn directory pattern : StateM Disk _).run d =
      ((((entries.map Prod.fst).mergeSort inOrder).filter pattern.fits).map (join directory), d) := by
  have hdirectory : (Access.isDirectory directory : StateM Disk _).run d = (true, d) := by
    change ((d.find directory).toOption.any Tree.isDirectory, d) = _
    rw [h]
    rfl
  have hlist : (Access.list directory : StateM Disk _).run d = (entries.map Prod.fst, d) := by
    change (d.list directory, d) = _
    rw [Disk.list, h]
  rw [searchIn, run_bind, hdirectory]
  dsimp only
  rw [if_pos rfl, run_bind, hlist]
  rfl

theorem searchNames_of_find {d : Disk} {rooted : Bool} {last : List Char} {way : List (List Char)}
    {pattern : Pattern} {entries : List (List Char × Tree)}
    (hparse : (Pattern.parse? (assemble rooted (way ++ [last]))).isSome = true)
    (hlast : Pattern.parse? last = some pattern) (hplain : Pattern.isWild (assemble rooted way) = false)
    (h : d.find (assemble rooted way) = .ok (.directory entries)) :
    (searchNames rooted (way ++ [last]).reverse : StateM Disk _).run d =
      (some ((((entries.map Prod.fst).mergeSort inOrder).filter pattern.fits).map (join (assemble rooted way))),
        d) := by
  rw [List.reverse_append, List.reverse_singleton, List.singleton_append]
  simp only [searchNames, List.reverse_cons, List.reverse_reverse, Option.isNone_eq_false_iff.mpr hparse, hplain,
    hlast, Bool.false_eq_true, if_false, pure_bind, List.mapM_cons, List.mapM_nil, run_bind, searchIn_of_find h]
  exact congrArg (fun found => (some found, d)) (List.append_nil _)

-- A directory whose path stands for itself is the only one that is searched.
theorem search_join {d : Disk} {directory : List Char} {entries : List (List Char × Tree)}
    (h : d.find directory = .ok (.directory entries)) (hplain : Pattern.isWild (clean directory) = false)
    {ending : List Char} (hending : Pattern.isWild ending = false) (hslashless : '/' ∉ ending) :
    (search (join directory ('*' :: ending)) : StateM Disk _).run d =
      (some ((((entries.map Prod.fst).mergeSort inOrder).filter
        (Pattern.fits (.star :: ending.map .literal))).map (join (clean directory))), d) := by
  have hnonempty := ne_nil_of_find h
  have hname : IsEntry ('*' :: ending) := ⟨⟨by simp, by simpa using hslashless⟩, by simp, by simp⟩
  have hparse : (Pattern.parse? (assemble (isRooted directory) (way directory ++ ['*' :: ending]))).isSome =
      true := by
    refine Pattern.isSome_ofChars? (fun c hc => ?_) (Nat.lt_succ_self _)
    rw [assemble_concat, List.mem_append, List.mem_cons] at hc
    rcases hc with hc | rfl | hc
    · rcases mem_lead hc with rfl | hc
      · decide
      · exact Pattern.of_isWild hplain hc
    · decide
    · exact Pattern.of_isWild hending hc
  rw [search, isRooted_join hnonempty hname, names_join hnonempty hname]
  exact searchNames_of_find hparse (Pattern.parse?_star hending) hplain (find_clean h).1

end Disk

end PlZero.Files
