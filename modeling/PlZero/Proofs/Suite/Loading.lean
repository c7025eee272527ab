import PlZero.Proofs.Files.Searching
import PlZero.Proofs.Text.ByteOrder
import PlZero.Suite.Document

namespace PlZero

namespace Files

-- The bytes of a name.
def bytes (name : List Char) : List UInt8 :=
  (Text.Utf8.encode (String.ofList name)).toList

theorem inOrder_iff (a b : List Char) : inOrder a b = true ↔ ¬ List.Lex (· < ·) (bytes b) (bytes a) := by
  rw [bytes, bytes, Text.Utf8.lex_encode_iff, String.not_lt, inOrder, decide_eq_true_iff]

theorem inOrder_trans (a b c : List Char) (hab : inOrder a b = true) (hbc : inOrder b c = true) :
    inOrder a c = true := by
  simp only [inOrder, decide_eq_true_eq] at hab hbc ⊢
  exact String.le_trans hab hbc

theorem inOrder_total (a b : List Char) : (inOrder a b || inOrder b a) = true := by
  simpa [inOrder] using String.le_total (String.ofList a) (String.ofList b)

theorem inOrder_append {a b : List Char} (h : inOrder a b = true) (lead : List Char) :
    inOrder (lead ++ a) (lead ++ b) = true := by
  simp only [inOrder, decide_eq_true_eq, ← String.not_lt, String.lt_iff, String.toList_ofList] at h ⊢
  induction lead with
  | nil => exact h
  | cons c lead ih =>
      intro hlt
      rcases List.cons_lt_cons_iff.mp hlt with hc | ⟨_, hlt⟩
      · exact Char.lt_irrefl c hc
      · exact ih hlt

end Files

namespace Suite

-- What the file at a path gives, on a disk.
def loadFileIn (decode : Decoder) (d : Files.Disk) (path : String) : Except LoadError (List Case) :=
  ((loadFile decode path : StateM Files.Disk _).run d).1

def loadDirectoryIn (decode : Decoder) (d : Files.Disk) (directory : String) :
    Except LoadError (List Case) × Files.Disk :=
  (loadDirectory decode directory : StateM Files.Disk _).run d

section

variable {decode : Decoder} {d : Files.Disk}

theorem loadFileIn_eq_ok_iff {path : String} {cases : List Case} :
    loadFileIn decode d path = .ok cases ↔
      ∃ bytes, d.read path = .ok bytes ∧ ofBytes decode path bytes = .ok cases := by
  rw [loadFileIn, loadFile, Files.Disk.run_bind, Files.Disk.run_read]
  cases d.read path with
  | ok bytes =>
      change ofBytes decode path bytes = _ ↔ _
      simp
  | error e =>
      change Except.error _ = _ ↔ _
      simp

theorem lookup_of_loadFileIn {directory : String} {entries : List (List Char × Files.Tree)}
    (hdirectory : d.find directory.toList = .ok (.directory entries)) {name : List Char}
    (hname : Files.IsEntry name) {part : List Case}
    (h : loadFileIn decode d (String.ofList (Files.join directory.toList name)) = .ok part) :
    ∃ bytes, entries.lookup name = some (.file bytes) ∧
      ofBytes decode (String.ofList (Files.join directory.toList name)) bytes = .ok part := by
  obtain ⟨bytes, hread, hbytes⟩ := loadFileIn_eq_ok_iff.mp h
  refine ⟨bytes, ?_, hbytes⟩
  apply Files.Disk.lookup_of_find_join hdirectory hname
  rw [Files.Disk.read, String.toList_ofList] at hread
  split at hread
  · next hfind =>
      cases hread
      exact hfind
  · cases hread
  · cases hread

theorem loadFiles_cons (decode : Decoder) (d : Files.Disk) (path : List Char) (paths : List (List Char)) :
    ((loadFiles decode (path :: paths) : StateM Files.Disk _).run d).1 =
      match loadFileIn decode d (String.ofList path), ((loadFiles decode paths : StateM Files.Disk _).run d).1 with
      | .error e, _ => .error e
      | .ok _, .error e => .error e
      | .ok cases, .ok more => .ok (cases ++ more) := by
  rw [loadFiles, Files.Disk.run_bind, readOnly_loadFile, ← loadFileIn]
  cases loadFileIn decode d (String.ofList path) with
  | error e => rfl
  | ok cases =>
      dsimp only
      rw [Files.Disk.run_bind]
      cases ((loadFiles decode paths : StateM Files.Disk _).run d).1 <;> rfl

theorem loadFiles_eq_ok_iff {paths : List (List Char)} {cases : List Case} :
    ((loadFiles decode paths : StateM Files.Disk _).run d).1 = .ok cases ↔
      ∃ parts : List (List Case),
        paths.map (fun path => loadFileIn decode d (String.ofList path)) = parts.map .ok ∧ cases = parts.flatten := by
  induction paths generalizing cases with
  | nil =>
      constructor
      · intro h
        cases h
        exact ⟨[], rfl, rfl⟩
      · rintro ⟨parts, hparts, rfl⟩
        cases List.map_eq_nil_iff.mp hparts.symm
        rfl
  | cons path paths ih =>
      rw [loadFiles_cons, List.map_cons]
      cases hpath : loadFileIn decode d (String.ofList path) with
      | error e =>
          constructor
          · intro h
            cases h
          · rintro ⟨_ | ⟨part, parts⟩, hparts, _⟩ <;> cases hparts
      | ok part =>
          constructor
          · intro h
            cases hmore : ((loadFiles decode paths : StateM Files.Disk _).run d).1 with
            | error e =>
                rw [hmore] at h
                cases h
            | ok more =>
                obtain ⟨parts, hparts, rfl⟩ := ih.mp hmore
                rw [hmore] at h
                cases h
                exact ⟨part :: parts, by rw [hparts, List.map_cons], rfl⟩
          · rintro ⟨_ | ⟨first, parts⟩, hparts, rfl⟩
            · cases hparts
            · obtain ⟨hfirst, hmore⟩ := List.cons.inj hparts
              cases hfirst
              rw [ih.mpr ⟨parts, hmore, rfl⟩]
              rfl

end

theorem exists_parts_iff {paths : List (List Char)} {load : List Char → Except LoadError (List Case)} :
    (∃ parts : List (List Case), paths.map load = parts.map .ok) ↔
      ∀ path ∈ paths, ∃ part, load path = .ok part := by
  induction paths with
  | nil => exact ⟨fun _ _ h => absurd h List.not_mem_nil, fun _ => ⟨[], rfl⟩⟩
  | cons path paths ih =>
      rw [List.forall_mem_cons, ← ih]
      constructor
      · rintro ⟨_ | ⟨part, parts⟩, hparts⟩
        · cases hparts
        · obtain ⟨hpart, hmore⟩ := List.cons.inj hparts
          exact ⟨⟨part, hpart⟩, parts, hmore⟩
      · rintro ⟨⟨part, hpart⟩, parts, hmore⟩
        exact ⟨part :: parts, by rw [List.map_cons, List.map_cons, hpart, hmore]⟩

def isSuiteName (name : List Char) : Bool :=
  ".yaml".toList.isSuffixOf name

theorem isEntry_of_isSuiteName {name : List Char} (hslashless : '/' ∉ name) (h : isSuiteName name = true) :
    Files.IsEntry name := by
  obtain ⟨before, rfl⟩ := List.isSuffixOf_iff_suffix.mp h
  have hne (cs : List Char) (hshort : cs.length < 5) : before ++ ".yaml".toList ≠ cs := by
    rintro rfl
    rw [List.length_append] at hshort
    exact absurd hshort (by simp)
  exact ⟨⟨hne [] (by decide), hslashless⟩, hne _ (by decide), hne _ (by decide)⟩

-- The names of the suites in a directory, in order.
def suiteNames (entries : List (List Char × Files.Tree)) : List (List Char) :=
  ((entries.map Prod.fst).mergeSort Files.inOrder).filter isSuiteName

theorem perm_suiteNames (entries : List (List Char × Files.Tree)) :
    (suiteNames entries).Perm ((entries.map Prod.fst).filter isSuiteName) :=
  (List.mergeSort_perm _ _).filter _

theorem pairwise_suiteNames (entries : List (List Char × Files.Tree)) :
    (suiteNames entries).Pairwise fun a b => Files.inOrder a b = true :=
  (List.pairwise_mergeSort Files.inOrder_trans Files.inOrder_total _).filter _

theorem mem_suiteNames_iff {entries : List (List Char × Files.Tree)} {name : List Char} :
    name ∈ suiteNames entries ↔ (∃ e ∈ entries, e.1 = name) ∧ isSuiteName name = true := by
  rw [(perm_suiteNames entries).mem_iff, List.mem_filter, List.mem_map]

theorem forall_suiteNames_iff {entries : List (List Char × Files.Tree)} {p : List Char → Prop} :
    (suiteNames entries ≠ [] ∧ ∀ name ∈ suiteNames entries, p name) ↔
      (∃ e ∈ entries, isSuiteName e.1 = true) ∧ ∀ e ∈ entries, isSuiteName e.1 = true → p e.1 := by
  constructor
  · rintro ⟨hsome, hall⟩
    obtain ⟨name, hname⟩ := List.exists_mem_of_ne_nil _ hsome
    obtain ⟨⟨e, he, rfl⟩, hsuite⟩ := mem_suiteNames_iff.mp hname
    refine ⟨⟨e, he, hsuite⟩, fun e he hsuite => ?_⟩
    exact hall e.1 (mem_suiteNames_iff.mpr ⟨⟨e, he, rfl⟩, hsuite⟩)
  · rintro ⟨⟨e, he, hsuite⟩, hall⟩
    refine ⟨List.ne_nil_of_mem (mem_suiteNames_iff.mpr ⟨⟨e, he, rfl⟩, hsuite⟩), fun name hname => ?_⟩
    obtain ⟨⟨e, he, rfl⟩, hsuite⟩ := mem_suiteNames_iff.mp hname
    exact hall e he hsuite

section

variable (decode : Decoder) {d : Files.Disk} {directory : String} {entries : List (List Char × Files.Tree)}
  (hdirectory : d.find directory.toList = .ok (.directory entries)) (hnames : ∀ e ∈ entries, '/' ∉ e.1)

include hnames in
theorem isEntry_of_mem_suiteNames {name : List Char} (h : name ∈ suiteNames entries) :
    Files.IsEntry name := by
  obtain ⟨⟨e, he, rfl⟩, hsuite⟩ := mem_suiteNames_iff.mp h
  exact isEntry_of_isSuiteName (hnames e he) hsuite

include hdirectory hnames

theorem search_suites (hplain : Files.Pattern.isWild (Files.clean directory.toList) = false) :
    (Files.search (Files.join directory.toList "*.yaml".toList) : StateM Files.Disk _).run d =
      (some ((suiteNames entries).map (Files.join directory.toList)), d) := by
  have hnonempty := Files.Disk.ne_nil_of_find hdirectory
  have hfits : ((entries.map Prod.fst).mergeSort Files.inOrder).filter
      (Files.Pattern.fits (.star :: ".yaml".toList.map .literal)) = suiteNames entries := by
    refine List.filter_congr fun name hname => ?_
    obtain ⟨e, he, rfl⟩ := List.mem_map.mp ((List.mergeSort_perm _ _).mem_iff.mp hname)
    rw [Bool.eq_iff_iff, Files.Pattern.fits_star (hnames e he), isSuiteName, List.isSuffixOf_iff_suffix]
  have hending : Files.Pattern.isWild ".yaml".toList = false := by decide
  have hsearch := Files.Disk.search_join hdirectory hplain hending (by decide)
  have hjoin : (suiteNames entries).map (Files.join (Files.clean directory.toList)) =
      (suiteNames entries).map (Files.join directory.toList) :=
    List.map_congr_left fun name hname =>
      Files.join_clean hnonempty (isEntry_of_mem_suiteNames hnames hname)
  rw [hfits, hjoin] at hsearch
  exact hsearch

-- All paths begin alike, so that they are in the order of the names.
theorem pairwise_paths : ((suiteNames entries).map (Files.join directory.toList)).Pairwise
    fun a b => Files.inOrder a b = true := by
  have hnonempty := Files.Disk.ne_nil_of_find hdirectory
  have hlead : (suiteNames entries).map (Files.join directory.toList) = (suiteNames entries).map
      (Files.lead (Files.isRooted directory.toList) (Files.way directory.toList) ++ ·) :=
    List.map_congr_left fun name hname => by
      rw [Files.join_eq hnonempty (isEntry_of_mem_suiteNames hnames hname), Files.assemble_concat]
  rw [hlead, List.pairwise_map]
  exact (pairwise_suiteNames entries).imp fun h => Files.inOrder_append h _

theorem loadDirectoryIn_fst (hplain : Files.Pattern.isWild (Files.clean directory.toList) = false) :
    (loadDirectoryIn decode d directory).1 =
      if suiteNames entries = [] then .error (.noSuites directory)
      else ((loadFiles decode ((suiteNames entries).map (Files.join directory.toList)) :
        StateM Files.Disk _).run d).1 := by
  have hsorted := List.mergeSort_of_pairwise (pairwise_paths hdirectory hnames)
  rw [loadDirectoryIn, loadDirectory, Files.Disk.run_bind, search_suites hdirectory hnames hplain]
  cases hsuites : suiteNames entries with
  | nil => rfl
  | cons name names =>
      rw [hsuites] at hsorted
      rw [if_neg (by simp)]
      exact congrArg (fun paths => ((loadFiles decode paths : StateM Files.Disk _).run d).1) hsorted

theorem loadDirectoryIn_isOk_iff (hplain : Files.Pattern.isWild (Files.clean directory.toList) = false) :
    (∃ cases, (loadDirectoryIn decode d directory).1 = .ok cases) ↔
      suiteNames entries ≠ [] ∧ ∀ name ∈ suiteNames entries,
        ∃ part, loadFileIn decode d (String.ofList (Files.join directory.toList name)) = .ok part := by
  rw [loadDirectoryIn_fst decode hdirectory hnames hplain]
  split
  · next hnone => simp [hnone]
  · next hsome =>
      rw [← exists_parts_iff]
      constructor
      · rintro ⟨cases, hcases⟩
        obtain ⟨parts, hparts, _⟩ := loadFiles_eq_ok_iff.mp hcases
        rw [List.map_map] at hparts
        exact ⟨hsome, parts, hparts⟩
      · rintro ⟨_, parts, hparts⟩
        exact ⟨parts.flatten, loadFiles_eq_ok_iff.mpr ⟨parts, by rw [List.map_map]; exact hparts, rfl⟩⟩

end

def suiteText : List UInt8 :=
  (Text.Utf8.encode "name: s\ntests:\n  - name: one\n    source: \"begin end\"\n").toList

def drawer : List (List Char × Files.Tree) :=
  [("b.yaml".toList, .file suiteText), ("notes".toList, .file []), ("a.yaml".toList, .file suiteText)]

-- A directory of that name with a drawer in it, seen from the directory above it.
def cabinet (name : String) : Files.Disk :=
  { root := .directory [("srv".toList, .directory [(name.toList, .directory drawer)])], home := ["srv".toList] }

theorem exists_part {x : Except LoadError (List Case)} (h : x.toOption.isSome = true) :
    ∃ part, x = .ok part := by
  cases x with
  | error e => cases h
  | ok part => exact ⟨part, rfl⟩

end Suite

end PlZero
