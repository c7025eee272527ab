import PlZero.Files.Disk
import PlZero.Proofs.Machine.Trail
import PlZero.Proofs.Text.Encoding

namespace PlZero.Files

namespace Tree

def contents? : Tree → Option (List UInt8)
  | file contents => some contents
  | directory _ => none

-- What stands at a place: the contents of a file, or a directory, which has no contents of its own.
def view (t : Tree) (place : List (List Char)) : Option (Option (List UInt8)) :=
  (t.get? place).map contents?

theorem any_isDirectory (o : Option Tree) :
    o.any isDirectory = decide (o.map contents? = some none) := by
  rcases o with _ | _ | _ <;> simp [isDirectory, contents?]

theorem view_nil (t : Tree) : t.view [] = some t.contents? := rfl

theorem view_cons (name : List Char) (rest : List (List Char)) (entries : List (List Char × Tree)) :
    (directory entries).view (name :: rest) = (entries.lookup name).bind (·.view rest) := by
  simp only [view, get?]
  cases entries.lookup name <;> rfl

theorem view_file_cons (contents : List UInt8) (name : List Char) (rest : List (List Char)) :
    (file contents).view (name :: rest) = none := rfl

theorem view_putEntry (name : List Char) (t : Tree) (entries : List (List Char × Tree))
    (other : List Char) (rest : List (List Char)) :
    (directory (putEntry name t entries)).view (other :: rest) =
      if other = name then t.view rest else (directory entries).view (other :: rest) := by
  rw [view_cons, view_cons]
  split
  · next h => rw [h, lookup_putEntry_self, Option.bind_some]
  · next h => rw [lookup_putEntry_ne h]

theorem exists_directory {t : Tree} {parent : List (List Char)} (h : t.view parent = some none) :
    ∃ entries, t = directory entries := by
  cases t with
  | directory entries => exact ⟨entries, rfl⟩
  | file contents => cases parent <;> cases h

theorem view_put {t : Tree} {parent : List (List Char)} {last : List Char}
    (hparent : t.view parent = some none) (hfree : t.view (parent ++ [last]) ≠ some none)
    (contents : List UInt8) (place : List (List Char)) :
    (put contents (parent ++ [last]) t).view place =
      if place = parent ++ [last] then some (some contents) else t.view place := by
  obtain ⟨entries, rfl⟩ := exists_directory hparent
  induction parent generalizing entries place with
  | nil =>
      cases place with
      | nil => rfl
      | cons name rest =>
          rw [List.nil_append, put, put, view_putEntry]
          by_cases hname : name = last
          · subst hname
            cases rest with
            | nil => simp [view_nil, contents?]
            | cons other rest =>
                -- Nothing stands below a file.
                rw [List.nil_append, view_cons] at hfree
                rw [if_pos rfl, if_neg (by simp), view_cons, view_file_cons]
                rcases hl : entries.lookup name with _ | _ | _
                · rfl
                · rfl
                · simp [hl, view_nil, contents?] at hfree
          · simp [hname]
  | cons first parent ih =>
      rw [view_cons, Option.bind_eq_some_iff] at hparent
      obtain ⟨below, hbelow, hparent⟩ := hparent
      rw [List.cons_append, view_cons, hbelow, Option.bind_some] at hfree
      obtain ⟨entries', rfl⟩ := exists_directory hparent
      cases place with
      | nil => rfl
      | cons name rest =>
          rw [List.cons_append, put, view_putEntry, hbelow, Option.getD_some]
          by_cases hname : name = first
          · subst hname
            rw [if_pos rfl, ih rest entries' hparent hfree, view_cons, hbelow, Option.bind_some]
            simp
          · simp [hname]

-- The tree `t` with a file written at a place where one may stand.
structure Written (t t' : Tree) (place : List (List Char)) (contents : List UInt8) : Prop where
  free : t.view place ≠ some none
  entries : ∀ other, t'.view other = if other = place then some (some contents) else t.view other

namespace Written

variable {t t' : Tree} {place : List (List Char)} {contents : List UInt8}

theorem self (h : Written t t' place contents) : t'.view place = some (some contents) := by
  rw [h.entries, if_pos rfl]

theorem other (h : Written t t' place contents) {q : List (List Char)} (hq : q ≠ place) :
    t'.view q = t.view q := by
  rw [h.entries, if_neg hq]

theorem directory_iff (h : Written t t' place contents) (q : List (List Char)) :
    t'.view q = some none ↔ t.view q = some none := by
  by_cases hq : q = place
  · subst hq
    simp [h.self, h.free]
  · rw [h.other hq]

theorem isSome (h : Written t t' place contents) {q : List (List Char)} (hq : (t.view q).isSome = true) :
    (t'.view q).isSome = true := by
  rw [h.entries]
  split
  · rfl
  · exact hq

end Written

theorem walk_cons (t : Tree) (here : List (List Char)) (name : List Char) (rest : List (List Char)) :
    t.walk here (name :: rest) =
      if t.view here.reverse = some none then
        if name = ['.'] then t.walk here rest
        else if name = ['.', '.'] then t.walk (here.drop 1) rest
        else if nameLimit < byteSize name then .error .tooLong
        else if (t.view (name :: here).reverse).isSome then t.walk (name :: here) rest
        else .error .missing
      else .error .notDirectory := by
  rw [walk]
  simp only [any_isDirectory, view, Option.isSome_map, decide_eq_true_eq]

-- A walk that does not fail. Places are given latest name first.
inductive Walks (t : Tree) : List (List Char) → List (List Char) → List (List Char) → Prop where
  | done {here : List (List Char)} : Walks t here [] here
  | stay {here there rest : List (List Char)} (inside : t.view here.reverse = some none)
      (more : Walks t here rest there) : Walks t here (['.'] :: rest) there
  | back {here there rest : List (List Char)} (inside : t.view here.reverse = some none)
      (more : Walks t (here.drop 1) rest there) : Walks t here (['.', '.'] :: rest) there
  | enter {here there rest : List (List Char)} {name : List Char}
      (inside : t.view here.reverse = some none) (notDot : name ≠ ['.']) (notDots : name ≠ ['.', '.'])
      (short : ¬ nameLimit < byteSize name) (found : (t.view (name :: here).reverse).isSome = true)
      (more : Walks t (name :: here) rest there) : Walks t here (name :: rest) there

theorem walks_of_walk {t : Tree} {here there names : List (List Char)}
    (h : t.walk here names = .ok there) : Walks t here names there := by
  induction names generalizing here with
  | nil =>
      simp only [walk] at h
      cases h
      exact .done
  | cons name rest ih =>
      rw [walk_cons] at h
      split at h
      · next inside =>
          split at h
          · next hdot =>
              subst hdot
              exact .stay inside (ih h)
          split at h
          · next hdots =>
              subst hdots
              exact .back inside (ih h)
          split at h
          · cases h
          split at h
          · next notDot notDots short found => exact .enter inside notDot notDots short found (ih h)
          · cases h
      · cases h

namespace Walks

variable {t : Tree} {here there names : List (List Char)}

theorem walk_append (h : Walks t here names there) (more : List (List Char)) :
    t.walk here (names ++ more) = t.walk there more := by
  induction h with
  | done => rfl
  | stay inside _ ih => rw [List.cons_append, walk_cons, if_pos inside, if_pos rfl, ih]
  | back inside _ ih =>
      rw [List.cons_append, walk_cons, if_pos inside, if_neg (by decide), if_pos rfl, ih]
  | enter inside notDot notDots short found _ ih =>
      rw [List.cons_append, walk_cons, if_pos inside, if_neg notDot, if_neg notDots, if_neg short,
        if_pos found, ih]

theorem walk (h : Walks t here names there) : t.walk here names = .ok there := by
  have happend := h.walk_append []
  rw [List.append_nil] at happend
  rw [happend]
  simp [Tree.walk]

theorem written (h : Walks t here names there) {t' : Tree} {place : List (List Char)}
    {contents : List UInt8} (hwritten : Written t t' place contents) : Walks t' here names there := by
  induction h with
  | done => exact .done
  | stay inside _ ih => exact .stay ((hwritten.directory_iff _).mpr inside) ih
  | back inside _ ih => exact .back ((hwritten.directory_iff _).mpr inside) ih
  | enter inside notDot notDots short found _ ih =>
      exact .enter ((hwritten.directory_iff _).mpr inside) notDot notDots short (hwritten.isSome found) ih

theorem inside (h : Walks t here names there) (hthere : t.view there.reverse = some none) :
    t.view here.reverse = some none := by
  cases h with
  | done => exact hthere
  | stay inside => exact inside
  | back inside => exact inside
  | enter inside => exact inside

-- A way to a directory leads through directories, and none of them is new.
theorem of_written {t' : Tree} (h : Walks t' here names there) {place : List (List Char)}
    {contents : List UInt8} (hwritten : Written t t' place contents)
    (hthere : t'.view there.reverse = some none) : Walks t here names there := by
  induction h with
  | done => exact .done
  | stay inside _ ih => exact .stay ((hwritten.directory_iff _).mp inside) (ih hthere)
  | back inside _ ih => exact .back ((hwritten.directory_iff _).mp inside) (ih hthere)
  | enter inside notDot notDots short _ more ih =>
      have hentered := (hwritten.directory_iff _).mp (more.inside hthere)
      exact .enter ((hwritten.directory_iff _).mp inside) notDot notDots short (by rw [hentered]; rfl)
        (ih hthere)

end Walks

end Tree

namespace Disk

def view (d : Disk) (place : List (List Char)) : Option (Option (List UInt8)) := d.root.view place

-- The disk `d` with a file written at a place where one may stand.
structure Written (d d' : Disk) (place : List (List Char)) (contents : List UInt8) : Prop where
  root : d.root.Written d'.root place contents
  home : d'.home = d.home
  rules : d'.rules = d.rules

theorem Written.origin {d d' : Disk} {place : List (List Char)} {contents : List UInt8}
    (h : d.Written d' place contents) (path : List Char) : d'.origin path = d.origin path := by
  rw [Disk.origin, Disk.origin, h.home]

-- A path to a place where a file stands or may be made.
structure Leads (d : Disk) (path : List Char) (place : List (List Char)) : Prop where
  valid : validate path = .ok ()
  noSlash : path.getLast? ≠ some '/'
  allowed : d.rules.bars place = none
  last : ∃ before name parent, names path = before ++ [name] ∧ place = parent.reverse ++ [name] ∧
    name ≠ ['.'] ∧ name ≠ ['.', '.'] ∧ ¬ nameLimit < byteSize name ∧
    d.root.Walks (d.origin path) before parent ∧ d.root.view parent.reverse = some none ∧
    d.root.view place ≠ some none

theorem leads_of_target {d : Disk} {path : List Char} {place : List (List Char)}
    (h : d.target path = .ok place) : d.Leads path place := by
  obtain ⟨⟨⟩, hvalid, h⟩ := of_bind_eq_ok h
  dsimp only at h
  split at h
  · next name hlast =>
      obtain ⟨parent, hwalk, h⟩ := of_bind_eq_ok h
      simp only [Tree.any_isDirectory] at h
      split at h
      · cases h
      next hdirectory =>
      split at h
      · cases h
      next hplain =>
      split at h
      · cases h
      next hshort =>
      split at h
      · cases h
      next hfree =>
      split at h
      · cases h
      next hallowed =>
      cases h
      obtain ⟨before, hnames⟩ := List.getLast?_eq_some_iff.mp hlast
      rw [hnames, List.dropLast_concat] at hwalk
      rw [not_or, not_or] at hplain
      refine ⟨hvalid, hplain.2.2, hallowed, before, name, parent, hnames, by simp, hplain.1, hplain.2.1,
        hshort, Tree.walks_of_walk hwalk, by simpa [Tree.view] using hdirectory, ?_⟩
      simpa [Tree.view] using hfree
  · cases h

namespace Leads

variable {d d' : Disk} {path : List Char} {place there : List (List Char)} {contents : List UInt8}

theorem target (h : d.Leads path place) : d.target path = .ok place := by
  obtain ⟨before, name, parent, hnames, rfl, hdot, hdots, hshort, hwalks, hdirectory, hfree⟩ := h.last
  have hlast : (names path).getLast? = some name := by rw [hnames, List.getLast?_concat]
  have hwalk : d.root.walk (d.origin path) (names path).dropLast = .ok parent := by
    rw [hnames, List.dropLast_concat, hwalks.walk]
  have hparent : (d.root.get? parent.reverse).any Tree.isDirectory = true := by
    simpa [Tree.any_isDirectory, Tree.view] using hdirectory
  have hplace : (d.root.get? (parent.reverse ++ [name])).any Tree.isDirectory = false := by
    simpa [Tree.any_isDirectory, Tree.view] using hfree
  simp only [Disk.target, h.valid, hlast, hwalk, hdot, hdots, h.noSlash, hshort]
  simp [bind, Except.bind, pure, Except.pure, hparent, hplace, h.allowed]

theorem written (h : d.Leads path place) (hwritten : d.Written d' there contents) : d'.Leads path place := by
  obtain ⟨before, name, parent, hnames, hplace, hdot, hdots, hshort, hwalks, hdirectory, hfree⟩ := h.last
  refine ⟨h.valid, h.noSlash, hwritten.rules ▸ h.allowed, before, name, parent, hnames, hplace, hdot,
    hdots, hshort, hwritten.origin path ▸ hwalks.written hwritten.root, (hwritten.root.directory_iff _).mpr hdirectory, ?_⟩
  rwa [ne_eq, hwritten.root.directory_iff]

theorem of_written (h : d'.Leads path place) (hwritten : d.Written d' there contents) :
    d.Leads path place := by
  obtain ⟨before, name, parent, hnames, hplace, hdot, hdots, hshort, hwalks, hdirectory, hfree⟩ := h.last
  refine ⟨h.valid, h.noSlash, hwritten.rules ▸ h.allowed, before, name, parent, hnames, hplace, hdot,
    hdots, hshort, hwritten.origin path ▸ hwalks.of_written hwritten.root hdirectory,
    (hwritten.root.directory_iff _).mp hdirectory, ?_⟩
  rwa [ne_eq, ← hwritten.root.directory_iff]

-- What such a path leads to depends on the place alone.
theorem read {path : String} (h : d.Leads path.toList place) :
    d.read path = match d.view place with
      | some (some contents) => .ok contents
      | _ => .error ⟨.opening, path, .missing⟩ := by
  obtain ⟨before, name, parent, hnames, rfl, hdot, hdots, hshort, hwalks, hdirectory, hfree⟩ := h.last
  have hsteps : steps path.toList = before ++ [name] := by
    simp [steps, h.noSlash, hnames]
  have hwalk : d.root.walk (d.origin path.toList) (steps path.toList) =
      if (d.root.view (parent.reverse ++ [name])).isSome then .ok (name :: parent) else .error .missing := by
    rw [hsteps, hwalks.walk_append, Tree.walk_cons, if_pos hdirectory, if_neg hdot, if_neg hdots,
      if_neg hshort]
    simp [Tree.walk]
  have hfind : d.find path.toList = (d.root.get? (parent.reverse ++ [name])).elim (.error .missing) .ok := by
    simp only [find, h.valid, hwalk, Tree.view]
    rcases Option.eq_none_or_eq_some (d.root.get? (parent.reverse ++ [name])) with hget | ⟨found, hget⟩ <;>
      simp [bind, Except.bind, pure, Except.pure, hget]
  rw [Disk.read, hfind, view]
  unfold Tree.view at hfree ⊢
  generalize d.root.get? (parent.reverse ++ [name]) = found at hfree
  rcases found with _ | contents | entries
  · rfl
  · rfl
  · exact absurd rfl hfree

end Leads

theorem written_put {d : Disk} {path : List Char} {place : List (List Char)}
    (h : d.target path = .ok place) (contents : List UInt8) : d.Written (d.put contents place) place contents := by
  obtain ⟨_, name, parent, _, rfl, _, _, _, _, hdirectory, hfree⟩ := (leads_of_target h).last
  exact ⟨⟨hfree, Tree.view_put hdirectory hfree contents⟩, rfl, rfl⟩

theorem bytes_writer (d : Disk) (path : String) (place : List (List Char)) :
    (d.writer path place).bytes = [] := by
  have hpart : (d.room place).allowance.part = [] := by
    rw [Room.allowance]
    split <;> rfl
  simp [Writer.bytes, writer, hpart]

theorem write_of_room {d : Disk} {path : String} {place : List (List Char)}
    (h : d.target path.toList = .ok place) (hroom : (d.room place).capacity = none) (contents : List UInt8) :
    d.write path contents = (.ok (), d.put contents place) := by
  simp [write, h, Room.allowance, hroom, Allowance.spend]

-- A write touches no place but the one that the path leads to.
theorem write_cases (d : Disk) (path : String) (contents : List UInt8) :
    (d.write path contents).2 = d ∨
      ∃ place saved, d.target path.toList = .ok place ∧ d.Written (d.write path contents).2 place saved := by
  unfold write
  cases hplace : d.target path.toList with
  | error cause => exact .inl rfl
  | ok place =>
      dsimp only
      split
      · exact .inr ⟨place, contents, rfl, written_put hplace contents⟩
      · next part _ => exact .inr ⟨place, part, rfl, written_put hplace part⟩

namespace Written

variable {d d' : Disk} {place : List (List Char)} {contents : List UInt8} (h : d.Written d' place contents)

include h

theorem other {q : List (List Char)} (hq : q ≠ place) : d'.view q = d.view q :=
  h.root.other hq

theorem read {path : String} (hpath : d.target path.toList = .ok place) : d'.read path = .ok contents := by
  rw [((leads_of_target hpath).written h).read, view, h.root.self]

theorem target {path : List Char} {q : List (List Char)} (hpath : d.target path = .ok q) :
    d'.target path = .ok q :=
  ((leads_of_target hpath).written h).target

theorem of_target {path : List Char} {q : List (List Char)} (hpath : d'.target path = .ok q) :
    d.target path = .ok q :=
  ((leads_of_target hpath).of_written h).target

end Written

end Disk

end PlZero.Files
