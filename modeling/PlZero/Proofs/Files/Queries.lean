import PlZero.Proofs.Files.Places
import PlZero.Suite.Load

namespace PlZero

namespace Files.Disk

theorem run_bind {α β : Type} (x : StateM Disk α) (f : α → StateM Disk β) (d : Disk) :
    (x >>= f).run d = (f (x.run d).1).run (x.run d).2 := rfl

theorem run_read (d : Disk) (path : String) :
    (Access.read path : StateM Disk _).run d = (d.read path, d) := rfl

theorem run_write (d : Disk) (path : String) (contents : List UInt8) :
    (Access.write path contents : StateM Disk _).run d = d.write path contents := rfl

theorem run_output {α : Type} (d : Disk) (path : String) (act : Writer → α × Writer) :
    (Access.output path act : StateM Disk _).run d = d.output path act := rfl

-- What is asked leaves the files as they are.
def ReadOnly {α : Type} (x : StateM Disk α) : Prop := ∀ d, (x.run d).2 = d

namespace ReadOnly

variable {α β : Type}

theorem pure (a : α) : ReadOnly (pure a : StateM Disk α) := fun _ => rfl

theorem bind {x : StateM Disk α} {f : α → StateM Disk β} (hx : ReadOnly x) (hf : ∀ a, ReadOnly (f a)) :
    ReadOnly (x >>= f) := by
  intro d
  rw [run_bind, hf, hx]

theorem mapM {f : α → StateM Disk β} (hf : ∀ a, ReadOnly (f a)) (l : List α) : ReadOnly (l.mapM f) := by
  induction l with
  | nil => exact .pure _
  | cons a l ih =>
      rw [List.mapM_cons]
      exact (hf a).bind fun _ => ih.bind fun _ => .pure _

end ReadOnly

theorem readOnly_read (path : String) : ReadOnly (Access.read path) := fun _ => rfl

theorem readOnly_isDirectory (path : List Char) : ReadOnly (Access.isDirectory path) := fun _ => rfl

theorem readOnly_list (path : List Char) : ReadOnly (Access.list path) := fun _ => rfl

theorem readOnly_searchIn (directory : List Char) (pattern : Pattern) :
    ReadOnly (searchIn directory pattern) := by
  refine (readOnly_isDirectory directory).bind fun isDirectory => ?_
  split
  · exact (readOnly_list directory).bind fun _ => .pure _
  · exact .pure _

theorem readOnly_searchNames (rooted : Bool) (names : List (List Char)) :
    ReadOnly (searchNames rooted names) := by
  induction names with
  | nil => exact .pure _
  | cons last before ih =>
      simp only [searchNames]
      split
      · exact .pure _
      · split
        all_goals
          refine ReadOnly.bind ?_ fun found => ?_
          · first | exact ih | exact .pure _
          · split
            · split
              · exact (ReadOnly.mapM (fun _ => readOnly_searchIn _ _) _).bind fun _ => .pure _
              · exact .pure _
            · exact .pure _

end Files.Disk

namespace Suite

open Files.Disk

variable (decode : Decoder)

theorem readOnly_loadFile (path : String) : ReadOnly (loadFile decode path) := by
  refine (readOnly_read path).bind fun answer => ?_
  split <;> exact .pure _

theorem readOnly_loadFiles (paths : List (List Char)) : ReadOnly (loadFiles decode paths) := by
  induction paths with
  | nil => exact .pure _
  | cons path rest ih =>
      refine (readOnly_loadFile decode _).bind fun answer => ?_
      split
      · exact .pure _
      · refine ih.bind fun more => ?_
        split <;> exact .pure _

theorem readOnly_loadDirectory (directory : String) : ReadOnly (loadDirectory decode directory) := by
  refine (readOnly_searchNames _ _).bind fun found => ?_
  split
  · exact .pure _
  · exact .pure _
  · exact readOnly_loadFiles decode _

end Suite

end PlZero
