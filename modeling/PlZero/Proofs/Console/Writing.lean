import PlZero.Console.Writer
import PlZero.Proofs.Text.Encoding

namespace PlZero

open Text.Utf8 (encode)

namespace Allowance

variable {a left : Allowance} {piece part : List UInt8}

@[simp] theorem part_closed (part : List UInt8) : (closed part).part = part := rfl

theorem part_of_spend (h : a.spend piece = .ok left) : a.part = [] ∧ left.part = [] := by
  unfold spend at h
  split at h
  · cases h
    exact ⟨rfl, rfl⟩
  · cases h
  · cases h
    exact ⟨rfl, rfl⟩
  · split at h <;> cases h
    exact ⟨rfl, rfl⟩
  · split at h <;> cases h
    exact ⟨rfl, rfl⟩
  · cases h

theorem of_spend_error (h : a.spend piece = .error part) :
    a = .closed part ∨ a.part = [] ∧ part <+: piece := by
  unfold spend at h
  split at h
  · cases h
  · cases h
    exact .inr ⟨rfl, List.nil_prefix⟩
  · cases h
  · split at h <;> cases h
    exact .inr ⟨rfl, List.take_prefix _ _⟩
  · split at h <;> cases h
    exact .inr ⟨rfl, List.nil_prefix⟩
  · cases h
    exact .inl rfl

end Allowance

namespace Writer

variable {w w' : Writer} {s message : String}

theorem of_write_ok (h : w.write s = (.ok (), w')) :
    ∃ left, w.allowance.spend (encode s).toList = .ok left ∧
      w' = { w with text := w.text ++ s, allowance := left } := by
  unfold write at h
  split at h
  · next left hspend =>
      cases h
      exact ⟨left, hspend, rfl⟩
  · cases h

theorem of_write_error (h : w.write s = (.error message, w')) :
    ∃ part, w.allowance.spend (encode s).toList = .error part ∧ message = w.refusal ∧
      w' = { w with allowance := .closed part } := by
  unfold write at h
  split at h
  · cases h
  · next part hspend =>
      cases h
      exact ⟨part, hspend, rfl, rfl⟩

theorem bytes_of_write (h : w.write s = (.ok (), w')) : w'.bytes = w.bytes ++ (encode s).toList := by
  obtain ⟨left, hspend, rfl⟩ := of_write_ok h
  obtain ⟨hbefore, hafter⟩ := Allowance.part_of_spend hspend
  simp [bytes, hbefore, hafter, Text.Utf8.toList_encode_append]

-- A channel takes a beginning of the piece that it refuses.
theorem bytes_of_refusal (h : w.write s = (.error message, w')) :
    ∃ cut, cut <+: (encode s).toList ∧ w'.bytes = w.bytes ++ cut := by
  obtain ⟨part, hspend, _, rfl⟩ := of_write_error h
  rcases Allowance.of_spend_error hspend with hclosed | ⟨hopen, hpart⟩
  · exact ⟨[], List.nil_prefix, by simp [bytes, hclosed]⟩
  · exact ⟨part, hpart, by simp [bytes, hopen]⟩

theorem write_error (h : w.write s = (.error message, w')) :
    w'.text = w.text ∧ ∀ t, w'.write t = (.error message, w') := by
  obtain ⟨part, _, rfl, rfl⟩ := of_write_error h
  exact ⟨rfl, fun _ => rfl⟩

theorem foldl_put_of_refusal (h : ∀ t, w.write t = (.error message, w)) (pieces : List String) :
    pieces.foldl put w = w := by
  induction pieces with
  | nil => rfl
  | cons piece pieces ih =>
      have hput : w.put piece = w := by rw [put, h]
      rw [List.foldl_cons, hput, ih]

-- Of the pieces that were put to a channel, those that it has taken, those from the first refusal on, and
-- what it took of the first of these.
structure Takes (w : Writer) (taken rest : List String) (cut : List UInt8) (w' : Writer) : Prop where
  bytes : w'.bytes = w.bytes ++ ((encode (String.join taken)).toList ++ cut)
  whole : rest = [] → cut = []
  refused : ∀ piece more, rest = piece :: more →
    cut <+: (encode piece).toList ∧ ∃ message, ((taken.foldl put w).write piece).1 = .error message

theorem Takes.of_bytes {pieces : List String} (h : w'.bytes = w.bytes ++ (encode (String.join pieces)).toList) :
    w.Takes pieces [] [] w' :=
  ⟨by simpa using h, fun _ => rfl, by simp⟩

theorem takes_foldl_put (w : Writer) (pieces : List String) :
    ∃ taken rest cut, pieces = taken ++ rest ∧ w.Takes taken rest cut (pieces.foldl put w) := by
  induction pieces generalizing w with
  | nil => exact ⟨[], [], [], rfl, .of_bytes (by simp)⟩
  | cons piece pieces ih =>
      rcases hwrite : w.write piece with ⟨message | ⟨⟩, w'⟩
      · have hput : w.put piece = w' := by rw [put, hwrite]
        obtain ⟨cut, hcut, hbytes⟩ := bytes_of_refusal hwrite
        refine ⟨[], piece :: pieces, cut, rfl, ?_, by simp, fun first more hrest => ?_⟩
        · rw [List.foldl_cons, hput, foldl_put_of_refusal (write_error hwrite).2]
          simpa using hbytes
        · cases hrest
          exact ⟨hcut, message, by rw [List.foldl_nil, hwrite]⟩
      · have hput : w.put piece = w' := by rw [put, hwrite]
        obtain ⟨taken, rest, cut, rfl, htakes⟩ := ih w'
        refine ⟨piece :: taken, rest, cut, rfl, ?_, htakes.whole, ?_⟩
        · rw [List.foldl_cons, hput, htakes.bytes, bytes_of_write hwrite, String.join_cons,
            Text.Utf8.toList_encode_append]
          simp only [List.append_assoc]
        · rw [List.foldl_cons, hput]
          exact htakes.refused

end Writer

end PlZero
