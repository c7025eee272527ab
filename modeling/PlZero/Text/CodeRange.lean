namespace PlZero.Text

def inRanges : List (Nat × Nat) → Nat → Bool
  | [], _ => false
  | (first, last) :: more, n =>
      if n < first then false else decide (n ≤ last) || inRanges more n

def Increasing (ranges : List (Nat × Nat)) : Prop :=
  ranges.Pairwise (fun a b => a.2 < b.1) ∧ ∀ r ∈ ranges, r.1 ≤ r.2

theorem Increasing.tail {r : Nat × Nat} {more : List (Nat × Nat)} (h : Increasing (r :: more)) :
    Increasing more :=
  ⟨(List.pairwise_cons.mp h.1).2, fun s hs => h.2 s (List.mem_cons_of_mem _ hs)⟩

theorem inRanges_iff {ranges : List (Nat × Nat)} (h : Increasing ranges) (n : Nat) :
    inRanges ranges n = true ↔ ∃ r ∈ ranges, r.1 ≤ n ∧ n ≤ r.2 := by
  induction ranges with
  | nil => simp [inRanges]
  | cons r more ih =>
      obtain ⟨first, last⟩ := r
      have above := (List.pairwise_cons.mp h.1).1
      by_cases hn : n < first
      · constructor
        · intro hf
          simp [inRanges, hn] at hf
        · rintro ⟨s, hs, hlo, _⟩
          rcases List.mem_cons.mp hs with rfl | hs
          · exact absurd hlo (by simpa using hn)
          · have h1 := above s hs
            have h2 := h.2 (first, last) (by simp)
            simp only at h1 h2
            omega
      · have hle : first ≤ n := Nat.le_of_not_lt hn
        simp [inRanges, hn, ih h.tail, hle]

end PlZero.Text
