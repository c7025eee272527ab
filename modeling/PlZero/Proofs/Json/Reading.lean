import Mathlib.Data.List.Forall2
import PlZero.Json.Value
import PlZero.Proofs.Json.Writing

namespace PlZero.Json

section Sequence

variable {α : Type} {begun : Bool → List α → Reading} {ended : List α → Reading} {close : Token}

-- The tokens are one item of a value that is open: before it the value has `begun`, and after it
-- comes either a comma and one more item, or the end.
def ReadsItem (begun : Bool → List α → Reading) (ended : List α → Reading) (close : Token)
    (ts : List Token) (a : α) : Prop :=
  ∀ mayClose before, ∃ reading, ts.foldlM Reading.step (begun mayClose before) = some reading ∧
    reading.step .comma = some (begun false (a :: before)) ∧
    reading.step close = some (ended (a :: before))

theorem foldlM_items {tss : List (List Token)} {items : List α}
    (h : List.Forall₂ (ReadsItem begun ended close) tss items) (hne : items ≠ []) (mayClose : Bool)
    (before : List α) :
    ([Token.comma].intercalate tss ++ [close]).foldlM Reading.step (begun mayClose before) =
      some (ended (items.reverse ++ before)) := by
  induction h generalizing mayClose before with
  | nil => exact absurd rfl hne
  | @cons ts a tss items hitem hitems ih =>
      obtain ⟨reading, hread, hcomma, hclose⟩ := hitem mayClose before
      cases hitems with
      | nil => simp [hread, hclose]
      | cons hnext hmore =>
          have htail := ih (List.cons_ne_nil _ _) false (a :: before)
          rw [List.intercalate_cons_cons, List.append_assoc, List.append_assoc, List.foldlM_append,
            hread]
          simpa [hcomma] using htail

theorem foldlM_sequence {tss : List (List Token)} {items : List α}
    (h : List.Forall₂ (ReadsItem begun ended close) tss items)
    (hempty : (begun true []).step close = some (ended [])) :
    ([Token.comma].intercalate tss ++ [close]).foldlM Reading.step (begun true []) =
      some (ended items.reverse) := by
  cases h with
  | nil => simp [List.intercalate, hempty]
  | cons hitem hitems =>
      rw [foldlM_items (.cons hitem hitems) (List.cons_ne_nil _ _), List.append_nil]

end Sequence

theorem Writes.intercalate {between : List Char} {css : List (List Char)} {tss : List (List Token)}
    (hbetween : between.all isSpace = true) (h : List.Forall₂ Writes css tss) :
    Writes ((',' :: between).intercalate css) ([Token.comma].intercalate tss) := by
  induction h with
  | nil => exact .nil
  | @cons cs ts css tss hitem hitems ih =>
      cases hitems with
      | nil => simpa using hitem
      | cons hnext hmore =>
          have htail := (ih.blank hbetween).sign (c := ',') (by decide) (fun _ => rfl)
          rw [List.intercalate_cons_cons, List.intercalate_cons_cons, List.append_assoc,
            List.append_assoc]
          exact hitem.append htail rfl

theorem separated_blank {bs cs : List Char} (hbs : bs.all isSpace = true) (hcs : Separated cs) :
    Separated (bs ++ cs) := by
  cases bs with
  | nil => exact hcs
  | cons b bs =>
      simp only [List.all_cons, isSpace, Bool.and_eq_true, Bool.or_eq_true, beq_iff_eq] at hbs
      rcases hbs.1 with ((rfl | rfl) | rfl) | rfl <;> rfl

-- The blanks that are written around the items of an array or object.
structure Layout where
  before : List Char
  between : List Char
  after : List Char
  blank_before : before.all isSpace = true := by decide
  blank_between : between.all isSpace = true := by decide
  blank_after : after.all isSpace = true := by decide

def Layout.text (layout : Layout) (opening closing : Char) (css : List (List Char)) : List Char :=
  opening :: (layout.before ++ ((',' :: layout.between).intercalate css ++ (layout.after ++ [closing])))

theorem Writes.layout (layout : Layout) {opening closing : Char} {o c : Token}
    {css : List (List Char)} {tss : List (List Token)}
    (hopening : isSpace opening = false ∧ ∀ rest, token? opening rest = some (o, rest))
    (hclosing : isSpace closing = false ∧ ∀ rest, token? closing rest = some (c, rest))
    (hseparated : Separated [closing]) (h : List.Forall₂ Writes css tss) :
    Writes (layout.text opening closing css) (o :: ([Token.comma].intercalate tss ++ [c])) := by
  have hend := (Writes.nil.sign hclosing.1 hclosing.2).blank layout.blank_after
  have hitems := (Writes.intercalate layout.blank_between h).append hend
    (separated_blank layout.blank_after hseparated)
  exact (hitems.blank layout.blank_before).sign hopening.1 hopening.2

def ReadsValue (depth : Nat) (ts : List Token) (v : Json) : Prop :=
  ∀ mayClose frames, frames.length + depth ≤ maxDepth →
    ts.foldlM Reading.step (.expectValue mayClose frames) = some (.complete v frames)

def ReadsMember (depth : Nat) (ts : List Token) (member : List Char × Json) : Prop :=
  ∃ us, ts = .string member.1 :: .colon :: us ∧ ReadsValue depth us member.2

theorem reads_array {depth : Nat} {tss : List (List Token)} {items : List Json}
    (h : List.Forall₂ (ReadsValue depth) tss items) :
    ReadsValue (depth + 1) (.openBracket :: ([Token.comma].intercalate tss ++ [.closeBracket]))
      (.array items) := by
  intro mayClose frames hdepth
  have hitems : List.Forall₂
      (ReadsItem (fun mayClose before => .expectValue mayClose (.array before :: frames))
        (fun items => .complete (.array items.reverse) frames) .closeBracket) tss items := by
    refine h.imp fun ts v hread mayClose before => ?_
    exact ⟨_, hread mayClose (.array before :: frames) (by simp; omega), rfl, rfl⟩
  have hsequence := foldlM_sequence hitems rfl
  have henter : enter frames (.expectValue true (.array [] :: frames)) =
      some (.expectValue true (.array [] :: frames)) := if_pos (by omega)
  simpa [Reading.step, henter] using hsequence

theorem reads_object {depth : Nat} {tss : List (List Token)} {members : List (List Char × Json)}
    (h : List.Forall₂ (ReadsMember depth) tss members) :
    ReadsValue (depth + 1) (.openBrace :: ([Token.comma].intercalate tss ++ [.closeBrace]))
      (.object members) := by
  intro mayClose frames hdepth
  have hmembers : List.Forall₂
      (ReadsItem (fun mayClose before => .expectName mayClose before frames)
        (fun members => .complete (.object members.reverse) frames) .closeBrace) tss members := by
    refine h.imp fun ts member hread mayClose before => ?_
    obtain ⟨us, rfl, hread⟩ := hread
    exact ⟨_, hread false (.object before member.1 :: frames) (by simp; omega), rfl, rfl⟩
  have hsequence := foldlM_sequence hmembers rfl
  have henter : enter frames (.expectName true [] frames) = some (.expectName true [] frames) :=
    if_pos (by omega)
  simpa [Reading.step, henter] using hsequence

-- The text is written so that it is read as this.
def Renders {α : Type} (reads : List Token → α → Prop) (cs : List Char) (a : α) : Prop :=
  ∃ ts, Writes cs ts ∧ reads ts a

theorem exists_tokens {α : Type} {reads : List Token → α → Prop} {css : List (List Char)} {items : List α}
    (h : List.Forall₂ (Renders reads) css items) :
    ∃ tss, List.Forall₂ Writes css tss ∧ List.Forall₂ reads tss items := by
  induction h with
  | nil => exact ⟨[], .nil, .nil⟩
  | cons hitem _ ih =>
      obtain ⟨ts, hwrites, hreads⟩ := hitem
      obtain ⟨tss, hwritten, hread⟩ := ih
      exact ⟨ts :: tss, .cons hwrites hwritten, .cons hreads hread⟩

theorem renders_array (layout : Layout) {depth : Nat} {css : List (List Char)} {items : List Json}
    (h : List.Forall₂ (Renders (ReadsValue depth)) css items) :
    Renders (ReadsValue (depth + 1)) (layout.text '[' ']' css) (.array items) := by
  obtain ⟨tss, hwrites, hreads⟩ := exists_tokens h
  exact ⟨_, .layout layout ⟨rfl, fun _ => rfl⟩ ⟨rfl, fun _ => rfl⟩ rfl hwrites, reads_array hreads⟩

theorem renders_object (layout : Layout) {depth : Nat} {css : List (List Char)}
    {members : List (List Char × Json)} (h : List.Forall₂ (Renders (ReadsMember depth)) css members) :
    Renders (ReadsValue (depth + 1)) (layout.text '\x7b' '\x7d' css) (.object members) := by
  obtain ⟨tss, hwrites, hreads⟩ := exists_tokens h
  exact ⟨_, .layout layout ⟨rfl, fun _ => rfl⟩ ⟨rfl, fun _ => rfl⟩ rfl hwrites, reads_object hreads⟩

def memberText (before gap name cs : List Char) : List Char :=
  before ++ '"' :: (name ++ '"' :: ':' :: (gap ++ cs))

theorem renders_member {before gap name cs : List Char} {depth : Nat} {v : Json}
    (hbefore : before.all isSpace = true) (hgap : gap.all isSpace = true)
    (hname : name.all isPlain = true) (h : Renders (ReadsValue depth) cs v) :
    Renders (ReadsMember depth) (memberText before gap name cs) (name, v) := by
  obtain ⟨ts, hwrites, hreads⟩ := h
  have hcolon := (hwrites.blank hgap).sign (c := ':') (by decide) fun _ => rfl
  exact ⟨_, (hcolon.string hname).blank hbefore, ts, rfl, hreads⟩

theorem renders_number {depth : Nat} (v : Int) :
    Renders (ReadsValue depth) (toString v).toList (.number (toString v).toList) :=
  ⟨_, .number v, fun _ _ _ => rfl⟩

theorem renders_bool {depth : Nat} (b : Bool) :
    Renders (ReadsValue depth) (toString b).toList (.bool b) :=
  ⟨_, .bool b, fun _ _ _ => rfl⟩

theorem renders_string {depth : Nat} {s : List Char} (hs : s.all isPlain = true) :
    Renders (ReadsValue depth) ('"' :: (s ++ ['"'])) (.string s) :=
  ⟨_, Writes.nil.string hs, fun _ _ _ => rfl⟩

theorem Renders.parse? {depth : Nat} {cs : List Char} {v : Json} (h : Renders (ReadsValue depth) cs v)
    (hdepth : depth ≤ maxDepth) : parse? cs = some v := by
  obtain ⟨ts, hwrites, hreads⟩ := h
  have hread := hreads false [] (by simpa using hdepth)
  simp [Json.parse?, hwrites.yields.tokens?, hread, Reading.result?]

end PlZero.Json
