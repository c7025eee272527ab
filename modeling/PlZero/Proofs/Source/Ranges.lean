import Mathlib.Data.List.Induction
import PlZero.Proofs.Text.Decoding
import PlZero.Source.Lexer

namespace PlZero

def slice (cs : List Char) (i j : Nat) : List Char := (cs.take j).drop i

def place (cs : List Char) (i : Nat) : Position :=
  ⟨(cs.take i).count '\n', ((cs.take i).reverse.takeWhile (· != '\n')).length⟩

theorem after_start (cs : List Char) :
    Position.start.after cs =
      ⟨cs.count '\n', (cs.reverse.takeWhile (· != '\n')).length⟩ := by
  induction cs using List.reverseRecOn with
  | nil => rfl
  | append_singleton cs c ih =>
      rw [Position.after_append, ih]
      by_cases hc : c = '\n'
      · simp [Position.advance, hc]
      · simp [Position.advance, hc]

theorem slice_eq (cs : List Char) (i n : Nat) : slice cs i (i + n) = (cs.drop i).take n := by
  rw [slice, List.drop_take, Nat.add_sub_cancel_left]

theorem take_append_slice (cs : List Char) {i j : Nat} (h : i ≤ j) :
    cs.take i ++ slice cs i j = cs.take j := by
  have htake : cs.take i = (cs.take j).take i := by rw [List.take_take, Nat.min_eq_left h]
  rw [htake, slice, List.take_append_drop]

theorem place_after_slice (cs : List Char) {i j : Nat} (h : i ≤ j) :
    (place cs i).after (slice cs i j) = place cs j := by
  rw [place, ← after_start, ← Position.after_append, take_append_slice cs h, after_start]
  rfl

structure Run (class? : Char → Bool) (cs : List Char) (i j : Nat) : Prop where
  order : i ≤ j
  bound : j ≤ cs.length
  inside : ∀ c ∈ slice cs i j, class? c = true
  longest : ∀ c, cs[j]? = some c → class? c = false

theorem Run.lt {class? : Char → Bool} {cs : List Char} {i j : Nat} (h : Run class? cs i j) {c : Char}
    (hc : cs[i]? = some c) (hclass : class? c = true) : i < j := by
  refine Nat.lt_of_le_of_ne h.order ?_
  rintro rfl
  rw [h.longest c hc] at hclass
  cases hclass

namespace Lexer

def upTo (cs : List Char) (i : Nat) : Lexer := ⟨cs.drop i, place cs i⟩

theorem takeRun_upTo (class? : Char → Bool) (cs : List Char) {i : Nat} (h : i ≤ cs.length) :
    ∃ j, Run class? cs i j ∧ (upTo cs i).takeRun class? = (slice cs i j, upTo cs j) := by
  have hslice : slice cs i (i + ((cs.drop i).takeWhile class?).length) =
      (cs.drop i).takeWhile class? := by
    rw [slice_eq]
    exact (List.prefix_iff_eq_take.mp (List.takeWhile_prefix class?)).symm
  have hdrop : cs.drop (i + ((cs.drop i).takeWhile class?).length) =
      (cs.drop i).dropWhile class? := by
    have hleft : ((cs.drop i).takeWhile class? ++ (cs.drop i).dropWhile class?).drop
        ((cs.drop i).takeWhile class?).length = (cs.drop i).dropWhile class? := List.drop_left
    rwa [List.takeWhile_append_dropWhile, List.drop_drop] at hleft
  refine ⟨i + ((cs.drop i).takeWhile class?).length, ⟨Nat.le_add_right _ _, ?_, ?_, ?_⟩, ?_⟩
  · have hle : ((cs.drop i).takeWhile class?).length ≤ (cs.drop i).length :=
      (List.takeWhile_prefix class?).length_le
    rw [List.length_drop] at hle
    omega
  · rw [hslice]
    exact List.all_eq_true.mp List.all_takeWhile
  · intro c hc
    have hhead := List.head?_dropWhile_not class? (cs.drop i)
    rw [← hdrop, List.head?_drop, hc] at hhead
    simpa using hhead
  · simp only [takeRun, upTo, hslice, hdrop]
    rw [← place_after_slice cs (Nat.le_add_right _ _), hslice]

theorem getElem?_of_rest {cs : List Char} {i : Nat} {c : Char} {more : List Char}
    (h : (upTo cs i).rest = c :: more) : cs[i]? = some c := by
  have hhead := congrArg List.head? h
  simpa [upTo] using hhead

end Lexer

def keywords : List (String × TokenKind) :=
  [("begin", .beginWord), ("end", .endWord), ("const", .constWord), ("var", .varWord),
    ("print", .printWord)]

def operators : List (Char × TokenKind) :=
  [('+', .plus), ('-', .minus), ('*', .times), ('/', .divide), ('=', .equals), (';', .semicolon),
    ('(', .leftParen), (')', .rightParen)]

theorem wordKind_cases (word : String) :
    (word, Lexer.wordKind word) ∈ keywords ∨
      word ∉ keywords.map Prod.fst ∧ Lexer.wordKind word = .identifier := by
  unfold Lexer.wordKind TokenKind.keyword?
  split <;> simp_all [keywords]

theorem sign?_eq_some {c : Char} {kind : TokenKind} (h : TokenKind.sign? c = some kind) :
    (c, kind) ∈ operators := by
  unfold TokenKind.sign? at h
  split at h <;> simp_all [operators]

theorem sign?_eq_none {c : Char} (h : TokenKind.sign? c = none) : c ∉ operators.map Prod.fst := by
  unfold TokenKind.sign? at h
  split at h <;> simp_all [operators]

def isWordChar (c : Char) : Bool := Text.isLetter c || Text.isDecimal c

def tokenOf (kind : TokenKind) (value : UInt64) (cs : List Char) (i j : Nat) : Token :=
  ⟨kind, String.ofList (slice cs i j), value, place cs i, place cs j⟩

-- What may be answered about the text from `i` on, and where the answer's range ends.
inductive Reads (cs : List Char) (i : Nat) : Answer → Nat → Prop where
  | number (j : Nat) (value : UInt64) (nonempty : i < j) (run : Run Text.isDigit cs i j) :
      Reads cs i (.ok (tokenOf .number value cs i j)) j
  | overflow (j : Nat) (nonempty : i < j) (run : Run Text.isDigit cs i j) :
      Reads cs i (.error ⟨place cs i, .integerOverflow⟩) j
  | keyword (j : Nat) (c : Char) (kind : TokenKind) (first : cs[i]? = some c)
      (letter : Text.isLetter c = true) (nonempty : i < j) (run : Run isWordChar cs i j)
      (spelt : (String.ofList (slice cs i j), kind) ∈ keywords) :
      Reads cs i (.ok (tokenOf kind 0 cs i j)) j
  | identifier (j : Nat) (c : Char) (first : cs[i]? = some c) (letter : Text.isLetter c = true)
      (nonempty : i < j) (run : Run isWordChar cs i j)
      (other : String.ofList (slice cs i j) ∉ keywords.map Prod.fst) :
      Reads cs i (.ok (tokenOf .identifier 0 cs i j)) j
  | operator (c : Char) (kind : TokenKind) (first : cs[i]? = some c)
      (sign : (c, kind) ∈ operators) :
      Reads cs i (.ok (tokenOf kind 0 cs i (i + 1))) (i + 1)
  | invalid (c : Char) (first : cs[i]? = some c) (digit : Text.isDigit c = false)
      (letter : Text.isLetter c = false) (sign : c ∉ operators.map Prod.fst) :
      Reads cs i (.error ⟨place cs i, .invalidInput⟩) (i + 1)
  | eof (past : i = cs.length) : Reads cs i (.ok (Token.endOfText (place cs i))) i

theorem Reads.le {cs : List Char} {i j : Nat} {a : Answer} (h : Reads cs i a j) : i ≤ j := by
  cases h <;> omega

theorem Reads.eq_eof {cs : List Char} {a : Answer} {j : Nat} (h : Reads cs cs.length a j)
    (hj : j ≤ cs.length) : a = .ok (Token.endOfText (place cs cs.length)) ∧ j = cs.length := by
  cases h with
  | eof => exact ⟨rfl, rfl⟩
  | number | overflow | keyword | identifier | operator | invalid => omega

namespace Lexer

theorem number_reads {cs : List Char} {i : Nat} {c : Char} (hc : cs[i]? = some c)
    (hdigit : Text.isDigit c = true) :
    ∃ j ≤ cs.length, Reads cs i (upTo cs i).number.1 j ∧ (upTo cs i).number.2 = upTo cs j := by
  obtain ⟨j, hrun, htake⟩ :=
    takeRun_upTo Text.isDigit cs (Nat.le_of_lt (List.getElem?_eq_some_iff.mp hc).1)
  refine ⟨j, hrun.bound, ?_⟩
  simp only [number, htake]
  cases literalValue (slice cs i j) with
  | none => exact ⟨.overflow j (hrun.lt hc hdigit) hrun, rfl⟩
  | some value => exact ⟨.number j value (hrun.lt hc hdigit) hrun, rfl⟩

theorem word_reads {cs : List Char} {i : Nat} {c : Char} (hc : cs[i]? = some c)
    (hletter : Text.isLetter c = true) :
    ∃ j ≤ cs.length, Reads cs i (upTo cs i).word.1 j ∧ (upTo cs i).word.2 = upTo cs j := by
  obtain ⟨j, hrun, htake⟩ :=
    takeRun_upTo isWordChar cs (Nat.le_of_lt (List.getElem?_eq_some_iff.mp hc).1)
  have hlt := hrun.lt hc (by simp [isWordChar, hletter])
  have hword : (upTo cs i).word =
      (.ok (tokenOf (wordKind (String.ofList (slice cs i j))) 0 cs i j), upTo cs j) := by
    unfold isWordChar at htake
    simp only [word, htake]
    rfl
  refine ⟨j, hrun.bound, ?_⟩
  rw [hword]
  rcases wordKind_cases (String.ofList (slice cs i j)) with hkind | ⟨hother, hkind⟩
  · exact ⟨.keyword j c _ hc hletter hlt hrun hkind, rfl⟩
  · rw [hkind]
    exact ⟨.identifier j c hc hletter hlt hrun hother, rfl⟩

theorem sign_reads {cs : List Char} {i : Nat} {c : Char} (hc : cs[i]? = some c)
    (hdigit : Text.isDigit c = false) (hletter : Text.isLetter c = false) :
    ∃ j ≤ cs.length, Reads cs i ((upTo cs i).sign c).1 j ∧ ((upTo cs i).sign c).2 = upTo cs j := by
  have hlt := (List.getElem?_eq_some_iff.mp hc).1
  have hslice : slice cs i (i + 1) = [c] := by
    rw [slice_eq, List.drop_eq_getElem_cons hlt, (List.getElem?_eq_some_iff.mp hc).2]
    rfl
  have hplace : (place cs i).advance c = place cs (i + 1) := by
    rw [← place_after_slice cs (Nat.le_add_right i 1), hslice]
    rfl
  have hafter : (⟨(upTo cs i).rest.drop 1, (upTo cs i).position.advance c⟩ : Lexer) =
      upTo cs (i + 1) := by
    simp [upTo, hplace]
  have htoken (kind : TokenKind) :
      (⟨kind, String.singleton c, 0, (upTo cs i).position, (upTo cs i).position.advance c⟩ : Token) =
        tokenOf kind 0 cs i (i + 1) := by
    simp [tokenOf, upTo, hslice, hplace]
  refine ⟨i + 1, hlt, ?_⟩
  simp only [sign, hafter]
  split
  · next kind hkind =>
      refine ⟨?_, rfl⟩
      rw [htoken]
      exact .operator c kind hc (sign?_eq_some hkind)
  · next hnone => exact ⟨.invalid c hc hdigit hletter (sign?_eq_none hnone), rfl⟩

theorem token_reads {cs : List Char} {i : Nat} {c : Char} (hc : cs[i]? = some c) :
    ∃ j ≤ cs.length, Reads cs i ((upTo cs i).token c).1 j ∧
      ((upTo cs i).token c).2 = upTo cs j := by
  unfold token
  split
  · next hdigit => exact number_reads hc hdigit
  · split
    · next hletter => exact word_reads hc hletter
    · next hdigit hletter => exact sign_reads hc (by simpa using hdigit) (by simpa using hletter)

theorem next_reads {cs : List Char} {i : Nat} (h : i ≤ cs.length) :
    ∃ s j, Run Text.isBlank cs i s ∧ (upTo cs i).skipBlanks = upTo cs s ∧ j ≤ cs.length ∧
      Reads cs s (upTo cs i).next.1 j ∧ (upTo cs i).next.2 = upTo cs j := by
  obtain ⟨s, hrun, htake⟩ := takeRun_upTo Text.isBlank cs h
  have hskip : (upTo cs i).skipBlanks = upTo cs s := congrArg Prod.snd htake
  simp only [next, hskip]
  split
  · next hend =>
      have hs : s = cs.length := by
        have hle : cs.length ≤ s := List.drop_eq_nil_iff.mp hend
        exact Nat.le_antisymm hrun.bound hle
      exact ⟨s, s, hrun, rfl, hrun.bound, .eof hs, rfl⟩
  · next c more hrest =>
      have hc := getElem?_of_rest hrest
      obtain ⟨j, hj, hreads, hafter⟩ := token_reads hc
      exact ⟨s, j, hrun, rfl, hj, hreads, hafter⟩

def calls (l : Lexer) : Nat → Lexer
  | 0 => l
  | n + 1 => (l.calls n).next.2

theorem calls_eq_upTo (cs : List Char) (n : Nat) :
    ∃ i ≤ cs.length, (ofText cs).calls n = upTo cs i := by
  induction n with
  | zero => exact ⟨0, Nat.zero_le _, rfl⟩
  | succ n ih =>
      obtain ⟨i, hi, hcalls⟩ := ih
      obtain ⟨s, j, _, _, hj, _, hafter⟩ := next_reads hi
      exact ⟨j, hj, by rw [calls, hcalls, hafter]⟩

def index (cs : List Char) (l : Lexer) : Nat := cs.length - l.rest.length

theorem index_upTo {cs : List Char} {i : Nat} (h : i ≤ cs.length) : (upTo cs i).index cs = i := by
  simp only [index, upTo, List.length_drop]
  omega

theorem call_reads (cs : List Char) (n : Nat) :
    ∃ i s j, (ofText cs).calls n = upTo cs i ∧ ((ofText cs).calls n).index cs = i ∧
      ((ofText cs).calls n).skipBlanks.index cs = s ∧ ((ofText cs).calls (n + 1)).index cs = j ∧
      Run Text.isBlank cs i s ∧ j ≤ cs.length ∧ Reads cs s ((ofText cs).calls n).next.1 j := by
  obtain ⟨i, hi, hcalls⟩ := calls_eq_upTo cs n
  obtain ⟨s, j, hrun, hskip, hj, hreads, hafter⟩ := next_reads hi
  refine ⟨i, s, j, hcalls, ?_, ?_, ?_, hrun, hj, by rwa [hcalls]⟩
  · rw [hcalls, index_upTo hi]
  · rw [hcalls, hskip, index_upTo hrun.bound]
  · rw [calls, hcalls, hafter, index_upTo hj]

theorem end_of_end {cs : List Char} {n : Nat}
    (h : ((ofText cs).calls n).skipBlanks.index cs = cs.length) :
    ((ofText cs).calls (n + 1)).skipBlanks.index cs = cs.length := by
  obtain ⟨i, s, j, _, rfl, rfl, rfl, _, hj, hreads⟩ := call_reads cs n
  obtain ⟨i', s', j', _, rfl, rfl, rfl, hrun, _, _⟩ := call_reads cs (n + 1)
  have hle := hreads.le
  have hle' := hrun.order
  have hbound := hrun.bound
  omega

end Lexer

theorem lexer_tiles (bytes : List UInt8) :
    let cs := Text.Utf8.decode bytes
    let lexer := Lexer.ofText cs
    Text.Utf8.Decodes bytes cs ∧
    ∃ begins starts : Nat → Nat, begins 0 = 0 ∧
      (∀ n, lexer.calls n = ⟨cs.drop (begins n), place cs (begins n)⟩ ∧
        begins n ≤ starts n ∧ starts n ≤ begins (n + 1) ∧ begins (n + 1) ≤ cs.length ∧
        (∀ c ∈ slice cs (begins n) (starts n), Text.isBlank c = true) ∧
        (∀ c, cs[starts n]? = some c → Text.isBlank c = false) ∧
        Reads cs (starts n) (lexer.calls n).next.1 (begins (n + 1))) ∧
      ∀ n m, n ≤ m → starts n = cs.length →
        (lexer.calls m).next.1 = .ok (Token.endOfText (place cs cs.length)) := by
  intro cs lexer
  refine ⟨Text.Utf8.decodes_decode bytes, fun n => (lexer.calls n).index cs,
    fun n => (lexer.calls n).skipBlanks.index cs, Nat.sub_self _, ?_, ?_⟩
  · intro n
    obtain ⟨i, s, j, hcalls, rfl, rfl, rfl, hrun, hj, hreads⟩ := Lexer.call_reads cs n
    exact ⟨hcalls, hrun.order, hreads.le, hj, hrun.inside, hrun.longest, hreads⟩
  · intro n m hnm hn
    have hend : (lexer.calls m).skipBlanks.index cs = cs.length := by
      induction hnm with
      | refl => exact hn
      | step _ ih => exact Lexer.end_of_end ih
    obtain ⟨i, s, j, _, rfl, rfl, rfl, _, hj, hreads⟩ := Lexer.call_reads cs m
    rw [hend] at hreads
    exact (hreads.eq_eof hj).1

end PlZero
