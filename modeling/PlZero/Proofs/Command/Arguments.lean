import PlZero.Command.Options
import PlZero.Proofs.Assembly.RoundTrip
import PlZero.Proofs.Text.Numerals

namespace PlZero.Command

-- An argument of options: letters without a value, and behind them possibly one with a value, which
-- follows at once or is the next argument.
inductive Group where
  | plain (flags : List Char)
  | joined (flags : List Char) (letter : Char) (value : List Char)
  | apart (flags : List Char) (letter : Char) (value : String)

namespace Group

inductive Valid : Group → Prop where
  | plain {flags : List Char} (unvalued : ∀ c ∈ flags, hasValue? c = some false) (nonempty : flags ≠ []) :
      Valid (.plain flags)
  | joined {flags : List Char} {letter : Char} {value : List Char}
      (unvalued : ∀ c ∈ flags, hasValue? c = some false) (valued : hasValue? letter = some true)
      (nonempty : value ≠ []) : Valid (.joined flags letter value)
  | apart {flags : List Char} {letter : Char} (unvalued : ∀ c ∈ flags, hasValue? c = some false)
      (valued : hasValue? letter = some true) (value : String) : Valid (.apart flags letter value)

def letters : Group → List Char
  | plain flags => flags
  | joined flags letter value => flags ++ letter :: value
  | apart flags letter _ => flags ++ [letter]

def next : Group → List String
  | apart _ _ value => [value]
  | _ => []

def render (g : Group) : List String := String.ofList ('-' :: g.letters) :: g.next

def bare (flags : List Char) : List Switch := flags.map (⟨·, ""⟩)

def switches : Group → List Switch
  | plain flags => bare flags
  | joined flags letter value => bare flags ++ [⟨letter, String.ofList value⟩]
  | apart flags letter value => bare flags ++ [⟨letter, value⟩]

end Group

-- The arguments from the end of the options on, and those of them that are no options.
inductive Closes : List String → List String → Prop where
  | nothing : Closes [] []
  | dashes (inputs : List String) : Closes ("--" :: inputs) inputs
  | input {arg : String} (plain : ∀ c cs, arg.toList ≠ '-' :: c :: cs) (more : List String) :
      Closes (arg :: more) (arg :: more)

def Splits (args : List String) (switches : List Switch) (inputs : List String) : Prop :=
  ∃ (groups : List Group) (tail : List String), (∀ g ∈ groups, g.Valid) ∧
    args = groups.flatMap Group.render ++ tail ∧ switches = groups.flatMap Group.switches ∧ Closes tail inputs

theorem hasValue?_ne_dash {c : Char} {b : Bool} (h : hasValue? c = some b) : c ≠ '-' := by
  rintro rfl
  cases h

theorem cluster_flags {flags : List Char} (h : ∀ c ∈ flags, hasValue? c = some false) (rest : List Char) :
    cluster (flags ++ rest) =
      (cluster rest).map fun (switches, open?) => (Group.bare flags ++ switches, open?) := by
  induction flags with
  | nil => cases hrest : cluster rest <;> simp [hrest, Group.bare, Except.map]
  | cons c flags ih =>
      have hc : hasValue? c = some false := h c (by simp)
      have hflags : ∀ c ∈ flags, hasValue? c = some false := fun d hd => h d (by simp [hd])
      rw [List.cons_append, cluster, hc]
      simp only [ih hflags]
      cases cluster rest <;> simp [Group.bare, Except.map]

theorem cluster_value {flags value : List Char} (h : ∀ c ∈ flags, hasValue? c = some false) {letter : Char}
    (hletter : hasValue? letter = some true) :
    cluster (flags ++ letter :: value) =
      .ok (if value = [] then (Group.bare flags, some letter)
        else (Group.bare flags ++ [⟨letter, String.ofList value⟩], none)) := by
  rw [cluster_flags h, cluster, hletter]
  cases value <;> simp [Except.map]

-- The letters of an argument that are accepted: flags alone, or flags and a letter with a value.
theorem of_cluster {cs : List Char} {switches : List Switch} {open? : Option Char}
    (h : cluster cs = .ok (switches, open?)) :
    ∃ flags, (∀ c ∈ flags, hasValue? c = some false) ∧
      (cs = flags ∧ switches = Group.bare flags ∧ open? = none ∨
        ∃ letter value, cs = flags ++ letter :: value ∧ hasValue? letter = some true) := by
  induction cs generalizing switches with
  | nil =>
      cases h
      exact ⟨[], by simp, .inl ⟨rfl, rfl, rfl⟩⟩
  | cons c cs ih =>
      rw [cluster] at h
      split at h
      · cases h
      · next hc =>
          cases hcs : cluster cs with
          | error e =>
              rw [hcs] at h
              cases h
          | ok answer =>
              rw [hcs] at h
              cases h
              obtain ⟨flags, hflags, hcase⟩ := ih hcs
              refine ⟨c :: flags, by simpa [hc] using hflags, ?_⟩
              rcases hcase with ⟨rfl, hswitches, hopen⟩ | ⟨letter, value, rfl, hletter⟩
              · exact .inl ⟨rfl, by simp [Group.bare, hswitches], hopen⟩
              · exact .inr ⟨letter, value, rfl, hletter⟩
      · next hc => exact ⟨[], by simp, .inr ⟨c, cs, rfl, hc⟩⟩

theorem split_letters {arg : String} {c : Char} {cs : List Char} (harg : arg.toList = '-' :: c :: cs)
    (hdash : c ≠ '-' ∨ cs ≠ []) (rest : List String) :
    split none (arg :: rest) =
      match cluster (c :: cs) with
      | .error e => .error e
      | .ok (switches, open?) => (split open? rest).map fun (more, rest) => (switches ++ more, rest) := by
  rw [split, harg]
  split
  · next heq =>
      cases heq
      simp at hdash
  · next heq =>
      cases heq
      rfl
  · next hno => exact absurd rfl (hno c cs)

theorem exists_letter {flags rest : List Char} {letter : Char} (hflags : ∀ c ∈ flags, hasValue? c = some false)
    (hletter : hasValue? letter = some true) : ∃ c cs, flags ++ letter :: rest = c :: cs ∧ c ≠ '-' := by
  cases flags with
  | nil => exact ⟨letter, rest, rfl, hasValue?_ne_dash hletter⟩
  | cons f flags => exact ⟨f, _, rfl, hasValue?_ne_dash (hflags f (by simp))⟩

theorem Group.Valid.exists_letter {g : Group} (hg : g.Valid) : ∃ c cs, g.letters = c :: cs ∧ c ≠ '-' := by
  cases hg with
  | plain unvalued nonempty =>
      obtain ⟨f, flags, rfl⟩ := List.exists_cons_of_ne_nil nonempty
      exact ⟨f, flags, rfl, hasValue?_ne_dash (unvalued f (by simp))⟩
  | joined unvalued valued | apart unvalued valued => exact Command.exists_letter unvalued valued

theorem split_group {g : Group} (hg : g.Valid) (rest : List String) :
    split none (g.render ++ rest) =
      (split none rest).map fun (more, inputs) => (g.switches ++ more, inputs) := by
  obtain ⟨c, cs, hletters, hdash⟩ := hg.exists_letter
  rw [Group.render, List.cons_append,
    split_letters (by rw [String.toList_ofList, hletters]) (.inl hdash), ← hletters]
  cases hg with
  | @plain flags unvalued =>
      have hcluster : cluster flags = .ok (Group.bare flags, none) := by
        simpa [cluster, Except.map] using cluster_flags unvalued []
      simp only [Group.letters, hcluster, Group.next, Group.switches, List.nil_append]
  | joined unvalued valued nonempty =>
      simp only [Group.letters, cluster_value unvalued valued, nonempty, if_false, Group.next,
        Group.switches, List.nil_append]
  | apart unvalued valued value =>
      simp only [Group.letters, cluster_value unvalued valued, if_true, Group.next, Group.switches,
        List.cons_append, List.nil_append, split]
      cases split none rest <;> simp [Except.map]

theorem split_tail {tail inputs : List String} (h : Closes tail inputs) : split none tail = .ok ([], inputs) := by
  cases h with
  | nothing => rfl
  | dashes => rfl
  | @input arg plain more =>
      rw [split]
      split
      · next heq => exact absurd heq (plain _ _)
      · next heq => exact absurd heq (plain _ _)
      · rfl

namespace Splits

variable {args : List String} {switches : List Switch} {inputs : List String}

theorem tail (h : Closes args inputs) : Splits args [] inputs :=
  ⟨[], args, by simp, rfl, rfl, h⟩

theorem cons {g : Group} (hg : g.Valid) (h : Splits args switches inputs) :
    Splits (g.render ++ args) (g.switches ++ switches) inputs := by
  obtain ⟨groups, tail, hgroups, rfl, rfl, htail⟩ := h
  exact ⟨g :: groups, tail, by simpa using ⟨hg, hgroups⟩, by simp, by simp, htail⟩

theorem split (h : Splits args switches inputs) : Command.split none args = .ok (switches, inputs) := by
  obtain ⟨groups, tail, hgroups, rfl, rfl, htail⟩ := h
  induction groups with
  | nil => exact split_tail htail
  | cons g groups ih =>
      rw [List.flatMap_cons, List.append_assoc, split_group (hgroups g (by simp)),
        ih fun g hg => hgroups g (by simp [hg])]
      simp [Except.map]

end Splits

-- What is read behind a letter that still wants its value, and behind an argument that is complete.
structure SplitsAfter (args : List String) : Prop where
  complete : ∀ {switches inputs}, split none args = .ok (switches, inputs) → Splits args switches inputs
  wanting : ∀ {letter switches inputs}, split (some letter) args = .ok (switches, inputs) →
    ∃ value rest more, args = value :: rest ∧ switches = ⟨letter, value⟩ :: more ∧ Splits rest more inputs

theorem splits_letters {c : Char} {cs : List Char} {rest : List String} (hrest : SplitsAfter rest)
    {read more : List Switch} {open? : Option Char} {inputs : List String}
    (hcluster : cluster (c :: cs) = .ok (read, open?)) (hmore : split open? rest = .ok (more, inputs)) :
    Splits (String.ofList ('-' :: c :: cs) :: rest) (read ++ more) inputs := by
  obtain ⟨flags, hflags, ⟨hcs, rfl, rfl⟩ | ⟨letter, value, hcs, hletter⟩⟩ := of_cluster hcluster
  · rw [hcs]
    exact (hrest.complete hmore).cons (.plain hflags (by simp [← hcs]))
  · rw [hcs, cluster_value hflags hletter] at hcluster
    rw [hcs]
    by_cases hvalue : value = []
    · subst hvalue
      cases hcluster
      obtain ⟨value, rest, more, rfl, rfl, hsplits⟩ := hrest.wanting hmore
      have hgroup := hsplits.cons (.apart hflags hletter value)
      rw [Group.switches, List.append_assoc] at hgroup
      exact hgroup
    · rw [if_neg hvalue] at hcluster
      cases hcluster
      exact (hrest.complete hmore).cons (.joined hflags hletter hvalue)

theorem splitsAfter (args : List String) : SplitsAfter args := by
  induction args with
  | nil =>
      refine ⟨fun h => ?_, fun h => ?_⟩
      · cases h
        exact .tail .nothing
      · cases h
  | cons arg rest ih =>
      refine ⟨fun h => ?_, fun h => ?_⟩
      · by_cases hletters : ∃ c cs, arg.toList = '-' :: c :: cs
        · obtain ⟨c, cs, harg⟩ := hletters
          obtain rfl : arg = String.ofList ('-' :: c :: cs) := by rw [← harg, String.ofList_toList]
          by_cases hdash : c ≠ '-' ∨ cs ≠ []
          · rw [split_letters harg hdash] at h
            cases hcluster : cluster (c :: cs) with
            | error e =>
                rw [hcluster] at h
                cases h
            | ok answer =>
                simp only [hcluster] at h
                obtain ⟨⟨more, inputs⟩, hmore, h⟩ := of_map_eq_ok h
                cases h
                exact splits_letters ih hcluster hmore
          · obtain ⟨rfl, rfl⟩ : c = '-' ∧ cs = [] := by simpa using hdash
            cases h
            exact .tail (.dashes _)
        · have hplain : ∀ c cs, arg.toList ≠ '-' :: c :: cs := fun c cs harg => hletters ⟨c, cs, harg⟩
          rw [split_tail (.input hplain rest)] at h
          cases h
          exact .tail (.input hplain rest)
      · rw [split] at h
        obtain ⟨⟨more, inputs⟩, hmore, h⟩ := of_map_eq_ok h
        cases h
        exact ⟨arg, rest, _, rfl, rfl, ih.complete hmore⟩

theorem split_eq_ok_iff {args : List String} {switches : List Switch} {inputs : List String} :
    split none args = .ok (switches, inputs) ↔ Splits args switches inputs :=
  ⟨(splitsAfter args).complete, Splits.split⟩

-- A number of jobs: at least one, and within 64 bits.
def JobCount (text : String) : Prop :=
  ∃ n : Int, Text.Numeral text.toList n ∧ 1 ≤ n ∧ n < 0x8000000000000000

theorem readJobs_isOk_iff (text : String) : (∃ n, readJobs text = .ok n) ↔ JobCount text := by
  have hread {v : Int} : Text.readSigned 64 text.toList = .ok v ↔
      Text.Numeral text.toList v ∧ -0x8000000000000000 ≤ v ∧ v < 0x8000000000000000 :=
    Text.readSigned_eq_ok_iff (by decide)
  unfold readJobs JobCount
  cases hsigned : Text.readSigned 64 text.toList with
  | error e =>
      constructor
      · rintro ⟨n, hn⟩
        cases hn
      · rintro ⟨n, hn, hlow, hhigh⟩
        cases hsigned.symm.trans (hread.mpr ⟨hn, by omega, by omega⟩)
  | ok v =>
      obtain ⟨hnumeral, _, hhigh⟩ := hread.mp hsigned
      constructor
      · rintro ⟨n, hn⟩
        dsimp only at hn
        split at hn
        · cases hn
        · exact ⟨v, hnumeral, by omega, by omega⟩
      · rintro ⟨n, hn, hlow, hhigh⟩
        cases hsigned.symm.trans (hread.mpr ⟨hn, by omega, by omega⟩)
        exact ⟨_, if_neg (by omega)⟩

def modesOf (switches : List Switch) : List Mode := switches.filterMap fun s => Mode.ofLetter? s.letter

-- The value that was given last to a letter.
def lastValue (letter : Char) (switches : List Switch) (other : String := "") : String :=
  ((switches.filter (·.letter == letter)).getLast?.map Switch.value).getD other

namespace Options

-- What taking options one after the other comes to.
structure Taken (o : Options) (switches : List Switch) (o' : Options) : Prop where
  output : o'.output = lastValue 'o' switches o.output
  snapshot : o'.snapshot = lastValue 's' switches o.snapshot
  mode : o'.mode = (modesOf switches).getLast?.getD o.mode

theorem take_taken {o o' : Options} {s : Switch} (h : o.take s = .ok o') : o.Taken [s] o' := by
  obtain ⟨letter, value⟩ := s
  unfold take at h
  split at h
  · next mode hmode =>
      cases h
      have ho : letter ≠ 'o' := by
        rintro rfl
        cases hmode
      have hs : letter ≠ 's' := by
        rintro rfl
        cases hmode
      exact ⟨by simp [lastValue, ho], by simp [lastValue, hs],
        by simp [modesOf, show Mode.ofLetter? letter = some mode from hmode]⟩
  · next hletter =>
      cases h
      obtain rfl : letter = 'x' := hletter
      exact ⟨rfl, rfl, rfl⟩
  · next hletter =>
      cases h
      obtain rfl : letter = 'o' := hletter
      exact ⟨rfl, rfl, rfl⟩
  · next hletter =>
      cases h
      obtain rfl : letter = 's' := hletter
      exact ⟨rfl, rfl, rfl⟩
  · next hletter =>
      obtain ⟨n, _, rfl⟩ := of_map_eq_ok h
      obtain rfl : letter = 'j' := hletter
      exact ⟨rfl, rfl, rfl⟩
  · next hmode _ ho hs _ =>
      cases h
      exact ⟨by simp [lastValue, show letter ≠ 'o' from ho], by simp [lastValue, show letter ≠ 's' from hs],
        by simp [modesOf, show Mode.ofLetter? letter = none from hmode]⟩

theorem Taken.trans {o o' o'' : Options} {s : Switch} {switches : List Switch} (h : o.Taken [s] o')
    (h' : o'.Taken switches o'') : o.Taken (s :: switches) o'' := by
  have hlast {α : Type} (first more : List α) (other : α) :
      (first ++ more).getLast?.getD other = more.getLast?.getD (first.getLast?.getD other) := by
    rw [List.getLast?_append, Option.getD_or]
  have hvalue (letter : Char) (other : String) : lastValue letter (s :: switches) other =
      lastValue letter switches (lastValue letter [s] other) := by
    simp only [lastValue, ← List.getLast?_map]
    rw [← hlast, ← List.map_append, ← List.filter_append, List.singleton_append]
  refine ⟨?_, ?_, ?_⟩
  · rw [h'.output, h.output, hvalue]
  · rw [h'.snapshot, h.snapshot, hvalue]
  · rw [h'.mode, h.mode, ← hlast, modesOf, modesOf, ← List.filterMap_append, List.singleton_append, modesOf]

theorem foldlM_taken {o o' : Options} {switches : List Switch} (h : switches.foldlM take o = .ok o') :
    o.Taken switches o' := by
  induction switches generalizing o with
  | nil =>
      cases h
      exact ⟨rfl, rfl, rfl⟩
  | cons s switches ih =>
      rw [List.foldlM_cons] at h
      obtain ⟨first, hfirst, hrest⟩ := of_bind_eq_ok h
      exact (take_taken hfirst).trans (ih hrest)

theorem take_isOk_iff (o : Options) (s : Switch) :
    (∃ o', o.take s = .ok o') ↔ (s.letter = 'j' → JobCount s.value) := by
  by_cases hj : s.letter = 'j'
  · have htake : o.take s = (readJobs s.value).map ({ o with jobs := · }) := by
      simp [take, hj, Mode.ofLetter?]
    rw [htake, ← readJobs_isOk_iff]
    cases readJobs s.value <;> simp [Except.map, hj]
  · refine ⟨fun _ h => absurd h hj, fun _ => ?_⟩
    unfold take
    split
    · exact ⟨_, rfl⟩
    · exact ⟨_, rfl⟩
    · exact ⟨_, rfl⟩
    · exact ⟨_, rfl⟩
    · next hletter => exact absurd hletter hj
    · exact ⟨_, rfl⟩

theorem foldlM_isOk_iff (o : Options) (switches : List Switch) :
    (∃ o', switches.foldlM take o = .ok o') ↔ ∀ s ∈ switches, s.letter = 'j' → JobCount s.value := by
  induction switches generalizing o with
  | nil => simp [pure, Except.pure]
  | cons s switches ih =>
      rw [List.forall_mem_cons, ← take_isOk_iff o s, List.foldlM_cons]
      constructor
      · rintro ⟨o', h⟩
        obtain ⟨first, hfirst, hrest⟩ := of_bind_eq_ok h
        exact ⟨⟨first, hfirst⟩, (ih first).mp ⟨o', hrest⟩⟩
      · rintro ⟨⟨first, hfirst⟩, hrest⟩
        rw [hfirst]
        exact (ih first).mpr hrest

theorem length_modesOf (switches : List Switch) :
    (modesOf switches).length = (switches.filter fun s => (Mode.ofLetter? s.letter).isSome).length := by
  rw [modesOf, List.length_filterMap_eq_countP, List.countP_eq_length_filter]

theorem parse_eq_ok_iff {args : List String} {o : Options} :
    parse args = .ok o ↔
      ∃ switches o', Splits args switches [o.input] ∧ switches.foldlM take {} = .ok o' ∧
        (modesOf switches).length ≤ 1 ∧ o = { o' with input := o.input } := by
  constructor
  · intro h
    obtain ⟨⟨switches, inputs⟩, hsplit, h⟩ := of_bind_eq_ok h
    obtain ⟨o', hfold, h⟩ := of_bind_eq_ok h
    dsimp only at h
    split at h
    · cases h
    · next hmodes =>
        rw [← length_modesOf] at hmodes
        split at h
        · cases h
          exact ⟨switches, o', split_eq_ok_iff.mp hsplit, hfold, by omega, rfl⟩
        · cases h
  · rintro ⟨switches, o', hsplits, hfold, hmodes, ho⟩
    rw [length_modesOf] at hmodes
    simp only [parse, hsplits.split, hfold, bind, Except.bind, if_neg (Nat.not_lt.mpr hmodes)]
    rw [ho]
    rfl

theorem of_parse {args : List String} {o : Options} (h : parse args = .ok o) :
    ∃ switches, Splits args switches [o.input] ∧ o.output = lastValue 'o' switches ∧
      o.snapshot = lastValue 's' switches ∧ ∀ mode ∈ modesOf switches, o.mode = mode := by
  obtain ⟨switches, o', hsplits, hfold, hmodes, ho⟩ := parse_eq_ok_iff.mp h
  have htaken := foldlM_taken hfold
  refine ⟨switches, hsplits, ?_, ?_, fun mode hmem => ?_⟩
  · rw [ho, htaken.output]
  · rw [ho, htaken.snapshot]
  · have hsingle : modesOf switches = [mode] := by
      obtain ⟨other, hother⟩ := List.length_eq_one_iff.mp
        (Nat.le_antisymm hmodes (List.length_pos_of_mem hmem))
      rw [hother, List.mem_singleton] at hmem
      rw [hother, hmem]
    rw [ho, htaken.mode, hsingle]
    rfl

end Options

theorem Splits.unique {args : List String} {switches switches' : List Switch} {inputs inputs' : List String}
    (h : Splits args switches inputs) (h' : Splits args switches' inputs') :
    switches' = switches ∧ inputs' = inputs := by
  cases h.split.symm.trans h'.split
  exact ⟨rfl, rfl⟩

-- What a list of arguments is refused for.
theorem parse_isError_iff (args : List String) :
    (∃ e, Options.parse args = .error e) ↔
      (¬ ∃ switches inputs, Splits args switches inputs) ∨
      ∃ switches inputs, Splits args switches inputs ∧
        ((∃ s ∈ switches, s.letter = 'j' ∧ ¬ JobCount s.value) ∨ 1 < (modesOf switches).length ∨
          inputs.length ≠ 1) := by
  have hok : (∃ e, Options.parse args = .error e) ↔ ¬ ∃ o, Options.parse args = .ok o := by
    cases Options.parse args <;> simp
  rw [hok, ← not_iff_not, not_not]
  constructor
  · rintro ⟨o, ho⟩
    obtain ⟨switches, o', hsplits, hfold, hmodes, _⟩ := Options.parse_eq_ok_iff.mp ho
    rw [not_or, not_not]
    refine ⟨⟨switches, _, hsplits⟩, ?_⟩
    rintro ⟨switches', inputs', hsplits', hbad⟩
    obtain ⟨rfl, rfl⟩ := hsplits.unique hsplits'
    rcases hbad with ⟨s, hs, hj, hcount⟩ | hbad | hbad
    · exact hcount ((Options.foldlM_isOk_iff {} switches').mp ⟨o', hfold⟩ s hs hj)
    · omega
    · exact hbad rfl
  · rw [not_or, not_not]
    rintro ⟨⟨switches, inputs, hsplits⟩, hgood⟩
    have hjobs : ∀ s ∈ switches, s.letter = 'j' → JobCount s.value := by
      intro s hs hj
      by_contra hcount
      exact hgood ⟨switches, inputs, hsplits, .inl ⟨s, hs, hj, hcount⟩⟩
    have hmodes : (modesOf switches).length ≤ 1 := by
      by_contra hmodes
      exact hgood ⟨switches, inputs, hsplits, .inr (.inl (by omega))⟩
    have hinputs : inputs.length = 1 := by
      by_contra hinputs
      exact hgood ⟨switches, inputs, hsplits, .inr (.inr hinputs)⟩
    obtain ⟨input, rfl⟩ := List.length_eq_one_iff.mp hinputs
    obtain ⟨o', hfold⟩ := (Options.foldlM_isOk_iff {} switches).mpr hjobs
    exact ⟨{ o' with input }, Options.parse_eq_ok_iff.mpr ⟨switches, o', hsplits, hfold, hmodes, rfl⟩⟩

end PlZero.Command
