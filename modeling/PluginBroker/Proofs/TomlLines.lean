import Mathlib.Data.List.TakeDrop
import PluginBroker.Proofs.TomlText

/-! How lines may be written in a TOML document, and that the document is read back from them.  A line
assigns a value to a key or opens an element of an array; blanks and empty lines may stand before it. -/

namespace PluginBroker.Toml

/-! ### Keys -/

/-- The name can stand in a key without quotes. -/
def IsBare (name : String) : Prop := name.toList ≠ [] ∧ ∀ c ∈ name.toList, isBareChar c = true

instance (name : String) : Decidable (IsBare name) :=
  decidable_of_iff (name.toList ≠ [] ∧ name.toList.all isBareChar = true) (by
    rw [IsBare, List.all_eq_true])

namespace Key

/-- The names of the key with points between them. -/
def chars (k : Key) : List Char := k.parents.flatMap (fun p => p.toList ++ ['.']) ++ k.name.toList

/-- The key can be written without quotes, and it is not too long. -/
structure Bare (k : Key) : Prop where
  names : ∀ n ∈ k.parents ++ [k.name], IsBare n
  length : k.parents.length < depthLimit

end Key

theorem IsBare.cons {name : String} (h : IsBare name) :
    ∃ d ds, name.toList = d :: ds ∧ isBareChar d = true := by
  obtain ⟨d, ds, hd⟩ := List.exists_cons_of_ne_nil h.1
  exact ⟨d, ds, hd, h.2 d (by simp [hd])⟩

theorem ne_of_isBareChar {c d : Char} (hc : isBareChar c = true) (hd : isBareChar d = false) :
    c ≠ d := by
  rintro rfl
  rw [hc] at hd
  cases hd

theorem IsBare.readName? {name : String} (h : IsBare name) {c : Char} (stop : isBareChar c = false)
    (rest : List Char) : readName? (name.toList ++ c :: rest) = some (name, c :: rest) := by
  have span : (name.toList ++ c :: rest).span isBareChar = (name.toList, c :: rest) := by
    rw [List.span_eq_takeWhile_dropWhile, List.takeWhile_append_of_pos h.2,
      List.dropWhile_append_of_pos h.2]
    simp [stop]
  obtain ⟨d, ds, hd, bare⟩ := h.cons
  rw [hd] at span ⊢
  unfold Toml.readName?
  split
  · next heq => exact absurd (List.cons.inj heq).1 (ne_of_isBareChar bare rfl)
  · next heq => exact absurd (List.cons.inj heq).1 (ne_of_isBareChar bare rfl)
  · rw [span]
    simp [← hd]

theorem isBlank_of_isBareChar {c : Char} (h : isBareChar c = true) : isBlank c = false := by
  have space : c ≠ ' ' := ne_of_isBareChar h rfl
  have tab : c ≠ '\t' := ne_of_isBareChar h rfl
  simp [isBlank, space, tab]

namespace Key

theorem chars_cons (p : String) (ps : List String) (name : String) :
    chars ⟨p :: ps, name⟩ = p.toList ++ '.' :: chars ⟨ps, name⟩ := by
  simp [chars]

/-- A character of a name stands in front. -/
theorem Bare.cons {k : Key} (h : k.Bare) :
    ∃ c cs, k.chars = c :: cs ∧ isBareChar c = true := by
  obtain ⟨ps, name⟩ := k
  cases ps with
  | nil =>
    obtain ⟨c, cs, hc, bare⟩ := (h.names name (by simp)).cons
    exact ⟨c, cs, by simp [chars, hc], bare⟩
  | cons p ps =>
    obtain ⟨c, cs, hc, bare⟩ := (h.names p (by simp)).cons
    exact ⟨c, cs ++ '.' :: chars ⟨ps, name⟩, by simp [chars_cons, hc], bare⟩

theorem Bare.tail {p : String} {ps : List String} {name : String} (h : Bare ⟨p :: ps, name⟩) :
    Bare ⟨ps, name⟩ where
  names n hn := h.names n (List.mem_cons_of_mem _ hn)
  length := Nat.lt_of_succ_lt h.length

theorem Bare.skipBlanks {k : Key} (h : k.Bare) (rest : List Char) :
    skipBlanks (k.chars ++ rest) = k.chars ++ rest := by
  obtain ⟨c, cs, hc, bare⟩ := h.cons
  rw [hc, List.cons_append, skipBlanks_cons (isBlank_of_isBareChar bare)]

/-- A key is read up to what ends it and the blanks before that. -/
theorem Bare.readKey? {k : Key} (h : k.Bare) {c : Char} (stop : isBareChar c = false)
    (rest : List Char) (last : ∀ cs, Toml.skipBlanks (c :: rest) ≠ '.' :: cs) (fuel : Nat)
    (enough : k.parents.length < fuel) :
    readKey? fuel (k.chars ++ c :: rest) = some (k, Toml.skipBlanks (c :: rest)) := by
  obtain ⟨ps, name⟩ := k
  induction ps generalizing fuel with
  | nil =>
    obtain _ | fuel := fuel
    · exact absurd enough (Nat.not_lt_zero _)
    have name := (h.names name (by simp)).readName? stop rest
    simp only [Toml.readKey?, chars, List.flatMap_nil, List.nil_append, name]
  | cons p ps ih =>
    obtain _ | fuel := fuel
    · exact absurd enough (Nat.not_lt_zero _)
    have first := (h.names p (by simp)).readName? (c := '.') rfl (chars ⟨ps, name⟩ ++ c :: rest)
    have point := skipBlanks_cons (c := '.') rfl (chars ⟨ps, name⟩ ++ c :: rest)
    have blanks := h.tail.skipBlanks (c :: rest)
    have next := ih fuel h.tail (Nat.lt_of_succ_lt_succ enough)
    rw [chars_cons, List.append_assoc, List.cons_append]
    simp only [Toml.readKey?, first, point, blanks, next, Option.map_some]

end Key

/-! ### Lines -/

/-- How a line may be written. -/
inductive LineText : Line → List Char → Prop
  | assignment {k : Key} {v : Value} {t : List Char} (key : k.Bare) (value : ValueText v t) :
    LineText (.assignment ⟨k, v⟩) (k.chars ++ ' ' :: '=' :: ' ' :: t)
  | element {k : Key} (key : k.Bare) :
    LineText (.header ⟨true, k⟩) ('[' :: '[' :: (k.chars ++ [']', ']']))

/-- Blanks and empty lines. -/
inductive Gap : List Char → Prop
  | nil : Gap []
  | blank {c : Char} {cs : List Char} (isBlank : isBlank c = true) (rest : Gap cs) : Gap (c :: cs)
  | newline {cs : List Char} (rest : Gap cs) : Gap ('\n' :: cs)
  | returnNewline {cs : List Char} (rest : Gap cs) : Gap ('\r' :: '\n' :: cs)

/-- How lines may be written one under the other. -/
inductive LinesText : List Line → List Char → Prop
  | nil {g : List Char} (gap : Gap g) : LinesText [] g
  | cons {l : Line} {ls : List Line} {g t rest : List Char} (gap : Gap g) (line : LineText l t)
    (ends : AtLineEnd rest) (lines : LinesText ls rest) : LinesText (l :: ls) (g ++ (t ++ rest))

/-- A line is read up to its end. -/
theorem LineText.readLine? {l : Line} {t rest : List Char} (h : LineText l t)
    (ends : AtLineEnd rest) : readLine? (t ++ rest) = some (l, rest) := by
  cases h with
  | @assignment k v t key value =>
    obtain ⟨d, ds, hd, blank⟩ := value.cons
    have blanks : skipBlanks (t ++ rest) = t ++ rest := by
      rw [hd, List.cons_append, skipBlanks_cons blank]
    have equals : skipBlanks (' ' :: '=' :: ' ' :: (t ++ rest)) = '=' :: ' ' :: (t ++ rest) := rfl
    have after : skipEquals? ('=' :: ' ' :: (t ++ rest)) = some (t ++ rest) :=
      congrArg some blanks
    have read := key.readKey? (c := ' ') rfl ('=' :: ' ' :: (t ++ rest))
      (by simp [equals]) depthLimit key.length
    have assignment : readAssignment? (k.chars ++ ' ' :: '=' :: ' ' :: (t ++ rest)) =
        some (⟨k, v⟩, rest) := by
      simp only [readAssignment?, read, equals, after, value.readValue? ends, Option.bind_some,
        Option.map_some]
    -- the key does not begin like a header
    obtain ⟨c, cs, hc, bare⟩ := key.cons
    rw [List.append_assoc]
    show Toml.readLine? (k.chars ++ ' ' :: '=' :: ' ' :: (t ++ rest)) = _
    rw [hc, List.cons_append] at assignment ⊢
    unfold Toml.readLine?
    split
    · next heq => exact absurd (List.cons.inj heq).1 (ne_of_isBareChar bare rfl)
    · rw [assignment]
      rfl
  | @element k key =>
    have brackets : skipBlanks (']' :: ']' :: rest) = ']' :: ']' :: rest := skipBlanks_cons rfl _
    have read := key.readKey? (c := ']') rfl (']' :: rest) (by simp [brackets]) depthLimit
      key.length
    have blanks := key.skipBlanks (']' :: ']' :: rest)
    show (readHeader? ('[' :: (k.chars ++ [']', ']'] ++ rest))).map _ = _
    rw [List.append_assoc, List.cons_append, List.singleton_append]
    simp only [readHeader?, blanks, read, brackets, Option.map_some]

/-! ### Documents -/

theorem skipFiller?_cons {c : Char} (newline : c ≠ '\n') (carriage : c ≠ '\r') (cs : List Char) :
    skipFiller? false (c :: cs) = if isBlank c then skipFiller? false cs
      else if c = '#' then skipFiller? true cs else some (c :: cs) := by
  rw [skipFiller?]
  · rfl
  · exact newline
  · exact fun _ h _ => carriage h

theorem Gap.skipFiller? {g : List Char} (h : Gap g) (cs : List Char) :
    skipFiller? false (g ++ cs) = skipFiller? false cs := by
  induction h with
  | nil => rfl
  | blank isBlank _ ih =>
    rw [List.cons_append, skipFiller?_cons, if_pos isBlank, ih]
    all_goals
      rintro rfl
      cases isBlank
  | newline _ ih => exact ih
  | returnNewline _ ih => exact ih

theorem LineText.cons {l : Line} {t : List Char} (h : LineText l t) :
    ∃ c cs, t = c :: cs ∧ (c = '[' ∨ isBareChar c = true) := by
  cases h with
  | assignment key _ =>
    obtain ⟨c, cs, hc, bare⟩ := key.cons
    exact ⟨c, _, by rw [hc, List.cons_append], .inr bare⟩
  | element _ => exact ⟨_, _, rfl, .inl rfl⟩

theorem LineText.skipFiller? {l : Line} {t : List Char} (h : LineText l t) (rest : List Char) :
    skipFiller? false (t ++ rest) = some (t ++ rest) := by
  obtain ⟨c, cs, rfl, rfl | bare⟩ := h.cons
  · rfl
  · have blank := isBlank_of_isBareChar bare
    have hash : c ≠ '#' := ne_of_isBareChar bare rfl
    rw [List.cons_append, skipFiller?_cons (ne_of_isBareChar bare rfl) (ne_of_isBareChar bare rfl)]
    simp [blank, hash]

theorem AtLineEnd.endsLine {rest : List Char} (h : AtLineEnd rest) : endsLine rest = true := by
  rcases h with rfl | ⟨cs, rfl | rfl⟩ <;> rfl

namespace LinesText

variable {ls : List Line} {cs : List Char}

theorem length_le (h : LinesText ls cs) : ls.length ≤ cs.length := by
  induction h with
  | nil _ => exact Nat.zero_le _
  | cons _ line _ _ ih =>
    obtain ⟨c, t, rfl, -⟩ := line.cons
    simp only [List.length_append, List.length_cons]
    omega

theorem readLines? (h : LinesText ls cs) (fuel : Nat) (enough : ls.length < fuel) :
    readLines? fuel cs = some ls := by
  induction h generalizing fuel with
  | @nil g gap =>
    obtain _ | fuel := fuel
    · exact absurd enough (Nat.not_lt_zero _)
    have filler := gap.skipFiller? []
    rw [List.append_nil] at filler
    simp [Toml.readLines?, filler, skipFiller?]
  | @cons l ls g t rest gap line ends _ ih =>
    obtain _ | fuel := fuel
    · exact absurd enough (Nat.not_lt_zero _)
    have filler : skipFiller? false (g ++ (t ++ rest)) = some (t ++ rest) :=
      (gap.skipFiller? _).trans (line.skipFiller? rest)
    have read := line.readLine? ends
    have next := ih fuel (Nat.lt_of_succ_lt_succ enough)
    obtain ⟨c, u, rfl, -⟩ := line.cons
    rw [List.cons_append] at filler read
    simp only [Toml.readLines?, List.cons_append, filler, read, ends.endsLine, next, if_true,
      Option.map_some]

theorem skipFiller? (h : LinesText ls cs) : skipFiller? false cs = some [] ∨
    ∃ c t, skipFiller? false cs = some (c :: t) ∧ (c = '[' ∨ isBareChar c = true) := by
  cases h with
  | nil gap =>
    have filler := gap.skipFiller? []
    rw [List.append_nil] at filler
    exact .inl filler
  | @cons l ls g t rest gap line _ _ =>
    have filler := (gap.skipFiller? (t ++ rest)).trans (line.skipFiller? rest)
    obtain ⟨c, u, rfl, start⟩ := line.cons
    exact .inr ⟨c, u ++ rest, filler, start⟩

/-- No byte order mark stands in front. -/
theorem skipMark (h : LinesText ls cs) : skipMark cs = cs := by
  unfold Toml.skipMark
  split
  · next rest =>
    have mark : Toml.skipFiller? false ('\uFEFF' :: rest) = some ('\uFEFF' :: rest) :=
      skipFiller?_cons (by decide) (by decide) rest
    rcases h.skipFiller? with filler | ⟨c, t, filler, start⟩
    · rw [mark] at filler
      cases filler
    · rw [mark, Option.some.injEq, List.cons.injEq] at filler
      rw [← filler.1] at start
      exact absurd start (by decide)
  · rfl

theorem newline (h : LinesText ls cs) : LinesText ls ('\n' :: cs) := by
  cases h with
  | nil gap => exact .nil (.newline gap)
  | cons gap line ends lines => exact .cons (.newline gap) line ends lines

end LinesText

theorem Document.ofText?_of_linesText {ls : List Line} {text : String}
    (h : LinesText ls text.toList) : Document.ofText? text = some (.ofLines ls) := by
  have length := h.length_le
  have read := h.readLines? (text.toList.length + 1) (by omega)
  rw [Document.ofText?]
  simp only [h.skipMark, read, Option.map_some]

/-- Lines that can be written one by one can be written one under the other. -/
theorem exists_linesText {ls : List Line} (h : ∀ l ∈ ls, ∃ t, LineText l t) :
    ∃ text : String, LinesText ls text.toList := by
  suffices chars : ∃ cs, LinesText ls cs by
    obtain ⟨cs, hcs⟩ := chars
    exact ⟨String.ofList cs, by rwa [String.toList_ofList]⟩
  induction ls with
  | nil => exact ⟨[], .nil .nil⟩
  | cons l ls ih =>
    obtain ⟨⟨t, line⟩, rest⟩ := List.forall_mem_cons.mp h
    obtain ⟨cs, lines⟩ := ih rest
    exact ⟨_, .cons .nil line (.inr ⟨cs, .inl rfl⟩) lines.newline⟩

end PluginBroker.Toml
