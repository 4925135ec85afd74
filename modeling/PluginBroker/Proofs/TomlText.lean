import PluginBroker.Toml.Reader

/-! How values may be written in TOML, and that they are read back up to the end of the line: strings in
quotes, in which every character may be escaped, integers in radix ten, and truth values. -/

namespace PluginBroker.Toml

/-- The text ends here, or the line does. -/
def AtLineEnd (rest : List Char) : Prop :=
  rest = [] ∨ ∃ cs, rest = '\n' :: cs ∨ rest = '\r' :: '\n' :: cs

theorem skipBlanks_cons {c : Char} (h : isBlank c = false) (cs : List Char) :
    skipBlanks (c :: cs) = c :: cs := by
  simp [skipBlanks, h]

/-! ### Strings -/

/-- The letters that stand after a backslash for a character, each with this character. -/
def escapeLetters : List (Char × Char) :=
  [('b', '\x08'), ('t', '\t'), ('n', '\n'), ('f', '\x0c'), ('r', '\r'), ('e', '\x1b'), ('"', '"'),
    ('\\', '\\')]

/-- The letters that stand after a backslash before a code point, each with the number of digits. -/
def codeLetters : List (Char × Nat) := [('x', 2), ('u', 4), ('U', 8)]

/-- How a character may be written in a basic string: as it is, by a letter, or by its code point. -/
inductive CharText : Char → List Char → Prop
  | plain {c : Char} (isText : isTextChar c = true) (quote : c ≠ '"') (backslash : c ≠ '\\') :
    CharText c [c]
  | letter {e c : Char} (mem : (e, c) ∈ escapeLetters) : CharText c ['\\', e]
  | code {e c : Char} {digits : List Char} (mem : (e, digits.length) ∈ codeLetters)
    (value : Numeral.value? 16 digits = some c.toNat) : CharText c ('\\' :: e :: digits)

/-- How characters may be written one after the other in a basic string. -/
inductive BasicText : List Char → List Char → Prop
  | nil : BasicText [] []
  | cons {c : Char} {cs s t : List Char} (first : CharText c s) (rest : BasicText cs t) :
    BasicText (c :: cs) (s ++ t)

theorem exists_charText (c : Char) : ∃ s, CharText c s := by
  by_cases hq : c = '"'
  · exact ⟨_, .letter (e := '"') (by rw [hq]; decide)⟩
  · by_cases hb : c = '\\'
    · exact ⟨_, .letter (e := '\\') (by rw [hb]; decide)⟩
    · by_cases ht : isTextChar c = true
      · exact ⟨_, .plain ht hq hb⟩
      · -- what is left are control characters
        have low : c.toNat < 128 := by
          by_cases space : ' ' ≤ c
          · obtain ⟨-, rfl⟩ : c ≠ '\t' ∧ c = '\x7f' := by simpa [isTextChar, space] using ht
            decide
          · have : c.toNat < 32 := Nat.lt_of_not_le space
            omega
        have code : ∀ n < 128, Numeral.value? 16 [(n / 16).digitChar, (n % 16).digitChar] = some n := by
          decide
        exact ⟨_, .code (e := 'x') (by simp [codeLetters]) (code c.toNat low)⟩

theorem exists_basicText (cs : List Char) : ∃ t, BasicText cs t := by
  induction cs with
  | nil => exact ⟨_, .nil⟩
  | cons c cs ih =>
    obtain ⟨s, first⟩ := exists_charText c
    obtain ⟨t, rest⟩ := ih
    exact ⟨_, .cons first rest⟩

theorem readEscape?_letter {e c : Char} (h : (e, c) ∈ escapeLetters) (cs : List Char) :
    readEscape? (e :: cs) = some (c, cs) := by
  simp only [escapeLetters, List.mem_cons, Prod.mk.injEq, List.not_mem_nil, or_false] at h
  rcases h with ⟨rfl, rfl⟩ | ⟨rfl, rfl⟩ | ⟨rfl, rfl⟩ | ⟨rfl, rfl⟩ | ⟨rfl, rfl⟩ | ⟨rfl, rfl⟩ |
    ⟨rfl, rfl⟩ | ⟨rfl, rfl⟩
  all_goals rfl

theorem codePoint?_toNat (c : Char) : codePoint? c.toNat = some c := by
  have valid : c.toNat.isValidChar := c.valid
  rw [codePoint?, if_pos valid, Char.ofNat_toNat]

theorem readCodePoint?_append {digits : List Char} {c : Char}
    (value : Numeral.value? 16 digits = some c.toNat) (cs : List Char) :
    readCodePoint? digits.length (digits ++ cs) = some (c, cs) := by
  rw [readCodePoint?, List.take_left, if_pos rfl, value, List.drop_left]
  simp [codePoint?_toNat]

theorem readEscape?_code {e c : Char} {digits : List Char} (h : (e, digits.length) ∈ codeLetters)
    (value : Numeral.value? 16 digits = some c.toNat) (cs : List Char) :
    readEscape? (e :: (digits ++ cs)) = some (c, cs) := by
  have read := readCodePoint?_append value cs
  simp only [codeLetters, List.mem_cons, Prod.mk.injEq, List.not_mem_nil, or_false] at h
  rcases h with ⟨rfl, length⟩ | ⟨rfl, length⟩ | ⟨rfl, length⟩
  all_goals
    rw [length] at read
    exact read

theorem CharText.readBasic {c : Char} {s : List Char} (h : CharText c s) (fuel : Nat)
    (cs : List Char) : readBasic (fuel + 1) (s ++ cs) = consChar c (readBasic fuel cs) := by
  cases h with
  | plain isText quote backslash => simp [Toml.readBasic, isText, quote, backslash]
  | letter mem => simp [Toml.readBasic, readEscape?_letter mem]
  | code mem value => simp [Toml.readBasic, readEscape?_code mem value]

theorem CharText.head_ne {c : Char} {s : List Char} (h : CharText c s) :
    ∃ d t, s = d :: t ∧ d ≠ '"' := by
  cases h with
  | plain _ quote _ => exact ⟨_, _, rfl, quote⟩
  | letter _ => exact ⟨_, _, rfl, by decide⟩
  | code _ _ => exact ⟨_, _, rfl, by decide⟩

namespace BasicText

variable {cs t : List Char}

theorem length_le (h : BasicText cs t) : cs.length ≤ t.length := by
  induction h with
  | nil => exact Nat.le_refl _
  | cons first _ ih =>
    obtain ⟨d, s, rfl, -⟩ := first.head_ne
    simp only [List.length_append, List.length_cons]
    omega

theorem readBasic (h : BasicText cs t) (rest : List Char) (fuel : Nat) (enough : cs.length < fuel) :
    readBasic fuel (t ++ '"' :: rest) = some (cs, rest) := by
  induction h generalizing fuel with
  | nil =>
    obtain _ | fuel := fuel
    · exact absurd enough (Nat.not_lt_zero _)
    simp [Toml.readBasic]
  | cons first _ ih =>
    obtain _ | fuel := fuel
    · exact absurd enough (Nat.not_lt_zero _)
    rw [List.append_assoc, first.readBasic, ih fuel (Nat.lt_of_succ_lt_succ enough)]
    rfl

/-- A basic string is not taken for one over several lines. -/
theorem readString? {s : String} {rest : List Char} (h : BasicText s.toList t)
    (ends : AtLineEnd rest) : readString? ('"' :: (t ++ '"' :: rest)) = some (s, rest) := by
  have single : skipQuotes? '"' ('"' :: (t ++ '"' :: rest)) = none := by
    generalize s.toList = cs at h
    cases h with
    | nil => rcases ends with rfl | ⟨cs, rfl | rfl⟩ <;> rfl
    | cons first _ =>
      obtain ⟨d, u, rfl, other⟩ := first.head_ne
      simp [skipQuotes?, other]
  have other : skipQuotes? '\'' ('"' :: (t ++ '"' :: rest)) = none := by
    simp [skipQuotes?]
  have inside := h.readBasic rest (t ++ '"' :: rest).length (by
    have := h.length_le
    simp only [List.length_append, List.length_cons]
    omega)
  unfold Toml.readString?
  simp only [single, other, inside]
  simp

end BasicText

/-! ### Integers and truth values -/

theorem AtLineEnd.spanScalar {cs rest : List Char} (ends : AtLineEnd rest)
    (h : ∀ c ∈ cs, isScalarChar c = true) : spanScalar (cs ++ rest) = (cs, rest) := by
  induction cs with
  | nil => rcases ends with rfl | ⟨cs, rfl | rfl⟩ <;> rfl
  | cons c cs ih =>
    obtain ⟨hc, hcs⟩ := List.forall_mem_cons.mp h
    simp [Toml.spanScalar, hc, ih hcs]

theorem isScalarChar_of_isDigit {c : Char} (h : Numeral.isDigit 10 c = true) :
    isScalarChar c = true := by
  have other : (['=', ',', '[', ']', '{', '}', '#', ' ', '\t', '\r', '\n'].all fun d =>
      decide (Numeral.isDigit 10 d = false)) = true := by decide
  simp only [List.all_eq_true, decide_eq_true_eq] at other
  rw [isScalarChar, decide_eq_true_eq]
  exact fun hc => Numeral.ne_of_isDigit h (other c hc) rfl

def booleanChars (b : Bool) : List Char :=
  if b then ['t', 'r', 'u', 'e'] else ['f', 'a', 'l', 's', 'e']

/-- The digits of an integer in radix ten, with a minus sign if it is negative. -/
def integerChars : Int → List Char
  | .ofNat n => Numeral.decimal n
  | .negSucc n => '-' :: Numeral.decimal (n + 1)

/-- A digit or a sign stands in front. -/
theorem integerChars_cons (n : Int) : ∃ c cs, integerChars n = c :: cs ∧
    ∀ d, Numeral.isDigit 10 d = false → d ≠ '-' → c ≠ d := by
  cases n with
  | ofNat n =>
    obtain ⟨c, cs, h, digit⟩ := Numeral.decimal_eq_cons n
    exact ⟨c, cs, h, fun d hd _ => Numeral.ne_of_isDigit digit hd⟩
  | negSucc n => exact ⟨_, _, rfl, fun d _ hd => hd.symm⟩

theorem isScalarChar_of_mem_integerChars {n : Int} {c : Char} (h : c ∈ integerChars n) :
    isScalarChar c = true := by
  cases n with
  | ofNat n => exact isScalarChar_of_isDigit (Numeral.isDigit_of_mem_decimal h)
  | negSucc n =>
    rcases List.mem_cons.mp h with rfl | h
    · decide
    · exact isScalarChar_of_isDigit (Numeral.isDigit_of_mem_decimal h)

theorem ungroup?_of_isDigit {ds : List Char} (nonempty : ds ≠ [])
    (h : ∀ c ∈ ds, Numeral.isDigit 10 c = true) : ungroup? 10 ds = some ds := by
  induction ds with
  | nil => exact absurd rfl nonempty
  | cons c ds ih =>
    obtain ⟨hc, hds⟩ := List.forall_mem_cons.mp h
    cases ds with
    | nil => simp [ungroup?, hc]
    | cons d ds =>
      have tail := ih (List.cons_ne_nil d ds) hds
      have digit : d ≠ '_' := Numeral.ne_of_isDigit (hds d List.mem_cons_self) rfl
      rw [ungroup?]
      · simp [hc, tail]
      all_goals simp [digit]

theorem readDecimal (n : Nat) :
    (ungroupDecimal? (Numeral.decimal n)).bind (Numeral.value? 10) = some n := by
  have digits := ungroup?_of_isDigit (Numeral.decimal_ne_nil n)
    fun c hc => Numeral.isDigit_of_mem_decimal hc
  rw [ungroupDecimal?, digits]
  split
  · next heq => exact absurd (Option.some.inj heq) (Numeral.decimal_ne_zero_cons n _ _)
  · simp

theorem takeSign_of_isDigit {c : Char} (h : Numeral.isDigit 10 c = true) (cs : List Char) :
    takeSign (c :: cs) = (none, c :: cs) := by
  have minus : c ≠ '-' := Numeral.ne_of_isDigit h rfl
  have plus : c ≠ '+' := Numeral.ne_of_isDigit h rfl
  unfold takeSign
  split
  · next heq => exact absurd (List.cons.inj heq).1 minus
  · next heq => exact absurd (List.cons.inj heq).1 plus
  · rfl

theorem takeSign_integerChars (n : Int) : ∃ sign ds, takeSign (integerChars n) = (sign, ds) ∧
    ((ungroupDecimal? ds).bind (Numeral.value? 10)).map (signed sign) = some n := by
  cases n with
  | ofNat n =>
    obtain ⟨c, cs, h, digit⟩ := Numeral.decimal_eq_cons n
    refine ⟨none, Numeral.decimal n, ?_, ?_⟩
    · rw [integerChars, h, takeSign_of_isDigit digit]
    · rw [readDecimal]
      rfl
  | negSucc n =>
    refine ⟨some .minus, Numeral.decimal (n + 1), rfl, ?_⟩
    rw [readDecimal]
    rfl

theorem integerChars_ne_zero_cons (n : Int) (c : Char) (cs : List Char) :
    integerChars n ≠ '0' :: c :: cs := by
  cases n with
  | ofNat n => exact Numeral.decimal_ne_zero_cons n c cs
  | negSucc n => simp [integerChars]

theorem readInteger?_integerChars (n : Int) : readInteger? (integerChars n) = some n := by
  obtain ⟨sign, ds, taken, value⟩ := takeSign_integerChars n
  unfold readInteger?
  split
  -- no letter for a radix follows a zero in front
  any_goals exact absurd ‹_› (integerChars_ne_zero_cons n _ _)
  simp only [taken, value]

theorem readBoolean?_integerChars (n : Int) : readBoolean? (integerChars n) = none := by
  obtain ⟨c, cs, h, start⟩ := integerChars_cons n
  have notTrue : c ≠ 't' := start 't' rfl (by decide)
  have notFalse : c ≠ 'f' := start 'f' rfl (by decide)
  simp [readBoolean?, h, notTrue, notFalse]

theorem readScalar?_integerChars (n : Int) : readScalar? (integerChars n) = some (.integer n) := by
  rw [readScalar?, readBoolean?_integerChars, readInteger?_integerChars]

/-! ### Values -/

/-- How a value may be written. -/
inductive ValueText : Value → List Char → Prop
  | string {s : String} {t : List Char} (inside : BasicText s.toList t) :
    ValueText (.string s) ('"' :: (t ++ ['"']))
  | integer (n : Int) : ValueText (.integer n) (integerChars n)
  | boolean (b : Bool) : ValueText (.boolean b) (booleanChars b)

theorem readValue?_scalar {c : Char} {cs rest : List Char} {v : Value}
    (start : c ∉ ['[', '{', '"', '\'']) (scalar : ∀ d ∈ c :: cs, isScalarChar d = true)
    (value : readScalar? (c :: cs) = some v) (ends : AtLineEnd rest) (fuel depth : Nat) :
    readValue? (fuel + 1) depth (c :: cs ++ rest) = some (v, rest) := by
  have chars := ends.spanScalar scalar
  rw [List.cons_append] at chars ⊢
  rw [readValue?]
  · simp [chars, value]
  -- the character in front opens no other kind of value
  all_goals exact fun _ h => start (by simp [(List.cons.inj h).1])

theorem ValueText.readValue? {v : Value} {cs rest : List Char} (h : ValueText v cs)
    (ends : AtLineEnd rest) (fuel depth : Nat) :
    readValue? (fuel + 1) depth (cs ++ rest) = some (v, rest) := by
  cases h with
  | @string s t inside =>
    have string := inside.readString? ends
    show (Toml.readString? ('"' :: (t ++ ['"'] ++ rest))).map _ = _
    rw [List.append_assoc, List.singleton_append, string]
    rfl
  | integer n =>
    obtain ⟨c, cs, h, start⟩ := integerChars_cons n
    have scalar : ∀ d ∈ c :: cs, isScalarChar d = true := by
      rw [← h]
      exact fun d => isScalarChar_of_mem_integerChars
    have value := readScalar?_integerChars n
    rw [h] at value ⊢
    refine readValue?_scalar (fun opens => ?_) scalar value ends fuel depth
    have other : (['[', '{', '"', '\''].all fun d =>
        decide (Numeral.isDigit 10 d = false ∧ d ≠ '-')) = true := by decide
    simp only [List.all_eq_true, decide_eq_true_eq] at other
    exact start c (other c opens).1 (other c opens).2 rfl
  | boolean b =>
    cases b with
    | false =>
      exact readValue?_scalar (by decide) (List.all_eq_true.mp (by decide)) rfl ends fuel depth
    | true =>
      exact readValue?_scalar (by decide) (List.all_eq_true.mp (by decide)) rfl ends fuel depth

theorem ValueText.cons {v : Value} {cs : List Char} (h : ValueText v cs) :
    ∃ d ds, cs = d :: ds ∧ isBlank d = false := by
  cases h with
  | string _ => exact ⟨_, _, rfl, rfl⟩
  | integer n =>
    obtain ⟨c, cs, h, start⟩ := integerChars_cons n
    refine ⟨c, cs, h, ?_⟩
    simp [isBlank, start ' ' rfl (by decide), start '\t' rfl (by decide)]
  | boolean b => cases b <;> exact ⟨_, _, rfl, rfl⟩

theorem exists_valueText_string (s : String) : ∃ t, ValueText (.string s) t := by
  obtain ⟨t, ht⟩ := exists_basicText s.toList
  exact ⟨_, .string ht⟩

end PluginBroker.Toml
