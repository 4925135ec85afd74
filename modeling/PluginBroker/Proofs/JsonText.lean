import Mathlib.Data.List.TakeDrop
import PluginBroker.Json.Printer
import PluginBroker.Json.Reader

/-! The compact text of a JSON value is read back as that value, whatever follows it that cannot be
part of a number. -/

namespace PluginBroker

namespace Json

/-! ### Numbers -/

/-- Nothing that could carry on a number that ends here. -/
def Ends (rest : List Char) : Prop :=
  rest = [] ∨ ∃ c cs, rest = c :: cs ∧ (c = ',' ∨ c = ']' ∨ c = '}')

theorem Ends.spanDigits {ds rest : List Char} (hr : Ends rest)
    (hd : ∀ c ∈ ds, Numeral.isDigit 10 c = true) : spanDigits (ds ++ rest) = (ds, rest) := by
  have stop : rest.takeWhile (Numeral.isDigit 10) = [] ∧
      rest.dropWhile (Numeral.isDigit 10) = rest := by
    rcases hr with rfl | ⟨c, cs, rfl, rfl | rfl | rfl⟩
    · exact ⟨rfl, rfl⟩
    all_goals exact ⟨rfl, rfl⟩
  rw [Json.spanDigits, List.span_eq_takeWhile_dropWhile, List.takeWhile_append_of_pos hd,
    List.dropWhile_append_of_pos hd, stop.1, stop.2, List.append_nil]

theorem Ends.startsScale {rest : List Char} (h : Ends rest) : startsScale rest = false := by
  rcases h with rfl | ⟨c, cs, rfl, rfl | rfl | rfl⟩ <;> rfl

theorem Ends.readNumber {rest : List Char} (h : Ends rest) (n : Nat) :
    readNumber (Numeral.decimal n ++ rest) = some (some n, rest) := by
  have digits : readDigits (Numeral.decimal n ++ rest) = some (Numeral.decimal n, rest) := by
    rw [readDigits, h.spanDigits fun c hc => Numeral.isDigit_of_mem_decimal hc]
    split
    · next heq => exact absurd (congrArg Prod.fst heq) (Numeral.decimal_ne_nil n)
    · next heq => exact absurd (congrArg Prod.fst heq) (Numeral.decimal_ne_zero_cons n _ _)
    · next heq => rw [← heq]
  unfold Json.readNumber
  split
  · next cs heq =>
    -- a decimal does not start with a minus sign
    obtain ⟨c, ds, hn, digit⟩ := Numeral.decimal_eq_cons n
    rw [hn, List.cons_append, List.cons.injEq] at heq
    rw [heq.1] at digit
    cases digit
  · simp [digits, h.startsScale]

/-! ### Strings -/

theorem value?_control : ∀ n < 32,
    Numeral.value? 16 ['0', '0', hexDigit (n / 16), hexDigit (n % 16)] = some n := by decide

/-- A character is escaped by a letter, by its code, or not at all. -/
theorem escape_cases (c : Char) :
    (∃ e, escape c = ['\\', e] ∧ e ≠ 'u' ∧ unescape? e = some c.toNat) ∨
    (c.toNat < 32 ∧
      escape c = ['\\', 'u', '0', '0', hexDigit (c.toNat / 16), hexDigit (c.toNat % 16)]) ∨
    (c ≠ '"' ∧ c ≠ '\\' ∧ ¬ c < ' ' ∧ escape c = [c]) := by
  by_cases h : c ∈ ['"', '\\', '\x08', '\t', '\n', '\x0c', '\r']
  · left
    simp only [List.mem_cons, List.not_mem_nil, or_false] at h
    rcases h with rfl | rfl | rfl | rfl | rfl | rfl | rfl
    all_goals exact ⟨_, rfl, by decide, rfl⟩
  · right
    simp only [List.mem_cons, List.not_mem_nil, or_false, not_or] at h
    obtain ⟨h1, h2, h3, h4, h5, h6, h7⟩ := h
    by_cases hc : c < ' '
    · exact .inl ⟨hc, by simp [escape, *]⟩
    · exact .inr ⟨h1, h2, hc, by simp [escape, *]⟩

theorem readUnits_escape (c : Char) (cs : List Char) : readUnits (escape c ++ cs) =
    (readUnits cs).map fun r => (c.toNat :: r.1, r.2) := by
  rcases escape_cases c with ⟨e, he, hu, hc⟩ | ⟨hc, he⟩ | ⟨hq, hb, hc, he⟩ <;> rw [he]
  · show readUnits ('\\' :: e :: cs) = _
    rw [readUnits]
    · cases readUnits cs <;> simp [hc]
    · exact fun _ _ _ _ _ h => absurd h hu
  · show readUnits ('\\' :: 'u' :: '0' :: '0' :: _ :: _ :: cs) = _
    rw [readUnits, value?_control c.toNat hc]
    cases readUnits cs <;> rfl
  · show readUnits (c :: cs) = _
    rw [readUnits]
    · simp [hc, hb]
    all_goals simp_all

theorem readUnits_quote (s rest : List Char) :
    readUnits (s.flatMap escape ++ '"' :: rest) = some (s.map Char.toNat, rest) := by
  induction s with
  | nil => rfl
  | cons c cs ih =>
    rw [List.flatMap_cons, List.append_assoc, readUnits_escape, ih]
    rfl

theorem not_surrogate (c : Char) :
    isHighSurrogate c.toNat = false ∧ isLowSurrogate c.toNat = false := by
  have valid : c.toNat < 0xD800 ∨ 0xDFFF < c.toNat ∧ c.toNat < 0x110000 := c.valid
  constructor
  · simp only [isHighSurrogate, Bool.and_eq_false_iff, decide_eq_false_iff_not]
    omega
  · simp only [isLowSurrogate, Bool.and_eq_false_iff, decide_eq_false_iff_not]
    omega

theorem joinUnits_map_toNat (s : List Char) : joinUnits (s.map Char.toNat) = some s := by
  induction s with
  | nil => rfl
  | cons c cs ih =>
    obtain ⟨hh, hl⟩ := not_surrogate c
    cases cs with
    | nil => simp [joinUnits, hh, hl]
    | cons d ds =>
      rw [List.map_cons] at ih
      rw [List.map_cons, List.map_cons, joinUnits]
      simp [hh, hl, ih]

theorem readString_quote (s : String) (rest : List Char) :
    readString (s.toList.flatMap escape ++ '"' :: rest) = some (some s, rest) := by
  rw [readString, readUnits_quote, Option.map_some, joinUnits_map_toNat]
  simp

/-! ### Values -/

mutual

/-- Every number in the value has a value, and every string a text. -/
def isWhole : Json → Bool
  | null | bool _ => true
  | number n => n.isSome
  | string s => s.isSome
  | array es => elementsWhole es
  | object ms => membersWhole ms

def elementsWhole : List Json → Bool
  | [] => true
  | e :: es => isWhole e && elementsWhole es

def membersWhole : List (Option String × Json) → Bool
  | [] => true
  | (k, v) :: ms => k.isSome && isWhole v && membersWhole ms

end

theorem skipBlanks_cons {c : Char} (h : isBlank c = false) (cs : List Char) :
    skipBlanks (c :: cs) = c :: cs := by
  simp [skipBlanks, h]

theorem isBlank_of_isDigit {c : Char} (h : Numeral.isDigit 10 c = true) : isBlank c = false := by
  have h1 : c ≠ ' ' := Numeral.ne_of_isDigit h rfl
  have h2 : c ≠ '\t' := Numeral.ne_of_isDigit h rfl
  have h3 : c ≠ '\n' := Numeral.ne_of_isDigit h rfl
  have h4 : c ≠ '\r' := Numeral.ne_of_isDigit h rfl
  simp [isBlank, h1, h2, h3, h4]

theorem chars_cons (j : Json) : ∃ c cs, j.chars = c :: cs ∧ isBlank c = false ∧ c ≠ ']' := by
  cases j with
  | null => exact ⟨_, _, rfl, by decide, by decide⟩
  | bool b => cases b <;> exact ⟨_, _, rfl, by decide, by decide⟩
  | number n =>
    obtain ⟨c, cs, h, digit⟩ := Numeral.decimal_eq_cons (n.getD 0)
    exact ⟨c, cs, by rw [chars, numeral, h], isBlank_of_isDigit digit, Numeral.ne_of_isDigit digit rfl⟩
  | string s => exact ⟨'"', _, rfl, by decide, by decide⟩
  | array es => cases es <;> exact ⟨_, _, rfl, by decide, by decide⟩
  | object ms =>
    cases ms with
    | nil => exact ⟨_, _, rfl, by decide, by decide⟩
    | cons m ms => exact ⟨_, _, rfl, by decide, by decide⟩

theorem readValue_digit {c : Char} (h : Numeral.isDigit 10 c = true) (fuel : Nat) (cs : List Char) :
    readValue (fuel + 1) (c :: cs) = (readNumber (c :: cs)).map fun r => (.number r.1, r.2) := by
  rw [readValue, skipBlanks_cons (isBlank_of_isDigit h)]
  split
  -- every other kind of value starts with a character that is no digit
  any_goals exact absurd (List.cons.inj ‹_›).1 (Numeral.ne_of_isDigit h rfl)
  rfl

theorem readValue_quote (fuel : Nat) (cs : List Char) : readValue (fuel + 1) ('"' :: cs) =
    (readString cs).map fun r => (.string r.1, r.2) := rfl

theorem readValue_bracket {c : Char} (hb : isBlank c = false) (hc : c ≠ ']') (fuel : Nat)
    (cs : List Char) : readValue (fuel + 1) ('[' :: c :: cs) =
      (readElements fuel (c :: cs)).map fun r => (.array r.1, r.2) := by
  have start : skipBlanks ('[' :: c :: cs) = '[' :: c :: cs := skipBlanks_cons rfl _
  have next : skipBlanks (c :: cs) = c :: cs := skipBlanks_cons hb cs
  rw [readValue, start]
  simp only [next]
  split
  · next heq => exact absurd (List.cons.inj heq).1 hc
  · rfl

theorem readValue_brace (fuel : Nat) (cs : List Char) : readValue (fuel + 1) ('{' :: '"' :: cs) =
    (readMembers fuel ('"' :: cs)).map fun r => (.object r.1, r.2) := rfl

theorem readMembers_last {fuel : Nat} {cs rest tail : List Char} {k : Option String} {v : Json}
    (hk : readString cs = some (k, ':' :: rest)) (hv : readValue fuel rest = some (v, '}' :: tail)) :
    readMembers (fuel + 1) ('"' :: cs) = some ([(k, v)], tail) := by
  have colon : skipBlanks (':' :: rest) = ':' :: rest := skipBlanks_cons rfl rest
  have brace : skipBlanks ('}' :: tail) = '}' :: tail := skipBlanks_cons rfl tail
  rw [readMembers, skipBlanks_cons rfl]
  simp only [hk, colon, hv, brace]

theorem readMembers_comma {fuel : Nat} {cs rest tail : List Char} {k : Option String} {v : Json}
    (hk : readString cs = some (k, ':' :: rest)) (hv : readValue fuel rest = some (v, ',' :: tail)) :
    readMembers (fuel + 1) ('"' :: cs) =
      (readMembers fuel tail).map fun r => ((k, v) :: r.1, r.2) := by
  have colon : skipBlanks (':' :: rest) = ':' :: rest := skipBlanks_cons rfl rest
  have comma : skipBlanks (',' :: tail) = ',' :: tail := skipBlanks_cons rfl tail
  rw [readMembers, skipBlanks_cons rfl]
  simp only [hk, colon, hv, comma]

/-- With so much fuel, the text of a value, of elements or of members is read back. -/
structure ReadsBack (fuel : Nat) : Prop where
  value : ∀ j rest, isWhole j = true → j.chars.length ≤ fuel → Ends rest →
    readValue fuel (j.chars ++ rest) = some (j, rest)
  elements : ∀ e es rest, isWhole e = true → elementsWhole es = true →
    (e.chars ++ elementChars es).length ≤ fuel →
    readElements fuel (e.chars ++ (elementChars es ++ rest)) = some (e :: es, rest)
  members : ∀ k v ms rest, isWhole v = true → membersWhole ms = true →
    (literal (some k) ++ ':' :: (v.chars ++ memberChars ms)).length ≤ fuel →
    readMembers fuel (literal (some k) ++ ':' :: (v.chars ++ (memberChars ms ++ rest))) =
      some ((some k, v) :: ms, rest)

theorem ends_elementChars (es : List Json) (rest : List Char) : Ends (elementChars es ++ rest) := by
  cases es with
  | nil => exact .inr ⟨_, _, rfl, by simp⟩
  | cons e es => exact .inr ⟨_, _, rfl, by simp⟩

theorem ends_memberChars (ms : List (Option String × Json)) (rest : List Char) :
    Ends (memberChars ms ++ rest) := by
  cases ms with
  | nil => exact .inr ⟨_, _, rfl, by simp⟩
  | cons m ms => exact .inr ⟨_, _, rfl, by simp⟩

theorem readsBack_zero : ReadsBack 0 := by
  have full (j : Json) : 0 < j.chars.length := by
    obtain ⟨c, cs, h, -⟩ := chars_cons j
    simp [h]
  constructor
  · intro j rest _ hf
    have := full j
    omega
  · intro e es rest _ _ hf
    have := full e
    rw [List.length_append] at hf
    omega
  · intro k v ms rest _ _ hf
    simp [literal, quote] at hf

namespace ReadsBack

variable {fuel : Nat}

theorem array (h : ReadsBack fuel) {e : Json} {es : List Json} (he : isWhole e = true)
    (hes : elementsWhole es = true) (hf : (e.chars ++ elementChars es).length ≤ fuel)
    (rest : List Char) : readValue (fuel + 1) ('[' :: (e.chars ++ (elementChars es ++ rest))) =
      some (.array (e :: es), rest) := by
  have elements := h.elements e es rest he hes hf
  obtain ⟨c, cs, hchars, hblank, hclose⟩ := chars_cons e
  rw [hchars, List.cons_append] at elements ⊢
  rw [readValue_bracket hblank hclose, elements]
  rfl

theorem object (h : ReadsBack fuel) {k : String} {v : Json} {ms : List (Option String × Json)}
    (hv : isWhole v = true) (hms : membersWhole ms = true)
    (hf : (literal (some k) ++ ':' :: (v.chars ++ memberChars ms)).length ≤ fuel)
    (rest : List Char) :
    readValue (fuel + 1) ('{' :: (literal (some k) ++ ':' :: (v.chars ++ (memberChars ms ++ rest)))) =
      some (.object ((some k, v) :: ms), rest) := by
  have members := h.members k v ms rest hv hms hf
  rw [literal, quote, List.cons_append, List.cons_append] at members ⊢
  rw [readValue_brace, members]
  rfl

theorem value_succ (h : ReadsBack fuel) (j : Json) (rest : List Char) (hj : isWhole j = true)
    (hf : j.chars.length ≤ fuel + 1) (hr : Ends rest) :
    readValue (fuel + 1) (j.chars ++ rest) = some (j, rest) := by
  cases j with
  | null => rfl
  | bool b => cases b <;> rfl
  | number n =>
    obtain ⟨n, rfl⟩ := Option.isSome_iff_exists.mp hj
    show readValue (fuel + 1) (Numeral.decimal n ++ rest) = _
    have number := hr.readNumber n
    obtain ⟨c, cs, hn, digit⟩ := Numeral.decimal_eq_cons n
    rw [hn, List.cons_append] at number ⊢
    rw [readValue_digit digit, number]
    rfl
  | string s =>
    obtain ⟨s, rfl⟩ := Option.isSome_iff_exists.mp hj
    have string := readString_quote s rest
    show readValue (fuel + 1) ('"' :: (s.toList.flatMap escape ++ ['"'] ++ rest)) = _
    rw [List.append_assoc, readValue_quote, List.singleton_append, string]
    rfl
  | array es =>
    cases es with
    | nil => rfl
    | cons e es =>
      obtain ⟨he, hes⟩ : isWhole e = true ∧ elementsWhole es = true := by
        simpa [isWhole, elementsWhole] using hj
      have hlen : (e.chars ++ elementChars es).length ≤ fuel := by
        simp [chars] at hf ⊢
        omega
      simpa [chars] using h.array he hes hlen rest
  | object ms =>
    cases ms with
    | nil => rfl
    | cons m ms =>
      obtain ⟨k, v⟩ := m
      obtain ⟨⟨hk, hv⟩, hms⟩ : (k.isSome = true ∧ isWhole v = true) ∧ membersWhole ms = true := by
        simpa [isWhole, membersWhole] using hj
      obtain ⟨k, rfl⟩ := Option.isSome_iff_exists.mp hk
      have hlen : (literal (some k) ++ ':' :: (v.chars ++ memberChars ms)).length ≤ fuel := by
        simp [chars] at hf ⊢
        omega
      simpa [chars] using h.object hv hms hlen rest

theorem elements_succ (h : ReadsBack fuel) (e : Json) (es : List Json) (rest : List Char)
    (he : isWhole e = true) (hes : elementsWhole es = true)
    (hf : (e.chars ++ elementChars es).length ≤ fuel + 1) :
    readElements (fuel + 1) (e.chars ++ (elementChars es ++ rest)) = some (e :: es, rest) := by
  have hlen : e.chars.length ≤ fuel := by
    cases es <;> simp [elementChars] at hf <;> omega
  rw [readElements, h.value e _ he hlen (ends_elementChars es rest)]
  cases es with
  | nil => rfl
  | cons f fs =>
    obtain ⟨hf', hfs⟩ : isWhole f = true ∧ elementsWhole fs = true := by
      simpa [elementsWhole] using hes
    have tail := h.elements f fs rest hf' hfs (by simp [elementChars] at hf ⊢; omega)
    show (readElements fuel (f.chars ++ elementChars fs ++ rest)).map _ = _
    rw [List.append_assoc, tail]
    rfl

theorem members_succ (h : ReadsBack fuel) (k : String) (v : Json)
    (ms : List (Option String × Json)) (rest : List Char) (hv : isWhole v = true)
    (hms : membersWhole ms = true)
    (hf : (literal (some k) ++ ':' :: (v.chars ++ memberChars ms)).length ≤ fuel + 1) :
    readMembers (fuel + 1) (literal (some k) ++ ':' :: (v.chars ++ (memberChars ms ++ rest))) =
      some ((some k, v) :: ms, rest) := by
  have hlen : v.chars.length ≤ fuel := by
    simp at hf
    omega
  have value := h.value v _ hv hlen (ends_memberChars ms rest)
  have name := readString_quote k (':' :: (v.chars ++ (memberChars ms ++ rest)))
  show readMembers (fuel + 1) ('"' :: (k.toList.flatMap escape ++ ['"'] ++ _)) = _
  rw [List.append_assoc, List.singleton_append]
  cases ms with
  | nil => exact readMembers_last name value
  | cons m ms =>
    obtain ⟨l, w⟩ := m
    obtain ⟨⟨hl, hw⟩, hrest⟩ : (l.isSome = true ∧ isWhole w = true) ∧ membersWhole ms = true := by
      simpa [membersWhole] using hms
    obtain ⟨l, rfl⟩ := Option.isSome_iff_exists.mp hl
    have tail := h.members l w ms rest hw hrest (by simp [memberChars] at hf ⊢; omega)
    have next : memberChars ((some l, w) :: ms) ++ rest =
        ',' :: (literal (some l) ++ ':' :: (w.chars ++ (memberChars ms ++ rest))) := by
      simp [memberChars]
    rw [next] at value name ⊢
    rw [readMembers_comma name value, tail]
    rfl

end ReadsBack

theorem readsBack (fuel : Nat) : ReadsBack fuel := by
  induction fuel with
  | zero => exact readsBack_zero
  | succ fuel ih => exact ⟨ih.value_succ, ih.elements_succ, ih.members_succ⟩

/-- What is written without loss is read back from its text. -/
theorem ofText?_compact {j : Json} (h : isWhole j = true) : ofText? j.compact = some j := by
  have value := (readsBack (2 * j.chars.length + 1)).value j [] h (by omega) (.inl rfl)
  rw [List.append_nil] at value
  rw [ofText?, compact, String.toList_ofList, ofChars?, value]
  rfl

end Json

end PluginBroker
