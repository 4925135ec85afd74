/-! Natural numbers written in a radix of up to sixteen.  The decimal digits of a number have that
number as their value. -/

namespace PluginBroker.Numeral

/-- The value of a digit below the radix; letters count in both cases. -/
def digit? (radix : Nat) (c : Char) : Option Nat :=
  let value :=
    if '0' ≤ c ∧ c ≤ '9' then c.toNat - '0'.toNat
    else if 'a' ≤ c ∧ c ≤ 'f' then c.toNat - 'a'.toNat + 10
    else if 'A' ≤ c ∧ c ≤ 'F' then c.toNat - 'A'.toNat + 10
    else radix
  if value < radix then some value else none

/-- Whether the character is a digit below the radix. -/
def isDigit (radix : Nat) (c : Char) : Bool := (digit? radix c).isSome

/-- The value of digits after others whose value is `n`; `none` if one is no digit. -/
def extend? (radix n : Nat) : List Char → Option Nat
  | [] => some n
  | c :: cs =>
    match digit? radix c with
    | some d => extend? radix (radix * n + d) cs
    | none => none

/-- The value of one digit or more. -/
def value? (radix : Nat) (cs : List Char) : Option Nat :=
  if cs.isEmpty then none else extend? radix 0 cs

def decimal (n : Nat) : List Char := Nat.toDigits 10 n

def text (n : Nat) : String := String.ofList (decimal n)

/-- Unsigned 64-bit numbers, of those that fit. -/
def toUInt64? (n : Nat) : Option UInt64 := if n < UInt64.size then some (UInt64.ofNat n) else none

/-- Unsigned 32-bit numbers, of those that fit. -/
def toUInt32? (n : Nat) : Option UInt32 := if n < UInt32.size then some (UInt32.ofNat n) else none

/-! ### Reading back -/

theorem digit?_digitChar : ∀ d < 10, digit? 10 d.digitChar = some d := by decide

theorem decimal_ne_nil (n : Nat) : decimal n ≠ [] := Nat.toDigits_ne_nil

theorem decimal_of_lt {n : Nat} (h : n < 10) : decimal n = [n.digitChar] :=
  Nat.toDigits_of_lt_base h

theorem decimal_of_ge {n : Nat} (h : 10 ≤ n) :
    decimal n = decimal (n / 10) ++ [(n % 10).digitChar] :=
  Nat.toDigits_of_base_le (by omega) h

theorem extend?_append (radix n : Nat) (cs ds : List Char) :
    extend? radix n (cs ++ ds) = (extend? radix n cs).bind fun m => extend? radix m ds := by
  induction cs generalizing n with
  | nil => rfl
  | cons c cs ih => cases h : digit? radix c <;> simp [extend?, h, ih]

theorem extend?_decimal (n : Nat) : extend? 10 0 (decimal n) = some n := by
  induction n using Nat.strongRecOn with
  | _ n ih =>
    by_cases h : n < 10
    · simp [decimal_of_lt h, extend?, digit?_digitChar n h]
    · rw [decimal_of_ge (by omega), extend?_append, ih (n / 10) (by omega)]
      simp only [Option.bind_some, extend?, digit?_digitChar (n % 10) (by omega)]
      congr 1
      omega

@[simp] theorem value?_decimal (n : Nat) : value? 10 (decimal n) = some n := by
  rw [value?, if_neg (by simp [decimal_ne_nil]), extend?_decimal]

theorem isDigit_of_mem_decimal {n : Nat} {c : Char} (h : c ∈ decimal n) : isDigit 10 c = true := by
  induction n using Nat.strongRecOn with
  | _ n ih =>
    by_cases hn : n < 10
    · rw [decimal_of_lt hn, List.mem_singleton] at h
      simp [h, isDigit, digit?_digitChar n hn]
    · rw [decimal_of_ge (by omega), List.mem_append, List.mem_singleton] at h
      rcases h with h | rfl
      · exact ih (n / 10) (by omega) h
      · simp [isDigit, digit?_digitChar (n % 10) (by omega)]

theorem decimal_eq_cons (n : Nat) : ∃ c cs, decimal n = c :: cs ∧ isDigit 10 c = true := by
  obtain ⟨c, cs, h⟩ := List.exists_cons_of_ne_nil (decimal_ne_nil n)
  exact ⟨c, cs, h, isDigit_of_mem_decimal (n := n) (by simp [h])⟩

theorem ne_of_isDigit {c d : Char} (hc : isDigit 10 c = true)
    (hd : isDigit 10 d = false) : c ≠ d := by
  rintro rfl
  rw [hc] at hd
  cases hd

theorem digitChar_ne_zero : ∀ d < 10, 0 < d → d.digitChar ≠ '0' := by decide

theorem head?_decimal_ne_zero {n : Nat} (h : 0 < n) : (decimal n).head? ≠ some '0' := by
  induction n using Nat.strongRecOn with
  | _ n ih =>
    by_cases hn : n < 10
    · rw [decimal_of_lt hn]
      simpa using digitChar_ne_zero n hn h
    · have hhead := ih (n / 10) (by omega) (by omega)
      rw [decimal_of_ge (by omega), List.head?_append]
      cases hd : (decimal (n / 10)).head? with
      | none => exact absurd (List.head?_eq_none_iff.mp hd) (decimal_ne_nil _)
      | some c => simpa [hd] using hhead

theorem decimal_ne_zero_cons (n : Nat) (c : Char) (cs : List Char) :
    decimal n ≠ '0' :: c :: cs := by
  intro h
  rcases Nat.eq_zero_or_pos n with rfl | hn
  · rw [decimal_of_lt (by decide)] at h
    cases h
  · apply head?_decimal_ne_zero hn
    rw [h]
    rfl

@[simp] theorem toUInt64?_toNat (n : UInt64) : toUInt64? n.toNat = some n := by
  simp [toUInt64?, n.toNat_lt]

theorem toUInt64?_eq_some_iff {n : Nat} {m : UInt64} : toUInt64? n = some m ↔ n = m.toNat := by
  constructor
  · intro h
    rw [toUInt64?] at h
    split at h
    · next fits =>
      rw [← Option.some.inj h, UInt64.toNat_ofNat_of_lt' fits]
    · cases h
  · rintro rfl
    exact toUInt64?_toNat m

@[simp] theorem toUInt32?_toNat (n : UInt32) : toUInt32? n.toNat = some n := by
  simp [toUInt32?, n.toNat_lt]

end PluginBroker.Numeral
