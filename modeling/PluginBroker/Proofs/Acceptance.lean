import PluginBroker.Proofs.Drift
import PluginBroker.Proofs.Hashing

/-! Which declared fingerprints pass.  A fingerprint is sixty-four upper-case hexadecimal digits that spell a
digest, and the check of an extension takes these characters and no others, the case of ASCII letters
aside.  What else the interface is called, declares or extends does not matter. -/

namespace PluginBroker

/-! ### Hexadecimal digits -/

namespace Digest

/-- Each byte is spelled by two digits, of which none is a lower-case letter. -/
inductive Spells : List Char → List UInt8 → Prop
  | nil : Spells [] []
  | cons {a b : Char} {byte : UInt8} {cs : List Char} {bytes : List UInt8}
      (digits : a ∈ "0123456789ABCDEF".toList ∧ b ∈ "0123456789ABCDEF".toList)
      (value : Numeral.value? 16 [a, b] = some byte.toNat) (rest : Spells cs bytes) :
      Spells (a :: b :: cs) (byte :: bytes)

theorem Spells.mem {cs : List Char} {bytes : List UInt8} (h : Spells cs bytes) {c : Char}
    (hc : c ∈ cs) : c ∈ "0123456789ABCDEF".toList := by
  induction h with
  | nil => cases hc
  | cons digits _ _ ih =>
    rcases List.mem_cons.mp hc with rfl | hc
    · exact digits.1
    · rcases List.mem_cons.mp hc with rfl | hc
      · exact digits.2
      · exact ih hc

theorem digit?_hexDigits : ∀ i : Fin 16, hexDigits[i] ∈ "0123456789ABCDEF".toList ∧
    Numeral.digit? 16 hexDigits[i] = some i.val := by
  decide

theorem spells_hexPair (b : UInt8) {cs : List Char} {bytes : List UInt8} (rest : Spells cs bytes) :
    Spells (hexPair b ++ cs) (b :: bytes) := by
  have bound := b.toNat_lt
  obtain ⟨memHigh, high⟩ := digit?_hexDigits ⟨b.toNat / 16, by omega⟩
  obtain ⟨memLow, low⟩ := digit?_hexDigits ⟨b.toNat % 16, by omega⟩
  refine .cons ⟨memHigh, memLow⟩ ?_ rest
  simp only [Fin.getElem_fin] at high low
  simp only [Numeral.value?, List.isEmpty_cons, Bool.false_eq_true, if_false, Numeral.extend?, high, low]
  congr 1
  omega

theorem spells_hex (d : Digest) : Spells d.hex.toList d.bytes.toList := by
  rw [hex, String.toList_ofList, hexChars]
  induction d.bytes.toList with
  | nil => exact .nil
  | cons b bytes ih => exact spells_hexPair b ih

end Digest

/-! ### Case variants -/

theorem SameLetter.mem {a b : Char} (h : SameLetter a b) (ha : a ∈ "0123456789ABCDEF".toList) :
    b ∈ "0123456789ABCDEFabcdef".toList := by
  have kept : ("0123456789ABCDEF".toList.all fun c =>
      decide (c ∈ "0123456789ABCDEFabcdef".toList)) = true := by decide
  have lowered : ("0123456789ABCDEF".toList.all fun c => decide (c.isUpper = true →
      Char.ofNat (c.toNat + 32) ∈ "0123456789ABCDEFabcdef".toList)) = true := by decide
  have small : ("0123456789ABCDEF".toList.all fun c => decide (c.toNat < 97)) = true := by decide
  simp only [List.all_eq_true, decide_eq_true_eq] at kept lowered small
  rcases h with rfl | ⟨upper, code⟩ | ⟨upper, code⟩
  · exact kept a ha
  · rw [← Char.ofNat_toNat b, code]
    exact lowered a ha upper
  · -- no digit is a lower-case letter
    have := isUpper_iff.mp upper
    have := small a ha
    omega

theorem SameButCase.length_eq {s t : String} (h : SameButCase s t) : t.length = s.length := by
  rw [← String.length_toList, ← String.length_toList]
  exact (List.Forall₂.length_eq h).symm

theorem exists_sameLetter {cs ds : List Char} (h : List.Forall₂ SameLetter cs ds) {c : Char}
    (hc : c ∈ ds) : ∃ a ∈ cs, SameLetter a c := by
  induction h with
  | nil => cases hc
  | cons same _ ih =>
    rcases List.mem_cons.mp hc with rfl | hc
    · exact ⟨_, List.mem_cons_self, same⟩
    · obtain ⟨a, ha, hac⟩ := ih hc
      exact ⟨a, List.mem_cons_of_mem _ ha, hac⟩

namespace Fingerprint

theorem spells_text (f : Fingerprint) : Digest.Spells f.text.toList f.digest.bytes.toList :=
  Digest.spells_hex f.digest

theorem length_text (f : Fingerprint) : f.text.length = 64 := by
  rw [text, Digest.hex, String.length_ofList, Digest.length_hexChars]

theorem length_of_sameButCase {f : Fingerprint} {declared : String}
    (h : SameButCase f.text declared) : declared.length = 64 :=
  h.length_eq.trans f.length_text

theorem mem_of_sameButCase {f : Fingerprint} {declared : String} (h : SameButCase f.text declared)
    {c : Char} (hc : c ∈ declared.toList) : c ∈ "0123456789ABCDEFabcdef".toList := by
  obtain ⟨a, ha, same⟩ := exists_sameLetter h hc
  exact same.mem (f.spells_text.mem ha)

/-- The fingerprint of the methods is the SHA-256 digest of their canonical text, in sixty-four digits. -/
structure Written (methods : List Method) : Prop where
  length : (ofMethods methods).text.length = 64
  digits : ∀ c ∈ (ofMethods methods).text.toList, c ∈ "0123456789ABCDEF".toList
  hashed : Sha256.Hashes (canonicalText methods).toUTF8.data.toList
    (Sha256.hashText (canonicalText methods))
  spelled : Digest.Spells (ofMethods methods).text.toList
    (Sha256.hashText (canonicalText methods)).bytes.toList

theorem written (methods : List Method) : Written methods where
  length := length_text _
  digits _ := (spells_text _).mem
  hashed := Sha256.hash_hashes _
  spelled := spells_text _

end Fingerprint

/-! ### The check -/

namespace Interface

variable {name : String} {parent : Interface} {version : UInt32} {methods : List Method}
  {declared : String}

theorem check_ok_of_sameButCase (h : SameButCase (Fingerprint.ofMethods methods).text declared) :
    check (.extension name parent ⟨version, declared⟩ methods) = .ok (.ofMethods methods) := by
  refine check_ok_iff.mpr ⟨rfl, fun c hc => ?_⟩
  obtain rfl := Option.some.inj hc
  exact Fingerprint.accepts_iff.mpr h

theorem check_error_of_not_sameButCase
    (h : ¬ SameButCase (Fingerprint.ofMethods methods).text declared) :
    check (.extension name parent ⟨version, declared⟩ methods) =
      .error ⟨declared, .ofMethods methods⟩ :=
  check_error_iff.mpr ⟨name, parent, ⟨version, declared⟩, methods, rfl, h, rfl⟩

/-- How the check of a declared text comes out for an extension with the methods, under every name, on
every parent and in every version. -/
structure CheckedFor (methods : List Method) (declared : String) : Prop where
  ok_iff : ∀ name parent version f,
    check (.extension name parent ⟨version, declared⟩ methods) = .ok f ↔
      f = .ofMethods methods ∧ SameButCase (Fingerprint.ofMethods methods).text declared
  error : ¬ SameButCase (Fingerprint.ofMethods methods).text declared → ∀ name parent version,
    check (.extension name parent ⟨version, declared⟩ methods) = .error ⟨declared, .ofMethods methods⟩
  other_length : declared.length ≠ 64 → ∀ name parent version,
    check (.extension name parent ⟨version, declared⟩ methods) = .error ⟨declared, .ofMethods methods⟩
  padded : ∀ before after, before ≠ "" ∨ after ≠ "" → ∀ name parent version,
    SameButCase (Fingerprint.ofMethods methods).text declared →
      check (.extension name parent ⟨version, before ++ declared ++ after⟩ methods) =
        .error ⟨before ++ declared ++ after, .ofMethods methods⟩
  other_character : (∃ c ∈ declared.toList, c ∉ "0123456789ABCDEFabcdef".toList) →
    ∀ name parent version,
      check (.extension name parent ⟨version, declared⟩ methods) = .error ⟨declared, .ofMethods methods⟩
  alone : ∀ name parent version name' parent' version',
    check (.extension name parent ⟨version, declared⟩ methods) =
      check (.extension name' parent' ⟨version', declared⟩ methods)

theorem checkedFor (methods : List Method) (declared : String) : CheckedFor methods declared := by
  have refused {declared : String} (h : ¬ SameButCase (Fingerprint.ofMethods methods).text declared)
      (name : String) (parent : Interface) (version : UInt32) :
      check (.extension name parent ⟨version, declared⟩ methods) =
        .error ⟨declared, .ofMethods methods⟩ :=
    check_error_of_not_sameButCase h
  constructor
  case ok_iff =>
    intro name parent version f
    by_cases h : SameButCase (Fingerprint.ofMethods methods).text declared
    · rw [check_ok_of_sameButCase h, Except.ok.injEq, and_iff_left h, eq_comm]
    · simp [refused h, h]
  case error => exact refused
  case other_length =>
    exact fun h => refused fun same => h (Fingerprint.length_of_sameButCase same)
  case padded =>
    intro before after more name parent version same
    refine refused (fun padded => ?_) name parent version
    have inner := Fingerprint.length_of_sameButCase same
    have outer := Fingerprint.length_of_sameButCase padded
    rw [String.length_append, String.length_append] at outer
    rcases more with h | h
    · exact h (String.length_eq_zero_iff.mp (by omega))
    · exact h (String.length_eq_zero_iff.mp (by omega))
  case other_character =>
    rintro ⟨c, hc, foreign⟩
    exact refused fun same => foreign (Fingerprint.mem_of_sameButCase same hc)
  case alone =>
    intro name parent version name' parent' version'
    by_cases h : SameButCase (Fingerprint.ofMethods methods).text declared
    · rw [check_ok_of_sameButCase h, check_ok_of_sameButCase h]
    · rw [refused h, refused h]

/-- A fingerprint is sixty-four digits that spell the digest of the canonical text.  The check takes a
declared text exactly if it has these characters up to case, and it tells what it refuses; a root
contract declares nothing and passes. -/
theorem check_accepts_case_variants :
    (∀ methods, Fingerprint.Written methods) ∧
    (∀ methods declared, CheckedFor methods declared) ∧
    ∀ c : Category, check (.root c) = .ok (Interface.root c).fingerprint :=
  ⟨Fingerprint.written, checkedFor, check_root⟩

end Interface

end PluginBroker
