import PluginBroker.Interface
import PluginBroker.Digest.Sha256

/-! The fingerprint of a set of methods is the SHA-256 digest of its canonical text: the methods in
order of their names, each written as its return type, its name and its parameters.  An interface
has drifted when the fingerprint that it declares is not the one that its methods have. -/

namespace PluginBroker

/-- The method written as its return type, its name, and each parameter with a comma after it. -/
def Method.canonical (m : Method) : List Char :=
  m.returns.toList ++ ' ' :: m.name.toList ++ '(' ::
    m.params.flatMap (fun p => p.toList ++ [',']) ++ [')', ';']

/-- The methods by name, in code point order; methods of one name keep their order. -/
def sortedByName (methods : List Method) : List Method :=
  methods.mergeSort fun a b => decide (a.name ≤ b.name)

theorem sortedByName_perm (methods : List Method) : (sortedByName methods).Perm methods :=
  List.mergeSort_perm _ _

/-- The text whose digest is the fingerprint. -/
def canonicalText (methods : List Method) : String :=
  String.ofList ((sortedByName methods).flatMap Method.canonical)

structure Fingerprint where
  digest : Digest
deriving DecidableEq

namespace Fingerprint

def ofMethods (methods : List Method) : Fingerprint := ⟨Sha256.hashText (canonicalText methods)⟩

/-- Sixty-four hexadecimal digits in upper case. -/
def text (f : Fingerprint) : String := f.digest.hex

/-- Whether a declared text is the fingerprint's, the case of ASCII letters aside. -/
def accepts (f : Fingerprint) (declared : String) : Bool :=
  f.text.toList.map Char.toLower == declared.toList.map Char.toLower

@[simp] theorem accepts_text (f : Fingerprint) : f.accepts f.text = true := by
  rw [accepts, beq_iff_eq]

end Fingerprint

/-- A declared fingerprint, and the one that the methods have instead. -/
structure Drift where
  declared : String
  actual : Fingerprint
deriving DecidableEq

namespace Interface

def fingerprint (i : Interface) : Fingerprint := Fingerprint.ofMethods i.methods

/-- The text that the fingerprint is checked against.  A root contract declares none, and is checked
against the fingerprint itself. -/
def declared (i : Interface) : String :=
  match i.contract? with
  | some c => c.fingerprint
  | none => i.fingerprint.text

/-- The interface's fingerprint is the declared one. -/
def Agrees (i : Interface) : Prop := i.fingerprint.accepts i.declared = true

theorem agrees_root (c : Category) : (root c).Agrees :=
  Fingerprint.accepts_text (root c).fingerprint

theorem agrees_extension {name : String} {parent : Interface} {c : Contract}
    {methods : List Method} : (extension name parent c methods).Agrees ↔
      (Fingerprint.ofMethods methods).accepts c.fingerprint = true := by
  rw [Agrees]
  exact .rfl

/-- Of a root contract it is known without a digest. -/
instance (i : Interface) : Decidable i.Agrees :=
  match i with
  | root c => isTrue (agrees_root c)
  | extension _ _ _ _ => decidable_of_iff _ agrees_extension.symm

/-- The interface's fingerprint, if it is the declared one. -/
def check (i : Interface) : Except Drift Fingerprint :=
  if i.Agrees then .ok i.fingerprint else .error ⟨i.declared, i.fingerprint⟩

theorem agrees_iff {i : Interface} : i.Agrees ↔
    ∀ c, i.contract? = some c → i.fingerprint.accepts c.fingerprint = true := by
  rw [Agrees, declared]
  cases i.contract? <;> simp

theorem check_ok_iff {i : Interface} {f : Fingerprint} : i.check = .ok f ↔
    f = i.fingerprint ∧ ∀ c, i.contract? = some c → i.fingerprint.accepts c.fingerprint = true := by
  rw [← agrees_iff, check]
  split
  · next h => simp [h, eq_comm (a := f)]
  · next h => simp [h]

/-- A root contract agrees with itself. -/
theorem check_root (c : Category) : (root c).check = .ok (root c).fingerprint :=
  if_pos (agrees_root c)

end Interface

end PluginBroker
