import PluginBroker.Proofs.Canonical

/-! Which lists of methods the canonical text tells apart.  Where no name holds the character that ends
it in the text, the text can be read back method by method, so it has the whole list in the order of
names. -/

namespace PluginBroker

namespace Method

/-- The parameter's name holds no comma and cannot be taken for the end of the parameters. -/
def PlainParam (p : String) : Prop := ',' ∉ p.toList ∧ p.toList.head? ≠ some ')'

/-- No part of the method holds the character that ends it in the canonical text. -/
structure Plain (m : Method) : Prop where
  returns : ' ' ∉ m.returns.toList
  name : '(' ∉ m.name.toList
  params : ∀ p ∈ m.params, PlainParam p

instance (p : String) : Decidable (PlainParam p) := inferInstanceAs (Decidable (_ ∧ _))

instance (m : Method) : Decidable m.Plain :=
  decidable_of_iff (' ' ∉ m.returns.toList ∧ '(' ∉ m.name.toList ∧ ∀ p ∈ m.params, PlainParam p)
    ⟨fun h => ⟨h.1, h.2.1, h.2.2⟩, fun h => ⟨h.returns, h.name, h.params⟩⟩

end Method

theorem plain_of_mem_rootMethods {c : Category} {m : Method} (h : m ∈ c.rootMethods) : m.Plain := by
  have : ∀ m ∈ c.rootMethods, m.Plain := by cases c <;> decide +kernel
  exact this m h

/-! ### Reading one method back -/

/-- What stands before the first of a character is settled by the text, and so is what follows. -/
theorem append_cons_inj {c : Char} {s t x y : List Char} (hs : c ∉ s) (ht : c ∉ t)
    (h : s ++ c :: x = t ++ c :: y) : s = t ∧ x = y := by
  rcases List.append_eq_append_iff.mp h with ⟨u, rfl, hu⟩ | ⟨u, rfl, hu⟩
  · cases u with
    | nil => simpa using hu
    | cons d u =>
      obtain ⟨rfl, -⟩ := List.cons.inj hu
      simp at ht
  · cases u with
    | nil => simpa using hu.symm
    | cons d u =>
      obtain ⟨rfl, -⟩ := List.cons.inj hu
      simp at hs

namespace Method

theorem paramText_cons (p : String) (ps : List String) (x : List Char) :
    paramText (p :: ps) ++ x = p.toList ++ ',' :: (paramText ps ++ x) := by
  simp [paramText]

/-- A parameter does not begin like the end of the parameters. -/
theorem paramText_cons_ne {p : String} (hp : PlainParam p) (ps : List String) (x y : List Char) :
    paramText (p :: ps) ++ x ≠ ')' :: y := by
  rw [paramText_cons]
  intro h
  obtain ⟨-, start⟩ := hp
  cases ht : p.toList with
  | nil => simp [ht] at h
  | cons d ds =>
    rw [ht] at h start
    obtain ⟨rfl, -⟩ := List.cons.inj h
    exact start rfl

theorem paramText_append_inj {ps qs : List String} {x y : List Char} (hp : ∀ p ∈ ps, PlainParam p)
    (hq : ∀ q ∈ qs, PlainParam q) (h : paramText ps ++ ')' :: x = paramText qs ++ ')' :: y) :
    ps = qs ∧ x = y := by
  induction ps generalizing qs with
  | nil =>
    cases qs with
    | nil => exact ⟨rfl, List.cons.inj h |>.2⟩
    | cons q qs => exact absurd h.symm (paramText_cons_ne (hq q (.head _)) qs _ _)
  | cons p ps ih =>
    obtain ⟨hpp, hps⟩ := List.forall_mem_cons.mp hp
    cases qs with
    | nil => exact absurd h (paramText_cons_ne hpp ps _ _)
    | cons q qs =>
      obtain ⟨hqq, hqs⟩ := List.forall_mem_cons.mp hq
      rw [paramText_cons, paramText_cons] at h
      obtain ⟨first, rest⟩ := append_cons_inj hpp.1 hqq.1 h
      obtain ⟨rfl, hxy⟩ := ih hps hqs rest
      exact ⟨congrArg (· :: ps) (String.toList_inj.mp first), hxy⟩

/-- The text of a method is no proper beginning of another one's, so the method can be read off the
front of any longer text. -/
theorem canonical_append_inj {m n : Method} {x y : List Char} (hm : m.Plain) (hn : n.Plain)
    (h : m.canonical ++ x = n.canonical ++ y) : m = n ∧ x = y := by
  have parts (m : Method) (x : List Char) : m.canonical ++ x = m.returns.toList ++
      ' ' :: (m.name.toList ++ '(' :: (paramText m.params ++ ')' :: (';' :: x))) := by
    simp [canonical_eq]
  rw [parts, parts] at h
  obtain ⟨returns, afterReturns⟩ := append_cons_inj hm.returns hn.returns h
  obtain ⟨name, afterName⟩ := append_cons_inj hm.name hn.name afterReturns
  obtain ⟨params, afterParams⟩ := paramText_append_inj hm.params hn.params afterName
  obtain ⟨-, rest⟩ := List.cons.inj afterParams
  refine ⟨?_, rest⟩
  cases m
  cases n
  exact (Method.mk.injEq ..).mpr ⟨String.toList_inj.mp name, String.toList_inj.mp returns, params⟩

theorem canonical_ne_nil (m : Method) : m.canonical ≠ [] := by simp [canonical]

end Method

/-! ### Reading all of them back -/

theorem flatMap_canonical_inj {as bs : List Method} (ha : ∀ m ∈ as, m.Plain)
    (hb : ∀ m ∈ bs, m.Plain) (h : as.flatMap Method.canonical = bs.flatMap Method.canonical) :
    as = bs := by
  induction as generalizing bs with
  | nil =>
    cases bs with
    | nil => rfl
    | cons b bs => simp [b.canonical_ne_nil] at h
  | cons a as ih =>
    cases bs with
    | nil => simp [a.canonical_ne_nil] at h
    | cons b bs =>
      obtain ⟨haa, has⟩ := List.forall_mem_cons.mp ha
      obtain ⟨hbb, hbs⟩ := List.forall_mem_cons.mp hb
      obtain ⟨rfl, rest⟩ := Method.canonical_append_inj haa hbb h
      rw [ih has hbs rest]

theorem canonicalText_inj {as bs : List Method} (ha : ∀ m ∈ as, m.Plain) (hb : ∀ m ∈ bs, m.Plain) :
    canonicalText as = canonicalText bs ↔ sortedByName as = sortedByName bs := by
  rw [canonicalText_eq_iff]
  constructor
  · exact flatMap_canonical_inj (fun m hm => ha m ((sortedByName_perm as).mem_iff.mp hm))
      fun m hm => hb m ((sortedByName_perm bs).mem_iff.mp hm)
  · intro h
    rw [h]

/-- One edit of a list of methods: a method is put in anywhere, also where it is a second time, taken
out, or replaced by one that has another name, another return type or other parameters. -/
inductive MethodEdit : List Method → List Method → Prop
  | insert (before after : List Method) (m : Method) :
    MethodEdit (before ++ after) (before ++ m :: after)
  | delete (before after : List Method) (m : Method) :
    MethodEdit (before ++ m :: after) (before ++ after)
  | replace (before after : List Method) {m n : Method}
    (differ : m.name ≠ n.name ∨ m.returns ≠ n.returns ∨ m.params ≠ n.params) :
    MethodEdit (before ++ m :: after) (before ++ n :: after)

theorem MethodEdit.not_perm {as bs : List Method} (h : MethodEdit as bs) : ¬ as.Perm bs := by
  intro hp
  cases h with
  | insert before after m => simpa using hp.length_eq
  | delete before after m => simpa using hp.length_eq
  | @replace before after m n differ =>
    have other : m ≠ n := by
      rintro rfl
      simp at differ
    -- the new list has one `m` fewer
    have count := hp.count_eq m
    simp [List.count_append, other.symm] at count

/-- Two lists of plain methods have one canonical text exactly if they are the same in the order of
names, so every edit shows in the text.  The root contracts have plain methods. -/
theorem canonicalText_unambiguous {as bs : List Method} (ha : ∀ m ∈ as, m.Plain)
    (hb : ∀ m ∈ bs, m.Plain) :
    (canonicalText as = canonicalText bs ↔ sortedByName as = sortedByName bs) ∧
    (MethodEdit as bs → canonicalText as ≠ canonicalText bs) ∧
    ∀ c : Category, ∀ m ∈ c.rootMethods, m.Plain := by
  refine ⟨canonicalText_inj ha hb, ?_, fun c m => plain_of_mem_rootMethods⟩
  intro edit text
  have sorted := (canonicalText_inj ha hb).mp text
  have same : as.Perm bs :=
    (sortedByName_perm as).symm.trans ((List.Perm.of_eq sorted).trans (sortedByName_perm bs))
  exact edit.not_perm same

/-- Names may be empty, and hold what ends other parts; still it shows that a parameter without a name
is dropped. -/
theorem nameless_param_unambiguous :
    let blank (params : List String) : Method := ⟨"", "", params⟩
    let others : List Method := [⟨"a b);", "x(y,", []⟩, ⟨"", "f(", ["fn(u8) ;", "(", ""]⟩]
    let old := blank ["", "g() ;", ""] :: others
    let new := blank ["", "g() ;"] :: others
    (∀ m ∈ old, m.Plain) ∧ (∀ m ∈ new, m.Plain) ∧ MethodEdit old new ∧
      canonicalText old ≠ canonicalText new := by
  intro blank others old new
  have plainOld : ∀ m ∈ old, m.Plain := by decide +kernel
  have plainNew : ∀ m ∈ new, m.Plain := by decide +kernel
  have edit : MethodEdit old new := .replace [] others (.inr (.inr (by decide)))
  exact ⟨plainOld, plainNew, edit, (canonicalText_unambiguous plainOld plainNew).2.1 edit⟩

end PluginBroker
