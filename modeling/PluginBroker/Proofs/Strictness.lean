import Mathlib.Data.List.Forall2
import PluginBroker.Proofs.Bootstrap
import PluginBroker.Proofs.Policy

/-! A strict host and a lax one.  Where every graph of the one lies within the graph that the other
binds at the same point, and the one gates compiler lookups if the other does, the strict broker gives
the same answers as the lax one, except that it permits less and finds nothing where the lax one
hands out a context.  The policy decides on what was picked; it has no say in what is picked. -/

namespace PluginBroker

/-- All that the one graph connects the other one connects too. -/
def Graph.Within (g h : Graph) : Prop := ∀ a b, g a b = true → h a b = true

/-- The second operation is the first one, except that a bind may bring a graph that connects more. -/
inductive Op.Loosens : Op → Op → Prop
  | bind (token : String) {g h : Graph} (within : g.Within h) :
    Loosens (.bind token g) (.bind token h)
  | same (op : Op) : Loosens op op

/-! ### Trust with a wider graph -/

namespace Trust

/-- Trust that differs in the graph alone, and the first graph lies within the second. -/
inductive Within : Trust → Trust → Prop
  | unbootstrapped : Within .unbootstrapped .unbootstrapped
  | unbound (d : Digest) : Within (.unbound d) (.unbound d)
  | bound (d : Digest) {g h : Graph} (within : g.Within h) : Within (.bound d g) (.bound d h)

variable {t u : Trust}

theorem Within.token? (h : t.Within u) : u.token? = t.token? := by cases h <;> rfl

theorem Within.phase (h : t.Within u) : u.phase = t.phase := by cases h <;> rfl

theorem Within.connects (h : t.Within u) {requester owner : PluginId}
    (hc : t.connects requester owner = true) : u.connects requester owner = true := by
  cases h with
  | unbootstrapped => exact hc
  | unbound d => exact hc
  | bound d within => exact within requester owner hc

theorem Within.setToken?_isSome (h : t.Within u) (token : String) :
    (u.setToken? token).isSome = (t.setToken? token).isSome := by
  rw [setToken?_eq, setToken?_eq, h.token?]

theorem Within.after (h : t.Within u) {op op' : Op} (hop : op.Loosens op') :
    (t.after op).Within (u.after op') := by
  have bound (token : String) {g g' : Graph} (within : g.Within g') :
      (t.after (.bind token g)).Within (u.after (.bind token g')) := by
    rw [Trust.after, Trust.after, bind?_eq, bind?_eq, h.token?]
    split
    · exact .bound _ within
    · exact h
  cases hop with
  | bind token within => exact bound token within
  | same =>
    cases op with
    | setToken token =>
      rw [Trust.after, Trust.after, setToken?_eq, setToken?_eq, h.token?]
      split
      · exact .unbound _
      · exact h
    | bind token graph => exact bound token fun _ _ hab => hab
    | _ => exact h

end Trust

/-! ### Permission and lookup -/

namespace Broker

variable {b d : Broker} {profiles : Profiles} {c : Category} {requester : PluginId} {i : Interface}
  {choice : Choice} {trust : Trust} {gated : Bool}

theorem permits_of_within (h : b.trust.Within trust) {v : Context}
    (hp : b.permits requester v = true) :
    (b.withPolicy trust gated).permits requester v = true := by
  rw [permits_iff] at hp ⊢
  obtain ⟨hphase, p, hp, hconnects⟩ := hp
  exact ⟨h.phase.trans hphase, p, hp, h.connects hconnects⟩

/-- A lookup depends on the catalog, on whether the category is gated, and on the permissions of the
requester. -/
theorem find_congr (hcatalog : d.catalog = b.catalog) (hgated : d.gated c = b.gated c)
    (hpermits : ∀ v, d.permits requester v = b.permits requester v) :
    d.find profiles c requester i choice = b.find profiles c requester i choice := by
  unfold find
  simp only [hcatalog, hgated, hpermits]

/-- A broker that permits more finds the same, or it finds a context that the other one denies. -/
theorem find_of_permits_more (hcatalog : d.catalog = b.catalog)
    (hgated : d.gated c = true → b.gated c = true)
    (hpermits : ∀ v, b.permits requester v = true → d.permits requester v = true) :
    d.find profiles c requester i choice = b.find profiles c requester i choice ∨
    b.find profiles c requester i choice = .ok .denied ∧
      ∃ v, d.find profiles c requester i choice = .ok (.found v) := by
  by_cases hc : i.category = c
  · rw [find, find, if_pos hc, if_pos hc, hcatalog]
    cases b.catalog.pick profiles c i.name choice with
    | error e => exact .inl rfl
    | ok picked? =>
      cases picked? with
      | none => exact .inl rfl
      | some v =>
        -- one and the same context was picked; only the verdicts on it can differ
        cases hb : b.gated c && !b.permits requester v with
        | true =>
          cases hd : d.gated c && !d.permits requester v with
          | true => exact .inl (by simp [hb, hd])
          | false => exact .inr ⟨by simp [hb], v, by simp [hd]⟩
        | false =>
          have allowed : (d.gated c && !d.permits requester v) = false := by
            rw [Bool.and_eq_false_iff, Bool.not_eq_false'] at hb ⊢
            rcases hb with hopen | hpermitted
            · refine .inl (Bool.eq_false_iff.mpr fun hg => ?_)
              rw [hgated hg] at hopen
              cases hopen
            · exact .inr (hpermits v hpermitted)
          exact .inl (by simp [hb, allowed])
  · exact .inl (by rw [find_of_ne hc, find_of_ne hc])

/-- What a laxer policy answers to a lookup is the same, or a context in place of nothing. -/
theorem lookupIn_of_within (h : b.trust.Within trust) (hg : gated = true → b.compilerGated = true) :
    (b.lookupIn profiles c requester i choice).answer =
      ((b.withPolicy trust gated).lookupIn profiles c requester i choice).answer ∨
    (b.lookupIn profiles c requester i choice).answer = .ok none ∧
      ∃ v, ((b.withPolicy trust gated).lookupIn profiles c requester i choice).answer =
        .ok (some v) := by
  have gate : (b.withPolicy trust gated).gated c = true → b.gated c = true := by
    simp only [Broker.gated, withPolicy, Bool.or_eq_true]
    exact Or.imp_right hg
  simp only [lookupIn_answer]
  rcases find_of_permits_more (b := b) (d := b.withPolicy trust gated) rfl gate
    (fun v hp => permits_of_within h hp) with hsame | ⟨hdenied, v, hfound⟩
  · exact .inl (by rw [hsame])
  · exact .inr ⟨by rw [hdenied]; rfl, v, by rw [hfound]; rfl⟩

end Broker

/-! ### Steps -/

/-- How the answer of a strict broker to an operation compares with that of a lax one: it permits
less, and it finds nothing where the lax one may hand out a context; all other answers are the
same, but for the description. -/
def Op.Weakens : Op → Answer → Answer → Prop
  | .permits .., a, a' => a = .flag true → a' = .flag true
  | .lookupIn .., a, a' | .lookup .., a, a' =>
    (a = a' ∨ a = .looked (.ok none) ∧ ∃ v, a' = .looked (.ok (some v))) ∧
      ∀ e, a = .looked (.error e) ↔ a' = .looked (.error e)
  | .describe, _, _ => True
  | _, a, a' => a = a'

namespace Session

variable {s : Session} {op op' : Op} {trust : Trust} {gated : Bool}

theorem looked_weakens {α α' : Except OutOfRange (Option Context)}
    (h : α = α' ∨ α = .ok none ∧ ∃ v, α' = .ok (some v)) :
    (Answer.looked α = .looked α' ∨
      Answer.looked α = .looked (.ok none) ∧ ∃ v, Answer.looked α' = .looked (.ok (some v))) ∧
    ∀ e, Answer.looked α = .looked (.error e) ↔ Answer.looked α' = .looked (.error e) := by
  rcases h with rfl | ⟨rfl, v, rfl⟩
  · exact ⟨.inl rfl, fun e => Iff.rfl⟩
  · exact ⟨.inr ⟨rfl, v, rfl⟩, fun e => by simp⟩

/-- An operation that asks about trust or policy, but brings no token, changes nothing. -/
theorem session_step_of_consults (hc : op.consults = true) (hop : op.tokens = []) :
    (s.step op).session = s := by
  cases op with
  | setToken | bind => cases hop
  | phase | permits | describe => rfl
  | lookupIn | lookup => simp only [step, replied, Broker.lookup, Broker.lookupIn_broker]
  | _ => cases hc

/-- Sessions that differ in trust and policy alone still do after a step, whatever they answer. -/
theorem session_step_withPolicy (hop : op.Loosens op') :
    ((s.withPolicy trust gated).step op').session =
      (s.step op).session.withPolicy (trust.after op') gated := by
  have asked (hc : op.consults = true) (hop : op.tokens = []) (ht : trust.after op = trust) :
      ((s.withPolicy trust gated).step op).session =
        (s.step op).session.withPolicy (trust.after op) gated := by
    rw [session_step_of_consults hc hop, session_step_of_consults hc hop, ht]
  cases hop with
  | bind token within =>
    simp only [step, replied, Broker.bind_broker]
    rfl
  | same =>
    cases op with
    | setToken token =>
      simp only [step, replied, Broker.setToken_broker]
      rfl
    | bind token graph =>
      simp only [step, replied, Broker.bind_broker]
      rfl
    | phase | permits | lookupIn | lookup | describe => exact asked rfl rfl rfl
    | _ =>
      rw [step_withPolicy rfl]
      rfl

theorem answer_setToken (s : Session) (token : String) :
    (s.step (.setToken token)).answer = .flag (s.broker.trust.setToken? token).isSome := by
  simp only [step, replied, Broker.setToken]
  cases s.broker.trust.setToken? token <;> rfl

theorem answer_loosened (hop : op.Loosens op') (h : s.broker.trust.Within trust)
    (hg : gated = true → s.broker.compilerGated = true) :
    op.Weakens (s.step op).answer ((s.withPolicy trust gated).step op').answer := by
  cases hop with
  | bind token within => exact rfl
  | same =>
    cases op with
    | setToken token =>
      refine (answer_setToken s token).trans ?_
      rw [answer_setToken, ← h.setToken?_isSome]
      rfl
    | bind token graph => exact rfl
    | phase => exact congrArg Answer.phase h.phase.symm
    | permits r v =>
      intro ha
      exact congrArg Answer.flag (Broker.permits_of_within h (Answer.flag.inj ha))
    | lookupIn c r i choice => exact looked_weakens (Broker.lookupIn_of_within h hg)
    | lookup r i choice => exact looked_weakens (Broker.lookupIn_of_within h hg)
    | describe => exact trivial
    | _ =>
      rw [step_withPolicy rfl]
      exact rfl

end Session

/-! ### The gate alone -/

/-- How the answers of two brokers compare that differ in the gate alone: only lookups of compiler
contexts can differ, and the descriptions, in what they show of the gate. -/
def Op.SameButGate (gated gated' : Bool) : Op → Answer → Answer → Prop
  | .lookupIn c .., a, a' => c ≠ .compiler → a = a'
  | .lookup _ i _, a, a' => i.category ≠ .compiler → a = a'
  | .describe, a, a' => ∃ b : Broker, a = .text { b with compilerGated := gated }.describe ∧
      a' = .text { b with compilerGated := gated' }.describe
  | _, a, a' => a = a'

namespace Session

variable {s : Session} {op : Op} {trust : Trust} {gated : Bool}

/-- The same session with compiler lookups gated or not. -/
def regate (s : Session) (gated : Bool) : Session := s.withPolicy s.broker.trust gated

theorem session_step_regate (s : Session) (op : Op) (gated : Bool) :
    ((s.regate gated).step op).session = (s.step op).session.regate gated := by
  rw [regate, session_step_withPolicy (.same op), regate, step_trust]

theorem lookupIn_regate {profiles : Profiles} {c : Category} {requester : PluginId} {i : Interface}
    {choice : Choice} (hc : c ≠ .compiler) :
    ((s.regate gated).broker.lookupIn profiles c requester i choice).answer =
      (s.broker.lookupIn profiles c requester i choice).answer := by
  rw [Broker.lookupIn_answer, Broker.lookupIn_answer]
  refine congrArg (Except.map _) (Broker.find_congr rfl ?_ fun v => rfl)
  cases c with
  | compiler => exact absurd rfl hc
  | cpu | memory | device => rfl

theorem answer_regate (s : Session) (op : Op) (gated : Bool) :
    op.SameButGate s.broker.compilerGated gated (s.step op).answer
      ((s.regate gated).step op).answer := by
  cases op with
  | setToken token =>
    refine (answer_setToken s token).trans ?_
    rw [answer_setToken]
    rfl
  | bind | phase | permits => exact rfl
  | lookupIn c r i choice => exact fun hc => congrArg Answer.looked (lookupIn_regate hc).symm
  | lookup r i choice => exact fun hc => congrArg Answer.looked (lookupIn_regate hc).symm
  | describe => exact ⟨s.broker, rfl, rfl⟩
  | _ =>
    rw [regate, step_withPolicy rfl]
    exact rfl

/-! ### Runs -/

theorem transcript_loosened {ops ops' : List Op} (hops : List.Forall₂ Op.Loosens ops ops')
    (h : s.broker.trust.Within trust) (hg : gated = true → s.broker.compilerGated = true) :
    List.Forall₂ (fun x y => x.1.Weakens x.2 y.2) (s.transcript ops)
      ((s.withPolicy trust gated).transcript ops') := by
  induction hops generalizing s trust with
  | nil => exact .nil
  | cons hop _ ih =>
    rw [transcript_cons, transcript_cons, session_step_withPolicy hop]
    refine .cons (answer_loosened hop h hg) (ih ?_ ?_)
    · rw [step_trust]
      exact h.after hop
    · rwa [step_compilerGated]

theorem transcript_regate (s : Session) (ops : List Op) (gated : Bool) :
    List.Forall₂ (fun x y => x.1.SameButGate s.broker.compilerGated gated x.2 y.2)
      (s.transcript ops) ((s.regate gated).transcript ops) := by
  induction ops generalizing s with
  | nil => exact .nil
  | cons op ops ih =>
    rw [transcript_cons, transcript_cons, session_step_regate]
    refine .cons (s.answer_regate op gated) ?_
    rw [← s.step_compilerGated op]
    exact ih _

/-- A run under a strict policy and the same run under a lax one: every answer of the strict broker is
that of the lax one, except that it permits less and finds nothing where the lax one may hand out
a context.  If the graphs are the same, only lookups of compiler contexts can differ, and the
descriptions, in what they show of the gate. -/
theorem run_loosened (strict lax : Bool) (hg : lax = true → strict = true) (ops ops' : List Op)
    (hops : List.Forall₂ Op.Loosens ops ops') :
    List.Forall₂ (fun x y => x.1.Weakens x.2 y.2) ((fresh strict).transcript ops)
      ((fresh lax).transcript ops') ∧
    (ops = ops' → List.Forall₂ (fun x y => x.1.SameButGate strict lax x.2 y.2)
      ((fresh strict).transcript ops) ((fresh lax).transcript ops')) := by
  have start : fresh lax = (fresh strict).withPolicy .unbootstrapped lax := rfl
  constructor
  · rw [start]
    exact transcript_loosened hops .unbootstrapped hg
  · rintro rfl
    exact transcript_regate (fresh strict) ops lax

/-- The description of a broker that gates compiler lookups is not that of one that does not. -/
theorem describe_shows_gate : ¬ ∀ (strict lax : Bool), (lax = true → strict = true) →
    ∀ ops : List Op, List.Forall₂ (fun x y =>
      (∀ r i choice, x.1 ≠ .lookupIn .compiler r i choice) →
      (∀ r i choice, i.category = .compiler → x.1 ≠ .lookup r i choice) → x.2 = y.2)
        ((fresh strict).transcript ops) ((fresh lax).transcript ops) := by
  intro h
  have same := h true false (by decide) [.describe]
  rw [transcript_cons, transcript_cons, List.forall₂_cons] at same
  have texts := same.1 (by simp) (by simp)
  have differ : (fresh true).broker.describe ≠ (fresh false).broker.describe := by decide +kernel
  exact differ (Answer.text.inj texts)

/-- The strict host links plugin 2 to nobody and gates compiler lookups; the lax one links everybody
and gates nothing. -/
theorem links_loosened :
    let report (n : Nat) (c : Category) : Op := .report ⟨n⟩ { interfaces := [.root c] }
    let run (graph : Graph) : List Op := [report 0 .memory, report 1 .compiler,
      .register ⟨1⟩ ⟨0⟩ (.root .memory), .register ⟨1⟩ ⟨1⟩ (.root .compiler), .setToken "t",
      .bind "t" graph, .permits ⟨2⟩ ⟨0⟩, .lookup ⟨2⟩ (.root .memory) .first,
      .lookup ⟨2⟩ (.root .memory) (.nth 1), .lookup ⟨2⟩ (.root .compiler) .first, .describe]
    let strict := run fun requester _ => requester = ⟨1⟩
    let lax := run fun _ _ => true
    (false = true → true = true) ∧ List.Forall₂ Op.Loosens strict lax ∧
    List.Forall₂ (fun x y => x.1.Weakens x.2 y.2) ((fresh true).transcript strict)
      ((fresh false).transcript lax) ∧
    List.Forall₂ (fun x y => x.1.SameButGate true false x.2 y.2) ((fresh true).transcript strict)
      ((fresh false).transcript strict) := by
  intro report run strict lax
  have within : Graph.Within (fun requester _ => requester = ⟨1⟩) fun _ _ => true := fun _ _ _ => rfl
  have loosens : List.Forall₂ Op.Loosens strict lax :=
    .cons (.same _) <| .cons (.same _) <| .cons (.same _) <| .cons (.same _) <| .cons (.same _) <|
      .cons (.bind "t" within) <| List.forall₂_same.mpr fun op _ => .same op
  exact ⟨by decide, loosens, (run_loosened true false (by decide) strict lax loosens).1,
    (run_loosened true false (by decide) strict strict (List.forall₂_same.mpr fun op _ => .same op)).2
      rfl⟩

end Session

end PluginBroker
