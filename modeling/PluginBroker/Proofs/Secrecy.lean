import PluginBroker.Proofs.Bootstrap
import PluginBroker.Proofs.Policy

/-! What a broker gives away of the trust token.  Two runs whose tokens are renamed into each other
show the same at every step: the answer, the event, the phase and the description.  All that can be
learnt of a token is when it is presented again and when it is empty. -/

namespace PluginBroker

/-- The operation with another token in place of the one that it brings. -/
def Op.rename (f : String → String) : Op → Op
  | .setToken token => .setToken (f token)
  | .bind token graph => .bind (f token) graph
  | op => op

theorem Op.tokens_rename (f : String → String) (op : Op) : (op.rename f).tokens = op.tokens.map f := by
  cases op <;> rfl

theorem Op.rename_of_tokens {f : String → String} {op : Op} (h : op.tokens = []) :
    op.rename f = op := by
  cases op with
  | setToken | bind => cases h
  | _ => rfl

/-- A renaming tells the tokens apart, keeps the empty one, and meets no collision of digests among
the tokens and their new names. -/
structure Renames (f : String → String) (tokens : List String) : Prop where
  empty : f "" = ""
  injective : ∀ a ∈ "" :: tokens, ∀ b ∈ "" :: tokens, f a = f b → a = b
  collisionFree : Sha256.CollisionFree (tokens ++ tokens.map f)

section Renames

variable {f : String → String} {tokens : List String} {a b : String}

theorem Renames.eq_empty_iff (h : Renames f tokens) (ha : a ∈ tokens) : f a = "" ↔ a = "" := by
  constructor
  · intro he
    exact h.injective a (.tail _ ha) "" (.head _) (he.trans h.empty.symm)
  · rintro rfl
    exact h.empty

theorem Renames.hashText_iff (h : Renames f tokens) (ha : a ∈ tokens) (hb : b ∈ tokens) :
    Sha256.hashText (f a) = Sha256.hashText (f b) ↔ Sha256.hashText a = Sha256.hashText b := by
  constructor
  · intro hd
    have named := h.collisionFree (f a) (List.mem_append_right _ (List.mem_map_of_mem ha)) (f b)
      (List.mem_append_right _ (List.mem_map_of_mem hb)) hd
    rw [h.injective a (.tail _ ha) b (.tail _ hb) named]
  · intro hd
    rw [h.collisionFree a (List.mem_append_left _ ha) b (List.mem_append_left _ hb) hd]

end Renames

/-- Trust that differs in the token alone: no token in both, or a known token in the one and its new
name in the other. -/
structure Trust.Alike (f : String → String) (known : List String) (t u : Trust) : Prop where
  phase : u.phase = t.phase
  graph? : u.graph? = t.graph?
  token? : (t.token? = none ∧ u.token? = none) ∨ ∃ token ∈ known,
    t.token? = some (Sha256.hashText token) ∧ u.token? = some (Sha256.hashText (f token))

section Alike

variable {f : String → String} {known : List String} {t u : Trust}

theorem Trust.Alike.token?_eq_none_iff (h : t.Alike f known u) :
    u.token? = none ↔ t.token? = none := by
  rcases h.token? with ⟨ht, hu⟩ | ⟨token, -, ht, hu⟩
  · simp [ht, hu]
  · simp [ht, hu]

theorem Trust.Alike.token?_eq_some_iff (h : t.Alike f known u) (hf : Renames f known)
    {presented : String} (hp : presented ∈ known) :
    u.token? = some (Sha256.hashText (f presented)) ↔
      t.token? = some (Sha256.hashText presented) := by
  rcases h.token? with ⟨ht, hu⟩ | ⟨token, hk, ht, hu⟩
  · simp [ht, hu]
  · rw [ht, hu, Option.some.injEq, Option.some.injEq, hf.hashText_iff hk hp]

theorem Trust.alike_unbound {token : String} (hk : token ∈ known) :
    (unbound (Sha256.hashText token)).Alike f known (unbound (Sha256.hashText (f token))) where
  phase := by rw [phase_unbound, phase_unbound]
  graph? := by rw [graph?_unbound, graph?_unbound]
  token? := .inr ⟨token, hk, token?_unbound _, token?_unbound _⟩

theorem Trust.alike_bound {token : String} (hk : token ∈ known) (graph : Graph) :
    (bound (Sha256.hashText token) graph).Alike f known
      (bound (Sha256.hashText (f token)) graph) where
  phase := by rw [phase_bound, phase_bound]
  graph? := by rw [graph?_bound, graph?_bound]
  token? := .inr ⟨token, hk, token?_bound _ _, token?_bound _ _⟩

end Alike

/-- What a step shows to whoever is looking: the answer, the event, and the phase and the description
of the broker after it. -/
structure Shown where
  answer : Answer
  event? : Option Event
  phase : Phase
  description : String

def Step.shown (t : Step) : Shown :=
  ⟨t.answer, t.event?, t.session.broker.phase, t.session.broker.describe⟩

theorem Step.shown_withPolicy {t : Step} {trust : Trust}
    (h : trust.phase = t.session.broker.trust.phase) :
    (t.withPolicy trust t.session.broker.compilerGated).shown = t.shown := by
  have description := Broker.describe_congr t.session.broker
    (t.session.broker.withPolicy trust t.session.broker.compilerGated) (fun _ => rfl) h rfl
  simp only [shown, withPolicy, Session.withPolicy, description]
  simp only [Broker.phase, Broker.withPolicy, h]

namespace Session

variable {s : Session} {op : Op} {trust : Trust} {f : String → String} {known : List String}

/-- An operation that brings no token asks for no more of trust than the phase and the graph. -/
theorem step_withPolicy_of_tokens (h : op.tokens = [])
    (hphase : trust.phase = s.broker.trust.phase) (hgraph : trust.graph? = s.broker.trust.graph?) :
    (s.withPolicy trust s.broker.compilerGated).step op =
      (s.step op).withPolicy trust s.broker.compilerGated := by
  cases op with
  | setToken | bind => cases h
  | phase =>
    have phases : (s.broker.withPolicy trust s.broker.compilerGated).phase = s.broker.phase := hphase
    simp only [step, told, Step.withPolicy, withPolicy, phases]
  | permits r v =>
    simp only [step, told, Step.withPolicy, withPolicy, Broker.permits_withPolicy hphase hgraph]
  | lookupIn c r i choice =>
    simp only [step, replied, Step.withPolicy, withPolicy,
      Broker.lookupIn_withPolicy hphase hgraph, Reply.withPolicy]
  | lookup r i choice =>
    simp only [step, replied, Step.withPolicy, withPolicy, Broker.lookup,
      Broker.lookupIn_withPolicy hphase hgraph, Reply.withPolicy]
  | describe =>
    have description := Broker.describe_congr s.broker
      (s.broker.withPolicy trust s.broker.compilerGated) (fun _ => rfl) hphase rfl
    simp only [step, told, Step.withPolicy, withPolicy, description]
  | register | unregister | unregisterUnder | report | ownerOf | contextsOf | isRegistered | size
  | isEmpty => exact step_withPolicy rfl

theorem step_trust_of_tokens (s : Session) (h : op.tokens = []) :
    (s.step op).session.broker.trust = s.broker.trust := by
  rw [step_trust]
  cases op with
  | setToken | bind => cases h
  | _ => rfl

/-- Sessions that differ in the token alone still do so after a step with the token renamed, and the
step shows the same. -/
theorem step_rename (hf : Renames f known) (hop : ∀ token ∈ op.tokens, token ∈ known)
    (h : s.broker.trust.Alike f known trust) :
    ∃ trust', (s.withPolicy trust s.broker.compilerGated).step (op.rename f) =
        (s.step op).withPolicy trust' s.broker.compilerGated ∧
      (s.step op).session.broker.trust.Alike f known trust' := by
  cases op with
  | setToken token =>
    have hk : token ∈ known := hop token (by simp [Op.tokens])
    -- the attempts succeed together: the renaming keeps the empty token
    have same : trust.token? = none ∧ f token ≠ "" ↔
        s.broker.trust.token? = none ∧ token ≠ "" := by
      rw [h.token?_eq_none_iff, Ne, hf.eq_empty_iff hk]
    rw [Op.rename, step_setToken, step_setToken]
    by_cases ht : s.broker.trust.token? = none ∧ token ≠ ""
    · rw [if_pos ht]
      refine ⟨.unbound (Sha256.hashText (f token)), ?_, Trust.alike_unbound hk⟩
      exact if_pos (same.mpr ht)
    · rw [if_neg ht]
      refine ⟨trust, ?_, h⟩
      exact if_neg fun hu => ht (same.mp hu)
  | bind presented graph =>
    have hk : presented ∈ known := hop presented (by simp [Op.tokens])
    -- the tokens match together: the renaming makes no two of them one and meets no collision
    have same := h.token?_eq_some_iff hf hk
    rw [Op.rename, step_bind, step_bind]
    by_cases ht : s.broker.trust.token? = some (Sha256.hashText presented)
    · rw [if_pos ht]
      refine ⟨.bound (Sha256.hashText (f presented)) graph, ?_, Trust.alike_bound hk graph⟩
      exact if_pos (same.mpr ht)
    · rw [if_neg ht]
      refine ⟨trust, ?_, h⟩
      exact if_neg fun hu => ht (same.mp hu)
  | _ =>
    refine ⟨trust, ?_, ?_⟩
    · rw [Op.rename_of_tokens rfl]
      exact step_withPolicy_of_tokens rfl h.phase h.graph?
    · rw [step_trust_of_tokens s rfl]
      exact h

theorem trace_alike (hf : Renames f known) {ops : List Op}
    (hops : ∀ token ∈ ops.flatMap Op.tokens, token ∈ known)
    (h : s.broker.trust.Alike f known trust) :
    ((s.withPolicy trust s.broker.compilerGated).trace (ops.map (Op.rename f))).map Step.shown =
      (s.trace ops).map Step.shown := by
  induction ops generalizing s trust with
  | nil => rfl
  | cons op ops ih =>
    rw [List.flatMap_cons, List.forall_mem_append] at hops
    obtain ⟨trust', hstep, hafter⟩ := step_rename hf hops.1 h
    rw [List.map_cons, trace, List.map_cons, hstep, ← step_compilerGated s op,
      Step.shown_withPolicy hafter.phase]
    exact congrArg _ (ih hops.2 hafter)

theorem tokens_rename (f : String → String) (ops : List Op) :
    (ops.map (Op.rename f)).flatMap Op.tokens = (ops.flatMap Op.tokens).map f := by
  simp only [List.flatMap_map, Op.tokens_rename, List.map_flatMap]

/-- A run with all tokens renamed shows the same at every step as the run itself, if the renaming
tells the tokens of the run apart, keeps the empty one, and no two tokens of the two runs share a
digest. -/
theorem trace_rename (gated : Bool) (ops : List Op) (f : String → String) (hempty : f "" = "")
    (hinjective : ∀ a ∈ "" :: ops.flatMap Op.tokens, ∀ b ∈ "" :: ops.flatMap Op.tokens,
      f a = f b → a = b)
    (hfree : Sha256.CollisionFree
      (ops.flatMap Op.tokens ++ (ops.map (Op.rename f)).flatMap Op.tokens)) :
    ((fresh gated).trace (ops.map (Op.rename f))).map Step.shown =
      ((fresh gated).trace ops).map Step.shown := by
  rw [tokens_rename] at hfree
  have start : (fresh gated).broker.trust.Alike f (ops.flatMap Op.tokens) .unbootstrapped :=
    ⟨rfl, rfl, .inl ⟨rfl, rfl⟩⟩
  exact trace_alike ⟨hempty, hinjective, hfree⟩ (fun _ h => h) start

/-- The host's token and a wrong guess at it change places, and nobody can tell. -/
theorem trace_swapped :
    let ops : List Op := [.report ⟨0⟩ { interfaces := [.root .memory] },
      .register ⟨1⟩ ⟨0⟩ (.root .memory), .setToken "host", .setToken "guess",
      .bind "guess" fun _ _ => true, .phase, .bind "host" fun _ owner => owner = ⟨1⟩,
      .lookup ⟨2⟩ (.root .memory) .first, .describe]
    let swap (token : String) : String :=
      if token = "host" then "guess" else if token = "guess" then "host" else token
    swap "" = "" ∧
    (∀ a ∈ "" :: ops.flatMap Op.tokens, ∀ b ∈ "" :: ops.flatMap Op.tokens, swap a = swap b → a = b) ∧
    Sha256.CollisionFree (ops.flatMap Op.tokens ++ (ops.map (Op.rename swap)).flatMap Op.tokens) ∧
    ((fresh false).trace (ops.map (Op.rename swap))).map Step.shown =
      ((fresh false).trace ops).map Step.shown := by
  intro ops swap
  have tokens : ops.flatMap Op.tokens = ["host", "guess", "guess", "host"] := rfl
  have renamed : (ops.map (Op.rename swap)).flatMap Op.tokens = ["guess", "host", "host", "guess"] := by
    rw [tokens_rename, tokens]
    decide
  have distinct : Sha256.hashText "host" ≠ Sha256.hashText "guess" := by decide +kernel
  have apart : ∀ a ∈ "" :: ops.flatMap Op.tokens, ∀ b ∈ "" :: ops.flatMap Op.tokens,
      swap a = swap b → a = b := by
    rw [tokens]
    decide
  have two : ∀ a ∈ ops.flatMap Op.tokens ++ (ops.map (Op.rename swap)).flatMap Op.tokens,
      a = "host" ∨ a = "guess" := by
    rw [renamed, tokens]
    decide
  have free : Sha256.CollisionFree
      (ops.flatMap Op.tokens ++ (ops.map (Op.rename swap)).flatMap Op.tokens) := by
    intro a ha b hb h
    rcases two a ha with rfl | rfl <;> rcases two b hb with rfl | rfl
    · rfl
    · exact absurd h distinct
    · exact absurd h.symm distinct
    · rfl
  exact ⟨by decide, apart, free, trace_rename false ops swap (by decide) apart free⟩

end Session

end PluginBroker
