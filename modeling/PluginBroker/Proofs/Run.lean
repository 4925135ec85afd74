import PluginBroker.Proofs.Registration
import PluginBroker.Proofs.Lookup

/-! Runs of a session, and what an observer of the operations and their answers knows at the end of
one.  The observer who keeps the roll from the answers alone has a roll that the broker matches. -/

namespace PluginBroker

namespace Session

/-- What an observer knows at the end of a run who starts from `b` and notes every operation with
its step. -/
def watch {β : Type} (note : β → Op → Step → β) (s : Session) (b : β) : List Op → β
  | [] => b
  | op :: ops => (s.step op).session.watch note (note b op (s.step op)) ops

variable {β : Type} {note : β → Op → Step → β} {s : Session}

theorem watch_append (note : β → Op → Step → β) (s : Session) (b : β) (ops more : List Op) :
    s.watch note b (ops ++ more) = (s.run ops).watch note (s.watch note b ops) more := by
  induction ops generalizing s b with
  | nil => rfl
  | cons op ops ih => exact ih _ _

theorem run_concat (s : Session) (ops : List Op) (op : Op) :
    s.run (ops ++ [op]) = ((s.run ops).step op).session := run_append s ops [op]

/-- The answers to the operations of a run, in order. -/
def answers (s : Session) (ops : List Op) : List Answer := (s.trace ops).map (·.answer)

/-- The operations of a run, each with its answer. -/
def transcript (s : Session) (ops : List Op) : List (Op × Answer) := ops.zip (s.answers ops)

theorem answers_cons (s : Session) (op : Op) (ops : List Op) :
    s.answers (op :: ops) = (s.step op).answer :: (s.step op).session.answers ops := rfl

theorem transcript_cons (s : Session) (op : Op) (ops : List Op) : s.transcript (op :: ops) =
    (op, (s.step op).answer) :: (s.step op).session.transcript ops := rfl

/-- What holds of a session and its observer at the start, and is kept by every step, holds at the
end of every run. -/
theorem watch_induction {P : Session → β → Prop}
    (step : ∀ s b op, P s b → P (s.step op).session (note b op (s.step op))) {b : β} (h : P s b)
    (ops : List Op) : P (s.run ops) (s.watch note b ops) := by
  induction ops generalizing s b with
  | nil => exact h
  | cons op ops ih => exact ih (step s b op h)

/-- What holds of a session at the start, and is kept by every step, holds at the end of every
run. -/
theorem run_induction {P : Session → Prop} (step : ∀ s op, P s → P (s.step op).session) (h : P s)
    (ops : List Op) : P (s.run ops) := by
  induction ops generalizing s with
  | nil => exact h
  | cons op ops ih => exact ih (step s op h)

end Session

namespace Op

/-- The plugin on whose behalf an operation registers or unregisters contexts. -/
def actor? : Op → Option PluginId
  | .register p _ _ | .unregister p _ | .unregisterUnder p _ => some p
  | _ => none

/-- Whether the operation is not one on the broker, but a change of what a context reports. -/
def isReport : Op → Bool
  | .report .. => true
  | _ => false

/-- Whether the operation asks for the context to be registered. -/
def offers : Op → Context → Prop
  | .register _ w _, v => w = v
  | _, _ => False

end Op

/-- The roll after an operation, told from the answer: a registration puts an entry at the end, and
what is unregistered is struck. -/
def Roll.note (r : Roll) : Op → Answer → Roll
  | .register p v i, .registration (.ok ()) => r ++ [⟨p, i.category, i.name, v⟩]
  | .unregister _ v, .flag true => r.strike v
  | .unregisterUnder p i, .flag true => r.strikeUnder p i.category i.name
  | _, _ => r

/-- An entry that is new on the roll is that of an accepted registration. -/
theorem Roll.mem_note {r : Roll} {op : Op} {a : Answer} {e : Entry} (h : e ∈ r.note op a) :
    e ∈ r ∨ ∃ i, op = .register e.owner e.context i ∧ a = .registration (.ok ()) ∧
      e.category = i.category ∧ e.name = i.name := by
  unfold Roll.note at h
  split at h
  · next p v i =>
    rcases List.mem_append.mp h with h | h
    · exact .inl h
    · obtain rfl := List.mem_singleton.mp h
      exact .inr ⟨i, rfl, rfl, rfl, rfl⟩
  · exact .inl (List.mem_of_mem_filter h)
  · exact .inl (List.mem_of_mem_filter h)
  · exact .inl h

/-- The trust after an operation: only two kinds of operation can change it. -/
def Trust.after (t : Trust) : Op → Trust
  | .setToken token => (t.setToken? token).getD t
  | .bind token graph => (t.bind? token graph).getD t
  | _ => t

namespace Session

/-- A step changes trust as the operation alone says, and leaves the policy alone. -/
theorem step_broker (s : Session) (op : Op) : ∃ catalog ownership, (s.step op).session.broker =
    { s.broker with catalog, ownership, trust := s.broker.trust.after op } := by
  cases op with
  | register p v i => exact s.broker.register_broker s.profiles p v i
  | unregister p v => exact s.broker.unregister_broker p v
  | unregisterUnder p i => exact s.broker.unregisterUnder_broker p i
  | setToken token => exact ⟨_, _, s.broker.setToken_broker token⟩
  | bind token graph => exact ⟨_, _, s.broker.bind_broker token graph⟩
  | lookupIn | lookup => exact ⟨_, _, Broker.lookupIn_broker⟩
  | report | phase | permits | ownerOf | contextsOf | isRegistered | size | isEmpty | describe =>
    exact ⟨_, _, rfl⟩

theorem step_trust (s : Session) (op : Op) :
    (s.step op).session.broker.trust = s.broker.trust.after op := by
  obtain ⟨catalog, ownership, h⟩ := s.step_broker op
  rw [h]

theorem step_profiles (s : Session) {op : Op} (h : op.isReport = false) :
    (s.step op).session.profiles = s.profiles := by
  cases op with
  | report => cases h
  | _ => rfl

theorem step_compilerGated (s : Session) (op : Op) :
    (s.step op).session.broker.compilerGated = s.broker.compilerGated := by
  obtain ⟨catalog, ownership, h⟩ := s.step_broker op
  rw [h]

/-- Every step changes the roll as its answer says. -/
theorem matches_step {s : Session} {r : Roll} (h : s.broker.Matches r) (op : Op) :
    (s.step op).session.broker.Matches (r.note op (s.step op).answer) := by
  cases op with
  | register p v i =>
    rcases h.register s.profiles p v i with ⟨refusal, heq⟩ | ⟨after, heq, -, -, hafter⟩
    · simpa only [step, replied, heq, Roll.note] using h
    · simpa only [step, replied, heq, Roll.note] using hafter
  | unregister p v =>
    by_cases ho : s.broker.ownership.owns p v = true
    · obtain ⟨e, he, rfl, rfl⟩ := (h.ownership.owns_iff h.distinct).mp ho
      obtain ⟨catalog, ownership, heq, hafter⟩ := h.unregister he
      simpa only [step, replied, heq, Roll.note] using hafter
    · simpa only [step, replied, Broker.unregister_of_not_owns ho, Roll.note] using h
  | unregisterUnder p i =>
    by_cases hu : r.under p i.category i.name = []
    · simpa only [step, replied, h.unregisterUnder_none hu, Roll.note] using h
    · obtain ⟨catalog, ownership, heq, hafter⟩ := h.unregisterUnder_some hu
      simpa only [step, replied, heq, Roll.note] using hafter
  | setToken token =>
    simpa only [step, replied, Broker.setToken_broker, Roll.note] using h.withTrust _
  | bind token graph =>
    simpa only [step, replied, Broker.bind_broker, Roll.note] using h.withTrust _
  | lookupIn c p i choice => simpa only [step, replied, Broker.lookupIn_broker, Roll.note] using h
  | lookup p i choice =>
    simpa only [step, replied, Broker.lookup, Broker.lookupIn_broker, Roll.note] using h
  | report | phase | permits | ownerOf | contextsOf | isRegistered | size | isEmpty | describe =>
    exact h

/-- The policy of a broker stays the one it was made with. -/
theorem run_compilerGated (gated : Bool) (ops : List Op) :
    ((fresh gated).run ops).broker.compilerGated = gated :=
  run_induction (P := fun s => s.broker.compilerGated = gated)
    (fun s op h => (step_compilerGated s op).trans h) rfl ops

/-- The roll that an observer has at the end of a run who starts from `r`. -/
def follow (s : Session) (r : Roll) (ops : List Op) : Roll :=
  s.watch (fun r op taken => r.note op taken.answer) r ops

theorem follow_cons (s : Session) (r : Roll) (op : Op) (ops : List Op) : s.follow r (op :: ops) =
    (s.step op).session.follow (r.note op (s.step op).answer) ops := rfl

theorem follow_append (s : Session) (r : Roll) (ops more : List Op) :
    s.follow r (ops ++ more) = (s.run ops).follow (s.follow r ops) more :=
  watch_append _ s r ops more

theorem matches_follow {s : Session} {r : Roll} (h : s.broker.Matches r) (ops : List Op) :
    (s.run ops).broker.Matches (s.follow r ops) :=
  watch_induction (P := fun s r => s.broker.Matches r) (fun _ _ op h => matches_step h op) h ops

/-- The roll that an observer of a fresh broker has at the end of a run. -/
def roll (gated : Bool) (ops : List Op) : Roll :=
  (fresh gated).watch (fun r op taken => r.note op taken.answer) [] ops

theorem roll_append (gated : Bool) (ops more : List Op) :
    roll gated (ops ++ more) = ((fresh gated).run ops).follow (roll gated ops) more :=
  follow_append (fresh gated) [] ops more

theorem roll_concat (gated : Bool) (ops : List Op) (op : Op) : roll gated (ops ++ [op]) =
    (roll gated ops).note op (((fresh gated).run ops).step op).answer :=
  roll_append gated ops [op]

theorem matches_roll (gated : Bool) (ops : List Op) :
    ((fresh gated).run ops).broker.Matches (roll gated ops) :=
  matches_follow (Broker.matches_fresh gated) ops

end Session

end PluginBroker
