import Mathlib.Data.List.Forall2
import PluginBroker.Proofs.Run

/-! What the broker makes of what contexts report.  It asks a context for its interfaces only when the
context is to be registered, and for ids only in lookups by id; it remembers neither.  So two runs of
the same calls are answered alike as far as the contexts report the same to the calls that ask. -/

namespace PluginBroker

def Choice.byId : Choice → Bool
  | withId _ | nthWithId .. => true
  | first | nth _ => false

/-- Whether the operation is a lookup by id. -/
def Op.asksId : Op → Bool
  | .lookupIn _ _ _ choice | .lookup _ _ choice => choice.byId
  | _ => false

/-! ### One call -/

theorem Catalog.pick_congr {k : Catalog} {P Q : Profiles} {choice : Choice}
    (hids : choice.byId = true → ∀ v, (P v).id? = (Q v).id?) (c : Category) (name : String) :
    k.pick P c name choice = k.pick Q c name choice := by
  cases choice with
  | first | nth n => rfl
  | withId id =>
    unfold pick
    simp only [hids rfl]
  | nthWithId id n =>
    unfold pick
    simp only [hids rfl]

namespace Broker

variable {b : Broker} {P Q : Profiles}

theorem register_congr {v : Context} (h : (P v).interfaces = (Q v).interfaces) (p : PluginId)
    (i : Interface) : (b.register P p v i).answer = (b.register Q p v i).answer ∧
      (b.register P p v i).broker = (b.register Q p v i).broker := by
  unfold Broker.register
  rw [h]
  cases b.admission (Q v).interfaces v i <;> exact ⟨rfl, rfl⟩

theorem lookupIn_congr {choice : Choice}
    (hids : choice.byId = true → ∀ v, (P v).id? = (Q v).id?) (c : Category) (requester : PluginId)
    (i : Interface) :
    b.lookupIn P c requester i choice = b.lookupIn Q c requester i choice := by
  have find : b.find P c requester i choice = b.find Q c requester i choice := by
    unfold Broker.find
    rw [Catalog.pick_congr hids]
  unfold lookupIn
  rw [find]

end Broker

/-- An operation on the broker, and what the contexts report when it is asked for. -/
structure Call where
  op : Op
  profiles : Profiles

namespace Session

variable {b : Broker} {P Q : Profiles} {op : Op}

theorem broker_step_congr
    (h : ∀ v, op.offers v → (P v).interfaces = (Q v).interfaces) :
    ((⟨b, P⟩ : Session).step op).session.broker = ((⟨b, Q⟩ : Session).step op).session.broker := by
  cases op with
  | register p v i => exact (Broker.register_congr (h v rfl) p i).2
  | lookupIn | lookup => simp only [step, replied, Broker.lookup, Broker.lookupIn_broker]
  | _ => rfl

theorem answer_step_congr
    (h : ∀ v, op.offers v → (P v).interfaces = (Q v).interfaces)
    (hids : op.asksId = true → ∀ v, (P v).id? = (Q v).id?) :
    ((⟨b, P⟩ : Session).step op).answer = ((⟨b, Q⟩ : Session).step op).answer := by
  cases op with
  | register p v i => exact congrArg Answer.registration (Broker.register_congr (h v rfl) p i).1
  | lookupIn c r i choice => simp only [step, replied, Broker.lookupIn_congr hids]
  | lookup r i choice => simp only [step, replied, Broker.lookup, Broker.lookupIn_congr hids]
  | _ => rfl

/-! ### Runs as lists of calls -/

/-- The calls of a run: its operations without the reports, each with what the contexts report at
that moment. -/
def calls (s : Session) : List Op → List Call
  | [] => []
  | op :: ops =>
    if op.isReport then (s.step op).session.calls ops
    else ⟨op, s.profiles⟩ :: (s.step op).session.calls ops

/-- The calls of a run with their answers. -/
def replies (s : Session) (ops : List Op) : List (Op × Answer) :=
  (s.transcript ops).filter fun x => !x.1.isReport

end Session

/-- The answers of a broker to a list of calls. -/
def Broker.repliesTo (b : Broker) : List Call → List (Op × Answer)
  | [] => []
  | c :: cs =>
    (c.op, ((⟨b, c.profiles⟩ : Session).step c.op).answer) ::
      ((⟨b, c.profiles⟩ : Session).step c.op).session.broker.repliesTo cs

theorem Session.broker_step_of_isReport (s : Session) {op : Op} (h : op.isReport = true) :
    (s.step op).session.broker = s.broker := by
  cases op with
  | report v profile => rfl
  | _ => cases h

/-- A run is answered as its calls are, however the reports came about. -/
theorem Session.replies_eq (s : Session) (ops : List Op) :
    s.replies ops = s.broker.repliesTo (s.calls ops) := by
  induction ops generalizing s with
  | nil => rfl
  | cons op ops ih =>
    rw [replies, transcript_cons, List.filter_cons, calls]
    cases hr : op.isReport with
    | true =>
      rw [if_neg (by simp), if_pos rfl, ← s.broker_step_of_isReport hr]
      exact ih _
    | false =>
      rw [if_pos Bool.not_false, if_neg Bool.false_ne_true, Broker.repliesTo]
      exact congrArg _ (ih _)

/-- The same operation while the contexts report the same interfaces, as far as it offers them, and, if
it is a lookup by id that `keep` lets through, the same ids. -/
def Call.AgreesOn (keep : Op → Bool) (c d : Call) : Prop :=
  c.op = d.op ∧ (∀ v, c.op.offers v → (c.profiles v).interfaces = (d.profiles v).interfaces) ∧
    (keep c.op = true → c.op.asksId = true → ∀ v, (c.profiles v).id? = (d.profiles v).id?)

/-- Calls that agree on what the operations ask for are answered alike. -/
theorem Broker.repliesTo_congr {keep : Op → Bool} {cs ds : List Call}
    (h : List.Forall₂ (Call.AgreesOn keep) cs ds) (b : Broker) :
    (b.repliesTo cs).filter (fun x => keep x.1) = (b.repliesTo ds).filter fun x => keep x.1 := by
  induction h generalizing b with
  | nil => rfl
  | @cons c d cs ds hcd _ ih =>
    obtain ⟨hop, hinterfaces, hids⟩ := hcd
    have broker := Session.broker_step_congr (b := b) hinterfaces
    rw [repliesTo, repliesTo, ← hop, List.filter_cons, List.filter_cons, broker, ih]
    cases hk : keep c.op with
    | true =>
      rw [Session.answer_step_congr hinterfaces (hids hk)]
    | false => rfl

/-! ### Runs that differ in reports -/

/-- The same operation, which does not offer `v`, while the contexts report the same, but for the
interfaces of `v`. -/
def Call.SameButInterfaces (v : Context) (c d : Call) : Prop :=
  c.op = d.op ∧ ¬ c.op.offers v ∧ (c.profiles v).id? = (d.profiles v).id? ∧
    ∀ w, w ≠ v → c.profiles w = d.profiles w

/-- The same operation while the contexts report the same interfaces. -/
def Call.SameButIds (c d : Call) : Prop :=
  c.op = d.op ∧ ∀ v, (c.profiles v).interfaces = (d.profiles v).interfaces

/-- The calls are the same up to a point after which `v` is not offered again, and differ from there
on in nothing but the interfaces that `v` reports. -/
def DifferInInterfaces (v : Context) (cs ds : List Call) : Prop :=
  ∃ before later later', cs = before ++ later ∧ ds = before ++ later' ∧
    List.Forall₂ (Call.SameButInterfaces v) later later'

namespace Broker

variable {v : Context} {cs ds : List Call}

theorem repliesTo_of_differInInterfaces (h : DifferInInterfaces v cs ds) (b : Broker) :
    b.repliesTo cs = b.repliesTo ds := by
  obtain ⟨before, later, later', rfl, rfl, hlater⟩ := h
  have first : List.Forall₂ (Call.AgreesOn fun _ => true) before before :=
    List.forall₂_same.mpr fun _ _ => ⟨rfl, fun _ _ => rfl, fun _ _ _ => rfl⟩
  have rest : List.Forall₂ (Call.AgreesOn fun _ => true) later later' := by
    refine hlater.imp ?_
    rintro c d ⟨hop, hoffers, hid, hothers⟩
    refine ⟨hop, fun w hw => ?_, fun _ _ w => ?_⟩
    · have other : w ≠ v := by
        rintro rfl
        exact hoffers hw
      rw [hothers w other]
    · by_cases hw : w = v
      · rw [hw, hid]
      · rw [hothers w hw]
  have same := repliesTo_congr (List.rel_append first rest) b
  simpa only [List.filter_true] using same

theorem repliesTo_of_sameButIds (h : List.Forall₂ Call.SameButIds cs ds) (b : Broker) :
    (b.repliesTo cs).filter (fun x => !x.1.asksId) =
      (b.repliesTo ds).filter fun x => !x.1.asksId := by
  have agree : List.Forall₂ (Call.AgreesOn fun op => !op.asksId) cs ds := by
    refine h.imp ?_
    rintro c d ⟨hop, hinterfaces⟩
    refine ⟨hop, fun v _ => hinterfaces v, fun hk hids => ?_⟩
    have other : c.op.asksId = false := by simpa using hk
    rw [other] at hids
    cases hids
  exact repliesTo_congr agree b

end Broker

end PluginBroker
