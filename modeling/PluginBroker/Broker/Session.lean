import PluginBroker.Broker

/-! A session: a broker together with what the contexts report, and the operations on both.  A run
of operations yields the answer and the event of each of them, in order. -/

namespace PluginBroker

/-- Everything that can be asked of a broker, and a change of what a context reports. -/
inductive Op where
  | report (v : Context) (profile : Profile)
  | register (owner : PluginId) (v : Context) (i : Interface)
  | unregister (owner : PluginId) (v : Context)
  | unregisterUnder (owner : PluginId) (i : Interface)
  | setToken (token : String)
  | bind (token : String) (graph : Graph)
  | phase
  | permits (requester : PluginId) (v : Context)
  | lookupIn (category : Category) (requester : PluginId) (i : Interface) (choice : Choice)
  | lookup (requester : PluginId) (i : Interface) (choice : Choice)
  | ownerOf (v : Context)
  | contextsOf (owner : PluginId)
  | isRegistered (v : Context)
  | size (category : Category)
  | isEmpty
  | describe

inductive Answer where
  | done
  | registration (result : Except Refusal Unit)
  | flag (value : Bool)
  | phase (value : Phase)
  | looked (result : Except OutOfRange (Option Context))
  | owner (value : Option PluginId)
  | contexts (values : List Context)
  | count (value : Nat)
  | text (value : String)

/-- A broker and what each context reports at present. -/
structure Session where
  broker : Broker
  profiles : Profiles

/-- The answer to an operation, the session after it, and the event that it logs, if any. -/
structure Step where
  answer : Answer
  session : Session
  event? : Option Event := none

namespace Session

def fresh (compilerGated : Bool) : Session := ⟨.fresh compilerGated, fun _ => {}⟩

def replied {α : Type} (s : Session) (wrap : α → Answer) (r : Reply α) : Step :=
  ⟨wrap r.answer, ⟨r.broker, s.profiles⟩, r.event?⟩

def told (s : Session) (a : Answer) : Step := ⟨a, s, none⟩

def report (s : Session) (v : Context) (profile : Profile) : Session :=
  { s with profiles := fun w => if w = v then profile else s.profiles w }

def step (s : Session) : Op → Step
  | .report v profile => ⟨.done, s.report v profile, none⟩
  | .register p v i => s.replied .registration (s.broker.register s.profiles p v i)
  | .unregister p v => s.replied .flag (s.broker.unregister p v)
  | .unregisterUnder p i => s.replied .flag (s.broker.unregisterUnder p i)
  | .setToken token => s.replied .flag (s.broker.setToken token)
  | .bind token graph => s.replied (fun _ => .done) (s.broker.bind token graph)
  | .phase => s.told (.phase s.broker.phase)
  | .permits r v => s.told (.flag (s.broker.permits r v))
  | .lookupIn c r i choice => s.replied .looked (s.broker.lookupIn s.profiles c r i choice)
  | .lookup r i choice => s.replied .looked (s.broker.lookup s.profiles r i choice)
  | .ownerOf v => s.told (.owner (s.broker.ownerOf? v))
  | .contextsOf p => s.told (.contexts (s.broker.contextsOf p))
  | .isRegistered v => s.told (.flag (s.broker.isRegistered v))
  | .size c => s.told (.count (s.broker.size c))
  | .isEmpty => s.told (.flag s.broker.isEmpty)
  | .describe => s.told (.text s.broker.describe)

def run (s : Session) (ops : List Op) : Session := ops.foldl (fun s op => (s.step op).session) s

def trace (s : Session) : List Op → List Step
  | [] => []
  | op :: ops => s.step op :: (s.step op).session.trace ops

def events (s : Session) (ops : List Op) : List Event := (s.trace ops).filterMap (·.event?)

@[simp] theorem run_nil (s : Session) : s.run [] = s := rfl

@[simp] theorem run_cons (s : Session) (op : Op) (ops : List Op) :
    s.run (op :: ops) = (s.step op).session.run ops := rfl

theorem run_append (s : Session) (ops more : List Op) :
    s.run (ops ++ more) = (s.run ops).run more := List.foldl_append

end Session

end PluginBroker
