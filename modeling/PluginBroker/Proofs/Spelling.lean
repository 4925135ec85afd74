import PluginBroker.Command

/-! A command as it is written on the command line.  The program reads from the words of a command
that command, and the path of the configuration from an option before them.  An option for help after
them turns this into a request for help on the command. -/

namespace PluginBroker

theorem PluginId.toList_text (p : PluginId) : p.text.toList = Numeral.decimal p.number.toNat := by
  simp [text, Numeral.text]

namespace Arguments

variable {command? : Option Name} {s : Settings} {a : String} {rest : List String} {field : Field}

/-! ### Single arguments -/

theorem Shape.ofChars_plain {c : Char} (h : c ≠ '-') (cs : List Char) :
    ofChars (c :: cs) = .plain := by
  unfold ofChars
  split <;> simp_all

theorem Shape.ofChars_pluginText (p : PluginId) : ofChars p.text.toList = .plain := by
  obtain ⟨c, cs, h, digit⟩ := Numeral.decimal_eq_cons p.number.toNat
  rw [p.toList_text, h]
  apply ofChars_plain
  rintro rfl
  exact absurd digit (by decide)

theorem Shape.ofChars_configPath (path : String) :
    ofChars ("--config=" ++ path).toList = .long "config".toList (some path.toList) := by
  rw [String.toList_append]
  rfl

theorem number?_pluginText (p : PluginId) : number? p.text = some p.number := by
  obtain ⟨c, cs, h, digit⟩ := Numeral.decimal_eq_cons p.number.toNat
  have unsigned : c ≠ '+' := by
    rintro rfl
    exact absurd digit (by decide)
  have value := Numeral.value?_decimal p.number.toNat
  rw [h] at value
  rw [number?, p.toList_text, h]
  split
  · next heq => exact absurd (List.cons.inj heq).1 unsigned
  · rw [value]
    exact Numeral.toUInt64?_toNat p.number

/-! ### One side of the command's name -/

theorem readSide_nil : readSide command? none s [] = some (s, .finished) := by
  simp [readSide]

theorem readSide_name {name : Name} (plain : Shape.ofChars a.toList = .plain)
    (h : Name.ofWord? a = some name) :
    readSide none none s (a :: rest) = some (s, .command name rest) := by
  have other : a ≠ "help" := by
    rintro rfl
    cases h
  rw [readSide.eq_def]
  simp only [plain, h, if_neg other]
  rfl

theorem readSide_waiting (plain : Shape.ofChars a.toList = .plain) :
    readSide command? (some field) s (a :: rest) =
      (s.set? field a).bind fun s => readSide command? none s rest := by
  rw [readSide.eq_def]
  simp only [plain]

theorem readSide_option {name : List Char} (shape : Shape.ofChars a.toList = .long name none)
    (h : field? command? name = some field) :
    readSide command? none s (a :: rest) = readSide command? (some field) s rest := by
  rw [readSide.eq_def]
  simp only [shape, h]
  rfl

theorem readSide_assignment {name value : List Char}
    (shape : Shape.ofChars a.toList = .long name (some value))
    (h : field? command? name = some field) :
    readSide command? none s (a :: rest) =
      (s.set? field (String.ofList value)).bind fun s => readSide command? none s rest := by
  rw [readSide.eq_def]
  simp only [shape, h]
  rfl

theorem readSide_json (h : s.json = false) :
    readSide (some .fingerprints) none s ("--json" :: rest) =
      readSide (some .fingerprints) none { s with json := true } rest := by
  have shape : Shape.ofChars "--json".toList = .long "json".toList none := rfl
  have field : field? (some .fingerprints) "json".toList = none := rfl
  rw [readSide.eq_def]
  simp only [shape, field, Settings.setJson?, h]
  rfl

/-- Whatever follows the option for help is not read. -/
theorem readSide_help (ha : a = "-h" ∨ a = "--help") :
    readSide command? none s (a :: rest) = some (s, .help) := by
  obtain rfl | rfl := ha
  · have shape : Shape.ofChars "-h".toList = .short 'h' [] := rfl
    rw [readSide.eq_def]
    simp only [shape]
    rfl
  · have shape : Shape.ofChars "--help".toList = .long "help".toList none := rfl
    have field : field? command? "help".toList = none := by
      simp [field?]
    rw [readSide.eq_def]
    simp only [shape, field]
    rfl

def Name.word : Name → String
  | .fingerprints => "fingerprints"
  | .connected => "connected"
  | .checkConfig => "check-config"

theorem Name.ofWord?_word (n : Name) : ofWord? n.word = some n := by
  cases n <;> rfl

theorem Shape.ofChars_word (n : Name) : ofChars n.word.toList = .plain := by
  cases n <;> rfl

theorem Settings.set?_config (s : Settings) {path : String} (h : s.config? = none) (hp : path ≠ "") :
    s.set? .config path = some { s with config? := some path } := by
  simp [set?, h, hp]

theorem Settings.set?_source (s : Settings) (p : PluginId) (h : s.source? = none) :
    s.set? .source p.text = some { s with source? := some p } := by
  simp [set?, h, number?_pluginText]

theorem Settings.set?_target (s : Settings) (p : PluginId) (h : s.target? = none) :
    s.set? .target p.text = some { s with target? := some p } := by
  simp [set?, h, number?_pluginText]

end Arguments

/-! ### Whole command lines -/

namespace Command

open Arguments

def name : Command → Name
  | fingerprints _ => .fingerprints
  | connected _ _ => .connected
  | checkConfig => .checkConfig

/-- What is written after the name of a command. -/
def options : Command → List String
  | fingerprints json => if json then ["--json"] else []
  | connected requester owner => ["--from", requester.text, "--to", owner.text]
  | checkConfig => []

/-- The command line of a command, with a path of the configuration if it is not to be the standard
one. -/
def arguments (path? : Option String) (c : Command) : List String :=
  (path?.map ("--config=" ++ ·)).toList ++ c.name.word :: c.options

/-- The options of a command are read one after the other, whatever follows them. -/
theorem readSide_options (c : Command) : ∃ s : Settings,
    (∀ rest, readSide (some c.name) none {} (c.options ++ rest) =
      readSide (some c.name) none s rest) ∧
    command? s c.name = some c ∧ s.config? = none ∧ s.logLevel? = none := by
  cases c with
  | fingerprints json =>
    refine ⟨{ json }, fun rest => ?_, rfl, rfl, rfl⟩
    cases json with
    | false => rfl
    | true => exact readSide_json rfl
  | connected requester owner =>
    have source : Shape.ofChars "--from".toList = .long "from".toList none := rfl
    have target : Shape.ofChars "--to".toList = .long "to".toList none := rfl
    refine ⟨{ source? := some requester, target? := some owner }, fun rest => ?_, rfl, rfl, rfl⟩
    show readSide (some .connected) none {}
      ("--from" :: requester.text :: "--to" :: owner.text :: rest) = _
    rw [readSide_option source rfl, readSide_waiting (Shape.ofChars_pluginText _),
      Settings.set?_source _ _ rfl, Option.bind_some, readSide_option target rfl,
      readSide_waiting (Shape.ofChars_pluginText _), Settings.set?_target _ _ rfl,
      Option.bind_some]
    rfl
  | checkConfig => exact ⟨{}, fun _ => rfl, rfl, rfl, rfl⟩

theorem readSide_arguments (c : Command) {path? : Option String} (h : path? ≠ some "")
    (rest : List String) :
    readSide none none {} (c.arguments path? ++ rest) =
      some ({ config? := path? }, .command c.name (c.options ++ rest)) := by
  have named {s : Settings} : readSide none none s (c.name.word :: (c.options ++ rest)) =
      some (s, .command c.name (c.options ++ rest)) :=
    readSide_name (Shape.ofChars_word _) (Name.ofWord?_word _)
  cases path? with
  | none => exact named
  | some path =>
    have ne : path ≠ "" := fun he => h (congrArg some he)
    show readSide none none {} (("--config=" ++ path) :: c.name.word :: (c.options ++ rest)) = _
    rw [readSide_assignment (Shape.ofChars_configPath path) rfl, String.ofList_toList,
      Settings.set?_config _ rfl ne, Option.bind_some]
    exact named

theorem ofArgs?_arguments (c : Command) {path? : Option String} (h : path? ≠ some "") :
    Request.ofArgs? (c.arguments path?) = some (.invocation ⟨c, path?, none⟩) := by
  have before := c.readSide_arguments h []
  obtain ⟨s, after, command, config, logLevel⟩ := c.readSide_options
  have finished := (after []).trans readSide_nil
  rw [List.append_nil] at before finished
  simp [Request.ofArgs?, before, finished, command, config, logLevel]

theorem ofArgs?_help (c : Command) {path? : Option String} (h : path? ≠ some "") {flag : String}
    (hf : flag = "-h" ∨ flag = "--help") (rest : List String) :
    Request.ofArgs? (c.arguments path? ++ flag :: rest) = some (.help (.command c.name)) := by
  have before := c.readSide_arguments h (flag :: rest)
  obtain ⟨s, after, -⟩ := c.readSide_options
  have helped := (after (flag :: rest)).trans (readSide_help hf)
  simp only [Request.ofArgs?, before, helped]

end Command

/-- Help on a command is given whatever the paths lead to. -/
theorem runArgs_help (c : Command) {path? : Option String} (h : path? ≠ some "") {flag : String}
    (hf : flag = "-h" ∨ flag = "--help") (rest : List String) (standardPath : String)
    (explain : Stored → String) (files : String → Stored) :
    runArgs (c.arguments path? ++ flag :: rest) standardPath explain files =
      { exit := 0, help? := some (.command c.name) } := by
  simp only [runArgs, c.ofArgs?_help h hf rest]

end PluginBroker
