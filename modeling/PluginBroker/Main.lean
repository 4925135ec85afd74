import PluginBroker.Command

/-! The program: it looks up what stands at the path of the configuration and prints what the
command line comes to. -/

namespace PluginBroker

/-- What stands at the path, and what the system says if it cannot be read.  A path that cannot be
followed to its end, for whatever reason, leads to nothing. -/
def storedAt (path : String) : IO (Stored × String) := do
  try
    discard <| IO.FS.realPath path
  catch e =>
    return (.missing, toString e)
  try
    return (.file (← IO.FS.readBinFile path), "")
  catch e =>
    return (.unreadable, toString e)

/-- What is said of something stored that is no configuration. -/
def explain (system : String) : Stored → String
  | .missing | .unreadable => system
  | .file bytes =>
    if (String.fromUTF8? bytes).isSome then "TOML parse error"
    else "stream did not contain valid UTF-8"

def report (outcome : Outcome) : IO UInt32 := do
  IO.print outcome.output
  if let some topic := outcome.help? then
    IO.println topic.summary
  match outcome.failure? with
  | some (what, why) => IO.eprintln ("Error: " ++ what ++ "\n\nCaused by:\n    " ++ why)
  | none => if outcome.exit = 2 then IO.eprintln "error: the arguments are not valid"
  return outcome.exit.toUInt32

end PluginBroker

open PluginBroker in
def main (args : List String) : IO UInt32 := do
  let standardPath := Config.standardPath (← IO.getEnv "XDG_CONFIG_HOME") (← IO.getEnv "HOME")
  let path := match Request.ofArgs? args with
    | some (.invocation i) => i.path standardPath
    | _ => standardPath
  let (stored, system) ← storedAt path
  report (runArgs args standardPath (explain system) fun _ => stored)
