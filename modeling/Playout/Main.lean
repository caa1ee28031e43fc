import Playout.Cli.Run

/-!
# The program

The outer layer: it collects what a run may look at, and prints what comes of it.  No other
program is started here, so ffmpeg and ffprobe count as missing, and the facts about an
accelerator come from a file.
-/

namespace Playout

/-- The system's words for why a file cannot be read. -/
def readFailure : IO.Error → String
  | .noFileOrDirectory .. => MediaFacts.notFound
  | .permissionDenied .. => "Permission denied (os error 13)"
  | .inappropriateType .. => "Is a directory (os error 21)"
  | e => toString e

def readText (path : String) : IO (Except String String) := do
  try
    return .ok (← IO.FS.readFile path)
  catch e =>
    return .error (readFailure e)

def readStdin (used : Bool) : IO (Except String String) := do
  if used then
    try
      return .ok (← (← IO.getStdin).readToEnd)
    catch e =>
      return .error (readFailure e)
  else return .ok ""

/-- The variables that a run looks at. -/
def variableNames : List String :=
  ["CHANNELCAST_FFMPEG", "CHANNELCAST_FFPROBE", "CHANNELCAST_REPORTS_DIR",
    "CHANNELCAST_FONTS_DIR", "CHANNELCAST_VAAPI_DEVICE", "CHANNELCAST_HLS_SEGMENT_SECS",
    "CHANNELCAST_CAPABILITIES"]

def collect (args : List String) : IO Surroundings := do
  let found ← variableNames.mapM fun name => return (name, ← IO.getEnv name)
  let setting (name : String) : Option String :=
    (found.find? fun v => v.1 == name).bind Prod.snd
  let requested := match Command.parse args with
    | .command (.compile path) => path.toList
    | _ => []
  let paths := requested ++ (setting "CHANNELCAST_CAPABILITIES").toList
  let files ← paths.mapM fun path => return (path, ← readText path)
  let stdin ← readStdin (Command.parse args == .command (.compile none))
  return {
    setting := setting
    file := fun path =>
      match files.find? fun f => f.1 == path with
      | some f => f.2
      | none => .error MediaFacts.notFound
    stdin := stdin
    listing := fun _ _ => none
    report := fun _ _ => none }

def usage : String :=
  "Usage: channelcast <COMMAND>\n\nCommands:\n"
  ++ "  compile  Compile a pipeline request into an ffmpeg invocation\n"
  ++ "  probe    Print the media facts ffprobe reports for a file\n"
  ++ "  help     Print this message or the help of the given subcommand(s)"

def present (o : Outcome) : IO Unit :=
  match o with
  | .printed output => IO.println output.text
  | .help => IO.println usage
  | .failed message causes => do
    IO.eprintln ("Error: " ++ message)
    unless causes.isEmpty do
      IO.eprintln "\nCaused by:"
      for cause in causes do
        IO.eprintln ("    " ++ cause)
  | .misused => IO.eprintln usage
  | .aborted f => IO.eprintln f.message

end Playout

def main (args : List String) : IO UInt32 := do
  let outcome := (← Playout.collect args).run args
  Playout.present outcome
  return UInt32.ofNat outcome.exitCode
