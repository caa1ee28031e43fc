import Playout.Cli.Arguments
import Playout.Cli.Output
import Playout.Item.Reading
import Playout.Plan.Compile

/-!
# Running the command line

What a run prints or reports, given everything it may look at outside.
-/

namespace Playout

/-- What a run finds outside: variables, files, standard input, and two programs. -/
structure Surroundings where
  setting : String → Option String
  /-- The text of a file, or why it cannot be read. -/
  file : String → Except String String
  stdin : Except String String
  /-- A program asked for a listing by a flag; `none` if it cannot be run. -/
  listing : (program flag : String) → Option ProgramOutput
  /-- A program asked for a report on a file; `none` if it cannot be run. -/
  report : (program file : String) → Option ProgramOutput

inductive Outcome where
  | printed (output : Printed)
  | help
  /-- A message, then its causes from the outside in. -/
  | failed (message : String) (causes : List String)
  | misused
  | aborted (fault : Fault)

namespace Outcome

def exitCode : Outcome → Nat
  | printed _ | help => 0
  | failed _ _ => 1
  | misused => 2
  | aborted _ => 101

def ofFailure (message : String) : Failure → Outcome
  | .fault f => aborted f
  | f => failed message [f.message]

end Outcome

namespace Surroundings

def config (s : Surroundings) : Config := .ofEnvironment s.setting

def requestText (s : Surroundings) : Option String → Except Outcome String
  | some path =>
    match s.file path with
    | .ok text => .ok text
    | .error reason => .error (.failed ("failed to read " ++ path) [reason])
  | none =>
    match s.stdin with
    | .ok text => .ok text
    | .error reason => .error (.failed "failed to read request from stdin" [reason])

/-- The capabilities in a file that a variable names, else those that ffmpeg's listings show. -/
def capabilities (s : Surroundings) (a : Accelerator) : Except Outcome Capabilities :=
  match s.setting "CHANNELCAST_CAPABILITIES" with
  | some path =>
    match s.file path with
    | .error reason => .error (.failed ("failed to read capabilities from " ++ path) [reason])
    | .ok text =>
      match (Json.parse? text).bind Json.readCapabilities with
      | some c => .ok c
      | none => .error (.failed "failed to parse capabilities" [])
  | none =>
    if a.isHardware then
      let program := s.config.ffmpeg
      let listing := CodecListing.ofProgram (s.listing program "-encoders")
        (s.listing program "-decoders")
      .ok (listing.capabilities a)
    else .ok .empty

def compiled (s : Surroundings) (request : Request) (capabilities : Capabilities) :
    Except Failure CompiledCommand := do
  let pipeline ← compile request capabilities s.config
  return {
    program := s.config.ffmpeg
    environment := pipeline.environment
    arguments := ← pipeline.arguments }

def compileCommand (s : Surroundings) (path : Option String) : Except Outcome CompiledCommand := do
  let text ← s.requestText path
  match (Json.parse? text).bind (Json.readRequest .text) with
  | none => .error (.failed "failed to parse pipeline request" [])
  | some request =>
    let capabilities ← s.capabilities request.target.accelerator
    match s.compiled request capabilities with
    | .ok c => .ok c
    | .error f => .error (.ofFailure "failed to compile pipeline" f)

def probeCommand (s : Surroundings) (file : String) : Except Outcome MediaFacts :=
  match MediaFacts.ofProgram (s.report s.config.ffprobe file) with
  | .ok facts => .ok facts
  | .error f => .error (.ofFailure ("failed to probe " ++ file) f)

def run (s : Surroundings) (args : List String) : Outcome :=
  match Command.parse args with
  | .help => .help
  | .misused => .misused
  | .command (.compile path) =>
    match s.compileCommand path with
    | .ok c => .printed (.command c)
    | .error o => o
  | .command (.probe file) =>
    match s.probeCommand file with
    | .ok facts => .printed (.facts facts)
    | .error o => o

end Surroundings

end Playout
