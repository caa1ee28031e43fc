import Playout.Command.Container
import Playout.Command.Input
import Playout.Command.Option
import Playout.Graph.Wiring
import Playout.Plan.Decoder
import Playout.Plan.Encoder

/-!
# Pipelines

A pipeline is a list of steps and the inputs they read.  A step adds words to the command at one
of four places, and changes what is known of the frames; the command and the final state are both
read off the steps.
-/

namespace Playout

inductive Step where
  | global (option : GlobalOption)
  | decoder (decoder : Decoder)
  | filter (graph : Graph)
  | output (option : OutputOption)
  | videoEncoder (encoder : VideoEncoder)
  | audioEncoder (encoder : AudioEncoder)
  | container (container : Container)
deriving DecidableEq

namespace Step

def environment : Step → List EnvironmentVariable
  | global o => o.environment
  | _ => []

def globalOptions : Step → List String
  | global o => o.options
  | _ => []

/-- Only the main video is told its decoder. -/
def inputOptions (s : Step) (kind : InputKind) : List String :=
  match s with
  | decoder d => if kind.isVideo then d.options else []
  | _ => []

def filterOptions : Step → List String
  | filter g => g.options
  | _ => []

def outputOptions : Step → Except Failure (List String)
  | output o => .ok o.options
  | videoEncoder e => .ok e.options
  | audioEncoder e => .ok e.options
  | container c => c.arguments
  | _ => .ok []

def next (s : Step) (f : Frame) : Frame :=
  match s with
  | global o => o.next f
  | decoder d => d.next f
  | filter g => g.next f
  | output o => o.next f
  | videoEncoder e => e.next f
  | audioEncoder e => e.next f
  | container c => c.next f

/-- The frames after steps that run one after the other. -/
def nextAll (steps : List Step) (f : Frame) : Frame := steps.foldl (fun f s => s.next f) f

@[simp] theorem nextAll_nil (f : Frame) : nextAll [] f = f := rfl

@[simp] theorem nextAll_cons (s : Step) (steps : List Step) (f : Frame) :
    nextAll (s :: steps) f = nextAll steps (s.next f) := rfl

theorem nextAll_append (a b : List Step) (f : Frame) :
    nextAll (a ++ b) f = nextAll b (nextAll a f) := by
  simp [nextAll]

end Step

structure Pipeline where
  steps : List Step
  inputs : List InputFile
  /-- The frames as the source has them. -/
  initial : Frame

namespace Pipeline

def final (p : Pipeline) : Frame := Step.nextAll p.steps p.initial

def environment (p : Pipeline) : List EnvironmentVariable := p.steps.flatMap Step.environment

/-- An input with everything that is written before its path. -/
def inputArguments (p : Pipeline) (file : InputFile) : List String :=
  file.arguments ++ p.steps.flatMap (fun s => s.inputOptions file.kind) ++ ["-i", file.path]

def outputArguments (p : Pipeline) : Except Failure (List String) :=
  (p.steps.mapM Step.outputOptions).map List.flatten

/-- Options for the whole command, the inputs, the filter graph, and the output. -/
def arguments (p : Pipeline) : Except Failure (List String) :=
  p.outputArguments.map fun output =>
    p.steps.flatMap Step.globalOptions
    ++ p.inputs.flatMap p.inputArguments
    ++ p.steps.flatMap Step.filterOptions
    ++ output

/-- Whether decoding or encoding runs on an accelerator. -/
def usesHardware (p : Pipeline) : Bool :=
  p.steps.any fun s =>
    match s with
    | .decoder d => d.isHardware
    | .videoEncoder e => e.isHardware
    | _ => false

end Pipeline

end Playout
