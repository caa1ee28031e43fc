import Playout.Command.Fixed
import Playout.Main
import Playout.Proofs.Filter.Picture
import Playout.Proofs.Path.Passage
import Playout.Proofs.Path.Stage
import Playout.Proofs.Plan.Assembly
import Playout.Proofs.Path.Memory
import Playout.Proofs.Plan.Residence
import Playout.Proofs.Path.Shape
import Playout.Proofs.Plan.Completion
import Playout.Proofs.Path.Format
import Playout.Proofs.Plan.Agreement
import Playout.Proofs.Filter.Reading
import Playout.Proofs.Filter.Rendering
import Playout.Proofs.Path.Rendering
import Playout.Proofs.Plan.Rendering
import Playout.Proofs.Plan.Fallback
import Playout.Proofs.Plan.Reasons
import Playout.Proofs.Plan.Work
import Playout.Proofs.Plan.CopiedVideo
import Playout.Proofs.Path.Idle
import Playout.Proofs.Plan.Idle
import Playout.Proofs.Graph.Links
import Playout.Proofs.Command.Registration
import Playout.Proofs.Item.Request
import Playout.Proofs.Path.Task
import Playout.Proofs.Plan.Sources
import Playout.Proofs.Plan.Wiring
import Playout.Proofs.Graph.Roles
import Playout.Proofs.Plan.Resolution
import Playout.Proofs.Graph.Compositing
import Playout.Proofs.Plan.SubtitleCodec
import Playout.Proofs.Plan.Fulfilment
import Playout.Proofs.Filter.Device
import Playout.Proofs.Path.Depth
import Playout.Proofs.Path.Device
import Playout.Proofs.Graph.SideChain
import Playout.Proofs.Plan.StepGroup
import Playout.Proofs.Plan.States
import Playout.Proofs.Plan.Depth
import Playout.Proofs.Plan.Meeting
import Playout.Proofs.Plan.Setup
import Playout.Proofs.Plan.Independence
import Playout.Proofs.Command.Fields
import Playout.Proofs.Item.Fitting
import Playout.Proofs.Plan.Framing
import Playout.Proofs.Plan.Refusal
import Playout.Proofs.Command.Codecs
import Playout.Proofs.Plan.Listed
import Playout.Proofs.Item.Proportion
import Playout.Proofs.Item.Oblong
import Playout.Proofs.Path.Squaring
import Playout.Proofs.Plan.Squaring
import Playout.Proofs.Filter.Splitting
import Playout.Proofs.Filter.Unquoting
import Playout.Proofs.Filter.Quiet
import Playout.Proofs.Path.Quiet
import Playout.Proofs.Graph.Quiet
import Playout.Proofs.Graph.Rereading
import Playout.Proofs.Plan.Rereading
import Playout.Proofs.Command.Amounts
import Playout.Proofs.Graph.Margins
import Playout.Proofs.Plan.Channels
import Playout.Proofs.Plan.Limits
import Playout.Proofs.Plan.LayerDepth
import Playout.Proofs.Plan.Arithmetic
import Playout.Proofs.Item.Clock
import Playout.Proofs.Command.Inputs
import Playout.Proofs.Plan.Inputs
import Playout.Proofs.Plan.Timing
import Playout.Proofs.Device.Entry
import Playout.Proofs.Device.Listing
import Playout.Proofs.Number.Magnitude
import Playout.Proofs.Probe.Totality
import Playout.Proofs.Filter.Unescaping
import Playout.Proofs.Plan.CopiedAudio
