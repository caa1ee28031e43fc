import Playout.Item.Settings
import Playout.Text.Whole

/-!
# Arguments of the command line

Two commands, `compile` with at most one path and `probe` with one, and the settings that come
from the environment.
-/

namespace Playout

inductive Command where
  /-- Without a path the request is read from standard input. -/
  | compile (request : Option String)
  | probe (file : String)
deriving DecidableEq

inductive Parsed where
  | command (command : Command)
  | help
  | misused
deriving DecidableEq

namespace Command

def isHelp (arg : String) : Bool :=
  arg == "--help" || match arg.toList with
    | '-' :: 'h' :: _ => true
    | _ => false

def isOption (arg : String) : Bool :=
  match arg.toList with
  | '-' :: _ :: _ => true
  | _ => false

/-- At most `limit` paths, none of them empty; `none` where help is asked for before a fault.
Behind `--` nothing is an option. -/
def paths (limit : Nat) (plain : Bool) : List String → Except Parsed (List String)
  | [] => .ok []
  | arg :: rest =>
    if !plain && arg == "--" then paths limit true rest
    else if !plain && isHelp arg then .error .help
    else if !plain && isOption arg then .error .misused
    else match limit with
      | 0 => .error .misused
      | n + 1 => if arg = "" then .error .misused else (paths n plain rest).map (arg :: ·)

def parse : List String → Parsed
  | [] => .misused
  | name :: rest =>
    if name = "compile" then
      match paths 1 false rest with
      | .ok found => .command (.compile found.head?)
      | .error e => e
    else if name = "probe" then
      match paths 1 false rest with
      | .ok (file :: _) => .command (.probe file)
      | .ok [] => .misused
      | .error e => e
    else if name = "help" then
      match rest with
      | [] => .help
      | [topic] => if ["compile", "probe", "help"].contains topic then .help else .misused
      | _ => .misused
    else if isHelp name then .help
    else .misused

end Command

namespace Config

/-- The settings with what the environment says. -/
def ofEnvironment (setting : String → Option String) : Config :=
  let d : Config := {}
  { ffmpeg := (setting "CHANNELCAST_FFMPEG").getD d.ffmpeg
    ffprobe := (setting "CHANNELCAST_FFPROBE").getD d.ffprobe
    reportsFolder := (setting "CHANNELCAST_REPORTS_DIR").getD d.reportsFolder
    fontsFolder := (setting "CHANNELCAST_FONTS_DIR").or d.fontsFolder
    vaapiDevice := (setting "CHANNELCAST_VAAPI_DEVICE").getD d.vaapiDevice
    segmentSeconds :=
      ((setting "CHANNELCAST_HLS_SEGMENT_SECS").bind fun s => parseUInt32? s.toList).getD
        d.segmentSeconds }

end Config

end Playout
