import Playout.Item.Settings
import Playout.Media.Stream

/-!
# Inputs

The files and streams a command reads, each with the options written before it.  An option is kept
only on inputs it applies to, and a path is read once.
-/

namespace Playout

inductive InputKind where
  | video (stream : VideoStream)
  | audio (stream : AudioStream)
  | concat
  | watermark (stream : VideoStream)
  | subtitle (stream : SubtitleStream)
  | graphics (size : Size) (frameRate : UInt32)
  | silence

inductive InputOption where
  | seek (start : Duration)
  | copyTimestamps
  | infiniteLoop
  /-- Native speed, after a number of seconds at full speed. -/
  | readrate (initialBurst : UInt32)
  | doNotIgnoreLoop
  | concatFormat
  | lavfiFormat
  | rawVideoFormat
deriving DecidableEq

namespace InputKind

def isStill : InputKind → Bool
  | video s | watermark s => s.stillImage
  | _ => false

def isVideo : InputKind → Bool
  | video _ => true
  | _ => false

def codec? : InputKind → Option String
  | video s | watermark s => some s.codec
  | audio s => some s.codec
  | subtitle s => some s.codec
  | concat | graphics _ _ | silence => none

def streamIndex : InputKind → UInt32
  | video s | watermark s => s.index
  | audio s => s.index
  | subtitle s => s.index
  | concat | graphics _ _ | silence => 0

end InputKind

namespace InputOption

def appliesTo (o : InputOption) (k : InputKind) : Bool :=
  match o, k with
  | seek _, .video _ | seek _, .audio _ => !k.isStill
  | copyTimestamps, .video _ => true
  | infiniteLoop, .video _ | infiniteLoop, .audio _ | infiniteLoop, .concat
  | infiniteLoop, .watermark _ => true
  | readrate _, .video _ | readrate _, .audio _ | readrate _, .concat => !k.isStill
  | doNotIgnoreLoop, .watermark _ => !k.isStill
  | concatFormat, .concat => true
  | lavfiFormat, .silence => true
  | rawVideoFormat, .graphics _ _ => true
  | _, _ => false

def arguments (o : InputOption) (k : InputKind) : List String :=
  match o with
  | seek start => ["-ss", start.clock]
  | copyTimestamps => ["-copyts"]
  | infiniteLoop => if k.isStill then ["-loop", "1"] else ["-stream_loop", "-1"]
  | readrate burst =>
    ["-readrate", "1.0"]
    ++ (if 0 < burst.toNat then ["-readrate_initial_burst", toString burst.toNat] else [])
  | doNotIgnoreLoop => ["-ignore_loop", "0"]
  | concatFormat => ["-f", "concat", "-safe", "0", "-protocol_whitelist",
      "file,http,tcp,https,tcp,tls", "-probesize", "32"]
  | lavfiFormat => ["-f", "lavfi"]
  | rawVideoFormat =>
    match k with
    | .graphics size rate => ["-f", "rawvideo", "-pix_fmt", "bgra", "-s", size.text, "-r",
        toString rate.toNat]
    | _ => []

end InputOption

structure InputFile where
  path : String
  kind : InputKind
  options : List InputOption := []

namespace InputFile

/-- The file with one more option, if the option applies to it. -/
def add (f : InputFile) (o : InputOption) : InputFile :=
  if o.appliesTo f.kind then { f with options := f.options ++ [o] } else f

/-- A file with the options among those given that apply to it. -/
def withOptions (path : String) (kind : InputKind) (os : List InputOption) : InputFile :=
  os.foldl add ⟨path, kind, []⟩

theorem options_add (f : InputFile) (o : InputOption) :
    (f.add o).options = f.options ++ [o].filter fun o => o.appliesTo f.kind := by
  unfold add
  split <;> simp [*]

@[simp] theorem kind_add (f : InputFile) (o : InputOption) : (f.add o).kind = f.kind := by
  unfold add
  split <;> rfl

@[simp] theorem path_add (f : InputFile) (o : InputOption) : (f.add o).path = f.path := by
  unfold add
  split <;> rfl

theorem path_kind_foldl_add (os : List InputOption) (f : InputFile) :
    (os.foldl add f).path = f.path ∧ (os.foldl add f).kind = f.kind := by
  induction os generalizing f with
  | nil => exact ⟨rfl, rfl⟩
  | cons o rest ih =>
    obtain ⟨hp, hk⟩ := ih (f.add o)
    exact ⟨hp.trans (path_add f o), hk.trans (kind_add f o)⟩

@[simp] theorem path_withOptions (path : String) (kind : InputKind) (os : List InputOption) :
    (withOptions path kind os).path = path := (path_kind_foldl_add os ⟨path, kind, []⟩).1

@[simp] theorem kind_withOptions (path : String) (kind : InputKind) (os : List InputOption) :
    (withOptions path kind os).kind = kind := (path_kind_foldl_add os ⟨path, kind, []⟩).2

/-- Silence in place of an audio stream, in six channels if more than two are wanted. -/
def silence (channels : UInt32) : InputFile where
  path := "anullsrc=channel_layout=" ++ (if 2 < channels.toNat then "5.1" else "stereo")
    ++ ":sample_rate=48000"
  kind := .silence

def arguments (f : InputFile) : List String := f.options.flatMap fun o => o.arguments f.kind

/-- The inputs with a file among them, and its place.  A path that is read already keeps its place
and its options. -/
def register (file : InputFile) (files : List InputFile) : List InputFile × Nat :=
  match files.findIdx? fun f => f.path == file.path with
  | some i => (files, i)
  | none => (files ++ [file], files.length)

/-- What was read before keeps its place. -/
theorem prefix_register (file : InputFile) (files : List InputFile) :
    files <+: (register file files).1 := by
  unfold register
  split
  · exact List.prefix_rfl
  · exact List.prefix_append _ _

/-- The file at the place has the path that was asked for. -/
theorem path_at_register (file : InputFile) (files : List InputFile) :
    ((register file files).1[(register file files).2]?).map path = some file.path := by
  unfold register
  split
  · next i h =>
    rw [List.findIdx?_eq_some_iff_getElem] at h
    obtain ⟨hi, hp, -⟩ := h
    rw [List.getElem?_eq_getElem hi, Option.map_some]
    exact congrArg some (beq_iff_eq.mp hp)
  · simp

/-- No path is read twice. -/
theorem nodup_paths_register {files : List InputFile} (h : (files.map path).Nodup)
    (file : InputFile) : ((register file files).1.map path).Nodup := by
  unfold register
  split
  · exact h
  · next hnone =>
    rw [List.findIdx?_eq_none_iff] at hnone
    rw [List.map_append, List.nodup_append]
    refine ⟨h, by simp, ?_⟩
    intro a ha b hb
    obtain ⟨f, hf, rfl⟩ := List.mem_map.mp ha
    have hne := hnone f hf
    simp only [List.map_cons, List.map_nil, List.mem_singleton] at hb
    subst hb
    simpa using hne

end InputFile

end Playout
