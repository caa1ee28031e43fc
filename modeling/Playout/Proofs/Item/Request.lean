import Playout.Command.Input
import Playout.Graph.Layer

/-!
# What a request asks for

The streams that a request names, by the roles they play, and the layers it asks for.

* `Request.stream?`: the stream for a role.
* `Request.paths`: the paths of these streams.
* `Request.layerOrder`: the layers, in the order in which they are added.
* `Request.eq_none_of_hasOverlays`: where nothing is laid over the frames, there are none.
-/

namespace Playout

/-- The roles that the streams of the inputs play. -/
inductive Role where
  | video
  | audio
  | subtitle
  | watermark
  | graphics
deriving DecidableEq

def Role.all : List Role := [video, audio, subtitle, watermark, graphics]

def Role.mapped : List Role := [video, audio, subtitle]

def LayerKind.all : List LayerKind := [subtitle, watermark, graphics]

def LayerKind.role : LayerKind → Role
  | subtitle => .subtitle
  | watermark => .watermark
  | graphics => .graphics

def Layer.rank (l : Layer) : LayerKind × Int := (l.kind, l.zIndex)

namespace Subtitle

def isBurnedText (s : Subtitle) : Bool := s.method == .burn && !s.stream.isPicture

def isBurnedPicture (s : Subtitle) : Bool := s.method == .burn && s.stream.isPicture

def isCarried (s : Subtitle) : Bool := s.method != .burn

end Subtitle

namespace Request

/-- The subtitle that is read as a stream: one that stays a stream, or whose pictures are laid over
the frames. -/
def streamedSubtitle? (r : Request) : Option Subtitle := r.carried?.or r.burnedPicture?

def stream? (r : Request) : Role → Option (String × UInt32)
  | .video => some (r.video.path, r.video.stream.index)
  | .audio =>
    match r.audio with
    | some source => some (source.path, source.stream.index)
    | none => some ((InputFile.silence r.target.audio.channels).path, 0)
  | .subtitle => r.streamedSubtitle?.map fun s => (s.path, s.stream.index)
  | .watermark => r.watermark.map fun w => (w.path, w.stream.index)
  | .graphics => r.graphics.map fun g => (g.path, 0)

def paths (r : Request) : List String := (Role.all.filterMap r.stream?).map Prod.fst

/-- The layers asked for, with their z-indices: pictures of a subtitle lie below all else. -/
def layerOrder (r : Request) : List (LayerKind × Int) :=
  ((r.subtitle.toList.filter Subtitle.isBurnedPicture).map fun _ =>
      (LayerKind.subtitle, Int32.minValue.toInt))
    ++ (r.watermark.toList.map fun w => (LayerKind.watermark, w.zIndex.toInt))
    ++ (r.graphics.toList.map fun g => (LayerKind.graphics, g.zIndex.toInt))

variable {r : Request} {s : Subtitle}

theorem toList_burnedText (r : Request) :
    r.burnedText?.toList = r.subtitle.toList.filter Subtitle.isBurnedText := by
  rw [burnedText?, burned?, Option.toList_filter, Option.toList_filter, List.filter_filter]
  exact List.filter_congr fun s _ => Bool.and_comm _ _

theorem toList_burnedPicture (r : Request) :
    r.burnedPicture?.toList = r.subtitle.toList.filter Subtitle.isBurnedPicture := by
  rw [burnedPicture?, burned?, Option.toList_filter, Option.toList_filter, List.filter_filter]
  exact List.filter_congr fun s _ => Bool.and_comm _ _

theorem toList_carried (r : Request) :
    r.carried?.toList = r.subtitle.toList.filter Subtitle.isCarried :=
  Option.toList_filter

theorem layerOrder_eq (r : Request) :
    r.layerOrder = (r.burnedPicture?.map fun _ => (LayerKind.subtitle, Layer.lowest)).toList
      ++ (r.watermark.map fun w => (LayerKind.watermark, w.zIndex.toInt)).toList
      ++ (r.graphics.map fun g => (LayerKind.graphics, g.zIndex.toInt)).toList := by
  rw [layerOrder, ← toList_burnedPicture, Option.toList_map, Option.toList_map, Option.toList_map]
  rfl

theorem eq_none_of_hasOverlays (h : r.hasOverlays = false) :
    r.burned? = none ∧ r.watermark = none ∧ r.graphics = none := by
  simpa [hasOverlays, and_assoc] using h

theorem burnedText?_eq_none (h : r.hasOverlays = false) : r.burnedText? = none := by
  rw [burnedText?, (eq_none_of_hasOverlays h).1]
  rfl

theorem burnedPicture?_eq_none (h : r.hasOverlays = false) : r.burnedPicture? = none := by
  rw [burnedPicture?, (eq_none_of_hasOverlays h).1]
  rfl

theorem hasLayers_eq_false (h : r.hasOverlays = false) : r.hasLayers = false := by
  obtain ⟨-, hw, hg⟩ := eq_none_of_hasOverlays h
  rw [hasLayers, burnedPicture?_eq_none h, hw, hg]
  rfl

theorem layerOrder_eq_nil (h : r.hasOverlays = false) : r.layerOrder = [] := by
  obtain ⟨-, hw, hg⟩ := eq_none_of_hasOverlays h
  rw [layerOrder_eq, burnedPicture?_eq_none h, hw, hg]
  rfl

theorem layerOrder_eq_nil_iff : r.layerOrder = [] ↔ r.hasLayers = false := by
  rw [layerOrder_eq, hasLayers]
  cases r.burnedPicture? <;> cases r.watermark <;> cases r.graphics <;> simp

theorem carried?_eq_some_iff : r.carried? = some s ↔ r.subtitle = some s ∧ s.method ≠ .burn := by
  rw [carried?, Option.filter_eq_some_iff, bne_iff_ne]

theorem burnedPicture?_eq_some_iff :
    r.burnedPicture? = some s ↔
      r.subtitle = some s ∧ s.method = .burn ∧ s.stream.isPicture = true := by
  rw [burnedPicture?, Option.filter_eq_some_iff, burned?, Option.filter_eq_some_iff, beq_iff_eq,
    and_assoc]

theorem burned?_eq_none_of_carried (h : r.carried? = some s) : r.burned? = none := by
  obtain ⟨hs, hm⟩ := carried?_eq_some_iff.mp h
  rw [burned?, hs, Option.filter_some, if_neg (by simpa using hm)]

theorem streamedSubtitle?_of_carried (h : r.carried? = some s) : r.streamedSubtitle? = some s := by
  rw [streamedSubtitle?, h]
  rfl

theorem streamedSubtitle?_of_picture (h : r.burnedPicture? = some s) :
    r.streamedSubtitle? = some s := by
  obtain ⟨hs, hm, -⟩ := burnedPicture?_eq_some_iff.mp h
  have hc : r.carried? = none := by
    rw [carried?, hs, Option.filter_some, if_neg (by simp [hm])]
  rw [streamedSubtitle?, hc, h]
  rfl

/-- Video and audio are always read, the other streams where the request has them. -/
theorem paths_eq {video audio : String × UInt32} (hv : r.stream? .video = some video)
    (ha : r.stream? .audio = some audio) :
    r.paths = [video.1, audio.1] ++ (r.streamedSubtitle?.map Subtitle.path).toList
      ++ (r.watermark.map Watermark.path).toList ++ (r.graphics.map Graphics.path).toList := by
  have hs : (r.stream? .subtitle).map Prod.fst = r.streamedSubtitle?.map Subtitle.path :=
    Option.map_map ..
  have hw : (r.stream? .watermark).map Prod.fst = r.watermark.map Watermark.path :=
    Option.map_map ..
  have hg : (r.stream? .graphics).map Prod.fst = r.graphics.map Graphics.path :=
    Option.map_map ..
  rw [paths, List.map_filterMap, Role.all, List.filterMap_cons, hv, List.filterMap_cons, ha,
    List.filterMap_cons, hs, List.filterMap_cons, hw, List.filterMap_cons, hg]
  cases r.streamedSubtitle? <;> cases r.watermark <;> cases r.graphics <;> rfl

/-- The layers asked for are of each kind at most one, in the order of the kinds. -/
theorem layerOrder_sublist (r : Request) :
    (r.layerOrder.map Prod.fst).Sublist LayerKind.all := by
  have hone : ∀ {α : Type} (o : Option α) (f : α → LayerKind × Int) (k : LayerKind),
      (∀ x, (f x).1 = k) → ((o.map f).toList.map Prod.fst).Sublist [k] := by
    intro α o f k hk
    cases o with
    | none => exact List.nil_sublist _
    | some x => simp [hk]
  rw [layerOrder_eq, List.map_append, List.map_append]
  exact ((hone _ _ .subtitle fun _ => rfl).append (hone _ _ .watermark fun _ => rfl)).append
    (hone _ _ .graphics fun _ => rfl)

theorem nodup_layerOrder (r : Request) : (r.layerOrder.map Prod.fst).Nodup :=
  List.Nodup.sublist r.layerOrder_sublist (by decide)

end Request

end Playout
