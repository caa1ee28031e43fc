import Playout.Filter.Audio
import Playout.Graph.Layer

/-!
# Filter graphs

A graph is wired from chains: labelled inputs, calls and one labelled output.  The main frames
pass their filters, then the layers one after the other, then the tail; the audio passes its
filters.  What leaves the graph, or passes beside it, is mapped to the output.
-/

namespace Playout

/-- What a chain reads: a stream of an input, or the output of another chain. -/
inductive LinkSource where
  | stream (ref : StreamRef)
  | link (label : String)
deriving DecidableEq

namespace LinkSource

def text : LinkSource → String
  | stream ref => "[" ++ ref.text ++ "]"
  | link label => "[" ++ label ++ "]"

/-- As the target of a map a stream has no brackets. -/
def mapText : LinkSource → String
  | stream ref => ref.text
  | link label => "[" ++ label ++ "]"

end LinkSource

structure Chain where
  inputs : List LinkSource
  calls : List Call
  output : String
deriving DecidableEq

namespace Chain

def text (c : Chain) : String :=
  String.join (c.inputs.map LinkSource.text) ++ Call.chainText c.calls ++ "[" ++ c.output ++ "]"

end Chain

/-- The layers with ascending z-index; layers of one z-index keep their order. -/
def insertLayer (l : Layer) : List Layer → List Layer
  | [] => [l]
  | m :: rest => if m.zIndex ≤ l.zIndex then m :: insertLayer l rest else l :: m :: rest

def sortLayers (layers : List Layer) : List Layer :=
  layers.foldl (fun sorted l => insertLayer l sorted) []

theorem perm_insertLayer (l : Layer) (layers : List Layer) :
    (insertLayer l layers).Perm (l :: layers) := by
  induction layers with
  | nil => exact List.Perm.refl _
  | cons m rest ih =>
    unfold insertLayer
    split
    · exact (ih.cons m).trans (List.Perm.swap l m rest)
    · exact List.Perm.refl _

theorem pairwise_insertLayer (l : Layer) {layers : List Layer}
    (h : layers.Pairwise fun a b => a.zIndex ≤ b.zIndex) :
    (insertLayer l layers).Pairwise fun a b => a.zIndex ≤ b.zIndex := by
  induction layers with
  | nil => simp [insertLayer]
  | cons m rest ih =>
    obtain ⟨hm, hrest⟩ := List.pairwise_cons.mp h
    unfold insertLayer
    split
    · next hle =>
      refine List.pairwise_cons.mpr ⟨?_, ih hrest⟩
      intro b hb
      rcases List.mem_cons.mp ((perm_insertLayer l rest).mem_iff.mp hb) with rfl | hb
      · exact hle
      · exact hm b hb
    · next hlt =>
      refine List.pairwise_cons.mpr ⟨?_, h⟩
      intro b hb
      rcases List.mem_cons.mp hb with rfl | hb
      · omega
      · have := hm b hb
        omega

theorem perm_foldl_insertLayer (layers sorted : List Layer) :
    (layers.foldl (fun sorted l => insertLayer l sorted) sorted).Perm (layers ++ sorted) := by
  induction layers generalizing sorted with
  | nil => exact List.Perm.refl _
  | cons l rest ih =>
    rw [List.foldl_cons, List.cons_append]
    exact (ih _).trans (((perm_insertLayer l sorted).append_left rest).trans List.perm_middle)

/-- Sorting loses no layer and doubles none. -/
theorem perm_sortLayers (layers : List Layer) : (sortLayers layers).Perm layers := by
  have := perm_foldl_insertLayer layers []
  rwa [List.append_nil] at this

theorem pairwise_sortLayers (layers : List Layer) :
    (sortLayers layers).Pairwise fun a b => a.zIndex ≤ b.zIndex := by
  have h : ∀ (ls sorted : List Layer), (sorted.Pairwise fun a b => a.zIndex ≤ b.zIndex) →
      (ls.foldl (fun sorted l => insertLayer l sorted) sorted).Pairwise
        fun a b => a.zIndex ≤ b.zIndex := by
    intro ls
    induction ls with
    | nil => intro _ h; exact h
    | cons l rest ih => intro sorted h; exact ih _ (pairwise_insertLayer l h)
  exact h layers [] List.Pairwise.nil

structure Graph where
  video : Option StreamRef := none
  videoFilters : List VideoFilter := []
  /-- In the order of compositing. -/
  layers : List Layer := []
  /-- After the last layer, or at the end of the main chain if there is none. -/
  tail : List VideoFilter := []
  audio : Option StreamRef := none
  audioFilters : List AudioFilter := []
  subtitle : Option StreamRef := none
deriving DecidableEq

namespace Graph

def hasVideoFilters (g : Graph) : Bool :=
  !(g.videoFilters.isEmpty && g.layers.isEmpty && g.tail.isEmpty)

def callsOf (filters : List VideoFilter) : List Call := filters.flatMap VideoFilter.calls

def audioChains (g : Graph) : List Chain :=
  match g.audio with
  | some ref =>
    if g.audioFilters.isEmpty then []
    else [⟨[.stream ref], g.audioFilters.map AudioFilter.call, "a"⟩]
  | none => []

def audioSource (g : Graph) : Option LinkSource :=
  g.audio.map fun ref => if g.audioFilters.isEmpty then .stream ref else .link "a"

/-- The calls of the main chain. -/
def mainCalls (g : Graph) : List Call :=
  callsOf g.videoFilters ++ (if g.layers.isEmpty then callsOf g.tail else [])

def mainChains (g : Graph) (ref : StreamRef) : List Chain :=
  if g.mainCalls.isEmpty then [] else [⟨[.stream ref], g.mainCalls, "v"⟩]

/-- What the first layer is laid over. -/
def mainSource (g : Graph) (ref : StreamRef) : LinkSource :=
  if g.mainCalls.isEmpty then .stream ref else .link "v"

/-- The chain that prepares a layer, unless its stream is taken as it is. -/
def sideChains (l : Layer) : List Chain :=
  if l.prepare.isEmpty then [] else [⟨[.stream l.input], l.prepare, l.label⟩]

def sideSource (l : Layer) : LinkSource :=
  if l.prepare.isEmpty then .stream l.input else .link l.label

/-- The chains that lay layers over `below`, and what holds the result; the tail follows the last
one. -/
def composite (tail : List Call) : LinkSource → List Layer → List Chain × LinkSource
  | below, [] => ([], below)
  | below, l :: rest =>
    let calls := l.overlay :: (if rest.isEmpty then tail else [])
    let (chains, top) := composite tail (.link l.outputLabel) rest
    (sideChains l ++ ⟨[below, sideSource l], calls, l.outputLabel⟩ :: chains, top)

def videoChains (g : Graph) : List Chain :=
  match g.video with
  | some ref =>
    if g.hasVideoFilters then
      g.mainChains ref ++ (composite (callsOf g.tail) (g.mainSource ref) g.layers).1
    else []
  | none => []

/-- Where the finished frames are: the last layer's output, else the main chain's.  A graph with
filters that make no call maps the stream with its brackets on, as text. -/
def videoMap (g : Graph) : Option String :=
  g.video.map fun ref =>
    if g.hasVideoFilters then (composite (callsOf g.tail) (g.mainSource ref) g.layers).2.text
    else ref.text

def audioMap (g : Graph) : Option String := g.audioSource.map LinkSource.mapText

def subtitleMap (g : Graph) : Option String := g.subtitle.map StreamRef.text

def chains (g : Graph) : List Chain := g.audioChains ++ g.videoChains

def text (g : Graph) : String := ";".intercalate (g.chains.map Chain.text)

/-- What is mapped to the output: video, audio, then subtitles. -/
def maps (g : Graph) : List String :=
  g.videoMap.toList ++ g.audioMap.toList ++ g.subtitleMap.toList

def options (g : Graph) : List String :=
  (if g.chains.isEmpty then [] else ["-filter_complex", g.text])
  ++ g.maps.flatMap fun target => ["-map", target]

/-- The main frames after their filters and the tail; layers leave the state as it is. -/
def next (g : Graph) (f : Frame) : Frame := VideoFilter.nextAll (g.videoFilters ++ g.tail) f

end Graph

end Playout
