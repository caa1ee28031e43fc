import Playout.Proofs.Graph.Links
import Playout.Proofs.Item.Request

/-!
# Compositing

Layers are sorted by their z-index, and laid over the main frames one after the other.

* `filter_sortLayers`: sorting keeps the order of the layers of one z-index.
* `Precedes`, `pairwise_precedes_sortLayers`: with one layer of a kind at most, the order of
  compositing is decided by z-index and kind.
* `Graph.beforeLayers`: what the main frames pass before any layer is laid over them.
* `Graph.Composited`: a graph that lays each of its layers over the frames once, in their order.
* `Graph.composited`: every graph with sorted layers does.
-/

namespace Playout

/-! ## The order of layers -/

theorem filter_insertLayer (z : Int) (l : Layer) {layers : List Layer}
    (h : layers.Pairwise fun a b => a.zIndex ≤ b.zIndex) :
    (insertLayer l layers).filter (fun m => m.zIndex == z) =
      (layers ++ [l]).filter fun m => m.zIndex == z := by
  induction layers with
  | nil => rfl
  | cons m rest ih =>
    obtain ⟨hm, hrest⟩ := List.pairwise_cons.mp h
    unfold insertLayer
    split
    · rw [List.cons_append, List.filter_cons, List.filter_cons, ih hrest]
    · next hlt =>
      rw [List.filter_append, List.filter_cons]
      by_cases hz : l.zIndex = z
      · -- whatever the new layer is put before has a greater z-index
        have hnone : (m :: rest).filter (fun m => m.zIndex == z) = [] := by
          refine List.filter_eq_nil_iff.mpr fun x hx => ?_
          have hx' : m.zIndex ≤ x.zIndex := by
            rcases List.mem_cons.mp hx with rfl | hx
            · exact Int.le_refl _
            · exact hm x hx
          rw [beq_iff_eq]
          omega
        rw [hnone, List.nil_append, List.filter_cons]
        rfl
      · have hl : ¬(l.zIndex == z) = true := by simpa using hz
        have hnone : [l].filter (fun m => m.zIndex == z) = [] := List.filter_cons_of_neg hl
        rw [if_neg hl, hnone, List.append_nil]

theorem filter_foldl_insertLayer (z : Int) (layers : List Layer) {sorted : List Layer}
    (h : sorted.Pairwise fun a b => a.zIndex ≤ b.zIndex) :
    (layers.foldl (fun sorted l => insertLayer l sorted) sorted).filter (fun m => m.zIndex == z) =
      (sorted ++ layers).filter fun m => m.zIndex == z := by
  induction layers generalizing sorted with
  | nil => rw [List.append_nil, List.foldl_nil]
  | cons l rest ih =>
    rw [List.foldl_cons, ih (pairwise_insertLayer l h), List.filter_append,
      filter_insertLayer z l h, ← List.filter_append, List.append_assoc, List.singleton_append]

/-- **Layers of one z-index keep their order.** -/
theorem filter_sortLayers (z : Int) (layers : List Layer) :
    (sortLayers layers).filter (fun m => m.zIndex == z) =
      layers.filter fun m => m.zIndex == z :=
  filter_foldl_insertLayer z layers List.Pairwise.nil

/-- The turn of a kind among layers of one z-index. -/
def LayerKind.turn : LayerKind → Nat
  | subtitle => 0
  | watermark => 1
  | graphics => 2

/-- What is composited before: the lower z-index, and the earlier kind where it is the same. -/
def Precedes (a b : LayerKind × Int) : Prop := a.2 < b.2 ∨ (a.2 = b.2 ∧ a.1.turn < b.1.turn)

theorem pairwise_turn_of_sublist {kinds : List LayerKind} (h : kinds.Sublist LayerKind.all) :
    kinds.Pairwise fun a b => a.turn < b.turn :=
  List.Pairwise.sublist h (by decide)

/-- **The order of compositing.** -/
theorem pairwise_precedes_sortLayers {layers : List Layer}
    (h : (layers.map Layer.kind).Sublist LayerKind.all) :
    ((sortLayers layers).map Layer.rank).Pairwise Precedes := by
  have hturns : layers.Pairwise fun a b => a.kind.turn < b.kind.turn := by
    have := pairwise_turn_of_sublist h
    rwa [List.pairwise_map] at this
  rw [List.pairwise_map, List.pairwise_iff_forall_sublist]
  intro a b hab
  have hle : a.zIndex ≤ b.zIndex :=
    List.pairwise_iff_forall_sublist.mp (pairwise_sortLayers layers) hab
  by_cases hz : a.zIndex = b.zIndex
  · -- two layers of one z-index have not changed places
    have hpair := hab.filter fun m => m.zIndex == b.zIndex
    rw [filter_sortLayers, List.filter_cons_of_pos (by simpa using hz),
      List.filter_cons_of_pos (by simp), List.filter_nil] at hpair
    have hturn := List.pairwise_iff_forall_sublist.mp hturns (hpair.trans List.filter_sublist)
    exact .inr ⟨hz, hturn⟩
  · refine .inl ?_
    show a.zIndex < b.zIndex
    omega

/-! ## Composites -/

/-- Whether the chain lays one input over another. -/
def Chain.isComposite (c : Chain) : Bool := c.inputs.length == 2

/-- Chains of which each reads first what the one before it leaves. -/
def Stacked : LinkSource → List Chain → Prop
  | _, [] => True
  | below, c :: rest => c.inputs.head? = some below ∧ Stacked (.link c.output) rest

namespace Graph

def composites (g : Graph) : List Chain := g.chains.filter Chain.isComposite

section

variable {tail : List Call} {below : LinkSource} {layers : List Layer}

theorem filter_sideChains (l : Layer) : (sideChains l).filter Chain.isComposite = [] := by
  unfold sideChains
  split
  · rfl
  · rfl

theorem filter_composite_cons (tail : List Call) (below : LinkSource) (l : Layer)
    (rest : List Layer) :
    (composite tail below (l :: rest)).1.filter Chain.isComposite =
      ⟨[below, sideSource l], l.overlay :: (if rest.isEmpty then tail else []), l.outputLabel⟩ ::
        (composite tail (.link l.outputLabel) rest).1.filter Chain.isComposite := by
  rw [composite_cons]
  dsimp only
  rw [List.filter_append, filter_sideChains, List.nil_append]
  rfl

/-- What each composite defines, does first, and reads second, is its layer's. -/
theorem map_composites (tail : List Call) (below : LinkSource) (layers : List Layer) :
    ((composite tail below layers).1.filter Chain.isComposite).map
        (fun c => (c.output, c.calls.head?, c.inputs.tail)) =
      layers.map fun l => (l.outputLabel, some l.overlay, [sideSource l]) := by
  induction layers generalizing below with
  | nil => rfl
  | cons l rest ih =>
    rw [filter_composite_cons, List.map_cons, ih, List.map_cons]
    rfl

theorem stacked_composites (tail : List Call) (below : LinkSource) (layers : List Layer) :
    Stacked below ((composite tail below layers).1.filter Chain.isComposite) := by
  induction layers generalizing below with
  | nil => exact trivial
  | cons l rest ih =>
    rw [filter_composite_cons]
    exact ⟨rfl, ih _⟩

/-- Nothing follows an overlay but the tail, and that follows the last. -/
theorem tails_composites (tail : List Call) (below : LinkSource) (l : Layer)
    (rest : List Layer) :
    ((composite tail below (l :: rest)).1.filter Chain.isComposite).map (fun c => c.calls.tail) =
      List.replicate rest.length [] ++ [tail] := by
  induction rest generalizing below l with
  | nil =>
    rw [filter_composite_cons]
    rfl
  | cons m rest ih =>
    rw [filter_composite_cons, List.map_cons, ih, List.length_cons, List.replicate_succ]
    rfl

theorem output_ne_main (l : Layer) : l.label ≠ "v" ∧ l.outputLabel ≠ "v" := by
  unfold Layer.outputLabel Layer.label
  cases l.kind <;> decide

theorem output_composite_ne_main :
    ∀ c ∈ (composite tail below layers).1, ¬(c.output == "v") = true := by
  induction layers generalizing below with
  | nil => simp [composite]
  | cons l rest ih =>
    obtain ⟨hlabel, houtput⟩ := output_ne_main l
    rw [composite_cons]
    intro c hc
    rcases List.mem_append.mp hc with hc | hc
    · unfold sideChains at hc
      split at hc
      · cases hc
      · rw [List.mem_singleton.mp hc]
        simpa using hlabel
    · rcases List.mem_cons.mp hc with rfl | hc
      · simpa using houtput
      · exact ih c hc

theorem mem_composite_of_sideChains {l : Layer} (hl : l ∈ layers) {x : Chain}
    (hx : x ∈ sideChains l) : x ∈ (composite tail below layers).1 := by
  induction layers generalizing below with
  | nil => cases hl
  | cons m rest ih =>
    rw [composite_cons]
    rcases List.mem_cons.mp hl with rfl | hl
    · exact List.mem_append_left _ hx
    · exact List.mem_append_right _ (List.mem_cons_of_mem _ (ih hl))

end

/-- The calls that the main frames pass before any layer: with no layer, the tail is among them. -/
def beforeLayers (g : Graph) : List Call :=
  (if g.layers.isEmpty then g.videoFilters ++ g.tail else g.videoFilters).flatMap VideoFilter.calls

/-- A graph that lays layers over the video, each once, from the lowest z-index to the highest. -/
structure Composited (g : Graph) (video : StreamRef) (layers : List Layer) : Prop where
  perm : g.layers.Perm layers
  ascending : g.layers.Pairwise fun a b => a.zIndex ≤ b.zIndex
  stable : ∀ z, g.layers.filter (fun m => m.zIndex == z) = layers.filter fun m => m.zIndex == z
  /-- The main chain takes the video through all filters, and is there if they make a call. -/
  main : g.chains.filter (fun c => c.output == "v") =
    if g.beforeLayers.isEmpty then [] else [⟨[.stream video], g.beforeLayers, "v"⟩]
  /-- There is a composite for each layer, and it lays the layer's own frames over others. -/
  composites : g.composites.map (fun c => (c.output, c.calls.head?, c.inputs.tail)) =
    g.layers.map fun l => ("v" ++ l.kind.label, some l.overlay,
      [if l.prepare.isEmpty then .stream l.input else .link l.kind.label])
  prepared : ∀ l ∈ g.layers, l.prepare ≠ [] →
    ⟨[.stream l.input], l.prepare, l.kind.label⟩ ∈ g.chains
  /-- Each composite reads the one before, and the first one the main chain, or the video. -/
  stacked : Stacked (if g.beforeLayers.isEmpty then .stream video else .link "v") g.composites
  /-- Nothing but the overlay is in a composite, and the tail in the last one. -/
  tail : g.layers ≠ [] → g.composites.map (fun c => c.calls.tail) =
    List.replicate (g.layers.length - 1) [] ++ [g.tail.flatMap VideoFilter.calls]

variable {g : Graph} {video : StreamRef}

theorem mainCalls_eq (g : Graph) : g.mainCalls = g.beforeLayers := by
  unfold mainCalls beforeLayers callsOf
  split
  · rw [List.flatMap_append]
  · rw [List.append_nil]

theorem mainChains_eq (g : Graph) (video : StreamRef) :
    g.mainChains video =
      if g.beforeLayers.isEmpty then [] else [⟨[.stream video], g.beforeLayers, "v"⟩] := by
  rw [mainChains, mainCalls_eq]

theorem mainSource_eq (g : Graph) (video : StreamRef) :
    g.mainSource video = if g.beforeLayers.isEmpty then .stream video else .link "v" := by
  rw [mainSource, mainCalls_eq]

theorem filter_audioChains (p : Chain → Bool)
    (h : ∀ ref calls, p ⟨[.stream ref], calls, "a"⟩ = false) : g.audioChains.filter p = [] := by
  unfold audioChains
  split
  · split
    · rfl
    · exact List.filter_eq_nil_iff.mpr fun c hc => by simp [List.mem_singleton.mp hc, h]
  · rfl

/-- Without filters and layers there is nothing to wire. -/
theorem videoChains_eq (hv : g.video = some video) :
    g.videoChains = g.mainChains video
      ++ (composite (callsOf g.tail) (g.mainSource video) g.layers).1 := by
  unfold videoChains
  rw [hv]
  dsimp only
  split
  · rfl
  · next hf =>
    simp only [hasVideoFilters, Bool.not_eq_true', Bool.not_eq_false, Bool.and_eq_true,
      List.isEmpty_iff] at hf
    obtain ⟨⟨hfilters, hlayers⟩, htail⟩ := hf
    rw [mainChains, mainCalls, hfilters, hlayers, htail]
    rfl

theorem composites_eq (hv : g.video = some video) :
    g.composites =
      (composite (callsOf g.tail) (g.mainSource video) g.layers).1.filter Chain.isComposite := by
  have hmain : (g.mainChains video).filter Chain.isComposite = [] := by
    unfold mainChains
    split
    · rfl
    · rfl
  rw [composites, chains, videoChains_eq hv, List.filter_append, List.filter_append, hmain,
    filter_audioChains Chain.isComposite fun _ _ => rfl, List.nil_append, List.nil_append]

theorem filter_main (hv : g.video = some video) :
    g.chains.filter (fun c => c.output == "v") = g.mainChains video := by
  have hmain : (g.mainChains video).filter (fun c => c.output == "v") = g.mainChains video := by
    unfold mainChains
    split
    · rfl
    · rfl
  have hlayers : (composite (callsOf g.tail) (g.mainSource video) g.layers).1.filter
      (fun c => c.output == "v") = [] :=
    List.filter_eq_nil_iff.mpr output_composite_ne_main
  rw [chains, videoChains_eq hv, List.filter_append, List.filter_append, hmain, hlayers,
    filter_audioChains (fun c => c.output == "v") fun _ _ => rfl, List.nil_append, List.append_nil]

theorem sideChain_mem (hv : g.video = some video) {l : Layer} (hl : l ∈ g.layers)
    (hne : l.prepare ≠ []) : ⟨[.stream l.input], l.prepare, l.label⟩ ∈ g.chains := by
  have hside : sideChains l = [⟨[.stream l.input], l.prepare, l.label⟩] := by
    rw [sideChains, List.isEmpty_eq_false_iff.mpr hne]
    rfl
  rw [chains, videoChains_eq hv]
  refine List.mem_append_right _ (List.mem_append_right _ (mem_composite_of_sideChains hl ?_))
  rw [hside]
  exact List.mem_singleton_self _

/-- **Every graph** with sorted layers lays them over its video in their order. -/
theorem composited (hv : g.video = some video) {layers : List Layer}
    (hl : g.layers = sortLayers layers) : g.Composited video layers where
  perm := hl ▸ perm_sortLayers layers
  ascending := hl ▸ pairwise_sortLayers layers
  stable := hl ▸ fun z => filter_sortLayers z layers
  main := (filter_main hv).trans (g.mainChains_eq video)
  composites := by
    rw [composites_eq hv]
    exact map_composites _ _ _
  prepared := fun _ hl hne => sideChain_mem hv hl hne
  stacked := by
    rw [composites_eq hv, ← mainSource_eq]
    exact stacked_composites _ _ _
  tail := by
    intro hne
    rw [composites_eq hv]
    cases hlayers : g.layers with
    | nil => exact absurd hlayers hne
    | cons l rest => exact tails_composites _ _ l rest

end Graph

end Playout
