import Mathlib.Data.List.Forall2
import Playout.Proofs.Graph.Links
import Playout.Proofs.Item.Request

/-!
# The roles of the streams in a graph

Which role a stream plays in a graph is seen from where it is read.

* `Chain.roles`: the roles of what a chain reads, by the label it defines.
* `Graph.reads_chains`, `Graph.reads_targets`: what holds of the streams that a graph is made of
  holds of the streams that its chains and its maps read.
-/

namespace Playout

def Chain.roles (c : Chain) : List Role :=
  match c.output with
  | "a" => [.audio]
  | "v" => [.video]
  | "st" => [.subtitle]
  | "wm" => [.watermark]
  | "gfx" => [.graphics]
  | "vst" => [.video, .subtitle]
  | "vwm" => [.video, .watermark]
  | "vgfx" => [.video, .graphics]
  | _ => []

theorem roles_label (k : LayerKind) (inputs : List LinkSource) (calls : List Call) :
    Chain.roles ⟨inputs, calls, k.label⟩ = [k.role] := by
  cases k <;> rfl

theorem roles_outputLabel (l : Layer) (inputs : List LinkSource) (calls : List Call) :
    Chain.roles ⟨inputs, calls, l.outputLabel⟩ = [.video, l.kind.role] := by
  unfold Layer.outputLabel Layer.label
  cases l.kind <;> rfl

/-- What is read is a stream of which `P` holds, or comes from another chain. -/
def LinkSource.Reads (P : Role → StreamRef → Prop) (role : Role) : LinkSource → Prop
  | stream ref => P role ref
  | link _ => True

theorem LinkSource.reads_link (P : Role → StreamRef → Prop) (role : Role) (label : String) :
    (link label).Reads P role := trivial

def Chain.Reads (P : Role → StreamRef → Prop) (c : Chain) : Prop :=
  List.Forall₂ (LinkSource.Reads P) c.roles c.inputs

namespace Graph

section

variable {P : Role → StreamRef → Prop} {tail : List Call} {below : LinkSource}
  {layers : List Layer}

theorem reads_sideSource {l : Layer} (h : P l.kind.role l.input) :
    (sideSource l).Reads P l.kind.role := by
  unfold sideSource
  split
  · exact h
  · exact LinkSource.reads_link P _ _

theorem reads_sideChains {l : Layer} (h : P l.kind.role l.input) :
    ∀ c ∈ sideChains l, c.Reads P := by
  unfold sideChains
  intro c hc
  split at hc
  · cases hc
  · rw [List.mem_singleton.mp hc]
    have hr := roles_label l.kind [.stream l.input] l.prepare
    rw [Chain.Reads, Layer.label, hr]
    exact .cons h .nil

theorem reads_composite (hbelow : below.Reads P .video)
    (hlayers : ∀ l ∈ layers, P l.kind.role l.input) :
    ∀ c ∈ (composite tail below layers).1, c.Reads P := by
  induction layers generalizing below with
  | nil => simp [composite]
  | cons l rest ih =>
    have hl := hlayers l List.mem_cons_self
    rw [composite_cons]
    intro c hc
    rcases List.mem_append.mp hc with hc | hc
    · exact reads_sideChains hl c hc
    · rcases List.mem_cons.mp hc with rfl | hc
      · rw [Chain.Reads, roles_outputLabel]
        exact .cons hbelow (.cons (reads_sideSource hl) .nil)
      · have hrest : ∀ m ∈ rest, P m.kind.role m.input :=
          fun m hm => hlayers m (List.mem_cons_of_mem l hm)
        exact ih (LinkSource.reads_link P .video _) hrest c hc

theorem reads_top (hbelow : below.Reads P .video) :
    (composite tail below layers).2.Reads P .video := by
  induction layers generalizing below with
  | nil => exact hbelow
  | cons l rest ih =>
    rw [composite_cons]
    exact ih (LinkSource.reads_link P .video _)

end

section

variable {g : Graph} {P : Role → StreamRef → Prop}

theorem reads_mainSource {ref : StreamRef} (h : P .video ref) :
    (g.mainSource ref).Reads P .video := by
  unfold mainSource
  split
  · exact h
  · exact LinkSource.reads_link P _ _

/-- **What the chains read.** -/
theorem reads_chains (hvideo : ∀ ref, g.video = some ref → P .video ref)
    (haudio : ∀ ref, g.audio = some ref → P .audio ref)
    (hlayers : ∀ l ∈ g.layers, P l.kind.role l.input) : ∀ c ∈ g.chains, c.Reads P := by
  intro c hc
  rcases List.mem_append.mp hc with hc | hc
  · unfold audioChains at hc
    split at hc
    · next ref hr =>
      split at hc
      · cases hc
      · rw [List.mem_singleton.mp hc]
        exact .cons (haudio ref hr) .nil
    · cases hc
  · unfold videoChains at hc
    split at hc
    · next ref hr =>
      split at hc
      · rcases List.mem_append.mp hc with hc | hc
        · unfold mainChains at hc
          split at hc
          · cases hc
          · rw [List.mem_singleton.mp hc]
            exact .cons (hvideo ref hr) .nil
        · exact reads_composite (reads_mainSource (hvideo ref hr)) hlayers c hc
      · cases hc
    · cases hc

/-- **What the maps read**, in graphs that have video and audio. -/
theorem reads_targets {video audio : StreamRef} (hv : g.video = some video)
    (ha : g.audio = some audio) (hvideo : P .video video) (haudio : P .audio audio)
    (hsubtitle : ∀ ref, g.subtitle = some ref → P .subtitle ref) :
    List.Forall₂ (LinkSource.Reads P) (Role.mapped.take g.targets.length) g.targets := by
  have hvideo' : ∀ target, g.videoTarget = some target → target.Reads P .video := by
    intro target ht
    rw [videoTarget, hv, Option.map_some, Option.some.injEq] at ht
    rw [← ht]
    split
    · exact reads_top (reads_mainSource hvideo)
    · exact hvideo
  have haudio' : ∀ target, g.audioSource = some target → target.Reads P .audio := by
    intro target ht
    rw [audioSource, ha, Option.map_some, Option.some.injEq] at ht
    rw [← ht]
    split
    · exact haudio
    · exact LinkSource.reads_link P _ _
  obtain ⟨x, hx, -⟩ := videoTarget_eq hv
  obtain ⟨y, hy, -⟩ := audioSource_eq ha
  rw [targets, hx, hy]
  cases hs : g.subtitle with
  | none => exact .cons (hvideo' x hx) (.cons (haudio' y hy) .nil)
  | some ref => exact .cons (hvideo' x hx) (.cons (haudio' y hy) (.cons (hsubtitle ref hs) .nil))

end

end Graph

end Playout
