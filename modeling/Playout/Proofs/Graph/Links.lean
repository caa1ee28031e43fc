import Playout.Graph.Wiring

/-!
# Links between chains

A chain reads streams and the labels of other chains, and defines one label.  In the graphs of a
pipeline every label goes from the chain that defines it to one later place.

* `WellWired`: chains and maps that fit together.
* `Graph.links_conserved`: what chains and maps read is what chains define.
* `Graph.ordered_chains`: chains read labels that were defined before.
* `Graph.wellWired`: so a graph with one layer of a kind at most is well wired.
* `Graph.maps_eq`: filters that make calls put the maps in their two forms.
-/

namespace Playout

namespace LinkSource

def label? : LinkSource → Option String
  | stream _ => none
  | link label => some label

end LinkSource

def links (sources : List LinkSource) : List String := sources.filterMap LinkSource.label?

theorem mem_links {sources : List LinkSource} {label : String} :
    label ∈ links sources ↔ .link label ∈ sources := by
  rw [links, List.mem_filterMap]
  constructor
  · rintro ⟨s, hs, hl⟩
    cases s with
    | stream ref => cases hl
    | link l => rwa [← Option.some.inj hl]
  · exact fun h => ⟨_, h, rfl⟩

theorem links_append (a b : List LinkSource) : links (a ++ b) = links a ++ links b :=
  List.filterMap_append

theorem count_links (sources : List LinkSource) (label : String) :
    (links sources).count label = sources.count (.link label) := by
  induction sources with
  | nil => rfl
  | cons s rest ih =>
    cases s with
    | stream ref =>
      rw [List.count_cons_of_ne (by simp), ← ih]
      rfl
    | link l =>
      have hl : links (.link l :: rest) = l :: links rest := rfl
      rw [hl, List.count_cons, List.count_cons, ih]
      simp

/-- Chains that fit together, and what is mapped to the output. -/
structure WellWired (chains : List Chain) (targets : List LinkSource) : Prop where
  /-- No label is defined twice. -/
  outputs_nodup : (chains.map Chain.output).Nodup
  /-- A chain reads labels of chains before it. -/
  inputs_defined : ∀ earlier c later, chains = earlier ++ c :: later →
    ∀ label, .link label ∈ c.inputs → label ∈ earlier.map Chain.output
  /-- What is mapped and is no stream is the label of a chain. -/
  targets_defined : ∀ label, .link label ∈ targets → label ∈ chains.map Chain.output
  /-- A label is read by one later chain, or mapped once. -/
  consumed_once : ∀ earlier c later, chains = earlier ++ c :: later →
    ((earlier ++ [c]).flatMap Chain.inputs).count (.link c.output) = 0 ∧
      (later.flatMap Chain.inputs ++ targets).count (.link c.output) = 1

/-! ## Labels in their order -/

/-- Every label a chain reads is known, or defined by a chain before it. -/
def Ordered : List String → List Chain → Prop
  | _, [] => True
  | known, c :: rest =>
    (∀ label ∈ links c.inputs, label ∈ known) ∧ Ordered (known ++ [c.output]) rest

section

variable {known : List String} {a b : List Chain} {c : Chain}

theorem Ordered.append (ha : Ordered known a) (hb : Ordered (known ++ a.map Chain.output) b) :
    Ordered known (a ++ b) := by
  induction a generalizing known with
  | nil => simpa using hb
  | cons c rest ih =>
    refine ⟨ha.1, ih ha.2 ?_⟩
    rwa [List.append_assoc]

/-- What is known of the labels before a chain of many. -/
theorem Ordered.mem_of_append_cons (h : Ordered known (a ++ c :: b)) {label : String}
    (hl : .link label ∈ c.inputs) : label ∈ known ++ a.map Chain.output := by
  induction a generalizing known with
  | nil => simpa using h.1 label (mem_links.mpr hl)
  | cons d rest ih =>
    have := ih h.2
    rwa [List.append_assoc] at this

/-- Chains in order, whose labels are read as often as they are defined, are well wired. -/
theorem wellWired_of_perm {chains : List Chain} {targets : List LinkSource}
    (hnodup : (chains.map Chain.output).Nodup) (horder : Ordered [] chains)
    (hperm : (links (chains.flatMap Chain.inputs ++ targets)).Perm (chains.map Chain.output)) :
    WellWired chains targets := by
  have hdefined : ∀ earlier c later, chains = earlier ++ c :: later →
      ∀ label, .link label ∈ c.inputs → label ∈ earlier.map Chain.output := by
    intro earlier c later he label hl
    rw [he] at horder
    simpa using horder.mem_of_append_cons hl
  refine ⟨hnodup, hdefined, ?_, ?_⟩
  · intro label hl
    exact hperm.mem_iff.mp (mem_links.mpr (List.mem_append_right _ hl))
  · intro earlier c later he
    have hfresh : c.output ∉ earlier.map Chain.output := by
      rw [he, List.map_append, List.map_cons] at hnodup
      have hdisjoint := (List.nodup_append.mp hnodup).2.2
      exact fun hm => hdisjoint _ hm _ List.mem_cons_self rfl
    -- a chain up to `c` that reads its label would need it before `c`
    have hnone : ∀ d ∈ earlier ++ [c], .link c.output ∉ d.inputs := by
      intro d hd hl
      obtain ⟨before, after, hsplit⟩ := List.append_of_mem hd
      have hwhole : chains = before ++ d :: (after ++ later) := by
        rw [he, List.append_cons, hsplit, List.append_assoc]
        rfl
      have hbefore : c.output ∈ before.map Chain.output := hdefined before d _ hwhole _ hl
      have hupto : before <+: earlier ++ [c] := by
        rw [hsplit]
        exact List.prefix_append _ _
      have hlen : before.length ≤ earlier.length := by
        have hlength := congrArg List.length hsplit
        simp only [List.length_append, List.length_cons, List.length_nil] at hlength
        omega
      have hsub : before <+: earlier :=
        List.prefix_of_prefix_length_le hupto (List.prefix_append _ _) hlen
      exact hfresh ((hsub.map _).subset hbefore)
    have hzero : ((earlier ++ [c]).flatMap Chain.inputs).count (.link c.output) = 0 := by
      refine List.count_eq_zero.mpr fun hm => ?_
      obtain ⟨d, hd, hl⟩ := List.mem_flatMap.mp hm
      exact hnone d hd hl
    have hone : (links (chains.flatMap Chain.inputs ++ targets)).count c.output = 1 := by
      rw [hperm.count_eq]
      refine hnodup.count.trans (if_pos ?_)
      simp [he]
    rw [count_links, he, List.append_cons, List.flatMap_append, List.append_assoc,
      List.count_append, hzero, Nat.zero_add] at hone
    exact ⟨hzero, hone⟩

end

namespace Graph

/-! ## Layers -/

section

variable {tail : List Call} {below : LinkSource} {layers : List Layer}

theorem links_sideSource (l : Layer) :
    links [sideSource l] = (sideChains l).map Chain.output := by
  unfold sideSource sideChains
  split
  · rfl
  · rfl

theorem inputs_sideChains (l : Layer) : links ((sideChains l).flatMap Chain.inputs) = [] := by
  unfold sideChains
  split
  · rfl
  · rfl

theorem composite_cons (tail : List Call) (below : LinkSource) (l : Layer) (rest : List Layer) :
    composite tail below (l :: rest) =
      (sideChains l ++ ⟨[below, sideSource l], l.overlay :: (if rest.isEmpty then tail else []),
        l.outputLabel⟩ :: (composite tail (.link l.outputLabel) rest).1,
        (composite tail (.link l.outputLabel) rest).2) := rfl

/-- **What layers read is what they define**, with what is below them and what they end in. -/
theorem links_composite (below : LinkSource) :
    links ((composite tail below layers).1.flatMap Chain.inputs
        ++ [(composite tail below layers).2]) =
      links [below] ++ (composite tail below layers).1.map Chain.output := by
  induction layers generalizing below with
  | nil => simp [composite]
  | cons l rest ih =>
    have hcomposed := ih (.link l.outputLabel)
    have hbelow : links [below, sideSource l] = links [below] ++ links [sideSource l] :=
      links_append [below] [sideSource l]
    rw [composite_cons]
    dsimp only
    rw [List.flatMap_append, List.flatMap_cons, List.append_assoc, List.append_assoc, links_append,
      links_append, inputs_sideChains, hcomposed, hbelow, links_sideSource]
    simp [links, LinkSource.label?]

/-- Layers are laid in order, once it is known what is below them. -/
theorem ordered_composite {known : List String} (h : ∀ label ∈ links [below], label ∈ known) :
    Ordered known (composite tail below layers).1 := by
  induction layers generalizing below known with
  | nil => exact trivial
  | cons l rest ih =>
    rw [composite_cons]
    refine Ordered.append ?_ ⟨?_, ih ?_⟩
    · unfold sideChains
      split
      · exact trivial
      · exact ⟨by simp [links, LinkSource.label?], trivial⟩
    · intro label hl
      have hsplit : links [below, sideSource l] = links [below] ++ links [sideSource l] :=
        links_append [below] [sideSource l]
      rw [hsplit, links_sideSource] at hl
      rcases List.mem_append.mp hl with hl | hl
      · exact List.mem_append_left _ (h label hl)
      · exact List.mem_append_right _ hl
    · simp [links, LinkSource.label?]

def labelsOf (k : LayerKind) : List String := [k.label, "v" ++ k.label]

theorem outputs_composite_sublist :
    ((composite tail below layers).1.map Chain.output).Sublist
      (layers.flatMap fun l => labelsOf l.kind) := by
  induction layers generalizing below with
  | nil => simp [composite]
  | cons l rest ih =>
    have hside : ((sideChains l).map Chain.output).Sublist [l.label] := by
      unfold sideChains
      split
      · exact List.nil_sublist _
      · exact List.Sublist.refl _
    rw [composite_cons]
    dsimp only
    rw [List.map_append, List.map_cons, List.flatMap_cons]
    exact hside.append (ih.cons_cons l.outputLabel)

theorem exists_link_composite (h : layers ≠ []) :
    ∃ label, (composite tail below layers).2 = .link label := by
  induction layers generalizing below with
  | nil => exact absurd rfl h
  | cons l rest ih =>
    rw [composite_cons]
    by_cases hr : rest = []
    · exact ⟨l.outputLabel, by rw [hr]; rfl⟩
    · exact ih hr

end

theorem labelsOf_disjoint {j k : LayerKind} (h : j ≠ k) :
    ∀ x ∈ labelsOf j, ∀ y ∈ labelsOf k, x ≠ y := by
  revert h
  cases j <;> cases k <;> decide

theorem nodup_labelsOf (k : LayerKind) : (labelsOf k).Nodup := by
  cases k <;> decide

theorem not_mem_labelsOf (k : LayerKind) : ∀ x ∈ ["a", "v"], x ∉ labelsOf k := by
  cases k <;> decide

theorem nodup_flatMap_labelsOf {kinds : List LayerKind} (h : kinds.Nodup) :
    (kinds.flatMap labelsOf).Nodup := by
  induction kinds with
  | nil => exact List.nodup_nil
  | cons k rest ih =>
    obtain ⟨hk, hrest⟩ := List.nodup_cons.mp h
    rw [List.flatMap_cons, List.nodup_append]
    refine ⟨nodup_labelsOf k, ih hrest, ?_⟩
    intro x hx y hy
    obtain ⟨j, hj, hy⟩ := List.mem_flatMap.mp hy
    have hne : k ≠ j := fun he => hk (he ▸ hj)
    exact labelsOf_disjoint hne x hx y hy

/-! ## Whole graphs -/

def videoTarget (g : Graph) : Option LinkSource :=
  g.video.map fun ref =>
    if g.hasVideoFilters then (composite (callsOf g.tail) (g.mainSource ref) g.layers).2
    else .stream ref

/-- What is mapped to the output, in its order. -/
def targets (g : Graph) : List LinkSource :=
  g.videoTarget.toList ++ g.audioSource.toList ++ (g.subtitle.map LinkSource.stream).toList

variable {g : Graph}

theorem links_audio (g : Graph) :
    links (g.audioChains.flatMap Chain.inputs) = [] ∧
      links g.audioSource.toList = g.audioChains.map Chain.output ∧
      Ordered [] g.audioChains := by
  unfold audioChains audioSource
  cases g.audio with
  | none => exact ⟨rfl, rfl, trivial⟩
  | some ref =>
    cases g.audioFilters.isEmpty
    · exact ⟨rfl, rfl, by simp [Ordered, links, LinkSource.label?]⟩
    · exact ⟨rfl, rfl, trivial⟩

theorem links_main (g : Graph) (ref : StreamRef) :
    links ((g.mainChains ref).flatMap Chain.inputs) = [] ∧
      links [g.mainSource ref] = (g.mainChains ref).map Chain.output := by
  unfold mainChains mainSource
  cases g.mainCalls.isEmpty
  · exact ⟨rfl, rfl⟩
  · exact ⟨rfl, rfl⟩

theorem links_video (g : Graph) :
    links (g.videoChains.flatMap Chain.inputs ++ g.videoTarget.toList) =
      g.videoChains.map Chain.output := by
  unfold videoChains videoTarget
  cases g.video with
  | none => rfl
  | some ref =>
    obtain ⟨hinputs, hsource⟩ := g.links_main ref
    cases g.hasVideoFilters with
    | false => rfl
    | true =>
      simp only [if_true, Option.map_some, Option.toList_some]
      rw [List.flatMap_append, List.append_assoc, links_append, hinputs, links_composite, hsource,
        List.map_append]
      rfl

/-- **Every label that is defined is read**, by a chain or by a map, and as often as it is
defined. -/
theorem links_conserved (g : Graph) :
    (links (g.chains.flatMap Chain.inputs ++ g.targets)).Perm (g.chains.map Chain.output) := by
  obtain ⟨hinputs, hsource, -⟩ := g.links_audio
  have hsubtitle : links (g.subtitle.map LinkSource.stream).toList = [] := by
    cases g.subtitle <;> rfl
  have hall : links (g.chains.flatMap Chain.inputs ++ g.targets) =
      links (g.videoChains.flatMap Chain.inputs ++ g.videoTarget.toList)
        ++ links g.audioSource.toList := by
    simp only [chains, targets, List.flatMap_append, links_append, hinputs, hsubtitle,
      List.nil_append, List.append_nil, List.append_assoc]
  rw [hall, links_video, hsource, chains, List.map_append]
  exact List.perm_append_comm

theorem ordered_chains (g : Graph) : Ordered [] g.chains := by
  obtain ⟨-, -, haudio⟩ := g.links_audio
  refine haudio.append ?_
  unfold videoChains
  cases g.video with
  | none => exact trivial
  | some ref =>
    cases g.hasVideoFilters with
    | false => exact trivial
    | true =>
      refine Ordered.append ?_ (ordered_composite fun label hl => ?_)
      · unfold mainChains
        split
        · exact trivial
        · exact ⟨by simp [links, LinkSource.label?], trivial⟩
      · rw [(g.links_main ref).2] at hl
        exact List.mem_append_right _ hl

theorem outputs_videoChains_sublist (g : Graph) :
    (g.videoChains.map Chain.output).Sublist
      ("v" :: g.layers.flatMap fun l => labelsOf l.kind) := by
  unfold videoChains
  split
  · next ref _ =>
    split
    · rw [List.map_append]
      have hmain : ((g.mainChains ref).map Chain.output).Sublist ["v"] := by
        unfold mainChains
        split
        · exact List.nil_sublist _
        · exact List.Sublist.refl _
      exact hmain.append outputs_composite_sublist
    · exact List.nil_sublist _
  · exact List.nil_sublist _

theorem outputs_sublist (g : Graph) :
    (g.chains.map Chain.output).Sublist
      ("a" :: "v" :: g.layers.flatMap fun l => labelsOf l.kind) := by
  have haudio : (g.audioChains.map Chain.output).Sublist ["a"] := by
    unfold audioChains
    split
    · split
      · exact List.nil_sublist _
      · exact List.Sublist.refl _
    · exact List.nil_sublist _
  rw [chains, List.map_append]
  exact haudio.append g.outputs_videoChains_sublist

theorem filter_audio (g : Graph) :
    g.chains.filter (fun c => c.output == "a") = g.audioChains := by
  have haudio : g.audioChains.filter (fun c => c.output == "a") = g.audioChains := by
    unfold audioChains
    split
    · split
      · rfl
      · rfl
    · rfl
  have hvideo : g.videoChains.filter (fun c => c.output == "a") = [] := by
    refine List.filter_eq_nil_iff.mpr fun c hc ho => ?_
    have hm := g.outputs_videoChains_sublist.subset (List.mem_map_of_mem hc)
    rw [beq_iff_eq.mp ho, List.mem_cons] at hm
    rcases hm with hv | hl
    · exact absurd hv (by decide)
    · obtain ⟨l, -, hlabel⟩ := List.mem_flatMap.mp hl
      exact not_mem_labelsOf l.kind "a" List.mem_cons_self hlabel
  rw [chains, List.filter_append, haudio, hvideo, List.append_nil]

/-- With one layer of a kind at most, no label is defined twice. -/
theorem nodup_outputs (h : (g.layers.map Layer.kind).Nodup) :
    (g.chains.map Chain.output).Nodup := by
  refine List.Nodup.sublist g.outputs_sublist ?_
  have hlayers := nodup_flatMap_labelsOf h
  rw [List.flatMap_map] at hlayers
  have hfixed : ∀ x ∈ ["a", "v"], x ∉ g.layers.flatMap fun l => labelsOf l.kind := by
    intro x hx hm
    obtain ⟨l, -, hl⟩ := List.mem_flatMap.mp hm
    exact not_mem_labelsOf l.kind x hx hl
  rw [List.nodup_cons, List.nodup_cons]
  refine ⟨?_, hfixed "v" (by decide), hlayers⟩
  rw [List.mem_cons, not_or]
  exact ⟨by decide, hfixed "a" (by decide)⟩

/-- **A graph with one layer of a kind at most is well wired.** -/
theorem wellWired (h : (g.layers.map Layer.kind).Nodup) : WellWired g.chains g.targets :=
  wellWired_of_perm (nodup_outputs h) g.ordered_chains g.links_conserved

/-! ## Maps -/

theorem videoTarget_eq {ref : StreamRef} (hv : g.video = some ref) :
    ∃ target, g.videoTarget = some target ∧
      (target = .stream ref ∨ ∃ c ∈ g.videoChains, target = .link c.output) := by
  have hlinks := g.links_video
  have hstream : ∀ below : LinkSource, (below = .stream ref ∨ ∃ label, below = .link label) →
      (composite (callsOf g.tail) below g.layers).2 = .stream ref ∨
        ∃ label, (composite (callsOf g.tail) below g.layers).2 = .link label := by
    intro below hb
    by_cases hl : g.layers = []
    · rw [hl]
      exact hb
    · exact .inr (exists_link_composite hl)
  have hcases : ∃ target, g.videoTarget = some target ∧
      (target = .stream ref ∨ ∃ label, target = .link label) := by
    rw [videoTarget, hv]
    refine ⟨_, rfl, ?_⟩
    split
    · refine hstream _ ?_
      unfold mainSource
      split
      · exact .inl rfl
      · exact .inr ⟨_, rfl⟩
    · exact .inl rfl
  obtain ⟨target, ht, h | ⟨label, rfl⟩⟩ := hcases
  · exact ⟨target, ht, .inl h⟩
  · -- a label among the maps is one that the chains define
    have hm : label ∈ g.videoChains.map Chain.output := by
      rw [← hlinks, ht]
      exact mem_links.mpr (List.mem_append_right _ List.mem_cons_self)
    obtain ⟨c, hc, ho⟩ := List.mem_map.mp hm
    exact ⟨_, ht, .inr ⟨c, hc, congrArg LinkSource.link ho.symm⟩⟩

theorem audioSource_eq {ref : StreamRef} (ha : g.audio = some ref) :
    ∃ target, g.audioSource = some target ∧
      (target = .stream ref ∨ ∃ c ∈ g.audioChains, target = .link c.output) := by
  unfold audioSource audioChains
  rw [ha]
  refine ⟨_, rfl, ?_⟩
  dsimp only
  split
  · exact .inl rfl
  · exact .inr ⟨_, List.mem_cons_self, rfl⟩

/-- A graph whose filters all make calls. -/
def Effective (g : Graph) : Prop := ∀ v ∈ g.videoFilters ++ g.tail, v.calls ≠ []

theorem callsOf_ne_nil {filters : List VideoFilter} (hne : filters ≠ [])
    (h : ∀ v ∈ filters, v.calls ≠ []) : callsOf filters ≠ [] := by
  cases filters with
  | nil => exact absurd rfl hne
  | cons v rest =>
    rw [callsOf, List.flatMap_cons]
    exact List.append_ne_nil_of_left_ne_nil (h v List.mem_cons_self) _

theorem exists_link_videoTarget (h : g.Effective) (hf : g.hasVideoFilters = true)
    (ref : StreamRef) :
    ∃ label, (composite (callsOf g.tail) (g.mainSource ref) g.layers).2 = .link label := by
  by_cases hl : g.layers = []
  · have hcalls : g.mainCalls ≠ [] := by
      have hne : g.videoFilters ++ g.tail ≠ [] := by
        intro he
        obtain ⟨hv, ht⟩ := List.append_eq_nil_iff.mp he
        rw [hasVideoFilters, hv, hl, ht] at hf
        cases hf
      have hall := callsOf_ne_nil hne h
      rw [callsOf, List.flatMap_append] at hall
      rw [mainCalls, hl]
      exact hall
    rw [hl]
    exact ⟨"v", if_neg (by simpa using hcalls)⟩
  · exact exists_link_composite hl

theorem videoMap_eq (h : g.Effective) : g.videoMap = g.videoTarget.map LinkSource.mapText := by
  unfold videoMap videoTarget
  cases g.video with
  | none => rfl
  | some ref =>
    cases hf : g.hasVideoFilters with
    | false => rfl
    | true =>
      obtain ⟨label, hlabel⟩ := exists_link_videoTarget h hf ref
      simp only [if_true, Option.map_some, hlabel]
      rfl

/-- **The maps**: streams without brackets, and labels in them. -/
theorem maps_eq (h : g.Effective) : g.maps = g.targets.map LinkSource.mapText := by
  have hsubtitle : g.subtitleMap = (g.subtitle.map LinkSource.stream).map LinkSource.mapText := by
    rw [Option.map_map]
    rfl
  rw [maps, videoMap_eq h, hsubtitle, audioMap, targets]
  simp only [List.map_append, Option.toList_map]

end Graph

end Playout
