import Playout.Proofs.Filter.Device
import Playout.Proofs.Graph.Compositing
import Playout.Proofs.Plan.Machinery

/-!
# Side chains

What is laid over the main frames is first prepared on the host, then moved to where it is
composited, and scaled there.

* `Layer.PreparedFor`: a layer that is prepared for the compositing filter of a family.
* `Layer.preparedFor_watermark` and its siblings: the three makers of layers give such.
* `Lifted`: calls on the host, one upload, and scaling on the device.
* `PreparedFor.lifted`, `PreparedFor.works`: the calls for a device, and all calls.
* `Graph.exists_sideChain`, `Graph.head_of_mem_composites`: the chains of the layers.
* `Graph.forall_calls`: the calls of all chains are those of filters and layers.
-/

namespace Playout

open Call

namespace Layer

/-- A layer for the compositing filter of a family: what is done before the move needs no device,
what comes after is the family's scaling. -/
structure PreparedFor (b : Backend) (l : Layer) : Prop where
  overlay : l.overlay.name = overlayName b
  prepare : ∃ host device, l.prepare = host ++ uploadCalls b ++ device ∧
    (∀ x ∈ host, x.Works .software) ∧ ∀ x ∈ device, x.name = FilterWork.scaler b

variable {b : Backend} {l : Layer}

theorem works_alphaCall (b : Backend) : (alphaCall b).Works .software := by
  cases b <;> decide

/-- Moved as it is, a layer has its transparency in the format of the family's filter. -/
theorem exists_lift (b : Backend) {lead : List Call} (h : ∀ x ∈ lead, x.Works .software) :
    ∃ host device, lead ++ (if b.isHardware then alphaCall b :: uploadCalls b else []) =
        host ++ uploadCalls b ++ device ∧
      (∀ x ∈ host, x.Works .software) ∧ ∀ x ∈ device, x.name = FilterWork.scaler b := by
  cases hb : b.isHardware with
  | false =>
    rw [Backend.eq_software hb]
    exact ⟨lead, [], by simp [uploadCalls], h, List.forall_mem_nil _⟩
  | true =>
    refine ⟨lead ++ [alphaCall b], [], by simp, ?_, List.forall_mem_nil _⟩
    exact List.forall_mem_append.mpr ⟨h, List.forall_mem_singleton.mpr (works_alphaCall b)⟩

theorem preparedFor_pictureSubtitle (input : StreamRef) (b : Backend) (source padded : Size) :
    (pictureSubtitle input b source padded).PreparedFor b where
  overlay := rfl
  prepare := by
    refine exists_lift b ?_
    split
    · exact List.forall_mem_singleton.mpr
        (works_of_name _ (by decide) (by decide) (by decide))
    · exact List.forall_mem_nil _

theorem preparedFor_graphics (g : Graphics) (input : StreamRef) (b : Backend) (tenBit : Bool) :
    (graphics g input b tenBit).PreparedFor b where
  overlay := rfl
  prepare := exists_lift b (List.forall_mem_nil _)

theorem name_scaleCall (size : Size) (b : Backend) :
    (scaleCall size b).name = FilterWork.scaler b := by
  cases b <;> rfl

/-- A watermark is scaled where it is composited. -/
theorem preparedFor_watermark {w : Watermark} {input : StreamRef} {scaled padded : Size}
    (h : watermark w input b scaled padded = .ok l) : l.PreparedFor b := by
  unfold watermark at h
  obtain ⟨position, -, h⟩ := bind_eq_ok_iff.mp h
  cases h
  refine ⟨rfl, _, _, rfl, ?_, ?_⟩
  · rw [List.forall_mem_append, List.forall_mem_append]
    refine ⟨⟨?_, List.forall_mem_singleton.mpr (works_alphaCall b)⟩, ?_⟩
    · split
      · exact List.forall_mem_singleton.mpr
          (works_of_name _ (by decide) (by decide) (by decide))
      · exact List.forall_mem_nil _
    · intro x hx
      obtain ⟨p, -, rfl⟩ := List.mem_map.mp hx
      exact works_of_name _ (by decide) (by decide) (by decide)
  · split
    · exact List.forall_mem_singleton.mpr (name_scaleCall _ b)
    · exact List.forall_mem_nil _

end Layer

/-- Calls that need no device, then one upload to a family's device, then scaling there. -/
def Lifted (b : Backend) (calls : List Call) : Prop :=
  ∃ host upload device, calls = host ++ upload :: device ∧
    (upload.isUpload = true ∧ upload.family? = some b) ∧
    (∀ x ∈ host, x.isUpload = false ∧ x.OnHost) ∧
    ∀ x ∈ device, x.isUpload = false ∧ x.name = FilterWork.scaler b ∧ x.family? = some b

theorem Call.isUpload_eq_false {x : Call} (h : x.family? = none) : x.isUpload = false := by
  cases hu : x.isUpload with
  | false => rfl
  | true =>
    have := isSome_family?_of_isUpload hu
    rw [h] at this
    cases this

theorem Lifted.countP_isUpload {b : Backend} {calls : List Call} (h : Lifted b calls) :
    calls.countP Call.isUpload = 1 := by
  obtain ⟨host, upload, device, rfl, ⟨hu, -⟩, hh, hd⟩ := h
  have hhost : host.countP Call.isUpload = 0 :=
    List.countP_eq_zero.mpr fun x hx => by simp [(hh x hx).1]
  have hdevice : device.countP Call.isUpload = 0 :=
    List.countP_eq_zero.mpr fun x hx => by simp [(hd x hx).1]
  rw [List.countP_append, List.countP_cons, hhost, hdevice, hu]
  rfl

namespace Layer.PreparedFor

variable {b : Backend} {l : Layer}

theorem exists_upload (hb : b.isHardware = true) :
    ∃ u, Layer.uploadCalls b = [u] ∧ u.isUpload = true ∧ u.family? = some b := by
  cases b with
  | software => cases hb
  | cuda | qsv | vaapi => exact ⟨_, rfl, rfl, by decide⟩

theorem family?_scaler (hb : b.isHardware = true) {x : Call}
    (h : x.name = FilterWork.scaler b) : x.isUpload = false ∧ x.family? = some b := by
  obtain ⟨name, args⟩ := x
  cases h
  cases b with
  | software => cases hb
  | cuda | qsv | vaapi =>
    exact ⟨rfl, (family?_congr args (by decide) (by decide)).trans (by decide)⟩

/-- **A layer for a device** is prepared by calls on the host, one upload and scaling there. -/
theorem lifted (h : l.PreparedFor b) (hb : b.isHardware = true) : Lifted b l.prepare := by
  obtain ⟨host, device, hp, hh, hd⟩ := h.prepare
  obtain ⟨u, hu, hup, hfamily⟩ := exists_upload hb
  refine ⟨host, u, device, ?_, ⟨hup, hfamily⟩, ?_, ?_⟩
  · rw [hp, hu, List.append_assoc, List.singleton_append]
  · intro x hx
    have hn := (hh x hx).1.onHost
    exact ⟨isUpload_eq_false hn.2, hn⟩
  · intro x hx
    obtain ⟨hux, hfx⟩ := family?_scaler hb (hd x hx)
    exact ⟨hux, hd x hx, hfx⟩

/-- **All calls for a layer work on its family's device.** -/
theorem works (h : l.PreparedFor b) : ∀ x ∈ l.overlay :: l.prepare, x.Works b := by
  have hname : ∀ {x : Call} {n : String}, x.name = n → n ≠ "hwupload" → n ≠ "format" →
      (⟨n, []⟩ : Call).Works b → x.Works b := by
    rintro ⟨name, args⟩ n rfl hu hf hw
    exact works_of_name args hu hf hw
  obtain ⟨host, device, hp, hh, hd⟩ := h.prepare
  have hupload : ∀ x ∈ Layer.uploadCalls b, x.Works b := by
    cases b with
    | software => exact List.forall_mem_nil _
    | cuda | qsv | vaapi => exact List.forall_mem_singleton.mpr (by decide)
  rw [hp]
  refine List.forall_mem_cons.mpr ⟨?_, List.forall_mem_append.mpr
    ⟨List.forall_mem_append.mpr ⟨fun x hx => ?_, hupload⟩, fun x hx => ?_⟩⟩
  · cases b <;> exact hname h.overlay (by decide) (by decide) (by decide)
  · exact ⟨(hh x hx).1.of_cases (.inr rfl), (hh x hx).2⟩
  · cases b <;> exact hname (hd x hx) (by decide) (by decide) (by decide)

end Layer.PreparedFor

namespace Graph

variable {g : Graph} {video : StreamRef}

theorem exists_sideChain (hv : g.video = some video) {l : Layer} (hl : l ∈ g.layers)
    (hne : l.prepare ≠ []) : ∃ x ∈ g.chains, sideChains l = [x] ∧ x.calls = l.prepare := by
  refine ⟨_, sideChain_mem hv hl hne, ?_, rfl⟩
  rw [sideChains, List.isEmpty_eq_false_iff.mpr hne]
  rfl

theorem calls_of_mem_sideChains {l : Layer} {x : Chain} (hx : x ∈ sideChains l) :
    x.calls = l.prepare := by
  unfold sideChains at hx
  split at hx
  · cases hx
  · rw [List.mem_singleton.mp hx]

theorem forall_calls_composite {P : Call → Prop} {tail : List Call} {below : LinkSource}
    {layers : List Layer} (ht : ∀ x ∈ tail, P x)
    (hl : ∀ l ∈ layers, ∀ x ∈ l.overlay :: l.prepare, P x) :
    ∀ x ∈ (composite tail below layers).1, ∀ y ∈ x.calls, P y := by
  induction layers generalizing below with
  | nil => exact List.forall_mem_nil _
  | cons l rest ih =>
    obtain ⟨hoverlay, hprepare⟩ := List.forall_mem_cons.mp (hl l List.mem_cons_self)
    have htail : ∀ y ∈ (if rest.isEmpty then tail else []), P y := by
      split
      · exact ht
      · exact List.forall_mem_nil _
    rw [composite_cons]
    refine List.forall_mem_append.mpr ⟨fun x hx => ?_, List.forall_mem_cons.mpr
      ⟨List.forall_mem_cons.mpr ⟨hoverlay, htail⟩,
        ih fun m hm => hl m (List.mem_cons_of_mem l hm)⟩⟩
    rw [calls_of_mem_sideChains hx]
    exact hprepare

theorem calls_of_mem_mainChains {x : Chain} (hx : x ∈ g.mainChains video) :
    x.calls = g.mainCalls := by
  unfold mainChains at hx
  split at hx
  · cases hx
  · rw [List.mem_singleton.mp hx]

theorem calls_of_mem_audioChains {x : Chain} (hx : x ∈ g.audioChains) :
    x.calls = g.audioFilters.map AudioFilter.call := by
  unfold audioChains at hx
  split at hx
  · split at hx
    · cases hx
    · rw [List.mem_singleton.mp hx]
  · cases hx

/-- **All calls of a graph** are those of its filters and layers. -/
theorem forall_calls {P : Call → Prop} (hv : g.video = some video)
    (haudio : ∀ f ∈ g.audioFilters, P f.call)
    (hfilters : ∀ v ∈ g.videoFilters ++ g.tail, ∀ x ∈ v.calls, P x)
    (hlayers : ∀ l ∈ g.layers, ∀ x ∈ l.overlay :: l.prepare, P x) :
    ∀ x ∈ g.chains, ∀ y ∈ x.calls, P y := by
  have hcalls : ∀ {vs : List VideoFilter}, vs ⊆ g.videoFilters ++ g.tail →
      ∀ y ∈ callsOf vs, P y := by
    intro vs hsub y hy
    obtain ⟨v, hvs, hy⟩ := List.mem_flatMap.mp hy
    exact hfilters v (hsub hvs) y hy
  have htail := hcalls (List.subset_append_right g.videoFilters g.tail)
  have hmain : ∀ y ∈ g.mainCalls, P y := by
    unfold mainCalls
    refine List.forall_mem_append.mpr ⟨hcalls (List.subset_append_left _ _), ?_⟩
    split
    · exact htail
    · exact List.forall_mem_nil _
  rw [chains, videoChains_eq hv]
  refine List.forall_mem_append.mpr ⟨fun x hx => ?_, List.forall_mem_append.mpr
    ⟨fun x hx => ?_, forall_calls_composite htail hlayers⟩⟩
  · rw [calls_of_mem_audioChains hx]
    exact List.forall_mem_map.mpr haudio
  · rw [calls_of_mem_mainChains hx]
    exact hmain

theorem head_of_mem_composites {layers : List Layer} (hc : g.Composited video layers) {x : Chain}
    (hx : x ∈ g.composites) : ∃ l ∈ g.layers, x.calls.head? = some l.overlay := by
  have hmem : (x.output, x.calls.head?, x.inputs.tail) ∈
      g.composites.map fun c => (c.output, c.calls.head?, c.inputs.tail) :=
    List.mem_map_of_mem hx
  rw [hc.composites] at hmem
  obtain ⟨l, hl, he⟩ := List.mem_map.mp hmem
  obtain ⟨-, hrest⟩ := Prod.mk.inj he
  exact ⟨l, hl, (Prod.mk.inj hrest).1.symm⟩

end Graph

end Playout
