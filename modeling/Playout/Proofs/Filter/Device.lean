import Playout.Proofs.Filter.Family
import Playout.Graph.Wiring

/-!
# The device of a call

A filter of an accelerator runs on that accelerator's device and on no other, and so does an upload;
both are told by the name of the call, uploads of one name by their arguments.

* `Call.family?`: the family whose device a call needs, if it needs one.
* `Call.OnHost`: a call of a filter that needs none.
* `Call.Fits`: a call that needs no device but a family's; `Call.Works`: one that, beside, brings no
  frames down.
* `FilterWork.works_calls`, `Transfer.works_uploadCalls`: work and uploads of a family work on its
  device.
* `VideoFilter.fits_on`: so do filters with the moves that they need.
-/

namespace Playout

def Backend.deviceNames : Backend → List String
  | .software => []
  | .cuda => ["yadif_cuda", "libplacebo", "scale_cuda", "overlay_cuda", "hwupload_cuda"]
  | .qsv => ["deinterlace_qsv", "vpp_qsv", "scale_qsv", "overlay_qsv"]
  | .vaapi => ["deinterlace_vaapi", "hwmap", "tonemap_opencl", "scale_vaapi", "pad_vaapi",
      "overlay_vaapi"]

def hostNames : List String :=
  hostFamily ++ ["hwdownload", "overlay", "colorchannelmixer", "fade", "aresample", "loudnorm",
    "dynaudnorm", "apad"]

def Backend.ofName? (n : String) : Option Backend :=
  Backend.all.find? fun b => b.deviceNames.contains n

theorem Backend.eq_software {b : Backend} (h : b.isHardware = false) : b = .software := by
  cases b <;> first | rfl | cases h

def Argument.hasChoice (a : Argument) : Bool := a.value.toList.contains '|'

namespace Call

def isUpload (x : Call) : Bool := x.name == "hwupload" || x.name == "hwupload_cuda"

def isDownload (x : Call) : Bool := x.name == "hwdownload"

/-- Where an upload goes whose name does not say it: to the device that is set up, which VAAPI uses
as it is and QSV with frames of its own, or to one derived from CUDA's. -/
def uploadFamily : List Argument → Backend
  | [] => .vaapi
  | a :: _ => if a.key = some "extra_hw_frames" then .qsv else .cuda

/-- The family whose device a call needs.  Only before an upload to VAAPI a choice of formats is
left, the surface being one of them. -/
def family? (x : Call) : Option Backend :=
  if x.name = "hwupload" then some (uploadFamily x.arguments)
  else if x.name = "format" then
    if x.arguments.any Argument.hasChoice then some .vaapi else none
  else Backend.ofName? x.name

/-- A call of a filter that needs no device. -/
def OnHost (x : Call) : Prop := x.name ∈ hostNames ∧ x.family? = none

/-- A call that needs no device, or the device of a family. -/
def Fits (b : Backend) (x : Call) : Prop := x.OnHost ∨ x.family? = some b

/-- A call that fits a family and brings no frames down. -/
def Works (b : Backend) (x : Call) : Prop := x.Fits b ∧ x.isDownload = false

instance (x : Call) : Decidable x.OnHost := inferInstanceAs (Decidable (_ ∧ _))

instance (b : Backend) (x : Call) : Decidable (x.Fits b) := inferInstanceAs (Decidable (_ ∨ _))

instance (b : Backend) (x : Call) : Decidable (x.Works b) := inferInstanceAs (Decidable (_ ∧ _))

variable {b b' : Backend} {x : Call}

theorem family?_eq_ofName? (hu : x.name ≠ "hwupload") (hf : x.name ≠ "format") :
    x.family? = Backend.ofName? x.name := by
  rw [family?, if_neg hu, if_neg hf]

theorem family?_ne_software (x : Call) : x.family? ≠ some .software := by
  intro h
  unfold family? at h
  split at h
  · rw [Option.some.injEq] at h
    unfold uploadFamily at h
    split at h
    · cases h
    · split at h <;> cases h
  · split at h
    · split at h <;> cases h
    · have := List.find?_some h
      cases this

theorem isHardware_of_family? (h : x.family? = some b) : b.isHardware = true := by
  cases b with
  | software => exact absurd h x.family?_ne_software
  | cuda | qsv | vaapi => rfl

theorem isSome_family?_of_isUpload (h : x.isUpload = true) : x.family?.isSome = true := by
  rw [isUpload, Bool.or_eq_true, beq_iff_eq, beq_iff_eq] at h
  rcases h with h | h
  · rw [family?, if_pos h]
    rfl
  · rw [family?_eq_ofName? (by rw [h]; decide) (by rw [h]; decide), h]
    rfl

namespace Fits

theorem onHost (h : x.Fits .software) : x.OnHost := h.resolve_right x.family?_ne_software

theorem of_cases (hb : b' = b ∨ b' = .software) (h : x.Fits b') : x.Fits b := by
  rcases hb with rfl | rfl
  · exact h
  · exact .inl h.onHost

end Fits

theorem family?_congr {n : String} (args : List Argument) (hu : n ≠ "hwupload")
    (hf : n ≠ "format") : (⟨n, args⟩ : Call).family? = (⟨n, []⟩ : Call).family? := by
  rw [family?_eq_ofName? (x := ⟨n, args⟩) hu hf, family?_eq_ofName? (x := ⟨n, []⟩) hu hf]

/-- The name of a call settles where it works, unless it is an upload or a format. -/
theorem works_of_name {n : String} (args : List Argument) (hu : n ≠ "hwupload")
    (hf : n ≠ "format") (h : (⟨n, []⟩ : Call).Works b) : (⟨n, args⟩ : Call).Works b := by
  refine ⟨?_, h.2⟩
  rw [Fits, OnHost, family?_congr args hu hf]
  exact h.1

end Call

open Call

/-! ## Moves -/

namespace Transfer

theorem hasChoice_text (l : PixelLayout) : (place l.text).hasChoice = false := by
  cases l <;> decide

theorem hasChoice_surface (l : PixelLayout) : (place (l.text ++ "|vaapi")).hasChoice = true := by
  cases l <;> decide

/-- One format leaves no choice. -/
theorem works_formatCall (b : Backend) (p : PixelFormat) : (formatCall p).Works b := by
  refine ⟨.inl ⟨(by decide : "format" ∈ hostNames), ?_⟩, rfl⟩
  show (if [place p.text].any Argument.hasChoice then some Backend.vaapi else none) = none
  rw [List.any_cons, PixelFormat.text, hasChoice_text]
  rfl

theorem family?_surface (p : PixelFormat) :
    (⟨"format", [place (p.text ++ "|vaapi")]⟩ : Call).family? = some .vaapi := by
  show (if [place (p.text ++ "|vaapi")].any Argument.hasChoice then some Backend.vaapi
    else none) = _
  rw [List.any_cons, PixelFormat.text, hasChoice_surface]
  rfl

theorem works_uploadCalls (b : Backend) (requested : Option PixelFormat) :
    ∀ x ∈ uploadCalls b requested, x.Works b := by
  cases b with
  | software => exact List.forall_mem_nil _
  | cuda =>
    have hu : (⟨"hwupload_cuda", []⟩ : Call).Works .cuda := by decide
    cases requested with
    | none => exact List.forall_mem_singleton.mpr hu
    | some p =>
      exact List.forall_mem_cons.mpr ⟨works_formatCall _ p, List.forall_mem_singleton.mpr hu⟩
  | qsv =>
    exact List.forall_mem_cons.mpr
      ⟨works_formatCall _ _, List.forall_mem_singleton.mpr (by decide)⟩
  | vaapi =>
    exact List.forall_mem_cons.mpr
      ⟨⟨.inr (family?_surface _), rfl⟩, List.forall_mem_singleton.mpr (by decide)⟩

/-- The host fetches frames from every device. -/
theorem fits_downloadCalls (b : Backend) (source : PixelFormat) (target : Option PixelFormat) :
    ∀ x ∈ downloadCalls source target, x.Fits b := by
  rw [downloadCalls_eq]
  refine List.forall_mem_cons.mpr ⟨.inl (by decide), List.forall_mem_cons.mpr
    ⟨(works_formatCall b source).1, ?_⟩⟩
  intro x hx
  obtain ⟨t, -, rfl⟩ := Option.map_eq_some_iff.mp (Option.mem_toList.mp hx)
  exact (works_formatCall b t).1

/-- The move to a family's memory fits its device. -/
theorem fits_calls {b : Backend} {f : Frame} {m : Memory} {t : Transfer}
    (h : toward? b f m = some t) : ∀ x ∈ t.calls, x.Fits b := by
  unfold toward? at h
  split at h
  · split at h
    · cases h
      exact fun x hx => (works_uploadCalls b _ x hx).1
    · cases h
  · cases h
    exact fits_downloadCalls b (f.pixelFormat.getD .nv12) none
  · cases h

end Transfer

/-! ## Work -/

namespace FilterWork

theorem works_scaler (b : Backend) (args : List Argument) : (⟨scaler b, args⟩ : Call).Works b := by
  cases b <;> exact works_of_name args (by decide) (by decide) (by decide)

theorem works_tonemapCalls (algorithm : String) (p : PixelFormat) (b : Backend) :
    ∀ x ∈ tonemapCalls algorithm p b, x.Works b := by
  cases b with
  | software =>
    simp only [tonemapCalls, List.forall_mem_cons]
    exact ⟨by decide, works_of_name _ (by decide) (by decide) (by decide), by decide,
      Transfer.works_formatCall _ p, List.forall_mem_nil _⟩
  | cuda | vaapi =>
    simp only [tonemapCalls, List.forall_mem_cons]
    exact ⟨by decide, works_of_name _ (by decide) (by decide) (by decide), by decide,
      List.forall_mem_nil _⟩
  | qsv =>
    exact List.forall_mem_singleton.mpr (works_of_name _ (by decide) (by decide) (by decide))

/-- **Work of a family works on its device.** -/
theorem works_calls (b : Backend) (w : FilterWork) : ∀ x ∈ w.calls b, x.Works b := by
  cases w with
  | deinterlace => cases b <;> exact List.forall_mem_singleton.mpr (by decide)
  | tonemap algorithm p => exact works_tonemapCalls algorithm p b
  | scale r p square =>
    have hresize : ∀ x ∈ [resizeCall r p b], x.Works b :=
      List.forall_mem_singleton.mpr (works_scaler b _)
    cases square with
    | none => exact hresize
    | some byHeight =>
      have hset : (⟨"setsar", [place "1"]⟩ : Call).Works b := by cases b <;> decide
      exact List.forall_mem_cons.mpr
        ⟨works_scaler b _, List.forall_mem_cons.mpr ⟨hset, hresize⟩⟩
  | convert p =>
    refine List.forall_mem_singleton.mpr ?_
    cases b with
    | software => exact Transfer.works_formatCall _ p
    | qsv => exact works_of_name _ (by decide) (by decide) (by decide)
    | cuda => exact works_scaler .cuda _
    | vaapi => exact works_scaler .vaapi _
  | pad size =>
    refine List.forall_mem_singleton.mpr ?_
    cases b <;> exact works_of_name _ (by decide) (by decide) (by decide)
  | crop size | subtitles path index fonts =>
    refine List.forall_mem_singleton.mpr ?_
    cases b <;> exact works_of_name _ (by decide) (by decide) (by decide)

end FilterWork

/-! ## Filters -/

namespace VideoFilter

/-- **A filter fits the device of its family**, also where the host takes the family's place. -/
theorem fits_on {b b' : Backend} (hb : b' = b ∨ b' = .software) (f : Frame) (w : FilterWork) :
    ∀ x ∈ (on b' f w).calls, x.Fits b := by
  intro x hx
  refine Fits.of_cases hb ?_
  rcases List.mem_append.mp hx with hx | hx
  · unfold leadOf at hx
    cases ht : Transfer.toward? b' f b'.memory with
    | none =>
      rw [ht] at hx
      cases hx
    | some t =>
      rw [ht] at hx
      exact Transfer.fits_calls ht x hx
  · exact (w.works_calls b' x hx).1

/-- Filters of the host move no frames that lie there. -/
theorem works_on_software {f : Frame} (hf : f.memory = .software) (w : FilterWork) :
    ∀ x ∈ (on .software f w).calls, x.Works .software := by
  have hlead : leadOf .software f = none := Transfer.toward?_self _ hf
  intro x hx
  rw [on, hlead] at hx
  exact w.works_calls .software x hx

end VideoFilter

theorem AudioFilter.works_call (f : AudioFilter) (b : Backend) : f.call.Works b := by
  cases f <;> exact works_of_name _ (by decide) (by decide) ⟨.inl (by decide), rfl⟩

end Playout
