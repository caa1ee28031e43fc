import Playout.Proofs.Plan.Assembly

/-!
# Choices that end on the host

A decoder or an encoder that runs on the host is the one that is chosen without accelerator, and
what cannot be decoded or encoded is refused with the same words.

* `Decoder.select_onHost`, `VideoEncoder.select_onHost`: the two choices.
* `Compilation.machinery_onHost`: both together, with the family of filters.
-/

namespace Playout

def Target.onHost (t : Target) : Target := { t with accelerator := .none }

def Request.onHost (r : Request) : Request := { r with target := r.target.onHost }

def Compilation.onHost (c : Compilation) : Compilation := { c with request := c.request.onHost }

/-! ## Decoders -/

namespace Decoder

/-- A format that its accelerator leaves to the host is decoded as without accelerator. -/
theorem ofFormat_none {format : VideoFormat} {tenBit : Bool} {a : Accelerator}
    {deinterlace : Bool} (h : (ofFormat format tenBit a deinterlace).isHardware = false) :
    ofFormat format tenBit .none deinterlace = ofFormat format tenBit a deinterlace := by
  cases a <;> cases format <;> cases tenBit <;> first | rfl | cases h

theorem isHardware_ofFormat_none (format : VideoFormat) (tenBit deinterlace : Bool) :
    (ofFormat format tenBit .none deinterlace).isHardware = false := by
  cases format <;> rfl

theorem isHardware_select_none {stream : VideoStream} {deinterlace : Bool} {d : Decoder}
    (h : select stream .none deinterlace = .ok d) : d.isHardware = false := by
  rcases select_eq_ok h with rfl | ⟨format, rfl⟩
  · rfl
  · exact isHardware_ofFormat_none _ _ _

theorem isHardware_select_still {stream : VideoStream} (hs : stream.stillImage = true)
    {a : Accelerator} {deinterlace : Bool} {d : Decoder}
    (h : select stream a deinterlace = .ok d) : d.isHardware = false := by
  unfold select at h
  split at h
  · rw [if_pos hs] at h
    cases h
    rfl
  · rw [if_pos (.inr (.inr (.inr hs)))] at h
    cases h
    rfl

theorem select_onHost {stream : VideoStream} {a : Accelerator} {deinterlace : Bool}
    (hcodec : VideoFormat.ofCodec? stream.codec = none → a = .none)
    (h : ∀ d, select stream a deinterlace = .ok d → d.isHardware = false) :
    select stream .none deinterlace = select stream a deinterlace := by
  unfold select at h ⊢
  cases hf : VideoFormat.ofCodec? stream.codec with
  | none => rw [hcodec hf]
  | some format =>
    simp only [hf] at h ⊢
    split
    · rfl
    · next hi =>
      rw [if_neg hi] at h
      rw [ofFormat_none (h _ rfl)]

/-- Only a codec without a name is refused, whatever the accelerator. -/
theorem exists_select_of_eq_ok {stream : VideoStream} {a b : Accelerator} {deinterlace : Bool}
    {d : Decoder} (h : select stream a deinterlace = .ok d) :
    ∃ d', select stream b deinterlace = .ok d' := by
  unfold select at h ⊢
  cases hf : VideoFormat.ofCodec? stream.codec with
  | none =>
    simp only [hf] at h ⊢
    split at h
    · next hs => exact ⟨_, if_pos hs⟩
    · cases h
  | some format =>
    dsimp only
    split
    · exact ⟨_, rfl⟩
    · exact ⟨_, rfl⟩

end Decoder

/-! ## Encoders -/

namespace VideoEncoder

def Choice.onHost (c : Choice) : Choice := { c with accelerator := .none }

theorem granted_onHost (c : Choice) : c.onHost.granted = .none := ite_self _

theorem granted_eq_none {c : Choice} (hcopy : c.format ≠ .copy)
    (himplicit : c.format ≠ .undetermined)
    (h : ∀ e, select c = .ok e → e.isHardware = false) : c.granted = .none := by
  rw [select_eq hcopy himplicit] at h
  by_cases hn : c.granted = .none ∧ softwareEncoder? c.format = none
  · exact hn.1
  · rw [if_neg hn] at h
    have hg : c.granted.isHardware = false := h _ rfl
    cases hx : c.granted with
    | none => rfl
    | _ => rw [hx] at hg; cases hg

theorem select_onHost {c : Choice} (h : ∀ e, select c = .ok e → e.isHardware = false) :
    select c.onHost = select c := by
  by_cases hcopy : c.format = .copy
  · rw [select_copy (c := c.onHost) hcopy, select_copy hcopy]
  by_cases himplicit : c.format = .undetermined
  · rw [select_undetermined (c := c.onHost) himplicit, select_undetermined himplicit]
  rw [select_eq (c := c.onHost) hcopy himplicit, select_eq hcopy himplicit, granted_onHost,
    granted_eq_none hcopy himplicit h]
  rfl

theorem isHardware_select_none {c : Choice} (hc : c.accelerator = .none) {e : VideoEncoder}
    (h : select c = .ok e) : e.isHardware = false := by
  rcases select_eq_ok h with rfl | rfl | ⟨a, s, rfl, ha, -⟩
  · rfl
  · rfl
  · have hn : a = .none := ha.elim (fun hx => hx.trans hc) id
    rw [hn]
    rfl

end VideoEncoder

/-! ## Both together -/

namespace Compilation

variable {c : Compilation}

theorem decodingAccelerator_onHost (c : Compilation) : c.onHost.decodingAccelerator = .none := by
  rcases c.onHost.decodingAccelerator_cases with h | h
  · exact h
  · exact h

theorem encodingAccelerator_onHost (c : Compilation) : c.onHost.encodingAccelerator = .none := by
  rcases c.onHost.encodingAccelerator_cases with h | h
  · exact h
  · exact h

theorem decodingAccelerator_eq_none (h : VideoFormat.ofCodec? c.request.video.stream.codec = none) :
    c.decodingAccelerator = .none := by
  rw [decodingAccelerator, h]

theorem encoderChoice_onHost (c : Compilation) :
    c.onHost.encoderChoice = c.encoderChoice.onHost := by
  rw [encoderChoice, encodingAccelerator_onHost]
  rfl

def decoderSelection (c : Compilation) : Except Failure Decoder :=
  Decoder.select c.request.video.stream c.decodingAccelerator c.request.target.deinterlace

theorem machinery_of_undecodable {x : Failure} (hd : c.decoderSelection = .error x) :
    c.machinery = .error x := by
  show (c.decoderSelection >>= _) = _
  rw [hd]
  rfl

theorem machinery_of_unencodable {x : Failure} {d : Decoder} (hd : c.decoderSelection = .ok d)
    (he : VideoEncoder.select c.encoderChoice = .error x) : c.machinery = .error x := by
  show (c.decoderSelection >>= fun _ => VideoEncoder.select c.encoderChoice >>= _) = _
  rw [hd, he]
  rfl

theorem machinery_of_selected {d : Decoder} {e : VideoEncoder} (hd : c.decoderSelection = .ok d)
    (he : VideoEncoder.select c.encoderChoice = .ok e) :
    c.machinery =
      .ok ⟨d, e, .ofPipeline c.request.target.accelerator d.isHardware e.isHardware⟩ := by
  show (c.decoderSelection >>= fun _ => VideoEncoder.select c.encoderChoice >>= _) = _
  rw [hd, he]
  rfl

theorem decoderSelection_onHost (h : ∀ d, c.decoderSelection = .ok d → d.isHardware = false) :
    c.onHost.decoderSelection = c.decoderSelection := by
  rw [decoderSelection, decodingAccelerator_onHost]
  exact Decoder.select_onHost (fun hf => decodingAccelerator_eq_none hf) h

theorem encoder_onHost
    (h : ∀ e, VideoEncoder.select c.encoderChoice = .ok e → e.isHardware = false) :
    VideoEncoder.select c.onHost.encoderChoice = VideoEncoder.select c.encoderChoice := by
  rw [encoderChoice_onHost]
  exact VideoEncoder.select_onHost h

/-- Machinery that is all on the host is what there is without accelerator; and what cannot be
decoded or encoded is refused with the same words. -/
theorem machinery_onHost (h : ∀ m, c.machinery = .ok m → m.usesHardware = false) :
    c.onHost.machinery = c.machinery := by
  cases hd : c.decoderSelection with
  | error x =>
    have hno := decoderSelection_onHost (c := c) fun d hx => by rw [hd] at hx; cases hx
    rw [machinery_of_undecodable hd, machinery_of_undecodable (hno.trans hd)]
  | ok d =>
    cases he : VideoEncoder.select c.encoderChoice with
    | error x =>
      -- the decoder may be another, but there is one, and the encoder is refused
      obtain ⟨d', hd'⟩ := Decoder.exists_select_of_eq_ok (b := c.onHost.decodingAccelerator) hd
      have hno := encoder_onHost (c := c) fun e hx => by rw [he] at hx; cases hx
      rw [machinery_of_unencodable hd he,
        machinery_of_unencodable (c := c.onHost) hd' (hno.trans he)]
    | ok e =>
      have hm := machinery_of_selected hd he
      obtain ⟨hdec, henc⟩ := Bool.or_eq_false_iff.mp (h _ hm)
      have hdno := decoderSelection_onHost (c := c) fun d' hx => by
        rw [hd] at hx
        cases hx
        exact hdec
      have heno := encoder_onHost (c := c) fun e' hx => by
        rw [he] at hx
        cases hx
        exact henc
      rw [hm, machinery_of_selected (hdno.trans hd) (heno.trans he)]
      dsimp only at hdec henc
      rw [hdec, henc]
      rfl

end Compilation

end Playout
