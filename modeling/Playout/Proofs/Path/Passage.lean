import Playout.Plan.MainPath
import Playout.Proofs.Filter.Picture

/-!
# Passages

A **passage** is a filter with the frames it gets.  The stages of a main path add their filters
one after the other, each for the frames that the stages before it leave.

* `compose_eq`: composing a path is running its stages: `emitted` are the filters and
  `advanceAll` the frames after them.
* `forall_passages_emitted_cons`: what holds of all passages is settled stage by stage.
* `uploads_add_isHardware`: uploads and downloads balance with the memory the frames start and
  end in.
-/

namespace Playout

namespace VideoFilter

/-- Filters that run one after the other, each with the frames it gets. -/
def passages : List VideoFilter → Frame → List (Frame × VideoFilter)
  | [], _ => []
  | v :: rest, f => (f, v) :: passages rest (v.next f)

def rises (f g : Frame) : Bool := !f.isHardware && g.isHardware

def falls (f g : Frame) : Bool := f.isHardware && !g.isHardware

def uploads (vs : List VideoFilter) (f : Frame) : Nat :=
  (passages vs f).countP fun x => rises x.1 (x.2.next x.1)

def downloads (vs : List VideoFilter) (f : Frame) : Nat :=
  (passages vs f).countP fun x => falls x.1 (x.2.next x.1)

theorem uploads_cons (v : VideoFilter) (vs : List VideoFilter) (f : Frame) :
    uploads (v :: vs) f = (rises f (v.next f)).toNat + uploads vs (v.next f) := by
  rw [uploads, passages, List.countP_cons, Nat.add_comm]
  cases rises f (v.next f) <;> rfl

theorem downloads_cons (v : VideoFilter) (vs : List VideoFilter) (f : Frame) :
    downloads (v :: vs) f = (falls f (v.next f)).toNat + downloads vs (v.next f) := by
  rw [downloads, passages, List.countP_cons, Nat.add_comm]
  cases falls f (v.next f) <;> rfl

/-- **The balance of moves.**  What goes up and does not come down again ends up there. -/
theorem uploads_add_isHardware (vs : List VideoFilter) (f : Frame) :
    uploads vs f + f.isHardware.toNat = downloads vs f + (nextAll vs f).isHardware.toNat := by
  induction vs generalizing f with
  | nil => rfl
  | cons v rest ih =>
    have h := ih (v.next f)
    rw [uploads_cons, downloads_cons, nextAll_cons]
    cases hf : f.isHardware <;> cases hg : (v.next f).isHardware <;>
      simp only [rises, falls, hf, hg, Bool.not_true, Bool.not_false, Bool.and_true,
        Bool.and_false, Bool.toNat_true, Bool.toNat_false] at h ⊢ <;> omega

theorem isHardware_congr {f g : Frame} (h : f.picture = g.picture) :
    f.isHardware = g.isHardware := by
  rw [Frame.isHardware, Frame.isHardware, show f.memory = g.memory from congrArg Picture.memory h]

theorem uploads_congr {f g : Frame} (h : f.picture = g.picture) (vs : List VideoFilter) :
    uploads vs f = uploads vs g := by
  induction vs generalizing f g with
  | nil => rfl
  | cons v rest ih =>
    have hn := v.picture_next_congr h
    rw [uploads_cons, uploads_cons, ih hn, rises, rises, isHardware_congr h,
      isHardware_congr hn]

theorem downloads_congr {f g : Frame} (h : f.picture = g.picture) (vs : List VideoFilter) :
    downloads vs f = downloads vs g := by
  have hf := uploads_add_isHardware vs f
  have hg := uploads_add_isHardware vs g
  rw [uploads_congr h, isHardware_congr h, isHardware_congr (picture_nextAll_congr h vs)] at hf
  omega

/-- What a passage's picture decides holds along both of two runs from one picture. -/
theorem forall_passages_congr {P : Frame → VideoFilter → Prop}
    (hP : ∀ f g v, f.picture = g.picture → P f v → P g v) {f g : Frame}
    (h : f.picture = g.picture) (vs : List VideoFilter)
    (hf : ∀ x ∈ passages vs f, P x.1 x.2) : ∀ x ∈ passages vs g, P x.1 x.2 := by
  induction vs generalizing f g with
  | nil => simp [passages]
  | cons v rest ih =>
    simp only [passages, List.mem_cons, forall_eq_or_imp] at hf ⊢
    exact ⟨hP f g v h hf.1, ih (v.picture_next_congr h) hf.2⟩

end VideoFilter

/-! ## Stages -/

/-- A stage looks at frames and adds a filter for them, or none. -/
abbrev Stage := Frame → Option VideoFilter

namespace Stage

open VideoFilter

def advance (s : Stage) (f : Frame) : Frame :=
  match s f with
  | some v => v.next f
  | none => f

def advanceAll (stages : List Stage) (f : Frame) : Frame :=
  stages.foldl (fun f s => advance s f) f

def emitted : List Stage → Frame → List VideoFilter
  | [], _ => []
  | s :: rest, f => (s f).toList ++ emitted rest (advance s f)

@[simp] theorem advanceAll_nil (f : Frame) : advanceAll [] f = f := rfl

@[simp] theorem advanceAll_cons (s : Stage) (rest : List Stage) (f : Frame) :
    advanceAll (s :: rest) f = advanceAll rest (advance s f) := rfl

theorem advanceAll_append (a b : List Stage) (f : Frame) :
    advanceAll (a ++ b) f = advanceAll b (advanceAll a f) := by
  simp [advanceAll]

theorem advance_some {s : Stage} {f : Frame} {v : VideoFilter} (h : s f = some v) :
    advance s f = v.next f := by
  rw [advance, h]

theorem advance_none {s : Stage} {f : Frame} (h : s f = none) : advance s f = f := by
  rw [advance, h]

theorem emitted_append (a b : List Stage) (f : Frame) :
    emitted (a ++ b) f = emitted a f ++ emitted b (advanceAll a f) := by
  induction a generalizing f with
  | nil => rfl
  | cons s rest ih => simp [emitted, ih]

/-- Running the filters that stages add brings the frames through the stages. -/
theorem nextAll_emitted (stages : List Stage) (f : Frame) :
    nextAll (emitted stages f) f = advanceAll stages f := by
  induction stages generalizing f with
  | nil => rfl
  | cons s rest ih =>
    rw [emitted, nextAll_append, advanceAll_cons, ← ih]
    cases hs : s f with
    | none => rw [advance_none hs]; rfl
    | some v => rw [advance_some hs]; rfl

theorem uploads_emitted_cons (s : Stage) (rest : List Stage) (f : Frame) :
    uploads (emitted (s :: rest) f) f =
      (rises f (advance s f)).toNat + uploads (emitted rest (advance s f)) (advance s f) := by
  cases hs : s f with
  | none => simp [emitted, hs, advance_none hs, rises]
  | some v => simp [emitted, hs, advance_some hs, uploads_cons]

theorem downloads_emitted_cons (s : Stage) (rest : List Stage) (f : Frame) :
    downloads (emitted (s :: rest) f) f =
      (falls f (advance s f)).toNat + downloads (emitted rest (advance s f)) (advance s f) := by
  cases hs : s f with
  | none => simp [emitted, hs, advance_none hs, falls]
  | some v => simp [emitted, hs, advance_some hs, downloads_cons]

theorem uploads_emitted_append (a b : List Stage) (f : Frame) :
    uploads (emitted (a ++ b) f) f =
      uploads (emitted a f) f + uploads (emitted b (advanceAll a f)) (advanceAll a f) := by
  induction a generalizing f with
  | nil => exact (Nat.zero_add _).symm
  | cons s rest ih =>
    rw [List.cons_append, uploads_emitted_cons, ih, uploads_emitted_cons, advanceAll_cons,
      Nat.add_assoc]

theorem downloads_emitted_append (a b : List Stage) (f : Frame) :
    downloads (emitted (a ++ b) f) f =
      downloads (emitted a f) f + downloads (emitted b (advanceAll a f)) (advanceAll a f) := by
  induction a generalizing f with
  | nil => exact (Nat.zero_add _).symm
  | cons s rest ih =>
    rw [List.cons_append, downloads_emitted_cons, ih, downloads_emitted_cons, advanceAll_cons,
      Nat.add_assoc]

theorem forall_passages_emitted_cons {P : Frame → VideoFilter → Prop} {s : Stage}
    {rest : List Stage} {f : Frame} :
    (∀ x ∈ passages (emitted (s :: rest) f) f, P x.1 x.2) ↔
      (∀ v, s f = some v → P f v) ∧
        ∀ x ∈ passages (emitted rest (advance s f)) (advance s f), P x.1 x.2 := by
  cases hs : s f with
  | none => simp [emitted, hs, advance_none hs]
  | some v => simp [emitted, hs, advance_some hs, passages]

theorem forall_passages_emitted_append {P : Frame → VideoFilter → Prop} {a b : List Stage}
    {f : Frame} :
    (∀ x ∈ passages (emitted (a ++ b) f) f, P x.1 x.2) ↔
      (∀ x ∈ passages (emitted a f) f, P x.1 x.2) ∧
        ∀ x ∈ passages (emitted b (advanceAll a f)) (advanceAll a f), P x.1 x.2 := by
  induction a generalizing f with
  | nil => simp [emitted, passages]
  | cons s rest ih =>
    rw [List.cons_append, forall_passages_emitted_cons, ih, forall_passages_emitted_cons,
      advanceAll_cons, and_assoc]

/-- What holds of every filter that some stage adds, with the frames it is added for, holds of all
passages. -/
theorem forall_passages_emitted {P : Frame → VideoFilter → Prop} {stages : List Stage}
    (h : ∀ s ∈ stages, ∀ f v, s f = some v → P f v) (f : Frame) :
    ∀ x ∈ passages (emitted stages f) f, P x.1 x.2 := by
  induction stages generalizing f with
  | nil => exact List.forall_mem_nil _
  | cons s rest ih =>
    exact forall_passages_emitted_cons.mpr ⟨h s List.mem_cons_self f,
      ih (fun t ht => h t (List.mem_cons_of_mem s ht)) _⟩

end Stage

open Stage in
theorem MainPath.foldl_step (stages : List Stage) (m : MainPath) :
    stages.foldl step m = ⟨m.filters ++ emitted stages m.frame, advanceAll stages m.frame⟩ := by
  induction stages generalizing m with
  | nil => simp [emitted]
  | cons s rest ih =>
    rw [List.foldl_cons, ih, advanceAll_cons, emitted]
    cases hs : s m.frame with
    | none => simp [step, hs, advance_none hs]
    | some v => simp [step, hs, advance_some hs]

open Stage in
/-- **Composing a path runs its stages.** -/
theorem MainPath.compose_eq (p : PathPlan) (f : Frame) :
    compose p f = ⟨emitted p.stages f, advanceAll p.stages f⟩ := by
  rw [compose, foldl_step, List.nil_append]

namespace PathPlan

/-- The stages of the main path with the upload that follows the layers. -/
def wholeStages (p : PathPlan) : List Stage :=
  p.stages ++ [finalUpload? p.backend p.encoder]

theorem emitted_wholeStages (p : PathPlan) (f : Frame) :
    Stage.emitted p.wholeStages f =
      (MainPath.compose p f).filters
        ++ (finalUpload? p.backend p.encoder (MainPath.compose p f).frame).toList := by
  rw [wholeStages, Stage.emitted_append, MainPath.compose_eq]
  simp [Stage.emitted]

end PathPlan

end Playout
