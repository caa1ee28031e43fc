import Playout.Proofs.Item.Fitting

/-!
# Proportions

A scaled picture keeps the proportions of its source as far as a whole number of pixels, an even
one, can keep them, and no number that is met on the way to its size takes more than 64 bits.

* `FitsSide`, `CoversSide`: what the side that is computed has to do.
* `Size.fitsClosely_fitWithin`, `Size.coversClosely_cover`: fitting and covering do it.
* `Target.scaledSize?`: the size computed with numbers of 64 bits, or none where one overflows;
  `Target.scaledSize?_eq`: it always is the size in the desired state.
* `Target.desired_proportioned`: the scaled size of every desired state.
-/

namespace Playout

/-! ## Sides -/

/-- An even side of two pixels at least.  It is no longer than `extent / unit`, unless it has just
two pixels, and with two pixels more it is longer. -/
structure FitsSide (side : UInt32) (extent unit : Nat) : Prop where
  even : side.toNat % 2 = 0
  two_le : 2 ≤ side.toNat
  le : side.toNat * unit ≤ extent ∨ side.toNat = 2
  lt : extent < (side.toNat + 2) * unit

/-- The least even number that is `extent / unit` at least. -/
structure IsLeastEven (n extent unit : Nat) : Prop where
  even : n % 2 = 0
  le : extent ≤ n * unit
  least : ∀ m, m % 2 = 0 → extent ≤ m * unit → n ≤ m

/-- The side has that number of pixels if 32 bits can hold it, and then it covers the target's;
otherwise what 32 bits hold of the number. -/
def CoversSide (side target : UInt32) (extent unit : Nat) : Prop :=
  ∃ n, IsLeastEven n extent unit ∧ side.toNat = n % UInt32.size ∧
    (n < UInt32.size → side.toNat = n ∧ target.toNat ≤ side.toNat)

section

variable {extent unit : Nat}

theorem fitsSide_evenDown {target : Nat} (hunit : 0 < unit) (ht : target < UInt32.size)
    (h : extent ≤ target * unit) :
    FitsSide (evenDown (extent / unit)) extent unit ∧
      (evenDown (extent / unit)).toNat ≤ max 2 target := by
  have hq : extent / unit ≤ target := Nat.div_le_of_le_mul (by rwa [Nat.mul_comm])
  have hside := toNat_evenDown (Nat.lt_of_le_of_lt hq ht)
  have hmul : extent / unit * unit ≤ extent := Nat.div_mul_le_self extent unit
  have hlt : extent < (extent / unit + 1) * unit :=
    (Nat.div_lt_iff_lt_mul hunit).mp (Nat.lt_succ_self _)
  refine ⟨⟨by omega, by omega, ?_, ?_⟩, by omega⟩
  · by_cases htwo : (evenDown (extent / unit)).toNat = 2
    · exact .inr htwo
    · exact .inl (Nat.le_trans (Nat.mul_le_mul_right unit (by omega)) hmul)
  · exact Nat.lt_of_lt_of_le hlt (Nat.mul_le_mul_right unit (by omega))

theorem le_ceil_iff (hunit : 0 < unit) (m : Nat) :
    (extent + unit - 1) / unit ≤ m ↔ extent ≤ m * unit := by
  rw [← Nat.lt_succ_iff, Nat.div_lt_iff_lt_mul hunit, Nat.succ_mul]
  omega

theorem isLeastEven_ceil (hunit : 0 < unit) :
    IsLeastEven ((extent + unit - 1) / unit + (extent + unit - 1) / unit % 2) extent unit where
  even := by omega
  le := (le_ceil_iff hunit _).mp (Nat.le_add_right _ _)
  least := by
    intro m hm h
    have hle := (le_ceil_iff hunit m).mpr h
    omega

theorem coversSide_evenUp {target : UInt32} (hunit : 0 < unit) (h : target.toNat * unit ≤ extent) :
    CoversSide (evenUp ((extent + unit - 1) / unit)) target extent unit := by
  have hleast : IsLeastEven _ extent unit := isLeastEven_ceil hunit
  refine ⟨_, hleast, toNat_evenUp _, fun hlt => ?_⟩
  have hside : (evenUp ((extent + unit - 1) / unit)).toNat = _ :=
    (toNat_evenUp _).trans (Nat.mod_eq_of_lt hlt)
  rw [hside]
  exact ⟨rfl, Nat.le_of_mul_le_mul_right (Nat.le_trans h hleast.le) hunit⟩

end

/-! ## Sizes -/

namespace Size

variable {source target : Size}

/-- The scaled picture has a side of the target's, and its other side fits closely; it exceeds the
target only where that side has two pixels. -/
structure FitsClosely (source target scaled : Size) : Prop where
  sides :
    if source.width.toNat * target.height.toNat ≤ target.width.toNat * source.height.toNat then
      scaled.height = target.height ∧
        FitsSide scaled.width (source.width.toNat * target.height.toNat) source.height.toNat
    else
      scaled.width = target.width ∧
        FitsSide scaled.height (source.height.toNat * target.width.toNat) source.width.toNat
  width_le : scaled.width.toNat ≤ max 2 target.width.toNat
  height_le : scaled.height.toNat ≤ max 2 target.height.toNat

/-- The scaled picture has a side of the target's, and its other side covers closely. -/
def CoversClosely (source target scaled : Size) : Prop :=
  if target.width.toNat * source.height.toNat ≤ source.width.toNat * target.height.toNat then
    scaled.height = target.height ∧
      CoversSide scaled.width target.width (source.width.toNat * target.height.toNat)
        source.height.toNat
  else
    scaled.width = target.width ∧
      CoversSide scaled.height target.height (source.height.toNat * target.width.toNat)
        source.width.toNat

theorem fitsClosely_fitWithin (hs : source.isEmpty = false) (target : Size) :
    source.FitsClosely target (source.fitWithin target) := by
  obtain ⟨hw, hh⟩ := isEmpty_eq_false_iff.mp hs
  by_cases hle : source.width.toNat * target.height.toNat ≤
      target.width.toNat * source.height.toNat
  · obtain ⟨hfits, hmax⟩ := fitsSide_evenDown hh target.width.toNat_lt hle
    rw [fitWithin, if_pos hle]
    refine ⟨?_, hmax, Nat.le_max_right _ _⟩
    rw [if_pos hle]
    exact ⟨rfl, hfits⟩
  · have hle' : source.height.toNat * target.width.toNat ≤
        target.height.toNat * source.width.toNat := by
      rw [Nat.mul_comm, Nat.mul_comm target.height.toNat]
      omega
    obtain ⟨hfits, hmax⟩ := fitsSide_evenDown hw target.height.toNat_lt hle'
    rw [fitWithin, if_neg hle]
    refine ⟨?_, Nat.le_max_right _ _, hmax⟩
    rw [if_neg hle]
    exact ⟨rfl, hfits⟩

theorem coversClosely_cover (hs : source.isEmpty = false) (target : Size) :
    source.CoversClosely target (source.cover target) := by
  obtain ⟨hw, hh⟩ := isEmpty_eq_false_iff.mp hs
  unfold CoversClosely
  by_cases hle : target.width.toNat * source.height.toNat ≤
      source.width.toNat * target.height.toNat
  · rw [cover, if_pos hle, if_pos hle]
    exact ⟨rfl, coversSide_evenUp hh hle⟩
  · have hle' : target.height.toNat * source.width.toNat ≤
        source.height.toNat * target.width.toNat := by
      rw [Nat.mul_comm, Nat.mul_comm source.height.toNat]
      omega
    rw [cover, if_neg hle, if_neg hle]
    exact ⟨rfl, coversSide_evenUp hw hle'⟩

end Size

/-- What becomes of a picture that is scaled for a resolution. -/
def Scaling.Proportioned (s : Scaling) (picture resolution scaled : Size) : Prop :=
  match s with
  | .scaleAndPad => picture.FitsClosely resolution scaled
  | .stretch => scaled = resolution
  | .crop => picture.CoversClosely resolution scaled

/-! ## Numbers of 64 bits -/

/-- A number, if 64 bits can hold it. -/
def word? (n : Nat) : Option Nat := if n < UInt64.size then some n else none

/-- The quotient rounded up, where one more may be one too many. -/
def ceilDiv? (a b : Nat) : Option Nat := if 0 < a % b then word? (a / b + 1) else some (a / b)

namespace Size

def fitWithin? (source target : Size) : Option Size := do
  let wide ← word? (source.width.toNat * target.height.toNat)
  let high ← word? (target.width.toNat * source.height.toNat)
  if wide ≤ high then return ⟨evenDown (wide / source.height.toNat), target.height⟩
  else
    let extent ← word? (source.height.toNat * target.width.toNat)
    return ⟨target.width, evenDown (extent / source.width.toNat)⟩

def cover? (source target : Size) : Option Size := do
  let wide ← word? (source.width.toNat * target.height.toNat)
  let high ← word? (target.width.toNat * source.height.toNat)
  if high ≤ wide then
    let n ← ceilDiv? wide source.height.toNat
    let side ← word? (n + n % 2)
    return ⟨UInt32.ofNat side, target.height⟩
  else
    let extent ← word? (source.height.toNat * target.width.toNat)
    let n ← ceilDiv? extent source.width.toNat
    let side ← word? (n + n % 2)
    return ⟨target.width, UInt32.ofNat side⟩

end Size

def AspectRatio.stretch? (r : AspectRatio) (side : UInt32) : Option UInt32 := do
  let extent ← word? (side.toNat * r.num.toNat)
  return UInt32.ofNat (extent / r.den.toNat)

def VideoStream.squareSize? (s : VideoStream) : Option Size :=
  match s.aspectRatio with
  | none => some s.frameSize
  | some r =>
    if r.isSquare then some s.frameSize
    else if s.anamorphicEdgeCase then
      (r.stretch? s.frameSize.height).map fun h => { s.frameSize with height := h }
    else (r.stretch? s.frameSize.width).map fun w => { s.frameSize with width := w }

/-- The size a source is scaled to, if no number on the way to it takes more than 64 bits. -/
def Target.scaledSize? (t : Target) (source : VideoStream) : Option Size := do
  let picture ← source.squareSize?
  if picture.isEmpty then return t.resolution
  else match t.scaling with
    | .scaleAndPad => picture.fitWithin? t.resolution
    | .stretch => return t.resolution
    | .crop => picture.cover? t.resolution

theorem word?_of_lt {n : Nat} (h : n < UInt64.size) : word? n = some n := if_pos h

theorem mul_toNat_lt (a b : UInt32) : a.toNat * b.toNat + 1 < UInt64.size := by
  have hle : a.toNat * b.toNat ≤ 4294967295 * 4294967295 :=
    Nat.mul_le_mul (Nat.le_of_lt_succ a.toNat_lt) (Nat.le_of_lt_succ b.toNat_lt)
  have hsize : 4294967295 * 4294967295 + 1 < UInt64.size := by decide
  omega

/-- A product of two sides takes 64 bits at most. -/
@[simp] theorem word?_mul (a b : UInt32) : word? (a.toNat * b.toNat) = some (a.toNat * b.toNat) :=
  word?_of_lt (Nat.lt_of_succ_lt (mul_toNat_lt a b))

theorem ceil_eq (a : Nat) {b : Nat} (hb : 0 < b) :
    (a + b - 1) / b = if 0 < a % b then a / b + 1 else a / b := by
  have hdiv : a / b * b + a % b = a := by rw [Nat.mul_comm]; exact Nat.div_add_mod a b
  have hmod := Nat.mod_lt a hb
  have hsucc : (a / b + 1) * b = a / b * b + b := Nat.succ_mul _ _
  have hsucc' : (a / b + 1 + 1) * b = (a / b + 1) * b + b := Nat.succ_mul _ _
  split
  · exact Nat.div_eq_of_lt_le (by omega) (by omega)
  · exact Nat.div_eq_of_lt_le (by omega) (by omega)

theorem ceil_le (a b : Nat) : (a + b - 1) / b ≤ a := by
  cases b with
  | zero => simp
  | succ b =>
    refine (le_ceil_iff b.succ_pos a).mpr ?_
    exact Nat.le_mul_of_pos_right a b.succ_pos

theorem ceilDiv?_eq {a b : Nat} (hb : 0 < b) (ha : a < UInt64.size) :
    ceilDiv? a b = some ((a + b - 1) / b) := by
  have hle := ceil_le a b
  rw [ceil_eq a hb] at hle ⊢
  unfold ceilDiv?
  split
  · next h =>
    rw [if_pos h] at hle
    exact word?_of_lt (Nat.lt_of_le_of_lt hle ha)
  · rfl

/-- The side that covers an extent is found in 64 bits. -/
theorem evenUp_ceil? (a b : UInt32) {unit : Nat} (hunit : 0 < unit) :
    ((ceilDiv? (a.toNat * b.toNat) unit).bind fun n => (word? (n + n % 2)).map UInt32.ofNat) =
      some (evenUp ((a.toNat * b.toNat + unit - 1) / unit)) := by
  have hprod := mul_toNat_lt a b
  have hle := ceil_le (a.toNat * b.toNat) unit
  rw [ceilDiv?_eq hunit (Nat.lt_of_succ_lt hprod), Option.bind_some, word?_of_lt (by omega)]
  rfl

namespace Size

variable {source : Size}

theorem fitWithin?_eq (source target : Size) :
    source.fitWithin? target = some (source.fitWithin target) := by
  unfold fitWithin? fitWithin
  simp only [word?_mul, Option.bind_eq_bind, Option.bind_some, Option.pure_def]
  split
  · rfl
  · rfl

theorem cover?_eq (hs : source.isEmpty = false) (target : Size) :
    source.cover? target = some (source.cover target) := by
  obtain ⟨hw, hh⟩ := isEmpty_eq_false_iff.mp hs
  have hwide := evenUp_ceil? source.width target.height hh
  have hhigh := evenUp_ceil? source.height target.width hw
  unfold cover? cover
  simp only [word?_mul, Option.bind_eq_bind, Option.bind_some, Option.pure_def]
  split
  · obtain ⟨n, hn, hside⟩ := Option.bind_eq_some_iff.mp hwide
    obtain ⟨side, hword, heven⟩ := Option.map_eq_some_iff.mp hside
    rw [hn, Option.bind_some, hword, Option.bind_some, heven]
  · obtain ⟨n, hn, hside⟩ := Option.bind_eq_some_iff.mp hhigh
    obtain ⟨side, hword, heven⟩ := Option.map_eq_some_iff.mp hside
    rw [hn, Option.bind_some, hword, Option.bind_some, heven]

end Size

theorem AspectRatio.stretch?_eq (r : AspectRatio) (side : UInt32) :
    r.stretch? side = some (r.stretch side) := by
  simp [stretch?, stretch]

theorem VideoStream.squareSize?_eq (s : VideoStream) : s.squareSize? = some s.squareSize := by
  unfold squareSize? squareSize
  cases s.aspectRatio with
  | none => rfl
  | some r =>
    dsimp only
    split
    · rfl
    · split
      · rw [AspectRatio.stretch?_eq, Option.map_some]
      · rw [AspectRatio.stretch?_eq, Option.map_some]

namespace Target

variable {t : Target} {stream : VideoStream}

/-- **No number on the way to the scaled size takes more than 64 bits.** -/
theorem scaledSize?_eq (t : Target) (stream : VideoStream) (settings : Settings) :
    t.scaledSize? stream = some (t.frame stream settings).scaledSize := by
  show _ = some (t.scaling.sizes stream.squareSize t.resolution).1
  unfold scaledSize? Scaling.sizes
  rw [VideoStream.squareSize?_eq]
  cases hp : stream.squareSize.isEmpty with
  | true => simp [hp]
  | false =>
    cases t.scaling with
    | scaleAndPad => simpa [hp] using Size.fitWithin?_eq _ _
    | stretch => simp
    | crop => simpa [hp] using Size.cover?_eq hp _

/-- **Every valid target scales its source in proportion**, and finds the size with numbers of 64
bits. -/
theorem desired_proportioned (ht : t.problem? = none) (hp : stream.squareSize.isEmpty = false)
    (settings : Settings) :
    ∃ d, t.desired stream settings = .ok d ∧ t.scaledSize? stream = some d.scaledSize ∧
      t.scaling.Proportioned stream.squareSize t.resolution d.scaledSize := by
  refine ⟨_, desired_eq_ok_iff.mpr ⟨ht, rfl⟩, t.scaledSize?_eq stream settings, ?_⟩
  show t.scaling.Proportioned _ _ (t.scaling.sizes stream.squareSize t.resolution).1
  unfold Scaling.sizes Scaling.Proportioned
  rw [hp, if_neg (by decide)]
  cases t.scaling with
  | scaleAndPad => exact Size.fitsClosely_fitWithin hp _
  | stretch => rfl
  | crop => exact Size.coversClosely_cover hp _

/-- A film of 720 by 480 pixels that are wider than high. -/
def wideDisc : VideoStream where
  codec := "mpeg2video"
  frameSize := ⟨720, 480⟩
  sampleAspectRatio := some "32:27"

/-- Its square picture of 853 by 480 pixels is made 1918 by 1080 to be padded, and 1920 by 1082 to
be cut. -/
theorem wideDisc_proportioned :
    wideDisc.squareSize = ⟨853, 480⟩ ∧
    (∃ d, desired {} wideDisc {} = .ok d ∧ d.scaledSize = ⟨1918, 1080⟩ ∧
      wideDisc.squareSize.FitsClosely ⟨1920, 1080⟩ d.scaledSize) ∧
    ∃ d, desired { scaling := .crop } wideDisc {} = .ok d ∧ d.scaledSize = ⟨1920, 1082⟩ ∧
      wideDisc.squareSize.CoversClosely ⟨1920, 1080⟩ d.scaledSize := by
  have hsquare : wideDisc.squareSize = ⟨853, 480⟩ := by decide +kernel
  have hne : wideDisc.squareSize.isEmpty = false := by rw [hsquare]; decide
  obtain ⟨d, hd, hsize, hfit⟩ := desired_proportioned (t := {}) (by decide) hne {}
  obtain ⟨e, he, hsize', hcover⟩ :=
    desired_proportioned (t := { scaling := .crop }) (by decide) hne {}
  refine ⟨hsquare, ⟨d, hd, ?_, hfit⟩, e, he, ?_, hcover⟩
  · have hpad : ({} : Target).scaledSize? wideDisc = some ⟨1918, 1080⟩ := by decide +kernel
    exact Option.some.inj (hsize.symm.trans hpad)
  · have hcut : ({ scaling := .crop } : Target).scaledSize? wideDisc = some ⟨1920, 1082⟩ := by
      decide +kernel
    exact Option.some.inj (hsize'.symm.trans hcut)

end Target

end Playout
