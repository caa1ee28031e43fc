import Playout.Probe.Facts
import Playout.Proofs.Number.Magnitude
import Playout.Proofs.Plan.Machinery

/-!
# Every report is answered

A report of any shape is answered with the facts in it, or with what is wrong with it, but for one
kind: a report that tells a length of `2 ^ 64` seconds or more, which no duration can hold.

* `Binary64.Reaches`: a number is so large or larger.
* `Duration.ofSeconds?_eq_none_iff`: which numbers of seconds make no duration.
* `ReportedFormat.length_eq_error_iff`, `MediaFacts.ofReport_eq_error_iff`: how reading fails.
* `MediaFacts.answered_iff`: which reports are answered.
-/

namespace Playout

/-! ## Numbers of seconds -/

/-- The number is finite, and `n` or more. -/
def Binary64.Reaches (x : Float) (n : Nat) : Prop :=
  isNegative x = false ∧
    ∃ m e, magnitude x = .finite m e ∧ n * (ratio m e).2 ≤ (ratio m e).1

theorem roundHalfEven_le (num den : Nat) : roundHalfEven num den ≤ num + 1 := by
  have hle : num / den ≤ num := Nat.div_le_self num den
  unfold roundHalfEven
  dsimp only
  split <;> omega

namespace Duration

variable {x : Float} {m : Nat} {e : Int}

open Binary64

/-- **A number of seconds makes no duration** from `2 ^ 64` on. -/
theorem ofSeconds?_eq_none_iff (h : magnitude x = .finite m e) :
    ofSeconds? x = none ↔ UInt64.size * (ratio m e).2 ≤ (ratio m e).1 := by
  have hnone : ofSeconds? x = none ↔
      ¬roundHalfEven ((ratio m e).1 * 1000000000) (ratio m e).2 < UInt64.size * 1000000000 := by
    unfold ofSeconds?
    rw [h]
    dsimp only
    split <;> simp [*]
  rw [hnone, Nat.not_lt]
  by_cases he : 0 ≤ e
  · -- whole seconds are not rounded
    have hratio : ratio m e = (m <<< e.toNat, 1) := if_pos he
    rw [hratio, roundHalfEven_of_dvd Nat.one_pos (Nat.mod_one _), Nat.div_one, Nat.mul_one]
    exact Nat.mul_le_mul_right_iff (by decide)
  · -- fractions of seconds are far below the limit
    have hratio : ratio m e = (m, 1 <<< (-e).toNat) := if_neg he
    have hm := mantissa_lt h
    have hden : 0 < 1 <<< (-e).toNat := by
      rw [Nat.one_shiftLeft]
      exact Nat.two_pow_pos _
    have hround := roundHalfEven_le (m * 1000000000) (1 <<< (-e).toNat)
    have hlimit : UInt64.size ≤ UInt64.size * 1 <<< (-e).toNat := Nat.le_mul_of_pos_right _ hden
    have hsize : UInt64.size = 18446744073709551616 := rfl
    have hbits : 1 <<< 53 = 9007199254740992 := rfl
    rw [hratio]
    refine iff_of_false ?_ ?_ <;> dsimp only <;> omega

theorem reaches_limit_iff :
    (x.isFinite && 0 ≤ x) = true ∧ ofSeconds? x = none ↔ Reaches x UInt64.size := by
  rw [Bool.and_eq_true, decide_eq_true_eq, isFinite_iff]
  constructor
  · rintro ⟨⟨⟨m, e, hm⟩, hnonneg⟩, hnone⟩
    have hlimit := (ofSeconds?_eq_none_iff hm).mp hnone
    refine ⟨((nonneg_iff hm).mp hnonneg).resolve_left ?_, m, e, hm, hlimit⟩
    -- zero is a duration
    rintro rfl
    have hpos := Nat.mul_pos (show 0 < UInt64.size by decide) (ratio_den_pos 0 e)
    have hzero : (ratio 0 e).1 = 0 := by
      unfold ratio
      split
      · exact Nat.zero_shiftLeft _
      · rfl
    omega
  · rintro ⟨hsign, m, e, hm, hlimit⟩
    exact ⟨⟨⟨m, e, hm⟩, (nonneg_iff hm).mpr (.inr hsign)⟩, (ofSeconds?_eq_none_iff hm).mpr hlimit⟩

end Duration

/-! ## Reports -/

/-- The length is told as a number of `2 ^ 64` seconds or more. -/
def ReportedFormat.TooLong (f : ReportedFormat) : Prop :=
  ∃ text seconds, f.duration = some text ∧ Decimal.parseFloat? text.toList = some seconds ∧
    Binary64.Reaches seconds UInt64.size

theorem ReportedFormat.length_eq_error_iff {f : ReportedFormat} {x : Failure} :
    f.length = .error x ↔ x = .fault .durationTooLong ∧ f.TooLong := by
  have htoo : f.TooLong ↔ ∃ seconds,
      (f.duration.bind fun s => Decimal.parseFloat? s.toList) = some seconds ∧
        Binary64.Reaches seconds UInt64.size := by
    simp only [TooLong, Option.bind_eq_some_iff]
    grind
  rw [htoo, length]
  cases f.duration.bind fun s => Decimal.parseFloat? s.toList with
  | none => simp
  | some seconds =>
    have hreaches := @Duration.reaches_limit_iff seconds
    dsimp only
    split
    · next hok =>
      cases hd : Duration.ofSeconds? seconds with
      | none => simp [← hreaches, hok, hd, eq_comm]
      | some d => simp [← hreaches, hd]
    · next hno => simp [← hreaches, hno]

namespace MediaFacts

/-- A report is answered with the facts in it, or with what is wrong with it. -/
def Answered (j : Json) : Prop :=
  (∃ facts, ofJson j = .ok facts) ∨ ∃ problem, ofJson j = .error (.probe problem)

/-- The report has the shape of one, and tells a length of `2 ^ 64` seconds or more. -/
def TellsTooLong (j : Json) : Prop :=
  ∃ r f, Json.readReport j = some r ∧ r.format = some f ∧ f.TooLong

theorem ofReport_eq_error_iff {r : Report} {x : Failure} :
    ofReport r = .error x ↔ (r.format = none ∧ x = .probe .noFormatSection) ∨
      ∃ f, r.format = some f ∧ x = .fault .durationTooLong ∧ f.TooLong := by
  unfold ofReport
  cases r.format with
  | none => simp [eq_comm]
  | some f =>
    dsimp only
    rw [bind_eq_error_iff_of_ne (by simp [pure, Except.pure]), ReportedFormat.length_eq_error_iff]
    simp

/-- **What reading a report can end in**, beside facts. -/
theorem ofJson_eq_error_iff {j : Json} {x : Failure} :
    ofJson j = .error x ↔
      (Json.readReport j = none ∧ x = .probe .unexpectedShape) ∨
      (∃ r, Json.readReport j = some r ∧ r.format = none ∧ x = .probe .noFormatSection) ∨
      x = .fault .durationTooLong ∧ TellsTooLong j := by
  unfold ofJson TellsTooLong
  cases Json.readReport j with
  | none => simp [eq_comm]
  | some r =>
    dsimp only
    rw [ofReport_eq_error_iff]
    simp only [reduceCtorEq, false_and, false_or, Option.some.injEq, exists_eq_left']
    grind

theorem fault_iff {j : Json} {y : Fault} :
    ofJson j = .error (.fault y) ↔ y = .durationTooLong ∧ TellsTooLong j := by
  simp [ofJson_eq_error_iff]

theorem not_answered_of_fault {j : Json} {y : Fault} (h : ofJson j = .error (.fault y)) :
    ¬Answered j := by
  rintro (⟨facts, hx⟩ | ⟨problem, hx⟩)
  · rw [h] at hx
    cases hx
  · rw [h] at hx
    cases hx

/-- **Reports are answered** with facts or with a problem, whatever their numbers and texts are,
exactly if they do not tell a length of `2 ^ 64` seconds or more; if they do, reading them is given
up. -/
theorem answered_iff (j : Json) :
    (Answered j ↔ ¬TellsTooLong j) ∧
      (ofJson j = .error (.fault .durationTooLong) ↔ TellsTooLong j) := by
  refine ⟨⟨fun h htoo => not_answered_of_fault (fault_iff.mpr ⟨rfl, htoo⟩) h, fun hno => ?_⟩, ?_⟩
  · cases hx : ofJson j with
    | ok facts => exact .inl ⟨facts, hx⟩
    | error x =>
      rcases ofJson_eq_error_iff.mp hx with ⟨-, rfl⟩ | ⟨r, -, -, rfl⟩ | ⟨-, htoo⟩
      · exact .inr ⟨_, hx⟩
      · exact .inr ⟨_, hx⟩
      · exact absurd htoo hno
  · rw [fault_iff, and_iff_right rfl]

/-- A report of a stream without an end: its length is one second more than 64 bits can count. -/
def endlessReport : Json :=
  .ofFields [("format", .ofFields [("format_name", .str "mpegts"),
    ("duration", .str "18446744073709551616")]), ("streams", .array [])]

/-- The length is finite and not below zero, and yet the report is not answered. -/
theorem endlessReport_unanswered :
    ofJson endlessReport = .error (.fault .durationTooLong) ∧ ¬Answered endlessReport := by
  have hread : Decimal.parseFloat? "18446744073709551616".toList =
      some (Float.ofBits 0x43f0000000000000) := by decide +kernel
  have hreaches : Binary64.Reaches (Float.ofBits 0x43f0000000000000) UInt64.size :=
    ⟨by decide +kernel, 4503599627370496, 12, rfl, by decide⟩
  have hfault : ofJson endlessReport = .error (.fault .durationTooLong) :=
    fault_iff.mpr ⟨rfl, _, _, rfl, rfl, _, _, rfl, hread, hreaches⟩
  exact ⟨hfault, not_answered_of_fault hfault⟩

end MediaFacts

end Playout
