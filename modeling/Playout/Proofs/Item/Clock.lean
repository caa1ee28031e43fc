import Playout.Media.Duration
import Playout.Proofs.Filter.Reading
import Playout.Proofs.Item.Oblong

/-!
# Clock times

A duration is written as a clock time.  Read back, it is the duration without what it has beyond
whole milliseconds.

* `ClockTime.read?`: hours, minutes below 60 and seconds below 60 between colons, and three digits
  of a fraction if there is a point.
* `parseDigits?_padded`: a number that is filled up with zeros is read back.
* `ClockTime.shows_clock`: a duration is read back in whole milliseconds.
-/

namespace Playout

/-! ## Digits -/

theorem digitValue?_of_isDigit {c : Char} (h : c.isDigit = true) :
    digitValue? c = some (c.toNat - '0'.toNat) := by
  simp only [Char.isDigit, Bool.and_eq_true, decide_eq_true_eq, ge_iff_le,
    UInt32.le_iff_toNat_le] at h
  exact if_pos h

theorem takeDigits_of_forall {cs : List Char} (h : ∀ c ∈ cs, c.isDigit = true) :
    takeDigits cs = (cs.map fun c => c.toNat - '0'.toNat, []) := by
  induction cs with
  | nil => rfl
  | cons c rest ih =>
    rw [List.forall_mem_cons] at h
    rw [takeDigits, digitValue?_of_isDigit h.1, ih h.2, List.map_cons]

theorem ofDigits_map (cs : List Char) :
    ofDigits (cs.map fun c => c.toNat - '0'.toNat) = Nat.ofDigitChars 10 cs 0 := by
  rw [ofDigits, List.foldl_map, Nat.ofDigitChars_eq_foldl]

theorem parseDigits?_of_forall {cs : List Char} (h : ∀ c ∈ cs, c.isDigit = true) (hne : cs ≠ []) :
    parseDigits? cs = some (Nat.ofDigitChars 10 cs 0) := by
  rw [parseDigits?, takeDigits_of_forall h, ← ofDigits_map]
  cases cs with
  | nil => exact absurd rfl hne
  | cons c rest => rfl

theorem toList_padded (width n : Nat) :
    (padded width n).toList =
      List.replicate (width - (Nat.toDigits 10 n).length) '0' ++ Nat.toDigits 10 n :=
  String.toList_ofList

theorem isDigit_of_mem_padded {width n : Nat} :
    ∀ c ∈ (padded width n).toList, c.isDigit = true :=
  List.all_eq_true.mp (all_padded (by decide) width n)

theorem not_mem_padded {c : Char} (hc : c.isDigit = false) (width n : Nat) :
    c ∉ (padded width n).toList := by
  intro hm
  rw [isDigit_of_mem_padded c hm] at hc
  cases hc

theorem padded_ne_nil (width n : Nat) : (padded width n).toList ≠ [] := by
  rw [toList_padded]
  exact List.append_ne_nil_of_right_ne_nil _ Nat.toDigits_ne_nil

/-- **A number that is filled up with zeros is read back.** -/
theorem parseDigits?_padded (width n : Nat) : parseDigits? (padded width n).toList = some n := by
  rw [parseDigits?_of_forall isDigit_of_mem_padded (padded_ne_nil width n), toList_padded,
    Nat.ofDigitChars_append, Nat.ofDigitChars_replicate_zero, Nat.mul_zero,
    Nat.ofDigitChars_toDigits (by decide) (by decide)]

theorem length_padded {width n : Nat} (hwidth : 0 < width) (hn : n < Nat.pow 10 width) :
    (padded width n).toList.length = width := by
  have hlength : (Nat.toDigits 10 n).length ≤ width :=
    (Nat.length_toDigits_le_iff (by decide) hwidth).mpr hn
  rw [toList_padded, List.length_append, List.length_replicate]
  omega

theorem splitOnce_eq_none {sep : Char} {cs : List Char} (h : sep ∉ cs) :
    splitOnce sep cs = none := by
  rw [Option.eq_none_iff_forall_ne_some]
  rintro ⟨a, b⟩ hs
  apply h
  rw [eq_of_splitOnce hs]
  exact List.mem_append_right a List.mem_cons_self

/-! ## Clocks -/

structure ClockTime where
  hours : Nat
  minutes : Nat
  seconds : Nat
  milliseconds : Nat
  minutes_lt : minutes < 60
  seconds_lt : seconds < 60
  milliseconds_lt : milliseconds < 1000

namespace ClockTime

/-- The time in milliseconds. -/
def total (t : ClockTime) : Nat :=
  (t.hours * 3600 + t.minutes * 60 + t.seconds) * 1000 + t.milliseconds

/-- The seconds, and the milliseconds of three digits behind a point if there is one. -/
def readSeconds? (cs : List Char) : Option (Nat × Nat) :=
  match splitOnce '.' cs with
  | none => (parseDigits? cs).map fun seconds => (seconds, 0)
  | some (whole, fraction) =>
    if fraction.length = 3 then do
      return (← parseDigits? whole, ← parseDigits? fraction)
    else none

def read? (text : String) : Option ClockTime := do
  let (hours, rest) ← splitOnce ':' text.toList
  let (minutes, rest) ← splitOnce ':' rest
  let hours ← parseDigits? hours
  let minutes ← parseDigits? minutes
  let (seconds, milliseconds) ← readSeconds? rest
  if h : minutes < 60 ∧ seconds < 60 ∧ milliseconds < 1000 then
    some ⟨hours, minutes, seconds, milliseconds, h.1, h.2.1, h.2.2⟩
  else none

/-- The text is a clock time of so many nanoseconds, up to whole milliseconds. -/
def Shows (text : String) (nanoseconds : Nat) : Prop :=
  ∃ t, read? text = some t ∧ t.total = nanoseconds / 1000000

def ofDuration (d : Duration) : ClockTime where
  hours := d.seconds / 3600
  minutes := d.seconds / 60 % 60
  seconds := d.seconds % 60
  milliseconds := d.subsecond / 1000000
  minutes_lt := Nat.mod_lt _ (by decide)
  seconds_lt := Nat.mod_lt _ (by decide)
  milliseconds_lt := by
    have hlt : d.subsecond < 1000000000 := Nat.mod_lt _ (by decide)
    omega

theorem total_ofDuration (d : Duration) : (ofDuration d).total = d.nanoseconds / 1000000 := by
  have hhours :
      d.seconds / 3600 * 3600 + d.seconds / 60 % 60 * 60 + d.seconds % 60 = d.seconds := by
    omega
  have hseconds : d.seconds = d.nanoseconds / 1000000 / 1000 :=
    (Nat.div_div_eq_div_mul d.nanoseconds 1000000 1000).symm
  have hmillis : d.subsecond / 1000000 = d.nanoseconds / 1000000 % 1000 :=
    Nat.mod_mul_right_div_self d.nanoseconds 1000000 1000
  calc (ofDuration d).total
      = d.seconds * 1000 + d.subsecond / 1000000 :=
        congrArg (· * 1000 + d.subsecond / 1000000) hhours
    _ = d.nanoseconds / 1000000 / 1000 * 1000 + d.nanoseconds / 1000000 % 1000 := by
        rw [hseconds, hmillis]
    _ = d.nanoseconds / 1000000 := Nat.div_add_mod' _ _

theorem readSeconds?_padded {seconds milliseconds : Nat} (hlt : milliseconds < 1000) :
    readSeconds? (padded 2 seconds).toList = some (seconds, 0) ∧
      readSeconds? ((padded 2 seconds).toList ++ '.' :: (padded 3 milliseconds).toList) =
        some (seconds, milliseconds) := by
  have hpoint : '.' ∉ (padded 2 seconds).toList := not_mem_padded (by decide) 2 seconds
  constructor
  · rw [readSeconds?, splitOnce_eq_none hpoint, parseDigits?_padded]
    rfl
  · rw [readSeconds?, splitOnce_eq_some_iff.mpr ⟨rfl, hpoint⟩]
    dsimp only
    rw [if_pos (length_padded (by decide) hlt), parseDigits?_padded, parseDigits?_padded]
    rfl

theorem toList_clock (d : Duration) :
    d.clock.toList = (padded 2 (d.seconds / 3600)).toList ++
      ':' :: ((padded 2 (d.seconds / 60 % 60)).toList ++ ':' ::
        ((padded 2 (d.seconds % 60)).toList ++
          if d.subsecond / 1000000 = 0 then []
          else '.' :: (padded 3 (d.subsecond / 1000000)).toList)) := by
  have hcolon : ":".toList = [':'] := rfl
  have hpoint : ".".toList = ['.'] := rfl
  unfold Duration.clock
  dsimp only
  split <;>
    simp only [String.toList_append, hcolon, hpoint, List.append_assoc, List.cons_append,
      List.nil_append, List.append_nil]

/-- **A clock time is read back.** -/
theorem read?_clock (d : Duration) : read? d.clock = some (ofDuration d) := by
  have hcolon : ∀ n, ':' ∉ (padded 2 n).toList := fun n => not_mem_padded (by decide) 2 n
  have hseconds : readSeconds? ((padded 2 (d.seconds % 60)).toList ++
      if d.subsecond / 1000000 = 0 then []
      else '.' :: (padded 3 (d.subsecond / 1000000)).toList) =
        some (d.seconds % 60, d.subsecond / 1000000) := by
    obtain ⟨hwhole, hfraction⟩ := @readSeconds?_padded (d.seconds % 60) _
      (ofDuration d).milliseconds_lt
    split
    · next hzero => rw [List.append_nil, hwhole, hzero]
    · exact hfraction
  rw [read?, toList_clock, splitOnce_eq_some_iff.mpr ⟨rfl, hcolon _⟩]
  simp only [Option.bind_eq_bind, Option.bind_some]
  rw [splitOnce_eq_some_iff.mpr ⟨rfl, hcolon _⟩]
  simp only [Option.bind_some, parseDigits?_padded, hseconds]
  exact dif_pos ⟨(ofDuration d).minutes_lt, (ofDuration d).seconds_lt,
    (ofDuration d).milliseconds_lt⟩

theorem shows_clock (d : Duration) : Shows d.clock d.nanoseconds :=
  ⟨ofDuration d, read?_clock d, total_ofDuration d⟩

/-- The greatest duration that there is. -/
example : (⟨18446744073709551615999999999, by decide⟩ : Duration).clock =
    "5124095576030431:00:15.999" := by decide +kernel

end ClockTime

end Playout
