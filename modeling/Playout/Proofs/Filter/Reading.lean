import Playout.Filter.Call
import Playout.Text.Whole

/-!
# Reading the text of calls

The text of calls that run one after the other can be read again, as far as that is needed to say
what the calls do to frames: the name it starts with, what follows a number of commas, and the
words between separators.

* `Call.firstName_chars`: the text starts with the name of the first call.
* `Call.afterCommas_chars`: behind the commas of some calls stands the text of the others.
* `Call.calledNames_chars`: between the commas stand the names of the calls.
* `Call.words_chars`: the words of the text are those of the calls.
* `Marks.lastAfter_eq`: the last word that follows a key.
-/

namespace Playout

/-! ## Names and commas -/

/-- A filter's name ends before the first `=` or comma. -/
def isNameChar (c : Char) : Bool := c != '=' && c != ','

def firstName (cs : List Char) : List Char := cs.takeWhile isNameChar

theorem firstName_append {n rest : List Char} (hn : n.all isNameChar = true)
    (hr : ∀ x ∈ rest.head?, isNameChar x = false) : firstName (n ++ rest) = n := by
  rw [firstName, List.takeWhile_append_of_pos (List.all_eq_true.mp hn)]
  cases rest with
  | nil => simp
  | cons x r =>
    have hx := hr x rfl
    rw [List.takeWhile_cons_of_neg (by rw [hx]; decide), List.append_nil]

theorem firstName_prefix {u t : List Char} (h : u <+: t) : firstName u <+: firstName t := by
  obtain ⟨r, rfl⟩ := h
  unfold firstName
  induction u with
  | nil => exact List.nil_prefix
  | cons x u ih =>
    rw [List.cons_append]
    by_cases hx : isNameChar x = true
    · rw [List.takeWhile_cons_of_pos hx, List.takeWhile_cons_of_pos hx]
      exact (List.prefix_cons_inj x).mpr ih
    · rw [List.takeWhile_cons_of_neg hx]
      exact List.nil_prefix

/-- What stands behind so many commas, if there are as many. -/
def afterCommas : Nat → List Char → List Char
  | 0, cs => cs
  | n + 1, cs => afterCommas n (cs.dropWhile fun c => c != ',').tail

theorem afterCommas_nil (n : Nat) : afterCommas n [] = [] := by
  induction n with
  | zero => rfl
  | succ n ih => exact ih

theorem afterCommas_succ {a : List Char} (ha : ',' ∉ a) (n : Nat) (b : List Char) :
    afterCommas (n + 1) (a ++ ',' :: b) = afterCommas n b := by
  have hd : ∀ x ∈ a, (x != ',') = true := by
    intro x hx
    exact bne_iff_ne.mpr fun h => ha (h ▸ hx)
  rw [afterCommas, List.dropWhile_append_of_pos hd]
  rfl

theorem afterCommas_succ_of_not_mem {a : List Char} (ha : ',' ∉ a) (n : Nat) :
    afterCommas (n + 1) a = [] := by
  have hd : a.dropWhile (fun c => c != ',') = [] := by
    rw [← List.append_nil a, List.dropWhile_append_of_pos]
    · rfl
    · intro x hx
      exact bne_iff_ne.mpr fun h => ha (h ▸ hx)
  rw [afterCommas, hd]
  exact afterCommas_nil n

def calledNames (cs : List Char) : List (List Char) :=
  (cs.splitOnP fun c => c == ',').map firstName

/-! ## Words -/

def isSeparator (c : Char) : Bool := c == ',' || c == ':' || c == '=' || c == '|'

/-- The words of a text, the empty ones too. -/
def words (cs : List Char) : List (List Char) := cs.splitOnP isSeparator

theorem words_append {s : Char} (hs : isSeparator s = true) (a b : List Char) :
    words (a ++ s :: b) = words a ++ words b :=
  List.splitOnP_append_cons a b hs

theorem words_eq_singleton {cs : List Char} (h : (cs.all fun x => !isSeparator x) = true) :
    words cs = [cs] := by
  apply List.splitOnP_eq_singleton
  intro x hx
  simpa using List.all_eq_true.mp h x hx

theorem not_comma_of_all {cs : List Char} (h : (cs.all fun x => !isSeparator x) = true) :
    ',' ∉ cs := by
  intro hm
  cases List.all_eq_true.mp h _ hm

def digitChars : List Char := ['0', '1', '2', '3', '4', '5', '6', '7', '8', '9']

theorem mem_toDigits {n : Nat} {c : Char} (hc : c ∈ Nat.toDigits 10 n) : c ∈ digitChars := by
  have h : c.isDigit = true := Nat.isDigit_of_mem_toDigits (by decide) (by decide) hc
  have hn : c.toNat = 48 ∨ c.toNat = 49 ∨ c.toNat = 50 ∨ c.toNat = 51 ∨ c.toNat = 52 ∨
      c.toNat = 53 ∨ c.toNat = 54 ∨ c.toNat = 55 ∨ c.toNat = 56 ∨ c.toNat = 57 := by
    simp only [Char.isDigit, Bool.and_eq_true, decide_eq_true_eq, ge_iff_le, UInt32.le_iff_toNat_le]
      at h
    have h0 : ('0'.val).toNat = 48 := rfl
    have h9 : ('9'.val).toNat = 57 := rfl
    simp only [Char.toNat]
    omega
  rw [← Char.ofNat_toNat c]
  rcases hn with hn | hn | hn | hn | hn | hn | hn | hn | hn | hn <;> rw [hn] <;> decide

theorem all_toDigits {P : Char → Bool} (h : digitChars.all P = true) (n : Nat) :
    (Nat.toDigits 10 n).all P = true :=
  List.all_eq_true.mpr fun _ hx => List.all_eq_true.mp h _ (mem_toDigits hx)

theorem all_padded {P : Char → Bool} (h : digitChars.all P = true) (width n : Nat) :
    (padded width n).toList.all P = true := by
  have hzero : P '0' = true := List.all_eq_true.mp h '0' (by decide)
  rw [padded, String.toList_ofList, List.all_append, all_toDigits h]
  simp [hzero]

theorem not_mem_toString {c : Char} (hc : c ∉ digitChars) (n : Nat) : c ∉ (toString n).toList := by
  rw [Nat.toString_eq_ofList_toDigits, String.toList_ofList]
  exact fun hm => hc (mem_toDigits hm)

theorem toString_inj {m n : Nat} : toString m = toString n ↔ m = n := by
  refine ⟨fun h => ?_, fun h => h ▸ rfl⟩
  have hdigits := congrArg (fun s => Nat.ofDigitChars 10 s.toList 0) h
  simpa only [Nat.toString_eq_ofList_toDigits, String.toList_ofList,
    Nat.ofDigitChars_toDigits (b := 10) (by decide) (by decide)] using hdigits

theorem toList_toString_ne_nil (n : Nat) : (toString n).toList ≠ [] := by
  rw [Nat.toString_eq_ofList_toDigits, String.toList_ofList]
  exact Nat.toDigits_ne_nil

theorem all_toString (n : Nat) : ((toString n).toList.all fun x => !isSeparator x) = true := by
  rw [Nat.toString_eq_ofList_toDigits, String.toList_ofList]
  exact all_toDigits (by decide) n

theorem words_toString (n : Nat) : words (toString n).toList = [(toString n).toList] :=
  words_eq_singleton (all_toString n)

/-- The word that follows the last key, if one does. -/
def lastAfter (key : List Char) : List (List Char) → Option (List Char)
  | w :: x :: rest => (lastAfter key (x :: rest)).or (if w = key then some x else none)
  | _ => none

theorem lastAfter_eq_none {key : List Char} {ws : List (List Char)} (h : key ∉ ws) :
    lastAfter key ws = none := by
  fun_induction lastAfter with
  | case1 w x rest ih =>
    obtain ⟨hw, hx⟩ := not_or.mp (mt List.mem_cons.mpr h)
    rw [ih hx, if_neg (Ne.symm hw)]
    rfl
  | case2 => rfl

/-- The last key among the words is followed by `v`. -/
def Marks (key v : List Char) (ws : List (List Char)) : Prop :=
  ∃ a b, ws = a ++ key :: v :: b ∧ key ∉ v :: b

namespace Marks

variable {key v : List Char} {ws : List (List Char)}

theorem append_left (h : Marks key v ws) (us : List (List Char)) : Marks key v (us ++ ws) := by
  obtain ⟨a, b, rfl, hb⟩ := h
  exact ⟨us ++ a, b, by rw [List.append_assoc], hb⟩

theorem append_right (h : Marks key v ws) {us : List (List Char)} (hu : key ∉ us) :
    Marks key v (ws ++ us) := by
  obtain ⟨a, b, rfl, hb⟩ := h
  refine ⟨a, b ++ us, by simp, ?_⟩
  rw [← List.cons_append, List.mem_append, not_or]
  exact ⟨hb, hu⟩

theorem lastAfter_eq (h : Marks key v ws) : lastAfter key ws = some v := by
  obtain ⟨a, b, rfl, hb⟩ := h
  have hkey : lastAfter key (key :: v :: b) = some v := by
    rw [lastAfter, lastAfter_eq_none hb, if_pos rfl]
    rfl
  induction a with
  | nil => exact hkey
  | cons w a ih =>
    cases a with
    | nil =>
      rw [List.cons_append, List.nil_append, lastAfter, hkey]
      rfl
    | cons x a =>
      rw [List.cons_append, List.cons_append, lastAfter, ← List.cons_append, ih]
      rfl

end Marks

/-! ## Calls -/

namespace Argument

def words (a : Argument) : List (List Char) := Playout.words a.text.toList

theorem words_place (v : String) : (place v).words = Playout.words v.toList := rfl

theorem words_keyed (k v : String) :
    (keyed k v).words = Playout.words k.toList ++ Playout.words v.toList := by
  show Playout.words (k ++ "=" ++ v).toList = _
  rw [String.toList_append, String.toList_append, List.append_assoc]
  exact words_append rfl _ _

end Argument

namespace Call

def chars (calls : List Call) : List Char := (chainText calls).toList

theorem chars_eq (calls : List Call) :
    chars calls = [','].intercalate (calls.map fun c => c.text.toList) := by
  rw [chars, chainText, String.toList_intercalate, List.map_map]
  rfl

theorem chars_singleton (c : Call) : chars [c] = c.text.toList := by
  rw [chars_eq]
  exact List.intercalate_singleton

theorem chars_cons {calls : List Call} (h : calls ≠ []) (c : Call) :
    chars (c :: calls) = c.text.toList ++ ',' :: chars calls := by
  rw [chars_eq, chars_eq, List.map_cons,
    List.intercalate_cons_of_ne_nil (by simpa using h), List.append_assoc]
  rfl

theorem chars_append {a b : List Call} (ha : a ≠ []) (hb : b ≠ []) :
    chars (a ++ b) = chars a ++ ',' :: chars b := by
  induction a with
  | nil => exact absurd rfl ha
  | cons c rest ih =>
    cases rest with
    | nil => rw [chars_singleton, List.cons_append, List.nil_append, chars_cons hb]
    | cons d rest =>
      have hd : d :: rest ≠ [] := by simp
      have hdb : d :: rest ++ b ≠ [] := by simp
      rw [List.cons_append, chars_cons hdb, ih hd, chars_cons hd, List.append_assoc,
        List.cons_append]

theorem exists_chainText_append (a : List Call) {b : List Call} (hb : b ≠ []) :
    ∃ before, chainText (a ++ b) = before ++ chainText b := by
  by_cases ha : a = []
  · exact ⟨"", by rw [ha, List.nil_append, String.empty_append]⟩
  · refine ⟨chainText a ++ ",", String.toList_injective ?_⟩
    show chars (a ++ b) = _
    rw [chars_append ha hb, String.toList_append, String.toList_append, List.append_assoc]
    rfl

def argumentsText (c : Call) : String := ":".intercalate (c.arguments.map Argument.text)

theorem text_eq {c : Call} (h : c.arguments ≠ []) : c.text = c.name ++ "=" ++ c.argumentsText := by
  unfold text
  split
  · next he => exact absurd he h
  · rfl

/-- A text behind the name starts with a separator of the call's, or there is none. -/
theorem toList_text (c : Call) :
    ∃ rest, c.text.toList = c.name.toList ++ rest ∧ ∀ x ∈ rest.head?, x = '=' := by
  unfold text
  split
  · exact ⟨[], by simp, by simp⟩
  · rw [String.toList_append, String.toList_append, List.append_assoc]
    exact ⟨_, rfl, by simp⟩

theorem firstName_chars {c : Call} (hc : c.name.toList.all isNameChar = true)
    (calls : List Call) : firstName (chars (c :: calls)) = c.name.toList := by
  obtain ⟨rest, ht, hr⟩ := c.toList_text
  have hs : ∀ (tail : List Char), (∀ x ∈ tail.head?, x = ',') →
      firstName (c.name.toList ++ (rest ++ tail)) = c.name.toList := by
    intro tail htail
    refine firstName_append hc ?_
    intro x hx
    cases rest with
    | nil => rw [htail x hx]; rfl
    | cons y rest => rw [hr x hx]; rfl
  by_cases hcalls : calls = []
  · rw [hcalls, chars_singleton, ht]
    have := hs [] (by simp)
    rwa [List.append_nil] at this
  · rw [chars_cons hcalls, ht, List.append_assoc]
    exact hs _ (by simp)

theorem afterCommas_chars {a : List Call} (ha : ∀ c ∈ a, ',' ∉ c.text.toList) (b : List Call) :
    afterCommas a.length (chars (a ++ b)) = chars b := by
  induction a with
  | nil => rfl
  | cons c rest ih =>
    have hc := ha c List.mem_cons_self
    have hrest := ih fun d hd => ha d (List.mem_cons_of_mem c hd)
    rw [List.length_cons, List.cons_append]
    by_cases hn : rest ++ b = []
    · obtain ⟨-, hb⟩ := List.append_eq_nil_iff.mp hn
      rw [hn, hb, chars_singleton, afterCommas_succ_of_not_mem hc]
      rfl
    · rw [chars_cons hn, afterCommas_succ hc, hrest]

/-- The names that the text of calls calls are theirs, if no call has a comma. -/
theorem calledNames_chars {calls : List Call} (hne : calls ≠ [])
    (hcomma : ∀ c ∈ calls, ',' ∉ c.text.toList)
    (hname : ∀ c ∈ calls, c.name.toList.all isNameChar = true) :
    calledNames (chars calls) = calls.map fun c => c.name.toList := by
  induction calls with
  | nil => exact absurd rfl hne
  | cons c rest ih =>
    have hone : (c.text.toList.splitOnP fun x => x == ',').map firstName = [c.name.toList] := by
      have hc : ∀ x ∈ c.text.toList, (x == ',') = false := by
        intro x hx
        exact beq_eq_false_iff_ne.mpr fun h => hcomma c List.mem_cons_self (h ▸ hx)
      have hfirst := firstName_chars (hname c List.mem_cons_self) []
      rw [chars_singleton] at hfirst
      rw [List.splitOnP_eq_singleton hc, List.map_singleton, hfirst]
    by_cases hr : rest = []
    · rw [hr, chars_singleton]
      exact hone
    · have hrest := ih hr (fun d hd => hcomma d (List.mem_cons_of_mem c hd))
        (fun d hd => hname d (List.mem_cons_of_mem c hd))
      unfold calledNames at hrest ⊢
      rw [chars_cons hr, List.splitOnP_append_cons _ _ rfl, List.map_append, hone, hrest]
      rfl

theorem not_mem_intercalate {x : Char} {sep : List Char} {ls : List (List Char)}
    (hs : x ∉ sep) (hl : ∀ l ∈ ls, x ∉ l) : x ∉ sep.intercalate ls := by
  induction ls with
  | nil => exact List.not_mem_nil
  | cons l rest ih =>
    by_cases hr : rest = []
    · rw [hr, List.intercalate_singleton]
      exact hl l List.mem_cons_self
    · rw [List.intercalate_cons_of_ne_nil hr, List.append_assoc, List.mem_append, List.mem_append,
        not_or, not_or]
      exact ⟨hl l List.mem_cons_self, hs, ih fun k hk => hl k (List.mem_cons_of_mem l hk)⟩

theorem not_comma_text {name : String} {args : List Argument} (hn : ',' ∉ name.toList)
    (ha : ∀ a ∈ args, ',' ∉ a.text.toList) : ',' ∉ (⟨name, args⟩ : Call).text.toList := by
  unfold text
  split
  · exact hn
  · rw [String.toList_append, String.toList_append, List.append_assoc, List.mem_append,
      List.mem_append, not_or, not_or, String.toList_intercalate, List.map_map]
    refine ⟨hn, by decide, not_mem_intercalate (by decide) ?_⟩
    intro l hl
    obtain ⟨a, hm, rfl⟩ := List.mem_map.mp hl
    exact ha a hm

def words (c : Call) : List (List Char) :=
  Playout.words c.name.toList ++ c.arguments.flatMap Argument.words

theorem words_intercalate {args : List Argument} (h : args ≠ []) :
    Playout.words ([':'].intercalate (args.map fun a => a.text.toList)) =
      args.flatMap Argument.words := by
  induction args with
  | nil => exact absurd rfl h
  | cons a rest ih =>
    cases rest with
    | nil =>
      rw [List.map_cons, List.map_nil, List.intercalate_singleton, List.flatMap_singleton]
      rfl
    | cons b rest =>
      rw [List.map_cons, List.intercalate_cons_of_ne_nil (by simp), List.append_assoc,
        List.singleton_append, words_append rfl, ih (by simp), List.flatMap_cons]
      rfl

theorem words_text (c : Call) : Playout.words c.text.toList = c.words := by
  unfold text words
  split
  · next h => rw [h, List.flatMap_nil, List.append_nil]
  · next h =>
    rw [String.toList_append, String.toList_append, List.append_assoc, String.toList_intercalate,
      List.map_map]
    exact (words_append rfl _ _).trans (congrArg _ (words_intercalate h))

theorem words_chars {calls : List Call} (h : calls ≠ []) :
    Playout.words (chars calls) = calls.flatMap words := by
  induction calls with
  | nil => exact absurd rfl h
  | cons c rest ih =>
    by_cases hr : rest = []
    · rw [hr, chars_singleton, words_text, List.flatMap_singleton]
    · rw [chars_cons hr, words_append rfl, words_text, ih hr, List.flatMap_cons]

end Call

end Playout
