import Playout.Media.PixelFormat
import Playout.Proofs.Filter.Reading
import Playout.Proofs.Filter.Splitting

/-!
# Quiet texts

A text inside a graph is quiet if nothing in it ends a chain or opens a label, backslashes taken
into account; and it is settled if it also has no effect on what stands behind it.

* `markEscapes_append`: a text that is not left pending is read alone.
* `quiet_append_cons`: texts that are joined by an ordinary character are quiet if both are.
* `Settled`: what an escaped value is, and a number.
* `Call.quiet_chars_iff`: calls are quiet if all that is written into them is.
-/

namespace Playout

/-- What ends a chain, or opens a label. -/
def breaks (c : Char) : Bool := c == ';' || c == '['

def Marked.breaks (m : Marked) : Bool := Playout.breaks m.char && !m.escaped

/-- Nothing in the text stands where it ends a chain or opens a label. -/
def Quiet (cs : List Char) : Prop := ∀ m ∈ markEscapes cs, m.breaks = false

instance (cs : List Char) : Decidable (Quiet cs) := inferInstanceAs (Decidable (∀ _ ∈ _, _))

theorem Marked.breaks_eq_false_iff {m : Marked} :
    m.breaks = false ↔ ¬m.Divides ';' ∧ ¬m.Divides '[' := by
  simp only [Marked.breaks, Playout.breaks, Divides]
  cases m.escaped <;> simp

theorem quiet_iff {cs : List Char} :
    Quiet cs ↔ (∀ m ∈ markEscapes cs, ¬m.Divides ';') ∧ ∀ m ∈ markEscapes cs, ¬m.Divides '[' := by
  simp only [Quiet, Marked.breaks_eq_false_iff, imp_and, forall_and]

/-- The text ends in a backslash that belongs to what follows. -/
def pending : List Char → Bool
  | [] => false
  | [c] => c == '\x5c'
  | c :: d :: r => if c = '\x5c' then pending r else pending (d :: r)

/-! ## Texts that are joined -/

variable {a b cs : List Char} {sep : Char}

theorem markEscapes_cons (hsep : sep ≠ '\x5c') (b : List Char) :
    markEscapes (sep :: b) = .bare sep :: markEscapes b := by
  cases b with
  | nil => rfl
  | cons d r => exact if_neg hsep

theorem pending_cons (hsep : sep ≠ '\x5c') (b : List Char) : pending (sep :: b) = pending b := by
  cases b with
  | nil => exact beq_eq_false_iff_ne.mpr hsep
  | cons d r => exact if_neg hsep

theorem markEscapes_eq_map (h : '\x5c' ∉ cs) :
    markEscapes cs = cs.map .bare ∧ pending cs = false := by
  induction cs with
  | nil => exact ⟨rfl, rfl⟩
  | cons c r ih =>
    obtain ⟨hc, hr⟩ := not_or.mp (mt List.mem_cons.mpr h)
    obtain ⟨hmarks, hpending⟩ := ih hr
    rw [markEscapes_cons (Ne.symm hc), pending_cons (Ne.symm hc), hmarks, hpending]
    exact ⟨rfl, rfl⟩

/-- A text that is not left pending is read alone. -/
theorem markEscapes_append (ha : pending a = false) (b : List Char) :
    markEscapes (a ++ b) = markEscapes a ++ markEscapes b := by
  fun_induction pending a with
  | case1 => rfl
  | case2 c => exact markEscapes_cons (beq_eq_false_iff_ne.mp ha) b
  | case3 d r ih =>
    rw [List.cons_append, List.cons_append, markEscapes, if_pos rfl, ih ha, markEscapes, if_pos rfl]
    rfl
  | case4 c d r hc ih =>
    have ih := ih ha
    rw [List.cons_append] at ih
    rw [List.cons_append, List.cons_append, markEscapes, if_neg hc, ih, markEscapes, if_neg hc]
    rfl

theorem pending_append (ha : pending a = false) (b : List Char) :
    pending (a ++ b) = pending b := by
  fun_induction pending a with
  | case1 => rfl
  | case2 c => exact pending_cons (beq_eq_false_iff_ne.mp ha) b
  | case3 d r ih =>
    rw [List.cons_append, List.cons_append, pending, if_pos rfl]
    exact ih ha
  | case4 c d r hc ih =>
    rw [List.cons_append, List.cons_append, pending, if_neg hc]
    exact ih ha

theorem quiet_nil : Quiet [] := List.forall_mem_nil _

theorem quiet_cons (hsep : sep ≠ '\x5c') : Quiet (sep :: b) ↔ breaks sep = false ∧ Quiet b := by
  rw [Quiet, markEscapes_cons hsep, List.forall_mem_cons, Marked.breaks, Marked.bare,
    Bool.not_false, Bool.and_true]
  rfl

/-- What follows a backslash breaks nothing. -/
theorem quiet_backslash (d : Char) (t : List Char) : Quiet ('\x5c' :: d :: t) ↔ Quiet t := by
  have hmarks : markEscapes ('\x5c' :: d :: t) = ⟨d, true⟩ :: markEscapes t := rfl
  rw [Quiet, hmarks, List.forall_mem_cons, Marked.breaks, Bool.not_true, Bool.and_false]
  exact and_iff_right rfl

/-- **Texts that are joined** by a character that breaks nothing are quiet if both are, even if the
character belongs to a backslash before it. -/
theorem quiet_append_cons (hsep : sep ≠ '\x5c') (hquiet : breaks sep = false) :
    Quiet (a ++ sep :: b) ↔ Quiet a ∧ Quiet b := by
  fun_induction pending a with
  | case1 =>
    rw [List.nil_append, quiet_cons hsep]
    exact ⟨fun h => ⟨quiet_nil, h.2⟩, fun h => ⟨hquiet, h.2⟩⟩
  | case2 c =>
    by_cases hc : c = '\x5c'
    · subst hc
      rw [List.singleton_append, quiet_backslash]
      exact ⟨fun h => ⟨by decide, h⟩, fun h => h.2⟩
    · rw [List.singleton_append, quiet_cons hc, quiet_cons hsep, quiet_cons hc]
      exact ⟨fun h => ⟨⟨h.1, quiet_nil⟩, h.2.2⟩, fun h => ⟨h.1.1, hquiet, h.2⟩⟩
  | case3 d r ih =>
    rw [List.cons_append, List.cons_append, quiet_backslash, quiet_backslash, ih]
  | case4 c d r hc ih =>
    rw [List.cons_append, quiet_cons hc, ih, quiet_cons hc, and_assoc]

theorem pending_append_cons (hsep : sep ≠ '\x5c') (a b : List Char) :
    pending (a ++ sep :: b) = pending b := by
  fun_induction pending a with
  | case1 => exact pending_cons hsep b
  | case2 c =>
    rw [List.singleton_append, pending]
    split
    · rfl
    · exact pending_cons hsep b
  | case3 d r ih =>
    rw [List.cons_append, List.cons_append, pending, if_pos rfl]
    exact ih
  | case4 c d r hc ih =>
    rw [List.cons_append, List.cons_append, pending, if_neg hc]
    exact ih

/-! ## Settled texts -/

/-- The text breaks nothing, and has no effect on what stands behind it. -/
structure Settled (cs : List Char) : Prop where
  quiet : Quiet cs
  pending : pending cs = false

instance (cs : List Char) : Decidable (Settled cs) :=
  decidable_of_iff (Quiet cs ∧ pending cs = false) ⟨fun h => ⟨h.1, h.2⟩, fun h => ⟨h.1, h.2⟩⟩

namespace Settled

theorem append (ha : Settled a) (hb : Settled b) : Settled (a ++ b) := by
  refine ⟨?_, (pending_append ha.pending b).trans hb.pending⟩
  rw [Quiet, markEscapes_append ha.pending]
  exact List.forall_mem_append.mpr ⟨ha.quiet, hb.quiet⟩

theorem of_all (h : (cs.all fun c => c != '\x5c' && !breaks c) = true) : Settled cs := by
  induction cs with
  | nil => exact ⟨quiet_nil, rfl⟩
  | cons c r ih =>
    rw [List.all_cons, Bool.and_eq_true, Bool.and_eq_true, bne_iff_ne, Bool.not_eq_true'] at h
    obtain ⟨⟨hc, hbreaks⟩, hr⟩ := h
    exact ⟨(quiet_cons hc).mpr ⟨hbreaks, (ih hr).quiet⟩, (pending_cons hc r).trans (ih hr).pending⟩

/-- An escaped value has a backslash before everything that breaks, and before every backslash. -/
@[simp] theorem escaped (s : String) : Settled (escape s).toList := by
  rw [escape, String.toList_ofList]
  induction s.toList with
  | nil => exact ⟨quiet_nil, rfl⟩
  | cons c r ih =>
    cases hc : isSpecial c with
    | true =>
      rw [escapeChars_cons_of_special hc]
      exact ⟨(quiet_backslash _ _).mpr ih.quiet, ih.pending⟩
    | false =>
      have hquiet : c ≠ '\x5c' ∧ breaks c = false := by
        simp only [isSpecial, Bool.or_eq_false_iff, beq_eq_false_iff_ne] at hc
        simp [breaks, hc]
      rw [escapeChars_cons hc]
      exact ⟨(quiet_cons hquiet.1).mpr ⟨hquiet.2, ih.quiet⟩,
        (pending_cons hquiet.1 _).trans ih.pending⟩

@[simp] theorem digits (n : Nat) : Settled (Nat.toDigits 10 n) :=
  of_all (all_toDigits (by decide) n)

theorem number (n : Nat) : Settled (toString n).toList := by simp

theorem concat {s t : String} (hs : Settled s.toList) (ht : Settled t.toList) :
    Settled (s ++ t).toList := by
  rw [String.toList_append]
  exact hs.append ht

@[simp] theorem pixelFormat (p : PixelFormat) : Settled p.text.toList := by
  have hall : ∀ l : PixelLayout, Settled l.text.toList := by
    intro l
    cases l <;> decide
  exact hall p.wire

end Settled

/-! ## Calls -/

theorem quiet_intercalate (hsep : sep ≠ '\x5c') (hquiet : breaks sep = false)
    {ls : List (List Char)} : Quiet ([sep].intercalate ls) ↔ ∀ l ∈ ls, Quiet l := by
  induction ls with
  | nil => exact iff_of_true quiet_nil (List.forall_mem_nil _)
  | cons l rest ih =>
    by_cases hr : rest = []
    · rw [hr, List.intercalate_singleton, List.forall_mem_singleton]
    · rw [List.intercalate_cons_of_ne_nil hr, List.append_assoc, List.singleton_append,
        quiet_append_cons hsep hquiet, ih, List.forall_mem_cons]

theorem markEscapes_intercalate (hsep : sep ≠ '\x5c') {ls : List (List Char)}
    (h : ∀ l ∈ ls, pending l = false) :
    markEscapes ([sep].intercalate ls) = [.bare sep].intercalate (ls.map markEscapes) := by
  induction ls with
  | nil => rfl
  | cons l rest ih =>
    obtain ⟨hl, hrest⟩ := List.forall_mem_cons.mp h
    by_cases hr : rest = []
    · rw [hr, List.intercalate_singleton]
      exact List.intercalate_singleton.symm
    · have hr' : rest.map markEscapes ≠ [] := by simpa using hr
      rw [List.intercalate_cons_of_ne_nil hr, List.append_assoc, List.singleton_append,
        markEscapes_append hl, markEscapes_cons hsep, ih hrest, List.map_cons,
        List.intercalate_cons_of_ne_nil hr', List.append_assoc, List.singleton_append]

/-- What is left pending is decided by the last text. -/
theorem pending_intercalate (hsep : sep ≠ '\x5c') {ls : List (List Char)}
    (h : ∀ l ∈ ls.getLast?, pending l = false) : pending ([sep].intercalate ls) = false := by
  induction ls with
  | nil => rfl
  | cons l rest ih =>
    by_cases hr : rest = []
    · subst hr
      rw [List.intercalate_singleton]
      exact h l rfl
    · rw [List.intercalate_cons_of_ne_nil hr, List.append_assoc, List.singleton_append,
        pending_append_cons hsep]
      refine ih fun m hm => h m ?_
      rwa [List.getLast?_cons_of_ne_nil hr]

def Argument.IsSettled (x : Argument) : Prop :=
  (∀ k ∈ x.key, Settled k.toList) ∧ Settled x.value.toList

def Call.IsSettled (c : Call) : Prop := Settled c.name.toList ∧ ∀ x ∈ c.arguments, x.IsSettled

namespace Argument

theorem toList_text_keyed (k v : String) :
    (keyed k v).text.toList = k.toList ++ '=' :: v.toList := by
  simp [keyed, text]

@[simp] theorem quiet_place {v : String} : Quiet (place v).text.toList ↔ Quiet v.toList := Iff.rfl

@[simp] theorem quiet_keyed {k v : String} :
    Quiet (keyed k v).text.toList ↔ Quiet k.toList ∧ Quiet v.toList := by
  rw [toList_text_keyed, quiet_append_cons (by decide) rfl]

theorem settled_text {x : Argument} (h : x.IsSettled) : Settled x.text.toList := by
  obtain ⟨key, value⟩ := x
  cases key with
  | none => exact h.2
  | some k =>
    refine ⟨quiet_keyed.mpr ⟨(h.1 k rfl).quiet, h.2.quiet⟩, ?_⟩
    show pending (keyed k value).text.toList = false
    rw [toList_text_keyed, pending_append_cons (by decide)]
    exact h.2.pending

@[simp] theorem isSettled_place {v : String} : (place v).IsSettled ↔ Settled v.toList := by
  simp [IsSettled, place]

@[simp] theorem isSettled_keyed {k v : String} :
    (keyed k v).IsSettled ↔ Settled k.toList ∧ Settled v.toList := by
  simp [IsSettled, keyed]

@[simp] theorem isSettled_placeNat (n : Nat) : (placeNat n).IsSettled :=
  isSettled_place.mpr (.number n)

@[simp] theorem isSettled_keyedNat {k : String} {n : Nat} :
    (keyedNat k n).IsSettled ↔ Settled k.toList :=
  isSettled_keyed.trans (and_iff_left (.number n))

end Argument

namespace Call

variable {c : Call}

theorem toList_text_eq (h : c.arguments ≠ []) :
    c.text.toList =
      c.name.toList ++ '=' :: [':'].intercalate (c.arguments.map fun x => x.text.toList) := by
  rw [text_eq h, argumentsText, String.toList_append, String.toList_append, List.append_assoc,
    String.toList_intercalate, List.map_map]
  rfl

theorem quiet_text_iff :
    Quiet c.text.toList ↔ Quiet c.name.toList ∧ ∀ x ∈ c.arguments, Quiet x.text.toList := by
  by_cases h : c.arguments = []
  · have htext : c.text = c.name := by rw [text, h]
    rw [htext, h]
    exact (and_iff_left (List.forall_mem_nil _)).symm
  · rw [toList_text_eq h, quiet_append_cons (by decide) rfl, quiet_intercalate (by decide) rfl,
      List.forall_mem_map]

theorem settled_text (h : c.IsSettled) : Settled c.text.toList := by
  refine ⟨quiet_text_iff.mpr ⟨h.1.quiet, fun x hx => (Argument.settled_text (h.2 x hx)).quiet⟩, ?_⟩
  by_cases hargs : c.arguments = []
  · have htext : c.text = c.name := by rw [text, hargs]
    rw [htext]
    exact h.1.pending
  · rw [toList_text_eq hargs, pending_append_cons (by decide)]
    refine pending_intercalate (by decide) fun l hl => ?_
    obtain ⟨x, hx, rfl⟩ := List.mem_map.mp (List.mem_of_getLast? hl)
    exact (Argument.settled_text (h.2 x hx)).pending

/-- **Calls are quiet** if each of them is. -/
theorem quiet_chars_iff {calls : List Call} :
    Quiet (chars calls) ↔ ∀ c ∈ calls, Quiet c.text.toList := by
  rw [chars_eq, quiet_intercalate (by decide) rfl, List.forall_mem_map]

/-- The calls have no effect on what stands behind the last of them. -/
def EndSettled (calls : List Call) : Prop := ∀ c ∈ calls.getLast?, c.IsSettled

theorem EndSettled.append {a b : List Call} (ha : EndSettled a) (hb : EndSettled b) :
    EndSettled (a ++ b) := by
  intro c hc
  rw [List.getLast?_append, Option.mem_def, Option.or_eq_some_iff] at hc
  exact hc.elim (hb c) fun h => ha c h.2

theorem EndSettled.of_forall {calls : List Call} (h : ∀ c ∈ calls, c.IsSettled) :
    EndSettled calls :=
  fun c hc => h c (List.mem_of_getLast? hc)

theorem EndSettled.flatMap {α : Type} {f : α → List Call} {l : List α}
    (h : ∀ x ∈ l, EndSettled (f x)) : EndSettled (l.flatMap f) := by
  induction l with
  | nil => nofun
  | cons x rest ih =>
    obtain ⟨hx, hrest⟩ := List.forall_mem_cons.mp h
    rw [List.flatMap_cons]
    exact hx.append (ih hrest)

theorem EndSettled.pending_chars {calls : List Call} (h : EndSettled calls) :
    pending (chars calls) = false := by
  rw [chars_eq]
  refine pending_intercalate (by decide) fun l hl => ?_
  rw [List.getLast?_map] at hl
  obtain ⟨c, hc, rfl⟩ := Option.map_eq_some_iff.mp hl
  exact (settled_text (h c hc)).pending

@[simp] theorem isSettled_mk {name : String} {args : List Argument} :
    (⟨name, args⟩ : Call).IsSettled ↔ Settled name.toList ∧ ∀ x ∈ args, x.IsSettled := Iff.rfl

end Call

end Playout
