import Playout.Proofs.Graph.Quiet
import Playout.Proofs.Graph.SideChain
import Playout.Proofs.Path.Quiet

/-!
# Reading a graph again

The text of a graph can be cut at its semicolons, and the labels of a chain can be found by their
brackets, unless a text inside of a chain has such characters without a backslash.

* `pieces`, `groups`: the pieces between separators, and what stands in brackets.
* `Chain.groups_text_iff`: the labels of one chain.
* `Graph.pieces_text_iff`: the chains of a graph.
* `Graph.readsBack_iff`: a graph is read again as it was wired if all its calls are quiet.
-/

namespace Playout

/-! ## Readers -/

/-- The characters of marked text, the backslashes with them. -/
def rawChars (ms : List Marked) : List Char :=
  ms.flatMap fun m => if m.escaped then ['\x5c', m.char] else [m.char]

def rawText (ms : List Marked) : String := String.ofList (rawChars ms)

/-- The pieces of a text between the separators that have no backslash. -/
def pieces (sep : Char) (s : String) : List String :=
  (splitMarked sep (markEscapes s.toList)).map rawText

/-- What stands between brackets that have no backslash.  A bracket that is open already holds the
text behind it; one that is never closed holds nothing. -/
def readGroups : Option (List Marked) → List Marked → List (List Marked)
  | _, [] => []
  | none, m :: r => if m.Divides '[' then readGroups (some []) r else readGroups none r
  | some ms, m :: r =>
    if m.Divides ']' then ms :: readGroups none r else readGroups (some (ms ++ [m])) r

def groups (s : String) : List String := (readGroups none (markEscapes s.toList)).map rawText

def LinkSource.name : LinkSource → String
  | stream ref => ref.text
  | link label => label

def Chain.labels (x : Chain) : List String := x.inputs.map LinkSource.name ++ [x.output]

/-- The text of the graph comes apart into its chains, and each chain into its labels and calls. -/
structure Graph.ReadsBack (g : Graph) : Prop where
  chains : pieces ';' g.text = g.chains.map Chain.text
  labels : ∀ x ∈ g.chains, groups x.text = x.labels

theorem rawChars_append (a b : List Marked) : rawChars (a ++ b) = rawChars a ++ rawChars b :=
  List.flatMap_append

theorem rawChars_map_bare (cs : List Char) : rawChars (cs.map .bare) = cs := by
  rw [rawChars, List.flatMap_map]
  exact List.flatMap_singleton' cs

theorem rawText_markEscapes (s : String) : rawText (markEscapes s.toList) = s := by
  have hraw : ∀ cs, rawChars (markEscapes cs) = cs := by
    intro cs
    fun_induction markEscapes cs with
    | case1 => rfl
    | case2 c => rfl
    | case3 d r ih => exact congrArg (fun t => '\x5c' :: d :: t) ih
    | case4 c d r hc ih => exact congrArg (c :: ·) ih
  rw [rawText, hraw, String.ofList_toList]

/-! ## Brackets -/

variable {a b ms l : List Marked}

theorem readGroups_append (ha : ∀ m ∈ a, ¬m.Divides '[') (b : List Marked) :
    readGroups none (a ++ b) = readGroups none b := by
  induction a with
  | nil => rfl
  | cons m r ih =>
    obtain ⟨hm, hr⟩ := List.forall_mem_cons.mp ha
    rw [List.cons_append, readGroups, if_neg hm, ih hr]

theorem readGroups_closed (ha : ∀ m ∈ a, ¬m.Divides ']') (ms b : List Marked) :
    readGroups (some ms) (a ++ .bare ']' :: b) = (ms ++ a) :: readGroups none b := by
  induction a generalizing ms with
  | nil =>
    rw [List.nil_append, readGroups, if_pos (by simp), List.append_nil]
  | cons m r ih =>
    obtain ⟨hm, hr⟩ := List.forall_mem_cons.mp ha
    rw [List.cons_append, readGroups, if_neg hm, ih hr, List.append_assoc]
    rfl

theorem readGroups_group (ha : ∀ m ∈ a, ¬m.Divides ']') (b : List Marked) :
    readGroups none (.bare '[' :: a ++ .bare ']' :: b) = a :: readGroups none b := by
  rw [List.cons_append, readGroups, if_pos (by simp), readGroups_closed ha]
  rfl

theorem readGroups_ne_nil (hl : ∀ m ∈ l, ¬m.Divides ']') (opened : Option (List Marked))
    (a : List Marked) : readGroups opened (a ++ (.bare '[' :: l ++ [.bare ']'])) ≠ [] := by
  induction a generalizing opened with
  | nil =>
    cases opened with
    | none =>
      rw [List.nil_append, readGroups_group hl]
      exact List.cons_ne_nil _ _
    | some ms =>
      rw [List.nil_append, List.cons_append, readGroups, if_neg (by simp), readGroups_closed hl]
      exact List.cons_ne_nil _ _
  | cons m r ih =>
    cases opened with
    | none =>
      rw [List.cons_append, readGroups]
      split
      · exact ih _
      · exact ih _
    | some ms =>
      rw [List.cons_append, readGroups]
      split
      · exact List.cons_ne_nil _ _
      · exact ih _

/-- A bracket that is open before a label takes the label in, or there is a group more. -/
theorem readGroups_opened (hl : ∀ m ∈ l, ¬m.Divides ']') (ms a : List Marked) :
    readGroups (some ms) (a ++ (.bare '[' :: l ++ [.bare ']'])) = [ms ++ a ++ .bare '[' :: l] ∨
      2 ≤ (readGroups (some ms) (a ++ (.bare '[' :: l ++ [.bare ']']))).length := by
  induction a generalizing ms with
  | nil =>
    refine .inl ?_
    rw [List.nil_append, List.cons_append, readGroups, if_neg (by simp), readGroups_closed hl]
    simp [readGroups]
  | cons m r ih =>
    rw [List.cons_append, readGroups]
    split
    · refine .inr ?_
      have hmore := List.length_pos_iff.mpr (readGroups_ne_nil hl none r)
      rw [List.length_cons]
      omega
    · have := ih (ms ++ [m])
      rwa [List.append_assoc ms, List.singleton_append] at this

/-- **What stands before a label adds no group** exactly if it opens none. -/
theorem readGroups_before_label_iff (hl : ∀ m ∈ l, ¬m.Divides ']') (a : List Marked) :
    (readGroups none (a ++ (.bare '[' :: l ++ [.bare ']']))).map rawText = [rawText l] ↔
      ∀ m ∈ a, ¬m.Divides '[' := by
  constructor
  · intro h
    induction a with
    | nil => exact List.forall_mem_nil _
    | cons m r ih =>
      rw [List.cons_append, readGroups] at h
      split at h
      · exfalso
        rcases readGroups_opened hl [] r with hgroup | hmore
        · -- the one group is longer than the label
          rw [hgroup, List.map_singleton, List.nil_append] at h
          have hraw := congrArg String.toList (List.cons.inj h).1
          rw [rawText, rawText, String.toList_ofList, String.toList_ofList, rawChars_append] at hraw
          have hlength := congrArg List.length hraw
          have hbare : rawChars (.bare '[' :: l) = '[' :: rawChars l := rfl
          rw [hbare, List.length_append, List.length_cons] at hlength
          omega
        · have hlength := congrArg List.length h
          rw [List.length_map, List.length_singleton] at hlength
          omega
      · next hm => exact List.forall_mem_cons.mpr ⟨hm, ih h⟩
  · intro ha
    rw [readGroups_append ha, readGroups_group hl, List.map_cons]
    rfl

/-! ## Chains -/

/-- Characters that have no meaning for either reader. -/
def isLabelChar (c : Char) : Bool := c != '\x5c' && !breaks c && c != ']'

/-- The texts in the brackets of a chain are plain. -/
def Chain.Labelled (x : Chain) : Prop := ∀ s ∈ x.labels, s.toList.all isLabelChar = true

def bracketed (s : String) : List Char := '[' :: (s.toList ++ [']'])

theorem not_mem_of_label {s : String} (h : s.toList.all isLabelChar = true) {c : Char}
    (hc : isLabelChar c = false) : c ∉ s.toList := by
  intro hm
  rw [List.all_eq_true.mp h c hm] at hc
  cases hc

theorem markEscapes_bracketed {s : String} (h : s.toList.all isLabelChar = true)
    (rest : List Char) :
    markEscapes (bracketed s ++ rest) =
      .bare '[' :: s.toList.map .bare ++ .bare ']' :: markEscapes rest := by
  have hslash : '\x5c' ∉ bracketed s := by
    simp [bracketed, not_mem_of_label h (c := '\x5c') rfl]
  obtain ⟨hmarks, hpending⟩ := markEscapes_eq_map hslash
  rw [markEscapes_append hpending, hmarks]
  simp [bracketed]

theorem not_divides_map_bare {cs : List Char} {c : Char} (h : c ∉ cs) :
    ∀ m ∈ cs.map Marked.bare, ¬m.Divides c := by
  intro m hm
  obtain ⟨d, hd, rfl⟩ := List.mem_map.mp hm
  rw [Marked.divides_bare]
  rintro rfl
  exact h hd

theorem readGroups_labels {names : List String}
    (h : ∀ s ∈ names, s.toList.all isLabelChar = true) (rest : List Char) :
    (readGroups none (markEscapes (names.flatMap bracketed ++ rest))).map rawText =
      names ++ (readGroups none (markEscapes rest)).map rawText := by
  induction names with
  | nil => rfl
  | cons s names ih =>
    obtain ⟨hs, hnames⟩ := List.forall_mem_cons.mp h
    have hraw : rawText (s.toList.map .bare) = s := by
      rw [rawText, rawChars_map_bare, String.ofList_toList]
    rw [List.flatMap_cons, List.append_assoc, markEscapes_bracketed hs,
      readGroups_group (not_divides_map_bare (not_mem_of_label hs rfl)), List.map_cons, hraw,
      ih hnames, List.cons_append]

theorem not_divides_labels_iff {names : List String}
    (h : ∀ s ∈ names, s.toList.all isLabelChar = true) (rest : List Char) :
    (∀ m ∈ markEscapes (names.flatMap bracketed ++ rest), ¬m.Divides ';') ↔
      ∀ m ∈ markEscapes rest, ¬m.Divides ';' := by
  induction names with
  | nil => rfl
  | cons s names ih =>
    obtain ⟨hs, hnames⟩ := List.forall_mem_cons.mp h
    have hlabel := not_divides_map_bare (not_mem_of_label hs (c := ';') rfl)
    rw [List.flatMap_cons, List.append_assoc, markEscapes_bracketed hs, List.forall_mem_append,
      List.forall_mem_cons, List.forall_mem_cons, ih hnames]
    simp only [Marked.divides_bare]
    exact ⟨fun h => h.2.2, fun h => ⟨⟨by decide, hlabel⟩, by decide, h⟩⟩

namespace Chain

variable {x : Chain}

/-- **The text of a chain**: its inputs, its calls and its output. -/
theorem toList_text (x : Chain) :
    x.text.toList = (x.inputs.map LinkSource.name).flatMap bracketed
      ++ (Call.chars x.calls ++ bracketed x.output) := by
  have hinput : ∀ i : LinkSource, i.text.toList = bracketed i.name := by
    intro i
    cases i <;> simp [LinkSource.text, LinkSource.name, bracketed]
  rw [text, String.toList_append, String.toList_append, String.toList_append, String.toList_append,
    String.toList_join, List.flatMap_map, List.flatMap_map]
  simp only [hinput, List.append_assoc]
  rfl

theorem markEscapes_body (hl : x.Labelled) (hend : pending (Call.chars x.calls) = false) :
    markEscapes (Call.chars x.calls ++ bracketed x.output) =
      markEscapes (Call.chars x.calls)
        ++ (.bare '[' :: x.output.toList.map .bare ++ [.bare ']']) := by
  have hout := markEscapes_bracketed (hl x.output (by simp [labels])) []
  rw [List.append_nil] at hout
  rw [markEscapes_append hend, hout]
  rfl

theorem groups_text_iff (hl : x.Labelled) (hend : pending (Call.chars x.calls) = false) :
    groups x.text = x.labels ↔ ∀ m ∈ markEscapes (Call.chars x.calls), ¬m.Divides '[' := by
  have hinputs : ∀ s ∈ x.inputs.map LinkSource.name, s.toList.all isLabelChar = true :=
    fun s hs => hl s (List.mem_append_left _ hs)
  have hout := not_divides_map_bare
    (not_mem_of_label (hl x.output (by simp [labels])) (c := ']') rfl)
  have hraw : [rawText (x.output.toList.map .bare)] = [x.output] := by
    rw [rawText, rawChars_map_bare, String.ofList_toList]
  rw [groups, toList_text, readGroups_labels hinputs, labels, List.append_cancel_left_eq,
    markEscapes_body hl hend, ← hraw]
  exact readGroups_before_label_iff hout _

theorem not_divides_text_iff (hl : x.Labelled) (hend : pending (Call.chars x.calls) = false) :
    (∀ m ∈ markEscapes x.text.toList, ¬m.Divides ';') ↔
      ∀ m ∈ markEscapes (Call.chars x.calls), ¬m.Divides ';' := by
  have hinputs : ∀ s ∈ x.inputs.map LinkSource.name, s.toList.all isLabelChar = true :=
    fun s hs => hl s (List.mem_append_left _ hs)
  have hout := not_divides_map_bare
    (not_mem_of_label (hl x.output (by simp [labels])) (c := ';') rfl)
  rw [toList_text, not_divides_labels_iff hinputs, markEscapes_body hl hend, List.forall_mem_append]
  exact and_iff_left (List.forall_mem_append.mpr
    ⟨List.forall_mem_cons.mpr ⟨by decide, hout⟩, List.forall_mem_singleton.mpr (by decide)⟩)

theorem pending_text (x : Chain) : pending x.text.toList = false := by
  have hsplit : x.text.toList =
      ((x.inputs.map LinkSource.name).flatMap bracketed ++ (Call.chars x.calls
        ++ '[' :: x.output.toList)) ++ ']' :: [] := by
    rw [toList_text]
    simp [bracketed]
  rw [hsplit]
  exact pending_append_cons (by decide) _ _

end Chain

/-! ## Graphs -/

namespace Graph

variable {g : Graph} {video : StreamRef}

theorem markEscapes_text (g : Graph) :
    markEscapes g.text.toList =
      [Marked.bare ';'].intercalate (g.chains.map fun x => markEscapes x.text.toList) := by
  have htexts : ∀ l ∈ g.chains.map fun x => x.text.toList, pending l = false := by
    intro l hl
    obtain ⟨x, -, rfl⟩ := List.mem_map.mp hl
    exact x.pending_text
  rw [text, String.toList_intercalate, List.map_map]
  refine (markEscapes_intercalate (by decide) htexts).trans ?_
  rw [List.map_map]
  rfl

/-- **The text of a graph comes apart into its chains** exactly if there is no other semicolon. -/
theorem pieces_text_iff (hne : g.chains ≠ []) :
    pieces ';' g.text = g.chains.map Chain.text ↔
      ∀ x ∈ g.chains, ∀ m ∈ markEscapes x.text.toList, ¬m.Divides ';' := by
  have hne' : (g.chains.map fun x => markEscapes x.text.toList) ≠ [] := by simpa using hne
  rw [pieces, markEscapes_text]
  constructor
  · intro h x hx
    have hlength := congrArg List.length h
    rw [List.length_map, List.length_map] at hlength
    exact not_divides_of_length hne' (by rw [hlength, List.length_map]) _ (List.mem_map_of_mem hx)
  · intro h
    rw [splitMarked_intercalate hne' (List.forall_mem_map.mpr h), List.map_map]
    exact List.map_congr_left fun x _ => rawText_markEscapes x.text

/-- **A graph is read again as it was wired** exactly if its calls are quiet. -/
theorem readsBack_iff (hne : g.chains ≠ []) (hl : ∀ x ∈ g.chains, x.Labelled)
    (hend : ∀ x ∈ g.chains, Call.EndSettled x.calls) :
    g.ReadsBack ↔ ∀ x ∈ g.chains, ∀ y ∈ x.calls, Quiet y.text.toList := by
  have hpending := fun x hx => (hend x hx).pending_chars
  have hchains := pieces_text_iff hne
  constructor
  · intro h x hx y hy
    refine Call.quiet_chars_iff.mp (quiet_iff.mpr ⟨?_, ?_⟩) y hy
    · exact (x.not_divides_text_iff (hl x hx) (hpending x hx)).mp (hchains.mp h.chains x hx)
    · exact (x.groups_text_iff (hl x hx) (hpending x hx)).mp (h.labels x hx)
  · intro h
    have hquiet := fun x hx => quiet_iff.mp (Call.quiet_chars_iff.mpr (h x hx))
    refine ⟨hchains.mpr fun x hx => ?_, fun x hx => ?_⟩
    · exact (x.not_divides_text_iff (hl x hx) (hpending x hx)).mpr (hquiet x hx).1
    · exact (x.groups_text_iff (hl x hx) (hpending x hx)).mpr (hquiet x hx).2

/-! ## The labels of every graph -/

theorem all_name_stream (ref : StreamRef) :
    (LinkSource.stream ref).name.toList.all isLabelChar = true := by
  have hdigits : ∀ n : Nat, (Nat.toDigits 10 n).all isLabelChar = true := all_toDigits (by decide)
  simp +decide [LinkSource.name, StreamRef.text, hdigits]

theorem labelled_of_all {x : Chain} (hin : ∀ i ∈ x.inputs, i.name.toList.all isLabelChar = true)
    (hout : x.output.toList.all isLabelChar = true) : x.Labelled :=
  List.forall_mem_append.mpr
    ⟨List.forall_mem_map.mpr hin, List.forall_mem_singleton.mpr hout⟩

theorem labelled_stream (ref : StreamRef) (calls : List Call) {output : String}
    (h : output.toList.all isLabelChar = true) :
    ∀ x ∈ [(⟨[.stream ref], calls, output⟩ : Chain)], x.Labelled :=
  List.forall_mem_singleton.mpr
    (labelled_of_all (List.forall_mem_singleton.mpr (all_name_stream ref)) h)

theorem all_label (l : Layer) :
    l.label.toList.all isLabelChar = true ∧ l.outputLabel.toList.all isLabelChar = true := by
  unfold Layer.outputLabel Layer.label
  cases l.kind <;> decide

theorem labelled_composite {tail : List Call} {below : LinkSource} {layers : List Layer}
    (hb : below.name.toList.all isLabelChar = true) :
    ∀ x ∈ (composite tail below layers).1, x.Labelled := by
  induction layers generalizing below with
  | nil => exact List.forall_mem_nil _
  | cons l rest ih =>
    obtain ⟨hlabel, houtput⟩ := all_label l
    rw [composite_cons]
    refine List.forall_mem_append.mpr ⟨?_, List.forall_mem_cons.mpr ⟨?_, ih houtput⟩⟩
    · unfold sideChains
      split
      · exact List.forall_mem_nil _
      · exact labelled_stream _ _ hlabel
    · refine labelled_of_all
        (List.forall_mem_cons.mpr ⟨hb, List.forall_mem_singleton.mpr ?_⟩) houtput
      unfold sideSource
      split
      · exact all_name_stream _
      · exact hlabel

theorem labelled_chains (hv : g.video = some video) : ∀ x ∈ g.chains, x.Labelled := by
  rw [chains, videoChains_eq hv]
  refine List.forall_mem_append.mpr ⟨?_, List.forall_mem_append.mpr ⟨?_, labelled_composite ?_⟩⟩
  · unfold audioChains
    split
    · split
      · exact List.forall_mem_nil _
      · exact labelled_stream _ _ (by decide)
    · exact List.forall_mem_nil _
  · unfold mainChains
    split
    · exact List.forall_mem_nil _
    · exact labelled_stream _ _ (by decide)
  · unfold mainSource
    split
    · exact all_name_stream _
    · decide

/-! ## The calls of every graph -/

theorem endSettled_composite {tail : List Call} {below : LinkSource} {layers : List Layer}
    (ht : Call.EndSettled tail) (hl : ∀ l ∈ layers, l.IsSettled) :
    ∀ x ∈ (composite tail below layers).1, Call.EndSettled x.calls := by
  induction layers generalizing below with
  | nil => exact List.forall_mem_nil _
  | cons l rest ih =>
    obtain ⟨hlayer, hrest⟩ := List.forall_mem_cons.mp hl
    obtain ⟨hoverlay, hprepare⟩ := List.forall_mem_cons.mp hlayer
    have htail : Call.EndSettled (if rest.isEmpty then tail else []) := by
      split
      · exact ht
      · exact .of_forall (List.forall_mem_nil _)
    rw [composite_cons]
    refine List.forall_mem_append.mpr ⟨fun x hx => ?_, List.forall_mem_cons.mpr ⟨?_, ih hrest⟩⟩
    · rw [calls_of_mem_sideChains hx]
      exact .of_forall hprepare
    · exact (Call.EndSettled.of_forall (List.forall_mem_singleton.mpr hoverlay)).append htail

theorem endSettled_chains (hv : g.video = some video) (hl : ∀ l ∈ g.layers, l.IsSettled) :
    ∀ x ∈ g.chains, Call.EndSettled x.calls := by
  have hcalls : ∀ vs, Call.EndSettled (callsOf vs) :=
    fun vs => .flatMap fun v _ => v.endSettled_calls
  rw [chains, videoChains_eq hv]
  refine List.forall_mem_append.mpr ⟨fun x hx => ?_, List.forall_mem_append.mpr
    ⟨fun x hx => ?_, endSettled_composite (hcalls _) hl⟩⟩
  · rw [calls_of_mem_audioChains hx]
    exact .of_forall (List.forall_mem_map.mpr fun f _ => f.isSettled_call)
  · rw [calls_of_mem_mainChains hx, mainCalls]
    refine (hcalls _).append ?_
    split
    · exact hcalls _
    · exact .of_forall (List.forall_mem_nil _)

theorem exists_chain_of_mem_calls (hv : g.video = some video) {v : VideoFilter}
    (hmem : v ∈ g.videoFilters) {y : Call} (hy : y ∈ v.calls) : ∃ x ∈ g.chains, y ∈ x.calls := by
  have hmain : y ∈ g.mainCalls := List.mem_append_left _ (List.mem_flatMap.mpr ⟨v, hmem, hy⟩)
  have hchain : g.mainChains video = [⟨[.stream video], g.mainCalls, "v"⟩] :=
    if_neg (by simp [List.ne_nil_of_mem hmain])
  refine ⟨⟨[.stream video], g.mainCalls, "v"⟩, ?_, hmain⟩
  rw [chains, videoChains_eq hv, hchain]
  simp

/-- **All calls of a graph are quiet** if the algorithms are that its filters write as they are. -/
theorem quiet_chains_iff (hv : g.video = some video)
    (htail : ∀ v ∈ g.tail, v.rawAlgorithm? = none) (hl : ∀ l ∈ g.layers, l.IsSettled) :
    (∀ x ∈ g.chains, ∀ y ∈ x.calls, Quiet y.text.toList) ↔
      ∀ s ∈ g.videoFilters.filterMap VideoFilter.rawAlgorithm?, Quiet s.toList := by
  constructor
  · intro h s hs
    obtain ⟨v, hmem, hraw⟩ := List.mem_filterMap.mp hs
    refine v.quiet_calls_iff.mp (fun y hy => ?_) s hraw
    obtain ⟨x, hx, hyx⟩ := exists_chain_of_mem_calls hv hmem hy
    exact h x hx y hyx
  · intro h
    refine forall_calls hv ?_ (List.forall_mem_append.mpr ⟨?_, ?_⟩) ?_
    · exact fun f _ => (Call.settled_text f.isSettled_call).quiet
    · exact fun v hmem => v.quiet_calls_iff.mpr fun s hs =>
        h s (List.mem_filterMap.mpr ⟨v, hmem, hs⟩)
    · intro v hmem
      refine v.quiet_calls_iff.mpr ?_
      rw [htail v hmem]
      nofun
    · exact fun l hmem y hy => (Call.settled_text (hl l hmem y hy)).quiet

/-- **A graph of filters and layers is read again as it was wired** if those algorithms are
quiet. -/
theorem readsBack_iff_of_settled (hv : g.video = some video)
    (htail : ∀ v ∈ g.tail, v.rawAlgorithm? = none) (hl : ∀ l ∈ g.layers, l.IsSettled) :
    g.chains = [] ∨ g.ReadsBack ↔
      ∀ s ∈ g.videoFilters.filterMap VideoFilter.rawAlgorithm?, Quiet s.toList := by
  rw [← quiet_chains_iff hv htail hl]
  by_cases hne : g.chains = []
  · rw [hne]
    exact iff_of_true (.inl rfl) (List.forall_mem_nil _)
  · rw [or_iff_right hne]
    exact readsBack_iff hne (labelled_chains hv) (endSettled_chains hv hl)

end Graph

end Playout
