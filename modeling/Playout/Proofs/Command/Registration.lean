import Mathlib.Data.List.Induction
import Playout.Command.Input

/-!
# Registering inputs

Files are registered one after the other, and each registration gives a place.

* `InputFile.place_stays`: a place keeps naming one file, which has the path asked for.
* `InputFile.paths_registerAll`: the paths are those of the files, each at its first use.
* `InputFile.exists_registerAll_eq`: nothing else is read.
-/

namespace Playout

namespace InputFile

variable {file : InputFile} {files added : List InputFile}

def registerAll (added files : List InputFile) : List InputFile :=
  added.foldl (fun files file => (register file files).1) files

@[simp] theorem registerAll_nil (files : List InputFile) : registerAll [] files = files := rfl

@[simp] theorem registerAll_cons (file : InputFile) (rest files : List InputFile) :
    registerAll (file :: rest) files = registerAll rest (register file files).1 := rfl

theorem registerAll_append (a b files : List InputFile) :
    registerAll (a ++ b) files = registerAll b (registerAll a files) := by
  simp [registerAll]

/-! ## One file -/

/-- A file is added at the end if its path is new, and left out if not. -/
theorem register_eq (file : InputFile) (files : List InputFile) :
    (register file files).1 = if file.path ∈ files.map path then files else files ++ [file] := by
  unfold register
  split
  · next i h =>
    obtain ⟨hi, hp, -⟩ := List.findIdx?_eq_some_iff_getElem.mp h
    have hm : file.path ∈ files.map path :=
      List.mem_map.mpr ⟨files[i], List.getElem_mem hi, beq_iff_eq.mp hp⟩
    rw [if_pos hm]
  · next h =>
    have hm : file.path ∉ files.map path := by
      intro hm
      obtain ⟨f, hf, hp⟩ := List.mem_map.mp hm
      simpa [hp] using List.findIdx?_eq_none_iff.mp h f hf
    rw [if_neg hm]

theorem exists_at_register (file : InputFile) (files : List InputFile) :
    ∃ f, (register file files).1[(register file files).2]? = some f ∧ f.path = file.path :=
  Option.map_eq_some_iff.mp (path_at_register file files)

/-! ## One file after the other -/

theorem prefix_registerAll (added files : List InputFile) : files <+: registerAll added files := by
  induction added generalizing files with
  | nil => exact List.prefix_rfl
  | cons file rest ih => exact (prefix_register file files).trans (ih _)

theorem getElem?_mono {α : Type} {a b : List α} (h : a <+: b) {i : Nat} {x : α}
    (hx : a[i]? = some x) : b[i]? = some x := by
  obtain ⟨rest, rfl⟩ := h
  obtain ⟨hi, -⟩ := List.getElem?_eq_some_iff.mp hx
  rw [List.getElem?_append_left hi, hx]

/-- **A place stays.**  Whatever is registered later, the place that a registration gives names one
file, and it has the path of the file that was registered. -/
theorem place_stays (file : InputFile) (files : List InputFile) :
    ∃ f, f.path = file.path ∧
      ∀ later, (registerAll later (register file files).1)[(register file files).2]? = some f := by
  obtain ⟨f, hf, hp⟩ := exists_at_register file files
  exact ⟨f, hp, fun later => getElem?_mono (prefix_registerAll later _) hf⟩

/-- Only what is registered is read, after what was read before. -/
theorem exists_registerAll_eq (added files : List InputFile) :
    ∃ new, registerAll added files = files ++ new ∧ ∀ f ∈ new, f ∈ added := by
  induction added generalizing files with
  | nil => exact ⟨[], by simp, by simp⟩
  | cons file rest ih =>
    obtain ⟨new, heq, hmem⟩ := ih (register file files).1
    rw [registerAll_cons, heq, register_eq]
    split
    · exact ⟨new, rfl, fun f hf => List.mem_cons_of_mem _ (hmem f hf)⟩
    · refine ⟨file :: new, by simp, ?_⟩
      intro f hf
      rcases List.mem_cons.mp hf with rfl | hf
      · exact List.mem_cons_self
      · exact List.mem_cons_of_mem _ (hmem f hf)

theorem nodup_paths_registerAll (h : (files.map path).Nodup) (added : List InputFile) :
    ((registerAll added files).map path).Nodup := by
  induction added generalizing files with
  | nil => exact h
  | cons file rest ih => exact ih (nodup_paths_register h file)

theorem removeAll_singleton (p : String) (paths : List String) :
    [p].removeAll paths = if p ∈ paths then [] else [p] := by
  unfold List.removeAll
  by_cases h : p ∈ paths
  · simp [h]
  · simp [h]

/-- **The paths in the order of their first use.** -/
theorem paths_registerAll (added : List InputFile) :
    (registerAll added []).map path = (added.map path).eraseDups := by
  induction added using List.reverseRecOn with
  | nil => rfl
  | append_singleton rest file ih =>
    have hmem : file.path ∈ (registerAll rest []).map path ↔ file.path ∈ rest.map path := by
      rw [ih]
      exact List.mem_eraseDups
    rw [registerAll_append, registerAll_cons, registerAll_nil, register_eq, List.map_append,
      List.eraseDups_append, ← ih, List.map_singleton, removeAll_singleton]
    by_cases h : file.path ∈ rest.map path
    · rw [if_pos (hmem.mpr h), if_pos h, List.eraseDups_nil, List.append_nil]
    · rw [if_neg (mt hmem.mp h), if_neg h, List.map_append, List.map_singleton]
      rfl

end InputFile

end Playout
