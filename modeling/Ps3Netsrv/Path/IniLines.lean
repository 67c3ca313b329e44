import Ps3Netsrv.Path.Translate

/-!
# The lines of an .INI file

{lit}`translate_path` and {lit}`process_read_dir_cmd` go through the text of an
{lit}`.INI` file in the same way: they skip blanks, line ends among them, and take
what follows up to the next line end.  A text that ends in blanks gives them one more
line, an empty one.

Main results:

- Theorem {lit}`iniLines_eq`: the lines they see are the lines of the text with
  something on them, and at most one empty line behind these.
- Theorem {lit}`searchLines_eq`: {lit}`translate_path` takes the first of these
  lines whose path exists.
-/

namespace Ps3Netsrv

open Lib

/-! ## The lines the code sees -/

/-- The character {lit}`'\n'`. -/
def newline : UInt8 := 0x0A

/-- The lines in the order in which the loops over an {lit}`.INI` text come to them,
with the blanks in front of them skipped. -/
def iniLines (text : Bytes) : List Bytes :=
  if text = [] then []
  else
    let dirPath := text.dropWhile isBlank
    match _hsplit : splitAtFirst [newline] dirPath with
    | none => [dirPath]
    | some (line, rest) => line :: iniLines rest
termination_by text.length
decreasing_by
  have hlen : (text.dropWhile isBlank).length = (line ++ [newline] ++ rest).length :=
    congrArg List.length (splitAtFirst_eq_some _hsplit)
  have hle := (text.dropWhile_suffix isBlank).length_le
  simp only [List.length_append, List.length_singleton] at hlen
  omega

/-- The lines of a text that have something on them, without the blanks in front. -/
def textLines (text : Bytes) : List Bytes :=
  ((text.splitOn newline).map fun line => line.dropWhile isBlank).filter fun line => line ≠ []

/-- The last line. -/
theorem iniLines_none {text : Bytes} (hne : text ≠ [])
    (h : splitAtFirst [newline] (text.dropWhile isBlank) = none) :
    iniLines text = [text.dropWhile isBlank] := by
  rw [iniLines, if_neg hne]
  simp only
  split
  · rfl
  · rename_i heq
    rw [h] at heq
    cases heq

/-- A line and those behind it. -/
theorem iniLines_some {text line rest : Bytes} (hne : text ≠ [])
    (h : splitAtFirst [newline] (text.dropWhile isBlank) = some (line, rest)) :
    iniLines text = line :: iniLines rest := by
  rw [iniLines, if_neg hne]
  simp only
  split
  · rename_i heq
    rw [h] at heq
    cases heq
  · rename_i heq
    rw [h] at heq
    cases heq
    rfl

/-! ## Lines of a text -/

theorem isBlank_newline : isBlank newline = true := by decide

/-- The line in front of the first line end. -/
theorem newline_not_mem_of_split {text line rest : Bytes}
    (h : splitAtFirst [newline] text = some (line, rest)) : newline ∉ line := by
  intro hmem
  rcases List.mem_iff_append.mp hmem with ⟨front, back, rfl⟩
  have htext := splitAtFirst_eq_some h
  have hshape : text = front ++ [newline] ++ (back ++ [newline] ++ rest) := by
    rw [htext]
    simp
  rw [hshape] at h
  have hle := splitAtFirst_le h
  simp only [List.length_append, List.length_cons] at hle
  omega

/-- A text without a line end. -/
theorem newline_not_mem_of_none {text : Bytes} (h : splitAtFirst [newline] text = none) :
    newline ∉ text := by
  intro hmem
  rcases List.mem_iff_append.mp hmem with ⟨front, back, rfl⟩
  have hshape : front ++ newline :: back = front ++ [newline] ++ back := by simp
  rw [hshape] at h
  exact splitAtFirst_eq_none h

/-- The first line and the rest. -/
theorem textLines_append {line : Bytes} (hline : newline ∉ line) (rest : Bytes) :
    textLines (line ++ [newline] ++ rest) =
      (if line.dropWhile isBlank = [] then [] else [line.dropWhile isBlank]) ++ textLines rest := by
  have hsplit : (line ++ [newline] ++ rest).splitOn newline = line :: rest.splitOn newline := by
    rw [List.append_assoc]
    exact List.splitOn_append_cons_self_of_not_mem hline rest
  rw [textLines, hsplit, List.map_cons, List.filter_cons, textLines]
  by_cases hblank : line.dropWhile isBlank = []
  · simp [hblank]
  · simp [hblank]

/-- The only line. -/
theorem textLines_single {line : Bytes} (hline : newline ∉ line) :
    textLines line = if line.dropWhile isBlank = [] then [] else [line.dropWhile isBlank] := by
  rw [textLines, List.splitOn_eq_singleton hline]
  by_cases hblank : line.dropWhile isBlank = []
  · simp [hblank]
  · simp [hblank]

/-- A blank in front of a text is on no line. -/
theorem textLines_cons_blank {c : UInt8} (hc : isBlank c = true) (text : Bytes) :
    textLines (c :: text) = textLines text := by
  by_cases hline : c = newline
  · rw [hline]
    exact textLines_append (List.not_mem_nil) text
  · rw [textLines, List.splitOn_cons_eq_if_modifyHead, if_neg (by simpa using hline), textLines]
    rcases List.exists_cons_of_ne_nil (List.splitOn_ne_nil newline text) with
      ⟨line, lines, hlines⟩
    simp only [hlines, List.modifyHead_cons, List.map_cons,
      List.dropWhile_cons_of_pos hc]

/-- Blanks in front of a text are on no line. -/
theorem textLines_dropWhile (text : Bytes) :
    textLines (text.dropWhile isBlank) = textLines text := by
  induction text with
  | nil => rfl
  | cons c text ih =>
      by_cases hc : isBlank c = true
      · rw [List.dropWhile_cons_of_pos hc, textLines_cons_blank hc, ih]
      · rw [List.dropWhile_cons_of_neg hc]

/-- What stands behind skipped blanks starts with something else. -/
theorem dropWhile_line {text line rest : Bytes}
    (h : text.dropWhile isBlank = line ++ rest) (hend : rest = [] ∨ rest.head? = some newline) :
    line.dropWhile isBlank = line ∧ (line = [] → rest = []) := by
  have hstop : ∀ c ∈ (line ++ rest).head?, isBlank c = false := by
    intro c hc
    rw [← h] at hc
    have hnot := List.head?_dropWhile_not isBlank text
    rw [hc] at hnot
    exact hnot
  rcases line with _ | ⟨c, line⟩
  · refine ⟨rfl, fun _ => hend.resolve_right fun hhead => ?_⟩
    have hblank := hstop newline hhead
    rw [isBlank_newline] at hblank
    cases hblank
  · refine ⟨?_, fun hnil => by cases hnil⟩
    rw [List.dropWhile_cons_of_neg (by simp [hstop c rfl])]

/-- The lines the code sees: the lines of the text with something on them, and an empty
one behind these when the text ends in blanks. -/
theorem iniLines_eq (text : Bytes) :
    ∃ tail, iniLines text = textLines text ++ tail ∧ (tail = [] ∨ tail = [[]]) := by
  fun_induction iniLines text with
  | case1 => exact ⟨[], rfl, Or.inl rfl⟩
  | case2 text hne dirPath hsplit =>
      have hline := newline_not_mem_of_none hsplit
      rw [← textLines_dropWhile, textLines_single hline]
      have hdrop : dirPath.dropWhile isBlank = dirPath :=
        (dropWhile_line (List.append_nil _).symm (Or.inl rfl)).1
      rw [hdrop]
      by_cases hblank : dirPath = []
      · exact ⟨[[]], by simp [hblank], Or.inr rfl⟩
      · exact ⟨[], by simp [hblank], Or.inl rfl⟩
  | case3 text hne dirPath line rest hsplit ih =>
      rcases ih with ⟨tail, htail, hshape⟩
      have hline := newline_not_mem_of_split hsplit
      have htext : dirPath = line ++ ([newline] ++ rest) := by
        rw [← List.append_assoc]
        exact splitAtFirst_eq_some hsplit
      have hdrop := dropWhile_line htext (Or.inr rfl)
      have hne : line ≠ [] := fun hnil => by cases hdrop.2 hnil
      refine ⟨tail, ?_, hshape⟩
      have hsame : text.dropWhile isBlank = line ++ [newline] ++ rest := splitAtFirst_eq_some hsplit
      have hlines : textLines text = line :: textLines rest := by
        rw [← textLines_dropWhile, hsame, textLines_append hline, hdrop.1, if_neg hne]
        rfl
      rw [hlines, htail]
      rfl

/-! ## The search through the lines -/

/-- What the search of {lit}`translate_path` returns, when it returns: the path of the first
line that exists. -/
theorem searchLines_ok {fs : FileSystem} {filename text : Bytes} {terminated : Bool}
    {found : Option HostPath} (h : searchLines fs filename terminated text = .ok found) :
    found = ((iniLines text).map fun line => linePath line filename).find?
      fun found => (fs.statFile found.path).isSome := by
  fun_induction searchLines fs filename terminated text with
  | case1 =>
      cases h
      simp [iniLines]
  | case2 => cases h
  | case3 text hne dirPath hsplit =>
      cases h
      rw [iniLines_none hne hsplit, List.map_singleton, List.find?_singleton]
  | case4 => cases h
  | case5 text hne dirPath line rest hsplit _ hfound =>
      cases h
      rw [iniLines_some hne hsplit, List.map_cons, List.find?_cons, hfound]
  | case6 text hne dirPath line rest hsplit _ hfound ih =>
      rw [Bool.not_eq_true] at hfound
      rw [iniLines_some hne hsplit, List.map_cons, List.find?_cons, hfound]
      exact ih h

/-- In a terminated text the search returns. -/
theorem searchLines_returns (fs : FileSystem) (filename text : Bytes) :
    ∃ found, searchLines fs filename true text = .ok found := by
  fun_induction searchLines fs filename true text with
  | case1 => exact ⟨_, rfl⟩
  | case2 => simp at *
  | case3 => exact ⟨_, rfl⟩
  | case4 => simp at *
  | case5 => exact ⟨_, rfl⟩
  | case6 _ _ _ _ _ _ _ _ ih => exact ih

/-- The search of {lit}`translate_path` in a terminated text: the first line whose path
exists. -/
theorem searchLines_eq (fs : FileSystem) (filename text : Bytes) :
    searchLines fs filename true text = .ok (((iniLines text).map fun line =>
      linePath line filename).find? fun found => (fs.statFile found.path).isSome) := by
  rcases searchLines_returns fs filename text with ⟨found, hfound⟩
  rw [hfound, searchLines_ok hfound]

end Ps3Netsrv
