import Ps3Netsrv.Dir.ReadDir
import Ps3Netsrv.Path.Redirect

/-!
# The array for {lit}`.INI` files

{lit}`translate_path` has one array of {lit}`MAX_LINK_LEN` bytes for two things: the path
of each {lit}`.INI` file it looks for, and the text of the one it finds.  Nothing checks
that the path fits, and nothing ends a text that fills the array.
{lit}`process_read_dir_cmd` has such an array for the text only.

Here the array is a list of cells, and a scan that comes to its end examines a cell behind
it.

Main results:

- Theorems {lit}`scanLines_ended` and {lit}`scanLines_open`: which lines the loops come to,
  and when they leave the array.
- Theorems {lit}`mergeDirs_eq_scan` and {lit}`mergedDirs_eq_scan`: these are the loops of
  both functions.
- Theorem {lit}`linkBuffer_safe_iff`: when everything stays inside the array, and behind a
  shortened line too.
-/

namespace Ps3Netsrv

open Lib

/-! ## The loop over the lines -/

/-- {lit}`lnk_file` after the file was read: zeros behind a short text. -/
def linkCells (content : Bytes) : Bytes :=
  content.take maxLinkLen ++ List.replicate (maxLinkLen - content.length) 0

/-- Skip the blanks in front of a line; {lit}`none` examines a cell behind the array. -/
def skipBlanks : Bytes → Option Bytes
  | [] => none
  | c :: cells => if isBlank c then skipBlanks cells else some (c :: cells)

/-- {lit}`strstr` for the line end, and {lit}`strlen` where there is none: the line, and the
cells behind its line end. -/
def scanLine : Bytes → Option (Bytes × Option Bytes)
  | [] => none
  | c :: cells =>
      if c = 0 then some ([], none)
      else if c = newline then some ([], some cells)
      else (scanLine cells).map fun (line, rest) => (c :: line, rest)

/-- What a loop over the lines does: the lines it comes to, and whether it stays inside the
array. -/
structure LinkScan where
  lines : List Bytes
  inside : Bool
deriving Repr, DecidableEq

/-- The cells behind a line end are fewer. -/
theorem scanLine_length {cells line rest : Bytes} (h : scanLine cells = some (line, some rest)) :
    rest.length < cells.length := by
  induction cells generalizing line with
  | nil => cases h
  | cons c cells ih =>
      rw [scanLine] at h
      split at h
      · cases h
      · split at h
        · cases h
          exact Nat.lt_succ_self _
        · rcases Option.map_eq_some_iff.mp h with ⟨⟨line', rest'⟩, hscan, heq⟩
          cases heq
          exact (ih hscan).trans (Nat.lt_succ_self _)

/-- Blanks are skipped forwards. -/
theorem skipBlanks_length {cells dirPath : Bytes} (h : skipBlanks cells = some dirPath) :
    dirPath.length ≤ cells.length := by
  induction cells with
  | nil => cases h
  | cons c cells ih =>
      rw [skipBlanks] at h
      split at h
      · exact (ih h).trans (Nat.le_succ _)
      · cases h
        exact le_rfl

/-- The loop over the lines, from the cell {lit}`dir_path` points to.  {lit}`stop` tells for
which lines the function returns. -/
def scanLines (stop : Bytes → Bool) (cells : Bytes) : LinkScan :=
  match cells.head? with
  | none => { lines := [], inside := false }
  | some c =>
      if c = 0 then { lines := [], inside := true }
      else
        match _hskip : skipBlanks cells with
        | none => { lines := [], inside := false }
        | some dirPath =>
            match _hscan : scanLine dirPath with
            | none => { lines := [], inside := false }
            | some (line, none) => { lines := [line], inside := true }
            | some (line, some rest) =>
                if stop line then { lines := [line], inside := true }
                else
                  let later := scanLines stop rest
                  { lines := line :: later.lines, inside := later.inside }
termination_by cells.length
decreasing_by
  exact (scanLine_length _hscan).trans_le (skipBlanks_length _hskip)

/-! ## What the scans see -/

/-- The blanks are those of the text. -/
theorem skipBlanks_eq (cells : Bytes) :
    skipBlanks cells = if cells.dropWhile isBlank = [] then none
      else some (cells.dropWhile isBlank) := by
  induction cells with
  | nil => rfl
  | cons c cells ih =>
      rw [skipBlanks]
      by_cases hc : isBlank c = true
      · rw [if_pos hc, ih, List.dropWhile_cons_of_pos hc]
      · rw [if_neg hc, List.dropWhile_cons_of_neg hc, if_neg (List.cons_ne_nil _ _)]

/-- A line of the text and the cells behind its line end. -/
theorem scanLine_newline {line : Bytes} (hline : newline ∉ line) (hzero : 0 ∉ line)
    (rest : Bytes) : scanLine (line ++ newline :: rest) = some (line, some rest) := by
  induction line with
  | nil => rfl
  | cons c line ih =>
      rw [List.mem_cons, not_or] at hline hzero
      rw [List.cons_append, scanLine, if_neg (Ne.symm hzero.1), if_neg (Ne.symm hline.1),
        ih hline.2 hzero.2]
      rfl

/-- The line that a NUL ends. -/
theorem scanLine_zero {line : Bytes} (hline : newline ∉ line) (hzero : 0 ∉ line)
    (behind : Bytes) : scanLine (line ++ 0 :: behind) = some (line, none) := by
  induction line with
  | nil => rfl
  | cons c line ih =>
      rw [List.mem_cons, not_or] at hline hzero
      rw [List.cons_append, scanLine, if_neg (Ne.symm hzero.1), if_neg (Ne.symm hline.1),
        ih hline.2 hzero.2]
      rfl

/-- A line that nothing ends. -/
theorem scanLine_open {line : Bytes} (hline : newline ∉ line) (hzero : 0 ∉ line) :
    scanLine line = none := by
  induction line with
  | nil => rfl
  | cons c line ih =>
      rw [List.mem_cons, not_or] at hline hzero
      rw [scanLine, if_neg (Ne.symm hzero.1), if_neg (Ne.symm hline.1), ih hline.2 hzero.2]
      rfl

/-- The elements up to the first one to stop at. -/
def uptoFirst {α : Type} (stop : α → Bool) : List α → List α
  | [] => []
  | a :: l => if stop a then [a] else a :: uptoFirst stop l

/-- The elements that none to stop at comes before. -/
theorem mem_uptoFirst {α : Type} {stop : α → Bool} {l : List α} {a : α} :
    a ∈ uptoFirst stop l ↔
      ∃ before after, l = before ++ a :: after ∧ ∀ b ∈ before, stop b = false := by
  induction l with
  | nil => simp [uptoFirst]
  | cons c l ih =>
      rw [uptoFirst]
      constructor
      · intro h
        split at h
        · rw [List.mem_singleton.mp h]
          exact ⟨[], l, rfl, by simp⟩
        · rename_i hstop
          rcases List.mem_cons.mp h with rfl | h
          · exact ⟨[], l, rfl, by simp⟩
          · rcases ih.mp h with ⟨before, after, rfl, hbefore⟩
            refine ⟨c :: before, after, rfl, List.forall_mem_cons.mpr ⟨?_, hbefore⟩⟩
            rwa [Bool.not_eq_true] at hstop
      · rintro ⟨before, after, hsplit, hbefore⟩
        rcases before with _ | ⟨b, before⟩
        · obtain rfl := (List.cons.inj hsplit).1
          split <;> simp
        · obtain ⟨rfl, rfl⟩ := List.cons.inj hsplit
          rw [List.forall_mem_cons] at hbefore
          rw [if_neg (by simp [hbefore.1])]
          exact List.mem_cons_of_mem _ (ih.mpr ⟨before, after, rfl, hbefore.2⟩)

/-- The first element to find is the last one before stopping. -/
theorem find?_uptoFirst {α : Type} (stop : α → Bool) (l : List α) :
    (uptoFirst stop l).find? stop = l.find? stop := by
  induction l with
  | nil => rfl
  | cons a l ih =>
      rw [uptoFirst]
      by_cases ha : stop a = true
      · rw [if_pos ha, List.find?_cons_of_pos ha, List.find?_cons_of_pos ha]
      · rw [if_neg ha, List.find?_cons_of_neg ha, List.find?_cons_of_neg ha, ih]

/-- Without an element to stop at all are passed. -/
theorem uptoFirst_never {α : Type} (l : List α) : uptoFirst (fun _ => false) l = l := by
  induction l with
  | nil => rfl
  | cons a l ih => simp [uptoFirst, ih]

/-! ## The lines of the array -/

section Turn

variable {stop : Bytes → Bool} {cells dirPath line rest : Bytes} {c : UInt8}

/-- One turn that leaves the array. -/
theorem scanLines_outside (hhead : cells.head? = some c) (hc : c ≠ 0)
    (hleaves : skipBlanks cells = none ∨
      skipBlanks cells = some dirPath ∧ scanLine dirPath = none) :
    scanLines stop cells = { lines := [], inside := false } := by
  rw [scanLines, hhead]
  simp only [if_neg hc]
  split
  · rfl
  · rename_i dirPath' hskip'
    rcases hleaves with hskip | ⟨hskip, hscan⟩
    · cases hskip.symm.trans hskip'
    · cases hskip.symm.trans hskip'
      split
      · rfl
      · rename_i hscan'
        cases hscan.symm.trans hscan'
      · rename_i hscan'
        cases hscan.symm.trans hscan'

/-- The last turn. -/
theorem scanLines_last (hhead : cells.head? = some c) (hc : c ≠ 0)
    (hskip : skipBlanks cells = some dirPath) (hscan : scanLine dirPath = some (line, none)) :
    scanLines stop cells = { lines := [line], inside := true } := by
  rw [scanLines, hhead]
  simp only [if_neg hc]
  split
  · rename_i hskip'
    cases hskip.symm.trans hskip'
  · rename_i hskip'
    cases hskip.symm.trans hskip'
    split
    · rename_i hscan'
      cases hscan.symm.trans hscan'
    · rename_i hscan'
      cases hscan.symm.trans hscan'
      rfl
    · rename_i hscan'
      cases hscan.symm.trans hscan'

/-- One turn with a line end. -/
theorem scanLines_line (hhead : cells.head? = some c) (hc : c ≠ 0)
    (hskip : skipBlanks cells = some dirPath) (hscan : scanLine dirPath = some (line, some rest)) :
    scanLines stop cells =
      if stop line then { lines := [line], inside := true }
      else { lines := line :: (scanLines stop rest).lines
             inside := (scanLines stop rest).inside } := by
  rw [scanLines, hhead]
  simp only [if_neg hc]
  split
  · rename_i hskip'
    cases hskip.symm.trans hskip'
  · rename_i hskip'
    cases hskip.symm.trans hskip'
    split
    · rename_i hscan'
      cases hscan.symm.trans hscan'
    · rename_i hscan'
      cases hscan.symm.trans hscan'
    · rename_i hscan'
      cases hscan.symm.trans hscan'
      rfl

end Turn

/-- The first cell of a text without NUL. -/
theorem exists_head {text : Bytes} (hne : text ≠ []) (hzero : 0 ∉ text) (tail : Bytes) :
    ∃ c, (text ++ tail).head? = some c ∧ c ≠ 0 := by
  rcases List.exists_cons_of_ne_nil hne with ⟨c, text, rfl⟩
  exact ⟨c, rfl, fun heq => hzero (heq ▸ List.mem_cons_self)⟩

/-- Skipping the blanks of a text without NUL leaves no NUL either. -/
theorem zero_not_mem_dropWhile {text : Bytes} (hzero : 0 ∉ text) :
    0 ∉ text.dropWhile isBlank := fun hmem =>
  hzero ((List.dropWhile_suffix isBlank).subset hmem)

/-- Behind a text in front of a NUL the loop ends: it comes to the lines of the text. -/
theorem scanLines_ended (stop : Bytes → Bool) {text : Bytes} (hzero : 0 ∉ text)
    (behind : Bytes) :
    scanLines stop (text ++ 0 :: behind) =
      { lines := uptoFirst stop (iniLines text), inside := true } := by
  have hskips : ∀ text : Bytes,
      skipBlanks (text ++ 0 :: behind) = some (text.dropWhile isBlank ++ 0 :: behind) := by
    intro text
    have hdrop : (text ++ 0 :: behind).dropWhile isBlank =
        text.dropWhile isBlank ++ 0 :: behind := by
      rw [List.dropWhile_append]
      split
      · rename_i hnil
        rw [List.isEmpty_iff.mp hnil, List.nil_append, List.dropWhile_cons_of_neg (by decide)]
      · rfl
    rw [skipBlanks_eq, hdrop, if_neg (by simp)]
  fun_induction iniLines text with
  | case1 =>
      rw [scanLines]
      rfl
  | case2 text hne dirPath hsplit =>
      rcases exists_head hne hzero (0 :: behind) with ⟨c, hhead, hc⟩
      rw [scanLines_last hhead hc (hskips text)
        (scanLine_zero (newline_not_mem_of_none hsplit) (zero_not_mem_dropWhile hzero) behind)]
      simp [uptoFirst, dirPath]
  | case3 text hne dirPath line rest hsplit ih =>
      have htext : text.dropWhile isBlank = line ++ [newline] ++ rest :=
        splitAtFirst_eq_some hsplit
      have hfree : 0 ∉ line ++ [newline] ++ rest := by
        rw [← htext]
        exact zero_not_mem_dropWhile hzero
      simp only [List.mem_append, not_or] at hfree
      have hscan : scanLine (text.dropWhile isBlank ++ 0 :: behind) =
          some (line, some (rest ++ 0 :: behind)) := by
        rw [htext, List.append_assoc, List.append_assoc]
        exact scanLine_newline (newline_not_mem_of_split hsplit) hfree.1.1 _
      rcases exists_head hne hzero (0 :: behind) with ⟨c, hhead, hc⟩
      rw [scanLines_line hhead hc (hskips text) hscan, ih hfree.2, uptoFirst]
      split <;> rfl

/-- A turn in a text that fills the array and has no line end left. -/
theorem scanLines_of_none (stop : Bytes → Bool) {text : Bytes} (hne : text ≠ []) (hzero : 0 ∉ text)
    (hsplit : splitAtFirst [newline] (text.dropWhile isBlank) = none) :
    scanLines stop text = { lines := [], inside := false } := by
  rcases exists_head hne hzero [] with ⟨c, hhead, hc⟩
  rw [List.append_nil] at hhead
  have hleaves : skipBlanks text = none ∨
      skipBlanks text = some (text.dropWhile isBlank) ∧
        scanLine (text.dropWhile isBlank) = none := by
    rw [skipBlanks_eq]
    split
    · exact Or.inl rfl
    · exact Or.inr ⟨rfl, scanLine_open (newline_not_mem_of_none hsplit)
        (zero_not_mem_dropWhile hzero)⟩
  exact scanLines_outside hhead hc hleaves

/-- A turn in a text that fills the array and has another line end. -/
theorem scanLines_of_some (stop : Bytes → Bool) {text line rest : Bytes} (hne : text ≠ [])
    (hzero : 0 ∉ text)
    (hsplit : splitAtFirst [newline] (text.dropWhile isBlank) = some (line, rest)) :
    0 ∉ rest ∧ scanLines stop text =
      if stop line then { lines := [line], inside := true }
      else { lines := line :: (scanLines stop rest).lines
             inside := (scanLines stop rest).inside } := by
  have htext : text.dropWhile isBlank = line ++ [newline] ++ rest := splitAtFirst_eq_some hsplit
  have hfree : 0 ∉ line ++ [newline] ++ rest := by
    rw [← htext]
    exact zero_not_mem_dropWhile hzero
  simp only [List.mem_append, not_or] at hfree
  have hskip : skipBlanks text = some (line ++ newline :: rest) := by
    rw [skipBlanks_eq, htext, if_neg (by simp)]
    simp
  rcases exists_head hne hzero [] with ⟨c, hhead, hc⟩
  rw [List.append_nil] at hhead
  exact ⟨hfree.2, scanLines_line hhead hc hskip
    (scanLine_newline (newline_not_mem_of_split hsplit) hfree.1.1 rest)⟩

/-- A text up to its last line end. -/
def endedText (text : Bytes) : Bytes :=
  text.rdropWhile fun c => c ≠ newline

/-- Blanks in front of a text are on no line. -/
theorem textLines_append_blanks {blanks : Bytes} (h : ∀ c ∈ blanks, isBlank c = true)
    (text : Bytes) : textLines (blanks ++ text) = textLines text := by
  induction blanks with
  | nil => rfl
  | cons c blanks ih =>
      rw [List.forall_mem_cons] at h
      rw [List.cons_append, textLines_cons_blank h.1, ih h.2]

/-- The blanks in front of a text. -/
theorem isBlank_of_mem_takeWhile {text : Bytes} :
    ∀ c ∈ text.takeWhile isBlank, isBlank c = true := fun _ hc => List.mem_takeWhile_imp hc

/-- In a text that fills the array the loop comes to the lines that have a line end, and
leaves the array behind them. -/
theorem scanLines_open (stop : Bytes → Bool) {text : Bytes} (hzero : 0 ∉ text) :
    scanLines stop text =
      { lines := uptoFirst stop (textLines (endedText text))
        inside := (textLines (endedText text)).any stop } := by
  fun_induction iniLines text with
  | case1 =>
      rw [scanLines]
      rfl
  | case2 text hne dirPath hsplit =>
      have hline := newline_not_mem_of_none hsplit
      have hlines : textLines (endedText text) = [] := by
        have hended : endedText text = endedText (text.takeWhile isBlank) := by
          conv_lhs => rw [← List.takeWhile_append_dropWhile (p := isBlank) (l := text)]
          refine rdropWhile_append_of_all fun c hc => decide_eq_true ?_
          rintro rfl
          exact hline hc
        have hblank : ∀ c ∈ endedText (text.takeWhile isBlank), isBlank c = true := fun c hc =>
          isBlank_of_mem_takeWhile c ((List.rdropWhile_prefix _ _).subset hc)
        rw [hended, ← List.append_nil (endedText _), textLines_append_blanks hblank]
        rfl
      rw [scanLines_of_none stop hne hzero hsplit, hlines]
      rfl
  | case3 text hne dirPath line rest hsplit ih =>
      have htext : text.dropWhile isBlank = line ++ [newline] ++ rest :=
        splitAtFirst_eq_some hsplit
      have hline := newline_not_mem_of_split hsplit
      have hdrop := dropWhile_line (htext.trans (List.append_assoc _ _ _)) (Or.inr rfl)
      have hlineNe : line ≠ [] := fun hnil => by cases hdrop.2 hnil
      have hended : endedText text =
          text.takeWhile isBlank ++ (line ++ [newline] ++ endedText rest) := by
        have hwhole : text = text.takeWhile isBlank ++ line ++ [newline] ++ rest := by
          conv_lhs => rw [← List.takeWhile_append_dropWhile (p := isBlank) (l := text), htext]
          simp only [List.append_assoc]
        conv_lhs => rw [hwhole]
        rw [endedText, rdropWhile_append_of_keep (by simp)]
        simp only [List.append_assoc, endedText]
      have hlines : textLines (endedText text) = line :: textLines (endedText rest) := by
        rw [hended, textLines_append_blanks isBlank_of_mem_takeWhile, textLines_append hline,
          hdrop.1, if_neg hlineNe]
        rfl
      rcases scanLines_of_some stop hne hzero hsplit with ⟨hrest, hscan⟩
      rw [hscan, ih hrest, hlines, uptoFirst, List.any_cons]
      by_cases hstop : stop line = true
      · simp [hstop]
      · simp [hstop]

/-! ## The array with a file in it -/

/-- The text of the file ends inside the array. -/
def HasEnd (content : Bytes) : Prop :=
  content.length < maxLinkLen ∨ 0 ∈ content.take maxLinkLen

instance (content : Bytes) : Decidable (HasEnd content) :=
  inferInstanceAs (Decidable (_ ∨ _))

/-- The check of the buffer. -/
theorem hasEnd_iff (content : Bytes) :
    ((content.take maxLinkLen).length < maxLinkLen ∨ 0 ∈ content.take maxLinkLen) ↔
      HasEnd content := by
  rw [HasEnd, List.length_take]
  refine or_congr_left ?_
  omega

theorem zero_not_mem_iniText (content : Bytes) : 0 ∉ iniText content := by
  intro hmem
  simpa using List.mem_takeWhile_imp hmem

/-- A text that ends inside the array. -/
theorem linkCells_ended {content : Bytes} (h : HasEnd content) :
    ∃ behind, linkCells content = iniText content ++ 0 :: behind := by
  by_cases hzero : 0 ∈ content.take maxLinkLen
  · have hne : (content.take maxLinkLen).dropWhile (· ≠ 0) ≠ [] := fun hnil =>
      absurd (List.dropWhile_eq_nil_iff.mp hnil 0 hzero) (by simp)
    rcases List.exists_cons_of_ne_nil hne with ⟨c, rest, hrest⟩
    obtain rfl : c = 0 := by
      have hhead := List.head?_dropWhile_not (fun b : UInt8 => decide (b ≠ 0))
        (content.take maxLinkLen)
      rw [hrest] at hhead
      simpa using hhead
    refine ⟨rest ++ List.replicate (maxLinkLen - content.length) 0, ?_⟩
    rw [linkCells, iniText]
    conv_lhs => rw [← List.takeWhile_append_dropWhile (p := (· ≠ 0)) (l := content.take maxLinkLen),
      hrest]
    simp only [List.append_assoc, List.cons_append]
  · have hlen : content.length < maxLinkLen := h.resolve_right hzero
    have htext : iniText content = content.take maxLinkLen :=
      List.takeWhile_eq_self_iff.mpr fun c hc => by
        simp only [ne_eq, decide_eq_true_eq]
        rintro rfl
        exact hzero hc
    refine ⟨List.replicate (maxLinkLen - content.length - 1) 0, ?_⟩
    rw [linkCells, htext, ← List.replicate_succ]
    congr 2
    omega

/-- A text that fills the array. -/
theorem linkCells_open {content : Bytes} (h : ¬ HasEnd content) :
    linkCells content = iniText content := by
  rw [HasEnd, not_or, Nat.not_lt] at h
  have htext : iniText content = content.take maxLinkLen :=
    List.takeWhile_eq_self_iff.mpr fun c hc => by
      simp only [ne_eq, decide_eq_true_eq]
      rintro rfl
      exact h.2 hc
  rw [linkCells, htext, Nat.sub_eq_zero_of_le h.1]
  simp

/-- What {lit}`translate_path` makes of a loop over the lines. -/
def LinkScan.found (scan : LinkScan) (fs : FileSystem) (filename : Bytes) :
    Except Fault (Option HostPath) :=
  if scan.inside then
    .ok ((scan.lines.map fun line => linePath line filename).find? fun found =>
      (fs.statFile found.path).isSome)
  else .error .outOfBounds

/-- The line leads to a path that exists. -/
def leads (fs : FileSystem) (filename line : Bytes) : Bool :=
  (fs.statFile (linePath line filename).path).isSome

theorem leads_iff {fs : FileSystem} {filename line : Bytes} :
    leads fs filename line = true ↔ HasPath fs line filename := Iff.rfl

/-- The search through the lines of a text that fills the array. -/
theorem searchLines_open (fs : FileSystem) (filename : Bytes) {text : Bytes} (hzero : 0 ∉ text) :
    searchLines fs filename false text =
      (scanLines (leads fs filename) text).found fs filename := by
  fun_induction searchLines fs filename false text with
  | case1 => simp at *
  | case2 =>
      rw [scanLines]
      rfl
  | case3 => simp at *
  | case4 text hne dirPath hsplit =>
      rw [scanLines_of_none _ hne hzero hsplit]
      rfl
  | case5 text hne dirPath line rest hsplit found hfound =>
      have hleads : leads fs filename line = true := hfound
      rw [(scanLines_of_some _ hne hzero hsplit).2, if_pos hleads, LinkScan.found, if_pos rfl,
        List.map_singleton, List.find?_singleton]
      exact congrArg (fun found => Except.ok found) (if_pos hfound).symm
  | case6 text hne dirPath line rest hsplit found hfound ih =>
      have hleads : leads fs filename line = false := by
        rwa [Bool.not_eq_true] at hfound
      rcases scanLines_of_some (leads fs filename) hne hzero hsplit with ⟨hrest, hscan⟩
      rw [ih hrest, hscan, if_neg (by simp [hleads]), LinkScan.found, LinkScan.found]
      split
      · rw [List.map_cons, List.find?_cons_of_neg (by exact hfound)]
      · rfl

/-- The search of {lit}`translate_path` through the text of a file is the loop over the lines
of the array. -/
theorem searchLines_eq_scan (fs : FileSystem) (filename content : Bytes) :
    searchLines fs filename (HasEnd content) (iniText content) =
      (scanLines (leads fs filename) (linkCells content)).found fs filename := by
  by_cases hend : HasEnd content
  · rcases linkCells_ended hend with ⟨behind, hcells⟩
    rw [decide_eq_true hend, hcells, scanLines_ended _ (zero_not_mem_iniText content),
      searchLines_eq, LinkScan.found, if_pos rfl]
    simp only [List.find?_map]
    exact congrArg (fun found => Except.ok (Option.map _ found))
      (find?_uptoFirst (leads fs filename) _).symm
  · rw [decide_eq_false hend, linkCells_open hend]
    exact searchLines_open fs filename (zero_not_mem_iniText content)

/-- The redirection goes through the array. -/
theorem mergeDirs_eq_scan (fs : FileSystem) (p : Bytes) (pLen rootLen : Nat) :
    mergeDirs fs p pLen rootLen =
      (searchIni fs p pLen rootLen pLen).bind fun found =>
        match found with
        | none => .ok none
        | some (lnkFile, filename) =>
            match fs.content lnkFile with
            | none => .ok none
            | some content =>
                (scanLines (leads fs filename) (linkCells content)).found fs filename := by
  unfold mergeDirs
  rcases searchIni fs p pLen rootLen pLen with e | _ | ⟨lnkFile, filename⟩
  · rfl
  · rfl
  · simp only [bind, Except.bind]
    rcases fs.content lnkFile with _ | content
    · rfl
    · have hsame : decide ((content.take maxLinkLen).length < maxLinkLen ∨
          0 ∈ content.take maxLinkLen) = decide (HasEnd content) :=
        decide_eq_decide.mpr (hasEnd_iff content)
      simp only [hsame]
      exact searchLines_eq_scan fs filename content

/-- The {lit}`.INI` file of a directory that is listed. -/
def dirIni (fs : FileSystem) (dirpath : Bytes) (rootLen : Nat) : Except Fault (Option Bytes) :=
  if rootLen ≤ dirpath.length - 1 then
    searchDirIni fs dirpath (dirpath.length - 1) rootLen (dirpath.length - 1)
  else .ok none

/-- The listing goes through the array, without stopping at a line. -/
theorem mergedDirs_eq_scan (fs : FileSystem) (dirpath : Bytes) (rootLen : Nat) :
    mergedDirs fs dirpath rootLen =
      (dirIni fs dirpath rootLen).bind fun found =>
        match found.bind fs.content with
        | none => .ok []
        | some content =>
            let scan := scanLines (fun _ => false) (linkCells content)
            if scan.inside then .ok (scan.lines.map fun line => normalizePath line true)
            else .error .outOfBounds := by
  have hbody : mergedDirs fs dirpath rootLen =
      (dirIni fs dirpath rootLen).bind fun found =>
        match found.bind fs.content with
        | none => .ok []
        | some content =>
            if HasEnd content then
              .ok ((iniLines (iniText content)).map fun line => normalizePath line true)
            else .error .outOfBounds := by
    unfold mergedDirs
    simp only [hasEnd_iff]
    rw [dirIni]
    split <;> rfl
  rw [hbody]
  congr 1
  funext found
  rcases found.bind fs.content with _ | content
  · rfl
  · simp only
    by_cases hend : HasEnd content
    · rcases linkCells_ended hend with ⟨behind, hcells⟩
      rw [if_pos hend, hcells, scanLines_ended _ (zero_not_mem_iniText content), uptoFirst_never]
      rfl
    · rw [if_neg hend, linkCells_open hend, scanLines_open _ (zero_not_mem_iniText content)]
      simp

/-! ## The paths in the array -/

/-- The strings that {lit}`translate_path` writes into the array, from position {lit}`i` of
its path down: the {lit}`.INI` files next to the ancestors, up to one that exists. -/
def lnkStrings (fs : FileSystem) (p : Bytes) (pLen rootLen : Nat) : Nat → List Bytes
  | 0 => if p.getD 0 0 = slash ∨ 0 = pLen then [p.take 0 ++ iniSuffix] else []
  | i + 1 =>
      let later := if rootLen ≤ i then lnkStrings fs p pLen rootLen i else []
      if p.getD (i + 1) 0 = slash ∨ i + 1 = pLen then
        (p.take (i + 1) ++ iniSuffix) ::
          (if (fs.statFile (p.take (i + 1) ++ iniSuffix)).isSome then [] else later)
      else later

/-- The string and its terminator fit the array. -/
def FitsLink (lnkFile : Bytes) : Prop :=
  lnkFile.length + 1 ≤ maxLinkLen

/-- One turn of the search, for a string that fits. -/
theorem probeIni_of_fits (fs : FileSystem) {p : Bytes} {pLen i : Nat}
    (hend : EndsAncestor p pLen i) (hfits : FitsLink (p.take i ++ iniSuffix)) :
    probeIni fs p pLen i = .ok (if (fs.statFile (p.take i ++ iniSuffix)).isSome then
      some (p.take i ++ iniSuffix, p.drop i) else none) := by
  unfold EndsAncestor at hend
  rw [probeIni, if_pos hend]
  exact if_neg (Nat.not_lt.mpr hfits)

/-- One turn of the search, for a string that does not fit. -/
theorem probeIni_of_long (fs : FileSystem) {p : Bytes} {pLen i : Nat}
    (hend : EndsAncestor p pLen i) (hlong : ¬ FitsLink (p.take i ++ iniSuffix)) :
    probeIni fs p pLen i = .error .outOfBounds := by
  unfold EndsAncestor at hend
  rw [probeIni, if_pos hend]
  exact if_pos (Nat.not_le.mp hlong)

/-- Below a root directory, the search faults exactly when a string does not fit. -/
theorem searchIni_error_iff (fs : FileSystem) (p : Bytes) (pLen : Nat) {rootLen i : Nat}
    (hroot : 0 < rootLen) (hi : rootLen ≤ i) :
    searchIni fs p pLen rootLen i = .error .outOfBounds ↔
      ∃ lnkFile ∈ lnkStrings fs p pLen rootLen i, ¬ FitsLink lnkFile := by
  induction i with
  | zero => omega
  | succ i ih =>
      have hlater : (if rootLen ≤ i then searchIni fs p pLen rootLen i else .ok none) =
            .error .outOfBounds ↔
          ∃ lnkFile ∈ (if rootLen ≤ i then lnkStrings fs p pLen rootLen i else []),
            ¬ FitsLink lnkFile := by
        by_cases hle : rootLen ≤ i
        · rw [if_pos hle, if_pos hle]
          exact ih hle
        · rw [if_neg hle, if_neg hle]
          simp
      rw [searchIni, lnkStrings]
      by_cases hend : EndsAncestor p pLen (i + 1)
      · rw [if_pos (show p.getD (i + 1) 0 = slash ∨ i + 1 = pLen from hend),
          List.exists_mem_cons_iff]
        by_cases hfits : FitsLink (p.take (i + 1) ++ iniSuffix)
        · rw [probeIni_of_fits fs hend hfits]
          by_cases hfile : (fs.statFile (p.take (i + 1) ++ iniSuffix)).isSome = true
          · rw [if_pos hfile, if_pos hfile]
            simp [bind, Except.bind, hfits, pure, Except.pure]
          · rw [if_neg hfile, if_neg hfile]
            simp only [bind, Except.bind, hfits, not_true_eq_false, false_or]
            exact hlater
        · rw [probeIni_of_long fs hend hfits]
          exact iff_of_true rfl (Or.inl hfits)
      · rw [if_neg (show ¬ (p.getD (i + 1) 0 = slash ∨ i + 1 = pLen) from hend), probeIni,
          if_neg (show ¬ (p.getD (i + 1) 0 = slash ∨ i + 1 = pLen) from hend)]
        exact hlater

/-- The strings are no longer than the path with the suffix. -/
theorem length_of_mem_lnkStrings {fs : FileSystem} {p lnkFile : Bytes} {pLen rootLen i : Nat}
    (h : lnkFile ∈ lnkStrings fs p pLen rootLen i) :
    lnkFile.length ≤ p.length + iniSuffix.length := by
  have hstring : ∀ k, (p.take k ++ iniSuffix).length ≤ p.length + iniSuffix.length := by
    intro k
    rw [List.length_append, List.length_take]
    omega
  induction i with
  | zero =>
      rw [lnkStrings] at h
      split at h
      · rw [List.mem_singleton.mp h]
        exact hstring 0
      · cases h
  | succ i ih =>
      have hlater : lnkFile ∈ (if rootLen ≤ i then lnkStrings fs p pLen rootLen i else []) →
          lnkFile.length ≤ p.length + iniSuffix.length := by
        intro hmem
        split at hmem
        · exact ih hmem
        · cases hmem
      rw [lnkStrings] at h
      split at h
      · rcases List.mem_cons.mp h with rfl | h
        · exact hstring (i + 1)
        · split at h
          · cases h
          · exact hlater h
      · exact hlater h

/-- The first string is that of the whole path. -/
theorem mem_lnkStrings (fs : FileSystem) (p : Bytes) (pLen rootLen : Nat) :
    p.take pLen ++ iniSuffix ∈ lnkStrings fs p pLen rootLen pLen := by
  rcases pLen with _ | pLen
  · rw [lnkStrings, if_pos (Or.inr rfl)]
    exact List.mem_singleton_self _
  · rw [lnkStrings]
    simp only
    rw [if_pos (Or.inr trivial)]
    exact List.mem_cons_self

/-- When all strings fit, the search finds the nearest ancestor. -/
theorem searchIni_of_nearest {fs : FileSystem} {p : Bytes} {pLen rootLen i j : Nat}
    (hfits : p.length + iniSuffix.length + 1 ≤ maxLinkLen) (hle : j ≤ i) (hi : i ≤ pLen)
    (hj : IsNearest fs p pLen rootLen j) :
    searchIni fs p pLen rootLen i = .ok (some (p.take j ++ iniSuffix, p.drop j)) := by
  have hfitsAt : ∀ k, FitsLink (p.take k ++ iniSuffix) := by
    intro k
    rw [FitsLink, List.length_append, List.length_take]
    omega
  induction i with
  | zero =>
      obtain rfl : j = 0 := Nat.le_zero.mp hle
      rw [searchIni, probeIni_of_fits fs hj.ends (hfitsAt 0), if_pos hj.found]
      rfl
  | succ i ih =>
      rw [searchIni]
      rcases Nat.lt_or_ge i j with hlt | hge
      · obtain rfl : j = i + 1 := by omega
        rw [probeIni_of_fits fs hj.ends (hfitsAt _), if_pos hj.found]
        rfl
      · have hnone : probeIni fs p pLen (i + 1) = .ok none := by
          by_cases hend : EndsAncestor p pLen (i + 1)
          · rw [probeIni_of_fits fs hend (hfitsAt _),
              hj.nearest (i + 1) (Nat.lt_succ_of_le hge) hi hend]
            rfl
          · exact if_neg hend
        have hroot := hj.root_le
        rw [hnone]
        simp only [bind, Except.bind]
        rw [if_pos (hroot.trans hge)]
        exact ih hge (by omega)

/-! ## The property -/

/-- {lit}`translate_path` comes to its search: the path passes the checks and is not there. -/
def SearchesIni (fs : FileSystem) (rootDirectory path : Bytes) (viso : Bool) : Prop :=
  (normalizePath path false).head? = some slash ∧ isUnsecure (normalizePath path false) = false ∧
    fs.statFile (underRoot rootDirectory path viso) = none

/-- The file that the search of {lit}`translate_path` finds, and the part of the path behind
its ancestor. -/
def FindsIni (fs : FileSystem) (rootDirectory path : Bytes) (viso : Bool)
    (filename content : Bytes) : Prop :=
  SearchesIni fs rootDirectory path viso ∧
    ∃ lnkFile, searchIni fs (underRoot rootDirectory path viso)
        (bufferEnd rootDirectory path viso) rootDirectory.length
        (bufferEnd rootDirectory path viso) = .ok (some (lnkFile, filename)) ∧
      fs.content lnkFile = some content

/-- The array of {lit}`translate_path` is used as it should: each string and its terminator
fit, the scans examine cells of the array only, and what stands behind the length of a line
in the new path starts inside it. -/
structure TranslateInside (fs : FileSystem) (rootDirectory path : Bytes) (viso : Bool) :
    Prop where
  written : SearchesIni fs rootDirectory path viso →
    ∀ lnkFile ∈ lnkStrings fs (underRoot rootDirectory path viso)
      (bufferEnd rootDirectory path viso) rootDirectory.length
      (bufferEnd rootDirectory path viso), FitsLink lnkFile
  scanned : ∀ filename content, FindsIni fs rootDirectory path viso filename content →
    (scanLines (leads fs filename) (linkCells content)).inside = true
  started : ∀ filename content, FindsIni fs rootDirectory path viso filename content →
    ∀ line ∈ (scanLines (leads fs filename) (linkCells content)).lines,
      line.length ≤ (normalizePath line true ++ filename).length

/-- The array of {lit}`process_read_dir_cmd` is used as it should. -/
def ReadDirInside (fs : FileSystem) (dirpath : Bytes) (rootLen : Nat) : Prop :=
  ∀ found content, dirIni fs dirpath rootLen = .ok found → found.bind fs.content = some content →
    (scanLines (fun _ => false) (linkCells content)).inside = true

/-! ## The condition -/

/-- The number of carriage returns, and of slashes in front of them, at the end of a line. -/
def strippedLen (line : Bytes) : Nat :=
  ((slashesOf line).rtakeWhile fun c => c = carriageReturn).length +
    (((slashesOf line).rdropWhile fun c => c = carriageReturn).rtakeWhile fun c => c = slash).length

/-- The lines with something on them that end inside the array. -/
def fullLines (content : Bytes) : List Bytes :=
  textLines (if HasEnd content then iniText content else endedText (iniText content))

/-- The paths and files for which the array of {lit}`translate_path` is used as it should:
a path that is searched for has at most 2043 bytes; the nearest {lit}`.INI` file ends inside
the array, or one of its lines leads to a path that exists; and no line up to the first such
one ends in more slashes and carriage returns than the part of the path behind the ancestor
has bytes. -/
structure TranslateFits (fs : FileSystem) (rootDirectory path : Bytes) (viso : Bool) : Prop where
  searched : SearchesIni fs rootDirectory path viso →
    (underRoot rootDirectory path viso).length + 5 ≤ maxLinkLen
  text : SearchesIni fs rootDirectory path viso →
    ∀ i content, IsNearest fs (underRoot rootDirectory path viso)
      (bufferEnd rootDirectory path viso) rootDirectory.length i →
    fs.content ((underRoot rootDirectory path viso).take i ++ iniSuffix) = some content →
      HasEnd content ∨ ∃ line ∈ fullLines content,
        HasPath fs line ((underRoot rootDirectory path viso).drop i)
  lines : SearchesIni fs rootDirectory path viso →
    ∀ i content, IsNearest fs (underRoot rootDirectory path viso)
      (bufferEnd rootDirectory path viso) rootDirectory.length i →
    fs.content ((underRoot rootDirectory path viso).take i ++ iniSuffix) = some content →
      ∀ before line after, fullLines content = before ++ line :: after →
        (∀ earlier ∈ before, ¬ HasPath fs earlier ((underRoot rootDirectory path viso).drop i)) →
          strippedLen line ≤ ((underRoot rootDirectory path viso).drop i).length

/-- The {lit}`.INI` file of the directory ends inside the array. -/
def ReadDirFits (fs : FileSystem) (dirpath : Bytes) (rootLen : Nat) : Prop :=
  ∀ found content, dirIni fs dirpath rootLen = .ok found → found.bind fs.content = some content →
    HasEnd content

/-! ## What decides -/

/-- Normalisation strips these characters. -/
theorem length_normalizePath_true (line : Bytes) :
    (normalizePath line true).length + strippedLen line = line.length := by
  have hreturns := congrArg List.length (List.rdropWhile_append_rtakeWhile
    (p := fun c => decide (c = carriageReturn)) (l := slashesOf line))
  have hslashes := congrArg List.length (List.rdropWhile_append_rtakeWhile
    (p := fun c => decide (c = slash))
    (l := (slashesOf line).rdropWhile fun c => decide (c = carriageReturn)))
  rw [List.length_append] at hreturns hslashes
  rw [length_slashesOf] at hreturns
  have htrue : normalizePath line true =
      ((slashesOf line).rdropWhile fun c => decide (c = carriageReturn)).rdropWhile
        fun c => decide (c = slash) := rfl
  rw [strippedLen, htrue]
  omega

/-- The end of a line in the new path. -/
theorem length_line_le_iff (line filename : Bytes) :
    line.length ≤ (normalizePath line true ++ filename).length ↔
      strippedLen line ≤ filename.length := by
  have hlen := length_normalizePath_true line
  rw [List.length_append]
  omega

/-- An element to stop at ends the list. -/
theorem uptoFirst_append {α : Type} (stop : α → Bool) (l tail : List α) :
    uptoFirst stop (l ++ tail) =
      uptoFirst stop l ++ if l.any stop then [] else uptoFirst stop tail := by
  induction l with
  | nil => rfl
  | cons a l ih =>
      rw [List.cons_append, uptoFirst, uptoFirst, List.any_cons]
      by_cases ha : stop a = true
      · simp [ha]
      · simp [ha, ih]

/-- When the loop stays inside the array. -/
theorem scanLines_inside_iff (stop : Bytes → Bool) (content : Bytes) :
    (scanLines stop (linkCells content)).inside = true ↔
      HasEnd content ∨ ∃ line ∈ fullLines content, stop line = true := by
  by_cases hend : HasEnd content
  · rcases linkCells_ended hend with ⟨behind, hcells⟩
    rw [hcells, scanLines_ended stop (zero_not_mem_iniText content)]
    exact iff_of_true rfl (Or.inl hend)
  · rw [linkCells_open hend, scanLines_open stop (zero_not_mem_iniText content), fullLines,
      if_neg hend]
    simp only [List.any_eq_true, hend, false_or]

/-- What holds of the lines that the loop comes to, when it holds of an empty one. -/
theorem forall_scanLines_iff (stop : Bytes → Bool) (content : Bytes) {Q : Bytes → Prop}
    (hempty : Q []) :
    (∀ line ∈ (scanLines stop (linkCells content)).lines, Q line) ↔
      ∀ line ∈ uptoFirst stop (fullLines content), Q line := by
  by_cases hend : HasEnd content
  · rcases linkCells_ended hend with ⟨behind, hcells⟩
    rcases iniLines_eq (iniText content) with ⟨tail, hlines, htail⟩
    rw [hcells, scanLines_ended stop (zero_not_mem_iniText content), fullLines, if_pos hend]
    simp only
    rw [hlines, uptoFirst_append]
    have hlast : ∀ line ∈ (if (textLines (iniText content)).any stop then []
        else uptoFirst stop tail), Q line := by
      intro line hline
      split at hline
      · cases hline
      · rcases mem_uptoFirst.mp hline with ⟨before, after, hsplit, -⟩
        rcases htail with rfl | rfl
        · simp at hsplit
        · have hmem : line ∈ ([[]] : List Bytes) := by simp [hsplit]
          rw [List.mem_singleton.mp hmem]
          exact hempty
    rw [List.forall_mem_append]
    exact and_iff_left hlast
  · rw [linkCells_open hend, scanLines_open stop (zero_not_mem_iniText content), fullLines,
      if_neg hend]

/-- The lines up to the first one that leads to a path that exists. -/
theorem forall_uptoFirst_iff {fs : FileSystem} {filename : Bytes} {lines : List Bytes} :
    (∀ line ∈ uptoFirst (leads fs filename) lines,
        line.length ≤ (normalizePath line true ++ filename).length) ↔
      ∀ before line after, lines = before ++ line :: after →
        (∀ earlier ∈ before, ¬ HasPath fs earlier filename) →
          strippedLen line ≤ filename.length := by
  have hleads : ∀ line, leads fs filename line = false ↔ ¬ HasPath fs line filename := by
    intro line
    rw [← leads_iff, Bool.not_eq_true]
  constructor
  · intro h before line after hsplit hbefore
    refine (length_line_le_iff line filename).mp (h line (mem_uptoFirst.mpr
      ⟨before, after, hsplit, fun earlier hearlier => ?_⟩))
    exact (hleads earlier).mpr (hbefore earlier hearlier)
  · intro h line hline
    rcases mem_uptoFirst.mp hline with ⟨before, after, hsplit, hbefore⟩
    refine (length_line_le_iff line filename).mpr (h before line after hsplit
      fun earlier hearlier => ?_)
    exact (hleads earlier).mp (hbefore earlier hearlier)

/-- The file that the search finds is that of the nearest ancestor. -/
theorem findsIni_nearest {fs : FileSystem} {rootDirectory path : Bytes} {viso : Bool}
    {filename content : Bytes} (h : FindsIni fs rootDirectory path viso filename content) :
    ∃ i, IsNearest fs (underRoot rootDirectory path viso) (bufferEnd rootDirectory path viso)
        rootDirectory.length i ∧ filename = (underRoot rootDirectory path viso).drop i ∧
      fs.content ((underRoot rootDirectory path viso).take i ++ iniSuffix) = some content := by
  rcases h with ⟨-, lnkFile, hsearch, hcontent⟩
  rcases searchIni_nearest (Nat.le_add_right _ _) le_rfl (fun k hk hle => by omega) hsearch with
    ⟨i, hnearest, hfound⟩
  cases hfound
  exact ⟨i, hnearest, rfl, hcontent⟩

/-- For paths and files that fit, the array of {lit}`translate_path` is used as it should, and
for no others. -/
theorem translateInside_iff (fs : FileSystem) (rootDirectory path : Bytes) (viso : Bool) :
    TranslateInside fs rootDirectory path viso ↔ TranslateFits fs rootDirectory path viso := by
  have hempty : ∀ filename : Bytes,
      ([] : Bytes).length ≤ (normalizePath [] true ++ filename).length :=
    fun filename => Nat.zero_le _
  constructor
  · intro h
    have hpath : SearchesIni fs rootDirectory path viso →
        (underRoot rootDirectory path viso).length + 5 ≤ maxLinkLen := by
      intro hsearches
      have hfits := h.written hsearches _ (mem_lnkStrings fs _ _ _)
      have hlen :
          (underRoot rootDirectory path viso).length ≤ bufferEnd rootDirectory path viso := by
        refine (length_normalizePath_le _ true).trans ?_
        rw [List.length_append]
        rfl
      rw [FitsLink, List.length_append, List.take_of_length_le hlen] at hfits
      exact hfits
    have hfinds : SearchesIni fs rootDirectory path viso →
        ∀ i content, IsNearest fs (underRoot rootDirectory path viso)
          (bufferEnd rootDirectory path viso) rootDirectory.length i →
        fs.content ((underRoot rootDirectory path viso).take i ++ iniSuffix) = some content →
          FindsIni fs rootDirectory path viso ((underRoot rootDirectory path viso).drop i)
            content := by
      intro hsearches i content hnearest hcontent
      exact ⟨hsearches, _, searchIni_of_nearest (hpath hsearches) hnearest.le le_rfl hnearest,
        hcontent⟩
    refine ⟨hpath, fun hsearches i content hnearest hcontent => ?_,
      fun hsearches i content hnearest hcontent => ?_⟩
    · exact (scanLines_inside_iff _ content).mp
        (h.scanned _ content (hfinds hsearches i content hnearest hcontent))
    · exact forall_uptoFirst_iff.mp ((forall_scanLines_iff _ content (hempty _)).mp
        (h.started _ content (hfinds hsearches i content hnearest hcontent)))
  · intro h
    refine ⟨fun hsearches lnkFile hmem => ?_, fun filename content hfinds => ?_,
      fun filename content hfinds => ?_⟩
    · have hfits := h.searched hsearches
      have hlen := length_of_mem_lnkStrings hmem
      have hsuffix : iniSuffix.length = 4 := rfl
      rw [FitsLink]
      omega
    · rcases findsIni_nearest hfinds with ⟨i, hnearest, rfl, hcontent⟩
      exact (scanLines_inside_iff _ content).mpr (h.text hfinds.1 i content hnearest hcontent)
    · rcases findsIni_nearest hfinds with ⟨i, hnearest, rfl, hcontent⟩
      exact (forall_scanLines_iff _ content (hempty _)).mpr
        (forall_uptoFirst_iff.mpr (h.lines hfinds.1 i content hnearest hcontent))

/-- The array of {lit}`process_read_dir_cmd` is used as it should exactly for a file that ends
inside it. -/
theorem readDirInside_iff (fs : FileSystem) (dirpath : Bytes) (rootLen : Nat) :
    ReadDirInside fs dirpath rootLen ↔ ReadDirFits fs dirpath rootLen := by
  refine forall₄_congr fun found content _ _ => ?_
  rw [scanLines_inside_iff]
  simp

/-- Both functions use their arrays as they should exactly for paths and files that fit. -/
theorem linkBuffer_safe_iff (fs : FileSystem) (rootDirectory path dirpath : Bytes) (viso : Bool) :
    (TranslateInside fs rootDirectory path viso ∧
        ReadDirInside fs dirpath rootDirectory.length) ↔
      (TranslateFits fs rootDirectory path viso ∧
        ReadDirFits fs dirpath rootDirectory.length) :=
  and_congr (translateInside_iff fs rootDirectory path viso)
    (readDirInside_iff fs dirpath rootDirectory.length)

/-! ## A path that is too long -/

/-- A path that ends in neither a slash nor a carriage return is normal. -/
theorem normalizePath_of_clean {front : Bytes} {c : UInt8} (h : backslash ∉ front ++ [c])
    (hreturn : c ≠ carriageReturn) (hslash : c ≠ slash) (delLastSlash : Bool) :
    normalizePath (front ++ [c]) delLastSlash = front ++ [c] := by
  rw [normalizePath, slashesOf_of_clean h,
    List.rdropWhile_concat_neg _ _ _ (by simpa using hreturn)]
  cases delLastSlash with
  | false => rfl
  | true => exact List.rdropWhile_concat_neg _ _ _ (by simpa using hslash)

/-- A host without files. -/
def emptyHost : FileSystem where
  statFile _ := none
  scandir _ := none
  content _ := none

/-- The client path {lit}`/aa…a`. -/
def longPath (n : Nat) : Bytes := slash :: List.replicate n 0x61 ++ [0x61]

theorem length_longPath (n : Nat) : (longPath n).length = n + 2 := by
  simp [longPath]

/-- Behind {lit}`/srv`, the path of the first {lit}`.INI` file is too long from 2040 bytes of
such a path on. -/
theorem longPath_overflows {n : Nat} (hn : 2038 ≤ n) :
    ¬ TranslateInside emptyHost srvRoot (longPath n) false := by
  have hclean : ∀ c ∈ longPath n, c = slash ∨ c = 0x61 := by
    intro c hc
    simp only [longPath, List.mem_append, List.mem_cons, List.mem_replicate,
      List.not_mem_nil, or_false] at hc
    tauto
  have hnormal : normalizePath (longPath n) false = longPath n := by
    refine normalizePath_of_clean (fun hmem => ?_) (by decide) (by decide) false
    exact absurd (hclean backslash hmem) (by decide)
  have hunder : underRoot srvRoot (longPath n) false = srvRoot ++ longPath n := by
    rw [underRoot, clientCut, if_neg (by decide), hnormal, longPath, ← List.append_assoc]
    refine normalizePath_of_clean (fun hmem => ?_) (by decide) (by decide) true
    rw [List.append_assoc] at hmem
    rcases List.mem_append.mp hmem with hmem | hmem
    · exact absurd hmem (by decide)
    · exact absurd (hclean backslash hmem) (by decide)
  have hsecure : isUnsecure (longPath n) = false := by
    rw [isUnsecure]
    split
    · rfl
    · rename_i before rest hsplit
      have hdot : (0x2E : UInt8) ∈ longPath n := by
        rw [splitAtFirst_eq_some hsplit]
        simp [dotDot]
      exact absurd (hclean 0x2E hdot) (by decide)
  intro h
  have hhead : (longPath n).head? = some slash := by
    rw [longPath, List.cons_append, List.head?_cons]
  have hfits := h.written ⟨by rwa [hnormal], by rwa [hnormal], rfl⟩ _
    (mem_lnkStrings emptyHost _ _ _)
  have hend : bufferEnd srvRoot (longPath n) false = (srvRoot ++ longPath n).length := by
    rw [bufferEnd, clientCut, if_neg (by decide), hnormal, List.length_append]
  rw [hunder, hend, List.take_length, FitsLink, List.length_append, List.length_append,
    length_longPath, show srvRoot.length = 4 from rfl, show iniSuffix.length = 4 from rfl,
    maxLinkLen] at hfits
  omega

/-- The shortest such path. -/
theorem longPath_overflows_link : ¬ TranslateInside emptyHost srvRoot (longPath 2038) false :=
  longPath_overflows le_rfl

end Ps3Netsrv
