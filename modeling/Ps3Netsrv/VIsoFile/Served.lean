import Ps3Netsrv.VIsoFile.FileArea

/-!
# What a read serves

One call of {lit}`read` may cross the file system area, any number of files and the
padding, and may return from the middle of any of them.  Wherever it goes and wherever
it stops, the bytes it has stored are those of the volume at its place, and its file
pointer is behind them.

Main results:

- Definition {lit}`Serves`: the way of a call from one point to another.
- Theorem {lit}`serves_readFileLists`: the loops over the files.
- Theorem {lit}`read_serves_image`: any call, and any calls one after the other.
-/

namespace Ps3Netsrv.VIso

open Lib

/-! ## Serving -/

/-- A call goes on from one point to another by storing what the volume has there. -/
def Serves (image : Bytes) (p q : Progress) : Prop :=
  ∃ d, q = p.advance d ∧ d.length ≤ p.remaining ∧ d = window image p.vFilePtr.toNat d.length

namespace Serves

variable {image : Bytes} {p q r : Progress}

/-- A call that stores nothing. -/
theorem refl (p : Progress) : Serves image p p :=
  ⟨[], p.advance_nil.symm, Nat.zero_le _, (window_zero _ _).symm⟩

/-- The file pointer and the end of the call. -/
theorem bounds (h : Serves image p q) :
    p.vFilePtr ≤ q.vFilePtr ∧ q.vFilePtr + q.remaining = p.vFilePtr + p.remaining := by
  rcases h with ⟨d, rfl, hle, -⟩
  refine ⟨?_, Progress.advance_end p d hle⟩
  simp only [Progress.advance]
  omega

/-- One way and then another. -/
theorem trans (h : Serves image p q) (h' : Serves image q r) (hp : 0 ≤ p.vFilePtr) :
    Serves image p r := by
  rcases h with ⟨d, rfl, hd, hdata⟩
  rcases h' with ⟨e, rfl, he, hdata'⟩
  have hpos : (p.advance d).vFilePtr.toNat = p.vFilePtr.toNat + d.length := by
    simp only [Progress.advance]
    omega
  refine ⟨d ++ e, Progress.advance_advance p d e, ?_, ?_⟩
  · simp only [Progress.advance] at he
    rw [List.length_append]
    omega
  · rw [hpos] at hdata'
    rw [List.length_append, window_add, ← hdata, ← hdata']

end Serves

/-! ## One file -/

/-- A file in whole sectors has the bytes of the file. -/
theorem window_fileImage_of_le {contents : Bytes → Bytes} {f : FileList} {off : Nat} {d : Bytes}
    (hd : d = window (contents f.path) off d.length) (hsize : off + d.length ≤ f.size) :
    window (fileImage contents f) off d.length = d := by
  rcases Nat.eq_zero_or_pos d.length with hzero | hpos
  · rw [hzero, window_zero, List.eq_nil_of_length_eq_zero hzero]
  · have hlen : off + d.length ≤ (contents f.path).length := by
      have hlength := congrArg List.length hd
      rw [length_window] at hlength
      omega
    have htake : (contents f.path).take f.size = window (contents f.path) 0 f.size := rfl
    rw [fileImage, window_append_left, htake, window_window, Nat.zero_add,
      min_eq_left (by omega), ← hd]
    rw [List.length_take]
    omega

/-- Behind the file are zeros. -/
theorem window_fileImage_of_ge (contents : Bytes → Bytes) {f : FileList} {off n : Nat}
    (hoff : f.size ≤ off) (hn : off + n ≤ alignSector f.size) :
    window (fileImage contents f) off n = List.replicate n 0 := by
  have hlen : ((contents f.path).take f.size).length ≤ off :=
    (List.length_take_le _ _).trans hoff
  rw [fileImage, window_append_right hlen, window, List.drop_replicate, List.take_replicate]
  congr 1
  omega

/-- Where the last sector of a file ends. -/
theorem FileList.fEndSector_eq {fsBufSize : Nat} (haligned : fsBufSize % sectorSize = 0)
    (f : FileList) : f.fEndSector fsBufSize = f.fStart fsBufSize + alignSector f.size := by
  simp only [FileList.fEndSector, FileList.fEnd, FileList.fStart, alignSector, sectorSize] at *
  omega

/-- A call that wants more than the piece of a file has come to the end of the file. -/
theorem FileList.end_le_of_piece {opens : Opens} {fsBufSize : Nat} {place : List Nat}
    {f : FileList} {p : Progress} {d : Bytes}
    (hpiece : f.piece opens fsBufSize place p = some d)
    (hmore : 0 < (p.advance d).remaining) : f.fEnd fsBufSize ≤ (p.advance d).vFilePtr := by
  rw [FileList.piece] at hpiece
  simp only [Progress.advance] at hmore ⊢
  split at hpiece
  · have hlen := (readPiece_eq_some hpiece).1
    rw [FileList.toRead] at hlen
    simp only [FileList.fEnd] at *
    omega
  · cases hpiece
    rename_i hbehind
    simp only [List.length_nil]
    omega

namespace Built

variable {v : VIsoFile} {fsBuf : Bytes} {contents : Bytes → Bytes} {f : FileList}
  {opens : Opens} {place : List Nat} {p : Progress}

/-- The volume at a place in a file, as a call counts it. -/
theorem window_at (hbuilt : Built v fsBuf) (hf : f ∈ v.files)
    (hstart : f.fStart v.fsBufSize ≤ p.vFilePtr) {n : Nat}
    (hn : p.vFilePtr + n ≤ f.fEndSector v.fsBufSize) :
    window (v.image fsBuf contents) p.vFilePtr.toNat n =
      window (fileImage contents f) (p.vFilePtr - f.fStart v.fsBufSize).toNat n := by
  rw [FileList.fEndSector_eq hbuilt.aligned] at hn
  have hpos : p.vFilePtr.toNat = v.fsBufSize + f.rlba * sectorSize +
      (p.vFilePtr - f.fStart v.fsBufSize).toNat := by
    simp only [FileList.fStart] at *
    omega
  rw [hpos]
  exact hbuilt.window_file contents hf (by omega)

/-- The piece that a call takes from a file. -/
theorem serves_piece (hbuilt : Built v fsBuf) (hf : f ∈ v.files)
    (hhost : ∀ fd, opens place f.path = some fd → fd.content = contents f.path)
    (hstart : f.fStart v.fsBufSize ≤ p.vFilePtr) {d : Bytes}
    (hpiece : f.piece opens v.fsBufSize place p = some d) :
    Serves (v.image fsBuf contents) p (p.advance d) := by
  refine ⟨d, rfl, FileList.length_piece hpiece, ?_⟩
  rw [FileList.piece] at hpiece
  split at hpiece
  · rename_i hbefore
    rcases readPiece_eq_some hpiece with ⟨hlen, fd, hopen, hread⟩
    have hsize : (p.vFilePtr - f.fStart v.fsBufSize).toNat + d.length ≤ f.size := by
      rw [FileList.toRead] at hlen
      simp only [FileList.fEnd] at hbefore
      omega
    have hdata : d = window (contents f.path) (p.vFilePtr - f.fStart v.fsBufSize).toNat
        d.length := by
      rw [seekFile_of_nonneg (by omega)] at hread
      rw [← hhost fd hopen]
      exact eq_window_of_prefix (readFile_data (Prod.ext hread rfl)).1
    rw [hbuilt.window_at hf hstart, window_fileImage_of_le hdata hsize]
    rw [FileList.fEndSector_eq hbuilt.aligned]
    have hle := le_alignSector f.size
    omega
  · cases hpiece
    exact (window_zero _ _).symm

/-- The zeros that a call takes from the last sector of a file. -/
theorem serves_zeros (hbuilt : Built v fsBuf) (contents : Bytes → Bytes) (hf : f ∈ v.files)
    (hbehind : 0 < p.remaining → f.fEnd v.fsBufSize ≤ p.vFilePtr) :
    Serves (v.image fsBuf contents) p
      (p.advance (List.replicate (f.zeros v.fsBufSize p) 0)) := by
  refine ⟨_, rfl, by rw [List.length_replicate]; exact f.zeros_le v.fsBufSize p, ?_⟩
  rw [List.length_replicate, FileList.zeros]
  split
  · rename_i hmore
    have hend := hbehind hmore.1
    have hsector := FileList.fEndSector_eq hbuilt.aligned f
    have hle := le_alignSector f.size
    simp only [FileList.fEnd] at hend ⊢
    by_cases hinside : p.vFilePtr ≤ f.fEndSector v.fsBufSize
    · rw [hbuilt.window_at hf (by omega) (by omega), window_fileImage_of_ge contents (by omega)]
      omega
    · have hnone : (f.fEndSector v.fsBufSize - (f.fStart v.fsBufSize + f.size) -
          (p.vFilePtr - (f.fStart v.fsBufSize + f.size))).toNat = 0 := by omega
      rw [hnone, Nat.zero_min]
      exact (window_zero _ _).symm
  · exact (window_zero _ _).symm

/-- One file of the loop. -/
theorem serves_readFileList (hbuilt : Built v fsBuf) (hf : f ∈ v.files)
    (hhost : ∀ fd, opens place f.path = some fd → fd.content = contents f.path)
    (hp : 0 ≤ p.vFilePtr) :
    Serves (v.image fsBuf contents) p
      (progressOf (readFileList opens v.fsBufSize place f p)) := by
  rw [readFileList_eq]
  split
  · rename_i hin
    split
    · exact Serves.refl p
    · cases hpiece : f.piece opens v.fsBufSize place p with
      | none => exact Serves.refl p
      | some d =>
          have hfirst := hbuilt.serves_piece hf hhost hin.1 hpiece
          have hsecond := hbuilt.serves_zeros contents hf
            (FileList.end_le_of_piece hpiece)
          have hboth := hfirst.trans hsecond hp
          simp only [Progress.goOn]
          split
          · exact hboth
          · exact hboth
  · exact Serves.refl p

/-- The two loops. -/
theorem serves_readFileLists (hbuilt : Built v fsBuf)
    (hhost : ∀ place path fd, opens place path = some fd → fd.content = contents path)
    (rest : List (List Nat × FileList)) (hrest : ∀ pf ∈ rest, pf.2 ∈ v.files)
    (hp : 0 ≤ p.vFilePtr) :
    Serves (v.image fsBuf contents) p
      (progressOf (readFileLists opens v.fsBufSize rest p)) := by
  induction rest generalizing p with
  | nil => exact Serves.refl p
  | cons pf rest ih =>
      have hone := hbuilt.serves_readFileList (hrest pf (List.mem_cons_self ..))
        (hhost pf.1 pf.2.path) hp
      rw [readFileLists]
      cases hq : readFileList opens v.fsBufSize pf.1 pf.2 p with
      | error q =>
          rw [hq] at hone
          exact hone
      | ok q =>
          rw [hq] at hone
          have hq₀ : 0 ≤ q.vFilePtr := hp.trans hone.bounds.1
          exact hone.trans (ih (fun x hx => hrest x (List.mem_cons_of_mem _ hx)) hq₀) hp

/-- The padding. -/
theorem serves_readPad (hbuilt : Built v fsBuf) (contents : Bytes → Bytes) (p : Progress) :
    Serves (v.image fsBuf contents) p (progressOf (readPad v p)) := by
  rw [readPad]
  split
  · rename_i hin
    have htotal := hbuilt.totalSize_eq
    simp only
    split
    · exact Serves.refl p
    · refine ⟨_, rfl, by rw [List.length_replicate]; exact min_le_right _ _, ?_⟩
      rw [List.length_replicate, hbuilt.window_padding contents (by omega) (by omega)]
  · exact Serves.refl p

/-- The part of a call behind the file system area. -/
theorem serves_readBehind (hbuilt : Built v fsBuf)
    (hhost : ∀ place path fd, opens place path = some fd → fd.content = contents path)
    (hp : 0 ≤ p.vFilePtr) :
    Serves (v.image fsBuf contents) p (progressOf (readBehind opens v p)) := by
  have hplaced : ∀ pf ∈ v.placedFiles, pf.2 ∈ v.files := by
    intro pf hpf
    rw [← v.map_placedFiles]
    exact List.mem_map_of_mem hpf
  rw [readBehind_eq]
  split
  · exact Serves.refl p
  · split
    · have hfiles := hbuilt.serves_readFileLists hhost v.placedFiles hplaced hp
      cases hq : readFileLists opens v.fsBufSize v.placedFiles p with
      | error q =>
          rw [hq] at hfiles
          exact hfiles
      | ok q =>
          rw [hq] at hfiles
          exact hfiles.trans (hbuilt.serves_readPad contents q) hp
    · exact hbuilt.serves_readPad contents p

/-- The part of a call in the file system area. -/
theorem serves_fromMemory (hbuilt : Built v fsBuf) (contents : Bytes → Bytes)
    (hpos : 0 ≤ v.vFilePtr) (nbyte : Nat) :
    Serves (v.image fsBuf contents) ⟨v.vFilePtr, nbyte, []⟩ (v.fromMemory fsBuf nbyte) := by
  rw [VIsoFile.fromMemory]
  split
  · have hlen : (window fsBuf v.vFilePtr.toNat
        (min (v.fsBufSize - v.vFilePtr).toNat nbyte)).length =
          min (v.fsBufSize - v.vFilePtr).toNat nbyte := by
      rw [length_window, hbuilt.length_fsBuf]
      omega
    refine ⟨_, rfl, hlen.trans_le (min_le_right _ _), ?_⟩
    rw [hlen]
    dsimp only
    rw [hbuilt.window_memory contents (by omega)]
  · exact Serves.refl _

end Built

/-! ## Serving all that is wanted -/

/-- The bytes of a file that a call comes to are there, and the host delivers them. -/
def DeliversFile (contents : Bytes → Bytes) (opens : Opens) (place : List Nat) (f : FileList) :
    Prop :=
  Delivers contents opens place f.path ∧ f.size ≤ (contents f.path).length

/-- A call that returned has all it wanted, and one that goes on has come up to a place. -/
def Completes (bound : Int) : Except Progress Progress → Prop
  | .error q => q.remaining = 0
  | .ok q => 0 < q.remaining ∧ bound ≤ q.vFilePtr

/-- A piece that the host delivers. -/
theorem FileList.piece_of_delivers {contents : Bytes → Bytes} {opens : Opens} {fsBufSize : Nat}
    {place : List Nat} {f : FileList} {p : Progress}
    (hstart : f.fStart fsBufSize ≤ p.vFilePtr)
    (hdeliver : p.vFilePtr < f.fEnd fsBufSize → DeliversFile contents opens place f) :
    ∃ d, f.piece opens fsBufSize place p = some d := by
  rw [FileList.piece]
  split
  · rename_i hbefore
    rcases hdeliver hbefore with ⟨hopen, hsize⟩
    refine ⟨window (contents f.path) (p.vFilePtr - f.fStart fsBufSize).toNat
      (f.toRead fsBufSize p), ?_⟩
    rw [readPiece_of_delivers hopen (by omega), pieceOf]
    simp only [length_window]
    rw [if_pos]
    simp only [FileList.toRead, FileList.fEnd] at *
    omega
  · exact ⟨[], rfl⟩

/-- One file of the loop: the call goes on behind the last sector of a file that it has
come to. -/
theorem readFileList_completes {contents : Bytes → Bytes} {opens : Opens} {fsBufSize : Nat}
    (haligned : fsBufSize % sectorSize = 0) {place : List Nat} {f : FileList} {p : Progress}
    (hplain : f.multipart = false) (hwants : 0 < p.remaining)
    (hstart : f.fStart fsBufSize ≤ p.vFilePtr)
    (hdeliver : p.vFilePtr < f.fEnd fsBufSize → DeliversFile contents opens place f) :
    Completes (f.fEndSector fsBufSize) (readFileList opens fsBufSize place f p) := by
  rw [readFileList_eq]
  by_cases hin : f.fStart fsBufSize ≤ p.vFilePtr ∧ p.vFilePtr < f.fEndSector fsBufSize
  · rcases FileList.piece_of_delivers hstart hdeliver with ⟨d, hpiece⟩
    rw [if_pos hin, hplain, if_neg Bool.false_ne_true, hpiece]
    simp only [Progress.goOn]
    split
    · rename_i hdone
      exact hdone
    · rename_i hmore
      refine ⟨Nat.pos_of_ne_zero hmore, ?_⟩
      have hrest : 0 < (p.advance d).remaining := by
        simp only [Progress.advance] at hmore ⊢
        omega
      have hend := FileList.end_le_of_piece hpiece hrest
      have hsector := FileList.fEndSector_eq haligned f
      simp only [FileList.zeros, hrest, true_and] at hmore ⊢
      by_cases hfull : f.fEnd fsBufSize = f.fEndSector fsBufSize
      · simp only [hfull, ne_eq, not_true_eq_false, if_false, List.replicate_zero,
          Progress.advance_nil] at hend ⊢
        exact hend
      · simp only [ne_eq, hfull, not_false_eq_true, if_true] at hmore ⊢
        simp only [Progress.advance, List.length_replicate] at hmore hend hrest ⊢
        omega
  · rw [if_neg hin]
    exact ⟨hwants, by omega⟩

/-- The two loops, on files that are laid out one behind the other. -/
theorem readFileLists_completes {contents : Bytes → Bytes} {opens : Opens} {fsBufSize : Nat}
    (haligned : fsBufSize % sectorSize = 0) (lo hi : Int) (rest : List (List Nat × FileList))
    (hplain : ∀ pf ∈ rest, pf.2.multipart = false)
    (hdeliver : ∀ pf ∈ rest, pf.2.fStart fsBufSize < hi → lo < pf.2.fEnd fsBufSize →
      DeliversFile contents opens pf.1 pf.2)
    {s e : Nat} (hlaid : Laid FileList.rlba (fun t f => t + f.sectors) s (rest.map Prod.snd) e)
    {p : Progress} (hwants : 0 < p.remaining) (hlo : lo ≤ p.vFilePtr)
    (hhi : p.vFilePtr + p.remaining = hi)
    (hstart : (fsBufSize + s * sectorSize : Nat) ≤ p.vFilePtr) :
    Completes (fsBufSize + e * sectorSize : Nat) (readFileLists opens fsBufSize rest p) := by
  induction rest generalizing s p with
  | nil =>
      cases hlaid
      exact ⟨hwants, hstart⟩
  | cons pf rest ih =>
      rcases hlaid with ⟨hplace, hlaid⟩
      have hfStart : pf.2.fStart fsBufSize = (fsBufSize + s * sectorSize : Nat) := by
        rw [FileList.fStart, hplace]
      have hone := readFileList_completes haligned (hplain pf (List.mem_cons_self ..)) hwants
        (hfStart.trans_le hstart)
        fun hend => hdeliver pf (List.mem_cons_self ..) (by omega) (by omega)
      rw [readFileLists]
      cases hq : readFileList opens fsBufSize pf.1 pf.2 p with
      | error q =>
          rw [hq] at hone
          exact hone
      | ok q =>
          rw [hq] at hone
          rcases readFileList_ok hq hwants with ⟨hle, hend, hmore⟩
          refine ih (fun x hx => hplain x (List.mem_cons_of_mem _ hx))
            (fun x hx => hdeliver x (List.mem_cons_of_mem _ hx)) hlaid hmore (hlo.trans hle)
            (hend.trans hhi) ?_
          have hsector := hone.2
          rw [FileList.fEndSector_eq haligned, hfStart, ← FileList.sectors_mul] at hsector
          rw [Nat.add_mul]
          omega

namespace Built

variable {v : VIsoFile} {fsBuf : Bytes} {contents : Bytes → Bytes} {opens : Opens}

/-- The padding. -/
theorem readPad_completes (hbuilt : Built v fsBuf) {p : Progress}
    (hstart : (v.padAreaStart : Int) ≤ p.vFilePtr) :
    (progressOf (readPad v p)).remaining = 0 ∨
      (v.totalSize : Int) ≤ (progressOf (readPad v p)).vFilePtr := by
  have htotal := hbuilt.totalSize_eq
  rw [readPad]
  by_cases hend : p.vFilePtr < v.totalSize
  · rw [if_pos ⟨hstart, hend⟩]
    simp only
    rw [if_neg (by omega)]
    simp only [progressOf, Progress.advance, List.length_replicate]
    omega
  · rw [if_neg fun hin => hend hin.2]
    exact Or.inr (not_lt.mp hend)

/-- The part of a call behind the file system area. -/
theorem readBehind_completes (hbuilt : Built v fsBuf)
    (hplain : ∀ f ∈ v.files, f.multipart = false) (lo hi : Int)
    (hdeliver : ∀ pf ∈ v.placedFiles, pf.2.fStart v.fsBufSize < hi →
      lo < pf.2.fEnd v.fsBufSize → DeliversFile contents opens pf.1 pf.2)
    {p : Progress} (hlo : lo ≤ p.vFilePtr) (hhi : p.vFilePtr + p.remaining = hi)
    (hstart : 0 < p.remaining → (v.fsBufSize : Int) ≤ p.vFilePtr) :
    (progressOf (readBehind opens v p)).remaining = 0 ∨
      (v.totalSize : Int) ≤ (progressOf (readBehind opens v p)).vFilePtr := by
  rw [readBehind_eq]
  by_cases hdone : p.remaining = 0 ∨ (v.totalSize : Int) ≤ p.vFilePtr
  · rw [if_pos hdone]
    exact hdone
  · rw [if_neg hdone]
    have hwants : 0 < p.remaining := by omega
    by_cases hfiles : p.vFilePtr < v.padAreaStart
    · rw [if_pos hfiles]
      have hlaid := hbuilt.laid
      rw [← v.map_placedFiles] at hlaid
      have hloops := readFileLists_completes hbuilt.aligned lo hi v.placedFiles
        (fun pf hpf => hplain pf.2 (v.map_placedFiles ▸ List.mem_map_of_mem hpf)) hdeliver hlaid
        hwants hlo hhi (by rw [Nat.zero_mul]; exact hstart hwants)
      rw [v.map_placedFiles, ← hbuilt.padAreaStart_eq] at hloops
      cases hq : readFileLists opens v.fsBufSize v.placedFiles p with
      | error q =>
          rw [hq] at hloops
          exact Or.inl hloops
      | ok q =>
          rw [hq] at hloops
          exact hbuilt.readPad_completes hloops.2
    · rw [if_neg hfiles]
      exact hbuilt.readPad_completes (not_lt.mp hfiles)

/-- The object at another place. -/
theorem seek (hbuilt : Built v fsBuf) (pos : Int) : Built { v with vFilePtr := pos } fsBuf :=
  ⟨hbuilt.fsBuf_eq, hbuilt.length_fsBuf, hbuilt.aligned, hbuilt.laid, hbuilt.padAreaStart_eq,
    hbuilt.totalSize_eq⟩

end Built

/-! ## Calls -/

/-- What is opened during a call has the content that the volume was made of. -/
def Opens.Unchanged (contents : Bytes → Bytes) (opens : Opens) : Prop :=
  ∀ place path fd, opens place path = some fd → fd.content = contents path

/-- One call: the count, the bytes and the file pointer behind them. -/
theorem Built.readImage_serves {v : VIsoFile} {fsBuf : Bytes} (hbuilt : Built v fsBuf)
    {contents : Bytes → Bytes} {opens : Opens} (hhost : opens.Unchanged contents)
    (hpos : 0 ≤ v.vFilePtr) (nbyte : Nat) :
    ∃ d, readImage opens v nbyte =
        ((d.length : Int), d, { v with vFilePtr := v.vFilePtr + d.length }) ∧
      d.length ≤ nbyte ∧ d = window (v.image fsBuf contents) v.vFilePtr.toNat d.length ∧
      ((∀ f ∈ v.files, f.multipart = false) →
        (∀ pf ∈ v.placedFiles, v.Wants nbyte pf.2 → DeliversFile contents opens pf.1 pf.2) →
        d.length = min nbyte (v.totalSize - v.vFilePtr.toNat)) := by
  rw [readImage_eq hbuilt.fsBuf_eq]
  by_cases hend : (v.totalSize : Int) ≤ v.vFilePtr ∨ nbyte = 0
  · rw [if_pos hend]
    refine ⟨[], ?_, Nat.zero_le _, (window_zero _ _).symm, fun _ _ => ?_⟩
    · simp
    · rw [List.length_nil]
      omega
  · rw [if_neg hend, if_neg (not_lt.mpr hpos)]
    have hmemory := hbuilt.serves_fromMemory contents hpos nbyte
    have hbehind := hbuilt.serves_readBehind hhost (hpos.trans hmemory.bounds.1)
    have hall := hmemory.trans hbehind hpos
    rcases hall with ⟨d, hq, hle, hdata⟩
    refine ⟨d, ?_, hle, hdata, fun hplain hdeliver => ?_⟩
    · simp only [hq, Progress.advance, List.nil_append]
    · have hafter : 0 < (v.fromMemory fsBuf nbyte).remaining →
          (v.fsBufSize : Int) ≤ (v.fromMemory fsBuf nbyte).vFilePtr := by
        rw [VIsoFile.fromMemory]
        split
        · simp only [Progress.advance, length_window, hbuilt.length_fsBuf]
          omega
        · dsimp only
          omega
      have hcomplete := hbuilt.readBehind_completes hplain v.vFilePtr (v.vFilePtr + nbyte)
        (fun pf hpf hstart hend => hdeliver pf hpf ⟨hstart, hend⟩)
        (v.fromMemory_end fsBuf nbyte).1 (v.fromMemory_end fsBuf nbyte).2 hafter
      have hlen := congrArg List.length hdata
      rw [length_window, hbuilt.length_image] at hlen
      rw [hq] at hcomplete
      simp only [Progress.advance] at hcomplete
      dsimp only at hle hlen
      omega

/-- What calls one after the other store. -/
def readSpan (v : VIsoFile) : List (Opens × Nat) → Bytes
  | [] => []
  | (opens, nbyte) :: calls =>
      let r := readImage opens v nbyte
      r.2.1 ++ readSpan r.2.2 calls

/-- The host delivers all that the calls ask for. -/
def DeliversSpan (contents : Bytes → Bytes) (v : VIsoFile) : List (Opens × Nat) → Prop
  | [] => True
  | (opens, nbyte) :: calls =>
      opens.Unchanged contents ∧
        (∀ pf ∈ v.placedFiles, v.Wants nbyte pf.2 → DeliversFile contents opens pf.1 pf.2) ∧
        DeliversSpan contents (readImage opens v nbyte).2.2 calls

/-- Calls one after the other store what one call would. -/
theorem Built.readSpan_eq {v : VIsoFile} {fsBuf : Bytes} (hbuilt : Built v fsBuf)
    (hplain : ∀ f ∈ v.files, f.multipart = false) {contents : Bytes → Bytes}
    (hpos : 0 ≤ v.vFilePtr) {calls : List (Opens × Nat)}
    (hcalls : DeliversSpan contents v calls) :
    readSpan v calls =
      window (v.image fsBuf contents) v.vFilePtr.toNat (calls.map Prod.snd).sum := by
  induction calls generalizing v with
  | nil => exact (window_zero _ _).symm
  | cons call calls ih =>
      rcases call with ⟨opens, nbyte⟩
      rcases hcalls with ⟨hhost, hdeliver, hrest⟩
      rcases hbuilt.readImage_serves hhost hpos nbyte with ⟨d, hread, -, hdata, hfull⟩
      have hlen := hfull hplain hdeliver
      rw [hread] at hrest
      have hnext := ih (hbuilt.seek (v.vFilePtr + d.length)) hplain
        (Int.add_nonneg hpos (Int.natCast_nonneg _)) hrest
      have himage := hbuilt.length_image contents
      have hplace : (v.vFilePtr + d.length).toNat = v.vFilePtr.toNat + d.length := by omega
      have hone : d = window (v.image fsBuf contents) v.vFilePtr.toNat nbyte := by
        rw [← window_min_length, himage, ← hlen]
        exact hdata
      have hbehind : window (v.image fsBuf contents) (v.vFilePtr.toNat + d.length)
          (calls.map Prod.snd).sum =
            window (v.image fsBuf contents) (v.vFilePtr.toNat + nbyte)
              (calls.map Prod.snd).sum := by
        rcases Nat.lt_or_ge d.length nbyte with hshort | hwhole
        · rw [window_eq_nil _ (by omega), window_eq_nil _ (by omega)]
        · rw [show d.length = nbyte by omega]
      rw [readSpan, hread, List.map_cons, List.sum_cons, window_add, ← hone, ← hbehind, ← hplace]
      exact congrArg (d ++ ·) hnext

/-- Reading an image that was built on a fresh object, from any place on.  The volume is as
long as the object says.  Whatever the host does, a call returns the number of bytes that it
has stored, they are those of the volume at its place, and the file pointer moves behind
them; where the host delivers, they are all that was wanted, up to the end of the volume.
However a span is split into calls, the bytes are the same. -/
theorem read_serves_image {h : Calls} {fuel : Nat} {ps3Mode : Bool} {path : Bytes} {flags : Nat}
    {v : VIsoFile} {fsBuf : Bytes}
    (hopen : openImage h fuel (VIsoFile.fresh ps3Mode) path flags = .ok v)
    (hbuf : v.fsBuf = some fsBuf) (hplain : ∀ f ∈ v.files, f.multipart = false)
    (hsize : v.sectors < 2 ^ 32) (contents : Bytes → Bytes) (pos : Nat) :
    let seekTo (n : Nat) : VIsoFile := { v with vFilePtr := n }
    (v.image fsBuf contents).length = v.totalSize ∧
      (∀ opens nbyte, Opens.Unchanged contents opens → ∃ d,
        readImage opens (seekTo pos) nbyte = ((d.length : Int), d, seekTo (pos + d.length)) ∧
          d.length ≤ nbyte ∧ d = window (v.image fsBuf contents) pos d.length ∧
          ((∀ pf ∈ v.placedFiles, (seekTo pos).Wants nbyte pf.2 →
              DeliversFile contents opens pf.1 pf.2) →
            d.length = min nbyte (v.totalSize - pos))) ∧
      ∀ calls, DeliversSpan contents (seekTo pos) calls →
        readSpan (seekTo pos) calls =
          window (v.image fsBuf contents) pos (calls.map Prod.snd).sum := by
  intro seekTo
  have hbuilt := openImage_built hopen hbuf hsize
  have hseek := hbuilt.seek pos
  have hpos : 0 ≤ (seekTo pos).vFilePtr := Int.natCast_nonneg pos
  refine ⟨hbuilt.length_image contents, fun opens nbyte hhost => ?_, fun calls hcalls => ?_⟩
  · rcases hseek.readImage_serves hhost hpos nbyte with ⟨d, hread, hle, hdata, hfull⟩
    refine ⟨d, ?_, hle, hdata, fun hdeliver => hfull hplain hdeliver⟩
    rw [hread]
    rfl
  · exact hseek.readSpan_eq hplain hpos hcalls

/-- A host with a directory {lit}`g` and one file {lit}`f` of three bytes in it. -/
def tinyHost : Platform where
  statFile path :=
    if path = [103] then
      some { fileSize := 0, mtime := 0, ctime := 0, atime := 0, mode := S_IFDIR }
    else if path = [103, 47, 102] then
      some { fileSize := 3, mtime := 0, ctime := 0, atime := 0, mode := S_IFREG }
    else none
  scandir path := if path = [103] then some [⟨[102], .reg⟩] else none
  content path := if path = [103, 47, 102] then some [1, 2, 3] else none
  localtime _ := ⟨0, 0, 0, 0, 0, 0⟩
  time := 0
  random _ := []

/-- Its image, and five bytes of it from the place of the file on. -/
theorem read_serves_image_tiny :
    ∃ v fsBuf, openImage (Calls.steady tinyHost) 3 (VIsoFile.fresh false) [103] oRdonly = .ok v ∧
      v.fsBuf = some fsBuf ∧ (v.image fsBuf fun _ => [1, 2, 3]).length = 131072 ∧
      ∃ d, readImage (fun _ _ => some (HostFile.opened [1, 2, 3])) { v with vFilePtr := 53248 } 5 =
        (5, d, { v with vFilePtr := 53253 }) ∧
        d = window (v.image fsBuf fun _ => [1, 2, 3]) 53248 5 := by
  have hfits : fits ((Calls.steady tinyHost).sub 2) 3
      { (VIsoFile.fresh false).close.2 with st := tinyHost.statFile [103] } [103]
      (volumeNameOf [103]) [] (fun built =>
        built.files.all (fun f => !f.multipart && decide (f.size ≤ 3)) &&
          decide (built.layOut.sectors < 2 ^ 32 ∧ built.layOut.totalSize = 131072)) = true := by
    decide +kernel
  rcases openImage_of_fits (Calls.steady tinyHost) (VIsoFile.fresh false) rfl rfl (by decide) rfl
    hfits with ⟨built, fsBuf, hbuilt, -, hopen⟩
  simp only [Bool.and_eq_true, List.all_eq_true, decide_eq_true_eq, Bool.not_eq_true'] at hbuilt
  rcases hbuilt with ⟨hfiles, hsectors, htotal⟩
  rcases read_serves_image hopen rfl (fun f hf => (hfiles f hf).1) hsectors (fun _ => [1, 2, 3])
    53248 with ⟨hlen, hread, -⟩
  refine ⟨_, fsBuf, hopen, rfl, hlen.trans htotal, ?_⟩
  have hunchanged : Opens.Unchanged (fun _ => [1, 2, 3])
      fun _ _ => some (HostFile.opened [1, 2, 3]) := by
    intro place path fd hfd
    cases hfd
    rfl
  rcases hread _ 5 hunchanged with ⟨d, hd, -, hdata, hfull⟩
  have hfive : d.length = 5 := by
    have htotal' : (built.written fsBuf).totalSize = 131072 := htotal
    have hmin := hfull fun pf hpf _ => ⟨⟨_, rfl, rfl, rfl⟩, (hfiles pf.2
      ((built.written fsBuf).map_placedFiles ▸ List.mem_map_of_mem hpf)).2⟩
    rw [htotal'] at hmin
    exact hmin
  rw [hfive] at hd hdata
  exact ⟨d, hd, hdata⟩

end Ps3Netsrv.VIso
