import Ps3Netsrv.File.Plain
import Ps3Netsrv.Lib.Copying
import Ps3Netsrv.StartUp

/-!
# Copying an image to a file

{lit}`create_iso` opens an image and copies it to a new file in pieces of 64 KiB.  It looks neither
at what {lit}`read` returns nor at what {lit}`write_file` returns, and reports success once the
output file is open.

Main results:

- Definition {lit}`createIso`: the function.
- Theorem {lit}`copyIso_content`: what the copy writes.
- Theorem {lit}`createIso_copies_iff`: when success means that the image was copied.
- Theorem {lit}`createIso_delivering`: a source that delivers is copied to a disk with room.
-/

namespace Ps3Netsrv

open Lib
open Lib.Copying (Transfer overwrite written CopiesAll Completes total)

variable {σ : Type}

/-! ## The source and the output -/

/-- One call of {lit}`read`: what it returns, and what it stores at the start of the buffer.  A call
that fails or falls short may have stored bytes that it does not count. -/
structure Fetched where
  returned : Int
  stored : Bytes
deriving Repr, DecidableEq

/-- The methods of {lit}`ro_file` after it has been opened. -/
structure IsoSource (σ : Type) where
  read : σ → Nat → Fetched × σ
  fstat : σ → Option FileStat
  stored_le : ∀ s n, (read s n).1.stored.length ≤ n

/-- The class of {lit}`ro_file`: a file, or a virtual image with {lit}`ps3Mode`. -/
inductive IsoClass where
  | file
  | virtual (ps3Mode : Bool)
deriving Repr, DecidableEq

/-- The output file, and what the host makes of the writes to come: {lit}`none` is an error,
{lit}`some k` takes at most {lit}`k` bytes, and behind the last one the host takes everything. -/
structure OutFile where
  content : Bytes
  script : List (Option Nat)
deriving Repr, DecidableEq

/-- {lit}`write_file`. -/
def OutFile.write (f : OutFile) (bytes : Bytes) : Int × OutFile :=
  match f.script with
  | [] => (bytes.length, { f with content := f.content ++ bytes })
  | none :: script => (-1, { f with script := script })
  | some k :: script =>
      ((bytes.take k).length, { content := f.content ++ bytes.take k, script := script })

/-- {lit}`client.buf`, with what {lit}`malloc` left in it. -/
structure IsoBuffer where
  bytes : Bytes
  length_eq : bytes.length = bufferSize

/-- What the host does for {lit}`create_iso`: the two allocations, the open of the source and of the
output, with the outcomes of the writes to it. -/
structure IsoHost (σ : Type) where
  buf : Option IsoBuffer
  pathBuffer : Bool
  openSource : IsoClass → Bytes → Option σ
  openOutput : Bytes → Option (List (Option Nat))

/-! ## The function -/

/-- The state of the copy. -/
structure Copy (σ : Type) where
  source : σ
  buffer : Bytes
  out : OutFile

/-- {lit}`buf_size`. -/
def isoBufSize : Nat := 0x10000

/-- Read {lit}`n` bytes to the buffer and write {lit}`n` bytes from it. -/
def copyPiece (S : IsoSource σ) (n : Nat) (c : Copy σ) : Copy σ :=
  let got := S.read c.source n
  let buffer := overwrite c.buffer got.1.stored
  { source := got.2, buffer := buffer, out := (c.out.write (buffer.take n)).2 }

/-- The loop over the whole pieces. -/
def copyLoop (S : IsoSource σ) (isoSize offset : Nat) (c : Copy σ) : Copy σ :=
  if offset < isoSize then copyLoop S isoSize (offset + isoBufSize) (copyPiece S isoBufSize c)
  else c
termination_by isoSize - offset
decreasing_by
  rw [isoBufSize]
  omega

/-- The copy of {lit}`file_size` bytes. -/
def copyIso (S : IsoSource σ) (fileSize : Nat) (c : Copy σ) : Copy σ :=
  let remSize := fileSize % isoBufSize
  let isoSize := fileSize - remSize
  let c := if isoBufSize ≤ isoSize then copyLoop S isoSize 0 c else c
  if 0 < remSize then copyPiece S remSize c else c

/-- The class of the source: a name with {lit}`.iso` in it is that of a file. -/
def isoClass (folderPath : Bytes) (viso : MakeIso) : IsoClass :=
  if hasSubstring (literal ".iso") folderPath || hasSubstring (literal ".ISO") folderPath then .file
  else .virtual (viso = .ps3)

/-- {lit}`create_iso`: the status and the content of the output file, if it was opened.  For an empty
path the function cleans up a record that it has not initialised. -/
def createIso (S : IsoSource σ) (host : IsoHost σ) (folderPath fileout : Bytes) (viso : MakeIso) :
    Except Fault (Status × Option Bytes) :=
  if folderPath = [] ∨ fileout = [] then .error .outOfBounds
  else
    match host.buf with
    | none => .ok (.failed, none)
    | some buf =>
        if host.pathBuffer = false then .ok (.failed, none)
        else
          match host.openSource (isoClass folderPath viso) folderPath with
          | none => .ok (.failed, none)
          | some source =>
              match S.fstat source with
              | none => .ok (.failed, none)
              | some st =>
                  match host.openOutput fileout with
                  | none => .ok (.failed, none)
                  | some script =>
                      let copied := copyIso S st.fileSize
                        { source := source
                          buffer := buf.bytes
                          out := { content := [], script := script } }
                      .ok (.succeeded, some copied.out.content)

/-! ## What is written -/

/-- How many of {lit}`n` bytes the next write takes. -/
def taken (n : Nat) : List (Option Nat) → Nat
  | [] => n
  | none :: _ => 0
  | some k :: _ => k

/-- The output file after a write. -/
theorem OutFile.write_eq (f : OutFile) {bytes : Bytes} {n : Nat} (h : bytes.length ≤ n) :
    (f.write bytes).2 =
      { content := f.content ++ bytes.take (taken n f.script), script := f.script.tail } := by
  rcases f with ⟨content, _ | ⟨_ | k, script⟩⟩
  · simp only [OutFile.write, taken, List.take_of_length_le h, List.tail_nil]
  · simp only [OutFile.write, taken, List.take_zero, List.append_nil, List.tail_cons]
  · rfl

/-- The reads and writes of pieces of these sizes. -/
def transfers (S : IsoSource σ) : (sizes : List Nat) → σ → List (Option Nat) →
    List (Transfer UInt8)
  | [], _, _ => []
  | n :: sizes, source, script =>
      { size := n
        stored := (S.read source n).1.stored
        taken := taken n script
        stored_le := S.stored_le source n } ::
        transfers S sizes (S.read source n).2 script.tail

/-- The pieces of a copy. -/
def copyPieces (S : IsoSource σ) (sizes : List Nat) (c : Copy σ) : Copy σ :=
  sizes.foldl (fun c n => copyPiece S n c) c

/-- The sizes of the pieces. -/
def pieceSizes (fileSize : Nat) : List Nat :=
  List.replicate (fileSize / isoBufSize) isoBufSize ++
    if 0 < fileSize % isoBufSize then [fileSize % isoBufSize] else []

/-- The pieces are written one behind the other. -/
theorem copyPieces_content (S : IsoSource σ) (sizes : List Nat) (c : Copy σ) :
    (copyPieces S sizes c).out.content =
      c.out.content ++ written c.buffer (transfers S sizes c.source c.out.script) := by
  induction sizes generalizing c with
  | nil => exact (List.append_nil _).symm
  | cons n sizes ih =>
      have hpiece : ((overwrite c.buffer (S.read c.source n).1.stored).take n).length ≤ n := by
        rw [List.length_take]
        omega
      have hwrite := c.out.write_eq hpiece
      have hstep := ih (copyPiece S n c)
      simp only [copyPiece, hwrite] at hstep
      rw [copyPieces, List.foldl_cons, ← copyPieces, transfers, written, ← List.append_assoc]
      simp only [copyPiece, hwrite]
      exact hstep

/-- The loop copies whole pieces. -/
theorem copyLoop_eq (S : IsoSource σ) (count offset : Nat) (c : Copy σ) :
    copyLoop S (offset + count * isoBufSize) offset c =
      copyPieces S (List.replicate count isoBufSize) c := by
  induction count generalizing offset c with
  | zero =>
      rw [copyLoop, if_neg (by omega)]
      rfl
  | succ count ih =>
      have hbuf : 0 < isoBufSize := by decide
      have hend : offset + (count + 1) * isoBufSize =
          offset + isoBufSize + count * isoBufSize := by
        rw [Nat.succ_mul]
        omega
      rw [copyLoop, if_pos (by rw [hend]; omega), hend, ih]
      rfl

/-- The copy goes through all pieces. -/
theorem copyIso_eq (S : IsoSource σ) (fileSize : Nat) (c : Copy σ) :
    copyIso S fileSize c = copyPieces S (pieceSizes fileSize) c := by
  have hwhole : fileSize - fileSize % isoBufSize = fileSize / isoBufSize * isoBufSize := by
    have hdiv := Nat.div_add_mod fileSize isoBufSize
    rw [Nat.mul_comm] at hdiv
    omega
  have hloop : (if isoBufSize ≤ fileSize - fileSize % isoBufSize then
        copyLoop S (fileSize - fileSize % isoBufSize) 0 c else c) =
      copyPieces S (List.replicate (fileSize / isoBufSize) isoBufSize) c := by
    rw [hwhole]
    cases hcount : fileSize / isoBufSize with
    | zero =>
        rw [if_neg (by rw [Nat.zero_mul]; decide)]
        rfl
    | succ count =>
        have hloop := copyLoop_eq S (count + 1) 0 c
        rw [Nat.zero_add] at hloop
        rw [if_pos (Nat.le_mul_of_pos_left isoBufSize (Nat.succ_pos count)), hloop]
  rw [copyIso, hloop, pieceSizes, copyPieces, copyPieces, List.foldl_append]
  split
  · rfl
  · rfl

/-- What the copy writes. -/
theorem copyIso_content (S : IsoSource σ) (fileSize : Nat) (c : Copy σ) :
    (copyIso S fileSize c).out.content = c.out.content ++
      written c.buffer (transfers S (pieceSizes fileSize) c.source c.out.script) := by
  rw [copyIso_eq, copyPieces_content]

/-- The pieces have these sizes. -/
theorem map_size_transfers (S : IsoSource σ) (sizes : List Nat) (source : σ)
    (script : List (Option Nat)) : (transfers S sizes source script).map Transfer.size = sizes := by
  induction sizes generalizing source script with
  | nil => rfl
  | cons n sizes ih => rw [transfers, List.map_cons, ih]

/-- The pieces make up the file. -/
theorem sum_pieceSizes (fileSize : Nat) : (pieceSizes fileSize).sum = fileSize := by
  have hdiv := Nat.div_add_mod fileSize isoBufSize
  rw [Nat.mul_comm] at hdiv
  rw [pieceSizes, List.sum_append, List.sum_replicate_nat]
  split
  · rw [List.sum_singleton]
    exact hdiv
  · rw [List.sum_nil]
    omega

/-- No piece is longer than the others. -/
theorem le_of_mem_pieceSizes {fileSize n : Nat} (h : n ∈ pieceSizes fileSize) :
    n ≤ isoBufSize := by
  rcases List.mem_append.mp h with hwhole | hrest
  · exact Nat.le_of_eq (List.eq_of_mem_replicate hwhole)
  · split at hrest
    · rw [List.mem_singleton.mp hrest]
      exact Nat.le_of_lt (Nat.mod_lt _ (by decide))
    · cases hrest

/-! ## Success -/

/-- The copy starts: the allocations succeed, the source opens and has attributes, and the output
file opens. -/
structure CopyStarts (S : IsoSource σ) (host : IsoHost σ) (folderPath fileout : Bytes)
    (viso : MakeIso) (source : σ) (fileSize : Nat) (buf : IsoBuffer)
    (script : List (Option Nat)) : Prop where
  folderPath_ne : folderPath ≠ []
  fileout_ne : fileout ≠ []
  buf_eq : host.buf = some buf
  pathBuffer : host.pathBuffer = true
  openSource_eq : host.openSource (isoClass folderPath viso) folderPath = some source
  fstat_eq : (S.fstat source).map FileStat.fileSize = some fileSize
  openOutput_eq : host.openOutput fileout = some script

variable {S : IsoSource σ} {host : IsoHost σ} {folderPath fileout : Bytes} {viso : MakeIso}

/-- A copy that starts succeeds, whatever becomes of its reads and writes. -/
theorem CopyStarts.createIso_eq {source : σ} {fileSize : Nat} {buf : IsoBuffer}
    {script : List (Option Nat)}
    (h : CopyStarts S host folderPath fileout viso source fileSize buf script) :
    createIso S host folderPath fileout viso =
      .ok (.succeeded,
        some (written buf.bytes (transfers S (pieceSizes fileSize) source script))) := by
  obtain ⟨st, hst, rfl⟩ := Option.map_eq_some_iff.mp h.fstat_eq
  rw [createIso, if_neg (not_or.mpr ⟨h.folderPath_ne, h.fileout_ne⟩)]
  simp only [h.buf_eq, h.pathBuffer, h.openSource_eq, hst, h.openOutput_eq, copyIso_content,
    Bool.true_eq_false, if_false, List.nil_append]

/-- Only a copy that starts succeeds. -/
theorem exists_copyStarts {out : Option Bytes}
    (h : createIso S host folderPath fileout viso = .ok (.succeeded, out)) :
    ∃ source fileSize buf script,
      CopyStarts S host folderPath fileout viso source fileSize buf script := by
  rw [createIso] at h
  split at h
  · cases h
  next hpaths =>
    split at h
    · cases h
    next buf hbuf =>
      split at h
      · cases h
      next hpath =>
        split at h
        · cases h
        next source hsource =>
          split at h
          · cases h
          next st hst =>
            split at h
            · cases h
            next script hscript =>
              rw [not_or] at hpaths
              exact ⟨source, st.fileSize, buf, script, hpaths.1, hpaths.2, hbuf,
                by simpa using hpath, hsource, by rw [hst]; rfl, hscript⟩

/-- Success means that the output file is the image. -/
def CopiesImage (S : IsoSource σ) (host : IsoHost σ) (folderPath fileout : Bytes) (viso : MakeIso)
    (image : Bytes) : Prop :=
  ∀ out, createIso S host folderPath fileout viso = .ok (.succeeded, out) → out = some image

/-- The source that is opened has as many bytes as the image. -/
def HasSize (S : IsoSource σ) (host : IsoHost σ) (folderPath : Bytes) (viso : MakeIso)
    (image : Bytes) : Prop :=
  ∀ source st, host.openSource (isoClass folderPath viso) folderPath = some source →
    S.fstat source = some st → st.fileSize = image.length

/-- What a copy that starts writes is the image exactly when every read completes its piece of the
image in the buffer and every write takes all of its piece. -/
theorem written_eq_iff_copiesAll {source : σ} {fileSize : Nat} {buf : IsoBuffer}
    {script : List (Option Nat)} {image : Bytes} (hlength : image.length = fileSize) :
    written buf.bytes (transfers S (pieceSizes fileSize) source script) = image ↔
      CopiesAll buf.bytes (transfers S (pieceSizes fileSize) source script) image := by
  apply Lib.Copying.written_eq_iff
  · intro t ht
    have hmem := List.mem_map_of_mem (f := Transfer.size) ht
    rw [map_size_transfers] at hmem
    have hle := le_of_mem_pieceSizes hmem
    have hbuf : isoBufSize ≤ bufferSize := by decide
    rw [buf.length_eq]
    omega
  · rw [total, map_size_transfers, sum_pieceSizes, hlength]

/-- Success means that the output file is the image exactly when, in a copy that starts, every read
completes its piece of the image in the buffer and every write takes all of its piece. -/
theorem createIso_copies_iff {image : Bytes} (hsize : HasSize S host folderPath viso image) :
    CopiesImage S host folderPath fileout viso image ↔
      ∀ source fileSize buf script,
        CopyStarts S host folderPath fileout viso source fileSize buf script →
          CopiesAll buf.bytes (transfers S (pieceSizes fileSize) source script) image := by
  have hlength : ∀ {source fileSize buf script},
      CopyStarts S host folderPath fileout viso source fileSize buf script →
        image.length = fileSize := by
    intro source fileSize buf script h
    obtain ⟨st, hst, rfl⟩ := Option.map_eq_some_iff.mp h.fstat_eq
    exact (hsize source st h.openSource_eq hst).symm
  constructor
  · intro hcopies source fileSize buf script h
    apply (written_eq_iff_copiesAll (hlength h)).mp
    exact Option.some.inj (hcopies _ h.createIso_eq)
  · intro hall out hout
    obtain ⟨source, fileSize, buf, script, h⟩ := exists_copyStarts hout
    rw [h.createIso_eq] at hout
    cases hout
    exact congrArg some ((written_eq_iff_copiesAll (hlength h)).mpr
      (hall source fileSize buf script h))

/-! ## Sources that deliver -/

/-- Whatever is asked of the source, it delivers the image from its position on. -/
structure Delivering (S : IsoSource σ) (image : Bytes) (At : σ → Nat → Prop) : Prop where
  stored_eq : ∀ {s pos n}, At s pos → (S.read s n).1.stored = window image pos n
  next : ∀ {s pos n}, At s pos → At (S.read s n).2 (pos + (window image pos n).length)

/-- The host takes every piece. -/
def TakesPieces (script : List (Option Nat)) : Prop :=
  ∀ outcome ∈ script, ∃ k, outcome = some k ∧ isoBufSize ≤ k

/-- A write is not partial. -/
theorem TakesPieces.le_taken {script : List (Option Nat)} (h : TakesPieces script) {n : Nat}
    (hn : n ≤ isoBufSize) : n ≤ taken n script := by
  cases script with
  | nil => exact le_refl n
  | cons outcome script =>
      obtain ⟨k, rfl, hk⟩ := h outcome List.mem_cons_self
      exact hn.trans hk

/-- What a source that delivers completes. -/
theorem copiesAll_of_delivering {image : Bytes} {At : σ → Nat → Prop}
    (hdelivers : Delivering S image At) {sizes : List Nat} {source : σ} {pos : Nat}
    {script : List (Option Nat)} {buffer : Bytes} (hat : At source pos)
    (htakes : TakesPieces script) (hsizes : ∀ n ∈ sizes, n ≤ isoBufSize)
    (hsum : pos + sizes.sum = image.length) :
    CopiesAll buffer (transfers S sizes source script) (image.drop pos) := by
  induction sizes generalizing source pos script buffer with
  | nil => trivial
  | cons n sizes ih =>
      rw [List.sum_cons] at hsum
      have hstored : (S.read source n).1.stored = (image.drop pos).take n := hdelivers.stored_eq hat
      have hlength : (window image pos n).length = n := by
        rw [length_window]
        omega
      have hcompletes : Completes buffer (S.read source n).1.stored ((image.drop pos).take n) := by
        rw [hstored]
        exact Completes.whole _ _
      have hnext := hdelivers.next (n := n) hat
      rw [hlength] at hnext
      refine ⟨htakes.le_taken (hsizes n List.mem_cons_self), hcompletes, ?_⟩
      change CopiesAll _ _ ((image.drop pos).drop n)
      rw [List.drop_drop]
      refine ih hnext ?_ (fun m hm => hsizes m (List.mem_cons_of_mem n hm)) (by omega)
      intro outcome houtcome
      exact htakes outcome (List.mem_of_mem_tail houtcome)

/-- A source that delivers is copied to a disk with room. -/
theorem createIso_delivering {image : Bytes} {At : σ → Nat → Prop}
    (hdelivers : Delivering S image At) {source : σ} {buf : IsoBuffer} {script : List (Option Nat)}
    (h : CopyStarts S host folderPath fileout viso source image.length buf script)
    (hat : At source 0) (htakes : TakesPieces script) :
    createIso S host folderPath fileout viso = .ok (.succeeded, some image) := by
  have hsum : 0 + (pieceSizes image.length).sum = image.length := by
    rw [Nat.zero_add, sum_pieceSizes]
  have hcopies : CopiesAll buf.bytes (transfers S (pieceSizes image.length) source script)
      (image.drop 0) :=
    copiesAll_of_delivering hdelivers hat htakes (fun n hn => le_of_mem_pieceSizes hn) hsum
  rw [List.drop_zero] at hcopies
  rw [h.createIso_eq, (written_eq_iff_copiesAll rfl).mpr hcopies]

/-! ## Files -/

/-- An image backend as a source: a call that fails stores nothing. -/
def ImageBackend.toIsoSource (B : ImageBackend σ) : IsoSource σ where
  read s n :=
    match (B.read s n).1 with
    | none => ({ returned := -1, stored := [] }, (B.read s n).2)
    | some d => ({ returned := d.length, stored := d }, (B.read s n).2)
  fstat := B.fstat
  stored_le := by
    intro s n
    rcases hread : B.read s n with ⟨_ | d, s'⟩
    · exact Nat.zero_le n
    · exact (B.read_prefix hread).2.1

/-- A backend that cannot fail delivers its image. -/
theorem ClippedBackend.delivering (B : ClippedBackend σ) :
    Delivering B.toImageBackend.toIsoSource B.image fun s pos => B.position s = pos where
  stored_eq := by
    rintro s pos n rfl
    have hread : (B.toImageBackend.read s n).1 = some (window B.image (B.position s) n) :=
      B.read_window s n
    simp only [ImageBackend.toIsoSource, hread]
  next := by
    rintro s pos n rfl
    have hread : (B.toImageBackend.read s n).1 = some (window B.image (B.position s) n) :=
      B.read_window s n
    simp only [ImageBackend.toIsoSource, hread]
    exact B.read_position s n

/-- A transfer buffer that holds one byte throughout. -/
def uniformBuffer (c : UInt8) : IsoBuffer where
  bytes := List.replicate bufferSize c
  length_eq := List.length_replicate

/-- A host with one source and one output file. -/
def singleIsoHost (source : σ) (script : List (Option Nat)) : IsoHost σ where
  buf := some (uniformBuffer 0xAA)
  pathBuffer := true
  openSource _ _ := some source
  openOutput _ := some script

/-- The path of an ISO file. -/
def isoPath : Bytes := literal "/x.iso"

/-- What such a host starts with is its own. -/
theorem singleIsoHost_starts {source source' : σ} {script script' : List (Option Nat)}
    {fileSize : Nat} {buf : IsoBuffer}
    (h : CopyStarts S (singleIsoHost source script) folderPath fileout viso source' fileSize buf
      script') : source' = source ∧ buf = uniformBuffer 0xAA ∧ script' = script :=
  ⟨(Option.some.inj h.openSource_eq).symm, (Option.some.inj h.buf_eq).symm,
    (Option.some.inj h.openOutput_eq).symm⟩

/-- A file of three bytes. -/
def threeBytes : PlainFile.Steady [1, 2, 3] := PlainFile.Steady.opened [1, 2, 3] .identity

/-- The source of that file. -/
def threeBytesSource : IsoSource (PlainFile.Steady [1, 2, 3]) :=
  (PlainFile.clippedBackend [1, 2, 3]).toImageBackend.toIsoSource

/-- The file is copied. -/
theorem threeBytes_copied :
    HasSize threeBytesSource (singleIsoHost threeBytes []) isoPath .none [1, 2, 3] ∧
      CopiesImage threeBytesSource (singleIsoHost threeBytes []) isoPath isoPath .none [1, 2, 3] ∧
      createIso threeBytesSource (singleIsoHost threeBytes []) isoPath isoPath .none =
        .ok (.succeeded, some [1, 2, 3]) := by
  have hsize : HasSize threeBytesSource (singleIsoHost threeBytes []) isoPath .none [1, 2, 3] := by
    intro source st hopen hst
    cases hopen
    cases hst
    rfl
  have hstarts : CopyStarts threeBytesSource (singleIsoHost threeBytes []) isoPath isoPath .none
      threeBytes 3 (uniformBuffer 0xAA) [] :=
    ⟨by decide, by decide, rfl, rfl, rfl, rfl, rfl⟩
  have hdelivers := (PlainFile.clippedBackend [1, 2, 3]).delivering
  have htakes : TakesPieces [] := fun outcome houtcome => by cases houtcome
  refine ⟨hsize, (createIso_copies_iff hsize).mpr ?_, ?_⟩
  · intro source fileSize buf script h
    have hfileSize := h.fstat_eq
    obtain ⟨rfl, -, rfl⟩ := singleIsoHost_starts h
    cases hfileSize
    exact copiesAll_of_delivering hdelivers rfl htakes (fun n hn => le_of_mem_pieceSizes hn)
      (by rw [sum_pieceSizes]; rfl)
  · exact createIso_delivering hdelivers hstarts rfl htakes

/-- A file of three bytes whose first read fails. -/
def unreadable : PlainFile [1, 2, 3] :=
  (PlainFile.opened [1, 2, 3] .identity).withFd
    { HostFile.opened [1, 2, 3] with script := [.error] } rfl

/-- The source of that file. -/
def unreadableSource : IsoSource (PlainFile [1, 2, 3]) :=
  (PlainFile.imageBackend [1, 2, 3]).toIsoSource

/-- After a read that fails the output holds what was in the buffer, and after a partial write its
end is missing; both are reported as a success. -/
theorem unreadable_not_copied :
    createIso unreadableSource (singleIsoHost unreadable []) isoPath isoPath .none =
        .ok (.succeeded, some [0xAA, 0xAA, 0xAA]) ∧
      ¬ CopiesImage unreadableSource (singleIsoHost unreadable []) isoPath isoPath .none
        [1, 2, 3] ∧
      createIso threeBytesSource (singleIsoHost threeBytes [some 2]) isoPath isoPath .none =
        .ok (.succeeded, some [1, 2]) ∧
      ¬ CopiesImage threeBytesSource (singleIsoHost threeBytes [some 2]) isoPath isoPath .none
        [1, 2, 3] := by
  have hread : createIso unreadableSource (singleIsoHost unreadable []) isoPath isoPath .none =
      .ok (.succeeded, some [0xAA, 0xAA, 0xAA]) := by
    have hstarts : CopyStarts unreadableSource (singleIsoHost unreadable []) isoPath isoPath .none
        unreadable 3 (uniformBuffer 0xAA) [] :=
      ⟨by decide, by decide, rfl, rfl, rfl, rfl, rfl⟩
    have hbuffer : overwrite (uniformBuffer 0xAA).bytes [] = List.replicate bufferSize 0xAA := rfl
    have htransfers : transfers unreadableSource (pieceSizes 3) unreadable [] =
        [{ size := 3, stored := [], taken := 3, stored_le := by decide }] := rfl
    rw [hstarts.createIso_eq, htransfers, written, hbuffer, List.take_replicate,
      List.take_replicate]
    rfl
  have hwrite : createIso threeBytesSource (singleIsoHost threeBytes [some 2]) isoPath isoPath
      .none = .ok (.succeeded, some [1, 2]) := by
    have hstarts : CopyStarts threeBytesSource (singleIsoHost threeBytes [some 2]) isoPath isoPath
        .none threeBytes 3 (uniformBuffer 0xAA) [some 2] :=
      ⟨by decide, by decide, rfl, rfl, rfl, rfl, rfl⟩
    have htransfers : transfers threeBytesSource (pieceSizes 3) threeBytes [some 2] =
        [{ size := 3, stored := [1, 2, 3], taken := 2, stored_le := by decide }] := rfl
    rw [hstarts.createIso_eq, htransfers, written]
    rfl
  refine ⟨hread, ?_, hwrite, ?_⟩
  · intro hcopies
    exact absurd (Option.some.inj (hcopies _ hread)) (by decide)
  · intro hcopies
    exact absurd (Option.some.inj (hcopies _ hwrite)) (by decide)

end Ps3Netsrv
