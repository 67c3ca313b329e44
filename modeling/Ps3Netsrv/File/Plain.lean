import Ps3Netsrv.File.Model

/-!
# Plain files

An unencrypted file in one part passes reads and seeks straight to its
descriptor.  This module packages such objects with the content they serve and
shows that they are image backends, whatever the reads do, and clipped backends
when no read fails.

Main results:

- Definition {lit}`PlainFile.imageBackend`: a plain file behind the interface is
  an image backend over its content.
- Definition {lit}`PlainFile.clippedBackend`: a plain file whose reads are all
  complete is a clipped backend.
-/

namespace Ps3Netsrv

open Lib

/-- An object that serves {lit}`image` from a single unencrypted descriptor. -/
structure PlainFile (image : Bytes) where
  file : File
  fd : HostFile
  fp_eq : file.fp = [fd]
  single : file.isMultipart = 0
  unencrypted : file.encType = .kDiscTypeNone
  content_eq : fd.content = image

namespace PlainFile

variable {image : Bytes}

/-- The same object over a descriptor that was read or moved. -/
def withFd (f : PlainFile image) (fd : HostFile) (hcontent : fd.content = image) :
    PlainFile image where
  file := f.file.setPart 0 fd
  fd := fd
  fp_eq := by simp [File.setPart, f.fp_eq]
  single := f.single
  unencrypted := f.unencrypted
  content_eq := hcontent

theorem part_zero (f : PlainFile image) : f.file.part 0 = f.fd := by
  simp [File.part, f.fp_eq]

/-- A plain read is the descriptor's read. -/
theorem read_eq (f : PlainFile image) (nbyte : Nat) :
    f.file.read nbyte =
      .ok ((readFile f.fd nbyte).1, f.file.setPart 0 (readFile f.fd nbyte).2) := by
  simp [File.read, File.readSingle, f.single, f.unencrypted, f.part_zero]
  rfl

/-- Reading leaves the content alone. -/
theorem readFile_content (fd : HostFile) (nbyte : Nat) :
    (readFile fd nbyte).2.content = fd.content := by
  rcases h : readFile fd nbyte with ⟨_ | d, fd'⟩
  · exact (readFile_error h).2
  · exact (readFile_data h).2.2.2

/-- Seeking leaves the content alone. -/
theorem seekFile_content (fd : HostFile) (offset : Int) :
    (seekFile fd offset).2.content = fd.content := by
  unfold seekFile
  split <;> rfl

/-- The methods of a plain file, on objects packaged with their content. -/
def toAbstractFile : AbstractFile (PlainFile image) where
  read f nbyte :=
    ((readFile f.fd nbyte).1,
      f.withFd (readFile f.fd nbyte).2 (by rw [readFile_content, f.content_eq]))
  seek f offset :=
    ((seekFile f.fd offset).1,
      f.withFd (seekFile f.fd offset).2 (by rw [seekFile_content, f.content_eq]))
  fstat f := f.file.fstat
  supportsBulkRead f := f.file.supportsBulkRead

/-- The packaged methods are those of the {lit}`File` object. -/
theorem toAbstractFile_read (f : PlainFile image) (nbyte : Nat) :
    File.toAbstractFile.read f.file nbyte =
      ((toAbstractFile.read f nbyte).1, (toAbstractFile.read f nbyte).2.file) := by
  simp only [File.toAbstractFile, f.read_eq]
  rfl

/-- The packaged seek is that of the {lit}`File` object. -/
theorem toAbstractFile_seek (f : PlainFile image) (offset : Int) :
    File.toAbstractFile.seek f.file offset =
      ((toAbstractFile.seek f offset).1, (toAbstractFile.seek f offset).2.file) := by
  simp [File.toAbstractFile, File.seek, f.single, f.part_zero, toAbstractFile, withFd]

/-- A plain file, whatever becomes of its reads, is an image backend. -/
def imageBackend (image : Bytes) : ImageBackend (PlainFile image) where
  toAbstractFile := toAbstractFile
  image := image
  position f := f.fd.pos
  read_prefix := by
    intro f f' n d h
    obtain ⟨hd, hf⟩ := Prod.mk.inj h
    have hread : readFile f.fd n = (some d, (readFile f.fd n).2) := by rw [← hd]
    obtain ⟨hpre, hlen, hpos, -⟩ := readFile_data hread
    rw [f.content_eq] at hpre
    refine ⟨hpre, hlen, ?_⟩
    rw [← hf]
    exact hpos
  seek_position := by
    intro f f' offset r h _ hoff
    obtain ⟨-, hf⟩ := Prod.mk.inj h
    rw [← hf]
    simp [withFd, seekFile_of_nonneg hoff]

/-- A plain file whose reads are all complete. -/
structure Steady (image : Bytes) extends PlainFile image where
  script_nil : fd.script = []

/-- The methods of a plain file whose reads are all complete. -/
def Steady.toAbstractFile : AbstractFile (Steady image) where
  read f nbyte :=
    ((PlainFile.toAbstractFile.read f.toPlainFile nbyte).1,
      { (PlainFile.toAbstractFile.read f.toPlainFile nbyte).2 with
        script_nil := by
          simp [PlainFile.toAbstractFile, withFd, readFile_full f.script_nil, f.script_nil] })
  seek f offset :=
    ((PlainFile.toAbstractFile.seek f.toPlainFile offset).1,
      { (PlainFile.toAbstractFile.seek f.toPlainFile offset).2 with
        script_nil := by
          simp only [PlainFile.toAbstractFile, withFd, seekFile]
          split <;> exact f.script_nil })
  fstat f := f.file.fstat
  supportsBulkRead f := f.file.supportsBulkRead

/-- A plain file whose reads are all complete is a clipped backend. -/
def clippedBackend (image : Bytes) : ClippedBackend (Steady image) where
  toAbstractFile := Steady.toAbstractFile
  image := image
  position f := f.fd.pos
  read_window := by
    intro f n
    simp [Steady.toAbstractFile, PlainFile.toAbstractFile, readFile_full f.script_nil,
      f.content_eq]
  read_position := by
    intro f n
    simp [Steady.toAbstractFile, PlainFile.toAbstractFile, withFd,
      readFile_full f.script_nil, f.content_eq]
  seek_ok := by
    intro f offset
    simp [Steady.toAbstractFile, PlainFile.toAbstractFile, seekFile_of_nonneg]
  seek_position := by
    intro f offset
    simp [Steady.toAbstractFile, PlainFile.toAbstractFile, withFd, seekFile_of_nonneg]

/-- A freshly opened plain file. -/
def opened (image : Bytes) (aes : SectorCipher) : PlainFile image where
  file :=
    { fp := [HostFile.opened image]
      isMultipart := 0
      partSize := 0
      index := 0
      encType := .kDiscTypeNone
      regionInfo := []
      aesDec := aes }
  fd := HostFile.opened image
  fp_eq := rfl
  single := rfl
  unencrypted := rfl
  content_eq := rfl

/-- A freshly opened plain file has no scripted outcomes. -/
def Steady.opened (image : Bytes) (aes : SectorCipher) : Steady image :=
  { PlainFile.opened image aes with script_nil := rfl }

end PlainFile

end Ps3Netsrv
