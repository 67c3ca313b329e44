import Ps3Netsrv.Session.View
import Ps3Netsrv.VIsoFile.Served

/-!
# The two classes of images

OPEN_FILE makes an object of class {lit}`File` or of class {lit}`VIsoFile`.  A plain file and
a virtual image, over a host that may fail or deliver less than it is asked for, are both
objects that show an image of their own.

Main results:

- Definition {lit}`plainClass`: the plain files.
- Definition {lit}`VIso.virtualClass`: the virtual images.
- Definition {lit}`imageClass`: both.
-/

namespace Ps3Netsrv

open Lib

/-! ## Plain files -/

/-- The plain files, each with what is in it. -/
def plainClass : ImageClass ((image : Bytes) × PlainFile image) where
  read s n :=
    ((PlainFile.toAbstractFile.read s.2 n).1, ⟨s.1, (PlainFile.toAbstractFile.read s.2 n).2⟩)
  seek s offset :=
    ((PlainFile.toAbstractFile.seek s.2 offset).1,
      ⟨s.1, (PlainFile.toAbstractFile.seek s.2 offset).2⟩)
  fstat s := s.2.file.fstat
  supportsBulkRead s := s.2.file.supportsBulkRead
  image s := s.1
  position s := s.2.fd.pos
  read_prefix := by
    rintro ⟨image, f⟩ s' n d h
    rcases Prod.mk.inj h with ⟨hd, hs⟩
    rw [← hs]
    exact ImageBackend.read_prefix (PlainFile.imageBackend image) (Prod.ext hd rfl)
  read_image _ _ := rfl
  seek_image _ _ := rfl
  seek_ok := by
    rintro ⟨image, f⟩ offset
    show 0 ≤ (seekFile f.fd offset).1 ↔ 0 ≤ offset
    unfold seekFile
    split <;> omega
  seek_position := by
    rintro ⟨image, f⟩ offset hoff
    simp [PlainFile.toAbstractFile, PlainFile.withFd, seekFile_of_nonneg hoff]
  fstat_size := by
    rintro ⟨image, f⟩ st h
    rw [File.fstat, if_pos f.single, f.part_zero] at h
    rcases Option.map_eq_some_iff.mp h with ⟨attributes, -, rfl⟩
    exact congrArg List.length f.content_eq

namespace VIso

/-! ## Virtual images -/

/-- An object that holds an image, made of files with these contents; {lit}`host` is what the
host makes of the calls to come. -/
structure Disc where
  v : VIsoFile
  fsBuf : Bytes
  contents : Bytes → Bytes
  host : List Opens
  built : Built v fsBuf
  unchanged : ∀ opens ∈ host, opens.Unchanged contents

/-- A host that opens nothing. -/
def Opens.none : Opens := fun _ _ => Option.none

theorem Opens.none_unchanged (contents : Bytes → Bytes) : Opens.none.Unchanged contents := by
  intro place path fd h
  cases h

/-- What the host makes of the next call; once it is used up nothing can be opened. -/
def Disc.opens (disc : Disc) : Opens := disc.host.headD Opens.none

theorem Disc.opens_unchanged (disc : Disc) : disc.opens.Unchanged disc.contents := by
  rcases hhost : disc.host with _ | ⟨opens, host⟩
  · rw [Disc.opens, hhost]
    exact Opens.none_unchanged _
  · rw [Disc.opens, hhost]
    exact disc.unchanged opens (by simp [hhost])

/-- What a call that does not fail stores. -/
theorem Disc.readImage_prefix (disc : Disc) {n : Nat} {d : Bytes}
    (h : (if (readImage disc.opens disc.v n).1 < 0 then .none
      else some (readImage disc.opens disc.v n).2.1) = some d) :
    d <+: (disc.v.image disc.fsBuf disc.contents).drop disc.v.vFilePtr.toNat ∧ d.length ≤ n ∧
      (readImage disc.opens disc.v n).2.2.vFilePtr.toNat = disc.v.vFilePtr.toNat + d.length := by
  by_cases hpos : 0 ≤ disc.v.vFilePtr
  · rcases disc.built.readImage_serves disc.opens_unchanged hpos n with
      ⟨bytes, hread, hle, hdata, -⟩
    rw [hread] at h ⊢
    rw [if_neg (not_lt.mpr (Int.natCast_nonneg _))] at h
    obtain rfl : bytes = d := Option.some.inj h
    refine ⟨?_, hle, ?_⟩
    · rw [hdata]
      exact window_prefix_drop _ _ _
    · show (disc.v.vFilePtr + bytes.length).toNat = _
      omega
  · -- in front of the image only a call for nothing does not fail
    have hread : readImage disc.opens disc.v n = _ := readImage_eq disc.built.fsBuf_eq
    by_cases hnothing : (disc.v.totalSize : Int) ≤ disc.v.vFilePtr ∨ n = 0
    · rw [hread, if_pos hnothing] at h ⊢
      cases h
      exact ⟨List.nil_prefix, Nat.zero_le _, by simp⟩
    · rw [hread, if_neg hnothing, if_pos (not_le.mp hpos)] at h
      cases h

/-- The object after a call, when the file pointer is here. -/
def Disc.moved (disc : Disc) (host : List Opens)
    (hhost : ∀ opens ∈ host, opens.Unchanged disc.contents) (pos : Int) : Disc where
  v := { disc.v with vFilePtr := pos }
  fsBuf := disc.fsBuf
  contents := disc.contents
  host := host
  built := disc.built.seek pos
  unchanged := hhost

/-- The virtual images.  A negative count is a failure. -/
def virtualClass : ImageClass Disc where
  read disc n :=
    let r := readImage disc.opens disc.v n
    (if r.1 < 0 then .none else some r.2.1,
      disc.moved disc.host.tail (fun opens h => disc.unchanged opens (List.mem_of_mem_tail h))
        r.2.2.vFilePtr)
  seek disc offset :=
    let r := seekImage disc.v offset 0
    (r.1, disc.moved disc.host disc.unchanged r.2.vFilePtr)
  fstat disc := fstatImage disc.v
  supportsBulkRead _ := true
  image disc := disc.v.image disc.fsBuf disc.contents
  position disc := disc.v.vFilePtr.toNat
  read_prefix := by
    intro disc disc' n d h
    rcases Prod.mk.inj h with ⟨hd, rfl⟩
    exact disc.readImage_prefix hd
  read_image _ _ := rfl
  seek_image _ _ := rfl
  seek_ok := by
    intro disc offset
    simp [seekImage, disc.built.fsBuf_eq]
  seek_position := by
    intro disc offset hoff
    simp [seekImage, disc.built.fsBuf_eq, Disc.moved]
  fstat_size := by
    intro disc st h
    rw [disc.built.length_image]
    unfold fstatImage at h
    split at h
    · cases h
      rfl
    · cases h

/-- The object after a read is the one of {lit}`VIsoFile::read`. -/
theorem virtualClass_read_v (disc : Disc) (n : Nat) :
    (virtualClass.read disc n).2.v = (readImage disc.opens disc.v n).2.2 := by
  show ({ disc.v with vFilePtr := (readImage disc.opens disc.v n).2.2.vFilePtr } : VIsoFile) = _
  unfold readImage
  split
  · rfl
  · split
    · rfl
    · split <;> rfl

/-- And so is that after a seek. -/
theorem virtualClass_seek_v (disc : Disc) (offset : Int) :
    (virtualClass.seek disc offset).2.v = (seekImage disc.v offset 0).2 := by
  show ({ disc.v with vFilePtr := (seekImage disc.v offset 0).2.vFilePtr } : VIsoFile) = _
  unfold seekImage
  split <;> rfl

end VIso

/-! ## Both -/

/-- The images of a server: plain files and virtual images. -/
def imageClass : ImageClass (((image : Bytes) × PlainFile image) ⊕ VIso.Disc) :=
  plainClass.sum VIso.virtualClass

end Ps3Netsrv
