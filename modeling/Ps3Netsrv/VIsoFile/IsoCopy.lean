import Ps3Netsrv.CreateIso
import Ps3Netsrv.VIsoFile.Served

/-!
# Copying a virtual ISO

{lit}`create_iso` reads a virtual image from its start to its end.  What it stores is the volume as
long as the host delivers the files.

Main results:

- Definition {lit}`virtualSource`: a virtual image as the source of a copy.
- Theorem {lit}`createIso_virtual`: a volume that the host delivers is copied to a disk with room.
-/

namespace Ps3Netsrv.VIso

open Lib

variable {fsBuf : Bytes} {contents : Bytes → Bytes} {host : Nat → Opens}

/-- An object that holds an image, and the number of calls so far. -/
structure VirtualState (fsBuf : Bytes) where
  calls : Nat
  v : VIsoFile
  built : Built v fsBuf
  pos : 0 ≤ v.vFilePtr

/-- The object as the source of a copy.  Each call has a host of its own, over files that keep their
content. -/
def virtualSource (host : Nat → Opens) (hhost : ∀ k, (host k).Unchanged contents) :
    IsoSource (VirtualState fsBuf) where
  read s n :=
    let r := readImage (host s.calls) s.v n
    ({ returned := r.1, stored := r.2.1 },
      { calls := s.calls + 1
        v := r.2.2
        built := by
          obtain ⟨d, hread, -⟩ := s.built.readImage_serves (hhost s.calls) s.pos n
          simp only [r, hread]
          exact s.built.seek _
        pos := by
          obtain ⟨d, hread, -⟩ := s.built.readImage_serves (hhost s.calls) s.pos n
          simp only [r, hread]
          exact Int.add_nonneg s.pos (Int.natCast_nonneg _) })
  fstat s := fstatImage s.v
  stored_le := by
    intro s n
    obtain ⟨d, hread, hle, -⟩ := s.built.readImage_serves (hhost s.calls) s.pos n
    simp only [hread]
    exact hle

/-- The object is at this place of the volume, and the host delivers all files in every call. -/
structure VolumeAt (host : Nat → Opens) (contents : Bytes → Bytes) (image : Bytes)
    (s : VirtualState fsBuf) (pos : Nat) : Prop where
  place : s.v.vFilePtr = pos
  image_eq : s.v.image fsBuf contents = image
  plain : ∀ f ∈ s.v.files, f.multipart = false
  delivers : ∀ k, ∀ pf ∈ s.v.placedFiles, DeliversFile contents (host k) pf.1 pf.2

/-- What a call stores of a volume that the host delivers. -/
theorem VolumeAt.readImage_eq {image : Bytes} {s : VirtualState fsBuf} {pos : Nat}
    (hhost : ∀ k, (host k).Unchanged contents) (h : VolumeAt host contents image s pos) (n : Nat) :
    readImage (host s.calls) s.v n = (((window image pos n).length : Int), window image pos n,
      { s.v with vFilePtr := pos + (window image pos n).length }) := by
  obtain ⟨d, hread, -, hdata, hfull⟩ := s.built.readImage_serves (hhost s.calls) s.pos n
  have hlength := hfull h.plain fun pf hpf _ => h.delivers s.calls pf hpf
  have himage : s.v.totalSize = image.length := by
    rw [← h.image_eq, s.built.length_image]
  have hplace : s.v.vFilePtr.toNat = pos := by
    rw [h.place]
    exact Int.toNat_natCast pos
  rw [hplace] at hdata hlength
  rw [h.image_eq] at hdata
  have hall : d = window image pos n := by
    rw [← window_min_length, ← himage, ← hlength]
    exact hdata
  rw [hread, hall, h.place]

/-- A virtual image whose files the host delivers is a source that delivers. -/
theorem virtualSource_delivering {image : Bytes} (hhost : ∀ k, (host k).Unchanged contents) :
    Delivering (@virtualSource fsBuf contents host hhost) image (VolumeAt host contents image) where
  stored_eq := by
    intro s pos n h
    simp only [virtualSource, h.readImage_eq hhost]
  next := by
    intro s pos n h
    have hread := h.readImage_eq hhost n
    refine ⟨?_, ?_, ?_, ?_⟩
    · simp only [virtualSource, hread]
      exact (Int.natCast_add _ _).symm
    · simp only [virtualSource, hread]
      exact h.image_eq
    · simp only [virtualSource, hread]
      exact h.plain
    · simp only [virtualSource, hread]
      exact h.delivers

/-- A volume that the host delivers is copied to a disk with room. -/
theorem createIso_virtual {image : Bytes} (hhost : ∀ k, (host k).Unchanged contents)
    {isoHost : IsoHost (VirtualState fsBuf)} {folderPath fileout : Bytes} {viso : MakeIso}
    {source : VirtualState fsBuf} {fileSize : Nat} {buf : IsoBuffer} {script : List (Option Nat)}
    (hstarts : CopyStarts (virtualSource host hhost) isoHost folderPath fileout viso source fileSize
      buf script) (hat : VolumeAt host contents image source 0) (htakes : TakesPieces script) :
    createIso (virtualSource host hhost) isoHost folderPath fileout viso =
      .ok (.succeeded, some image) := by
  have hsize : fileSize = image.length := by
    have hfstat : (fstatImage source.v).map FileStat.fileSize = some fileSize := hstarts.fstat_eq
    rw [← hat.image_eq, source.built.length_image]
    rw [fstatImage, source.built.fsBuf_eq] at hfstat
    rcases hst : source.v.st with _ | st
    · rw [hst] at hfstat
      cases hfstat
    · rw [hst] at hfstat
      exact (Option.some.inj hfstat).symm
  rw [hsize] at hstarts
  exact createIso_delivering (virtualSource_delivering hhost) hstarts hat htakes

end Ps3Netsrv.VIso
