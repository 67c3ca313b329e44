import Ps3Netsrv.File.Model

/-!
# Multi-part images

{lit}`File::open` joins {lit}`x.iso.0`, {lit}`x.iso.1`, … into one image.  The
position in that image is spread over a part number and one descriptor position
for each part, and {lit}`File::read` continues in the next part at most once.

Main results:

- Theorems {lit}`openMultipart_eq` and {lit}`MultipartImage.serves_opened`: opening
  the parts gives an object that serves the image.
- Theorems {lit}`Serves.read_stay` and {lit}`Serves.read_cross`: the two ways a
  read can go.
- Theorem {lit}`Positioned.read_step`: one read delivers the image at the logical
  position and moves it by what it delivered.
- Theorem {lit}`multipart_reads`: a seek and any sequence of reads after it.
-/

namespace Ps3Netsrv

open Lib

/-! ## Opening the parts -/

/-- The decimal digits of {lit}`sprintf("%i")`. -/
def decimal (i : Nat) : Bytes :=
  (Nat.toDigits 10 i).map fun c => UInt8.ofNat c.toNat

/-- The path of part {lit}`i`: the path of the first part with {lit}`.i` in place
of its final {lit}`.0`. -/
def partPath (path : Bytes) (i : Nat) : Bytes :=
  path.take (path.length - 6 + 4) ++ 0x2E :: decimal i

/-- The loop of {lit}`File::open` over the parts from {lit}`i` on: it stops at the
first one that does not open. -/
def openParts (fs : FileSystem) (path : Bytes) : Nat → Nat → List HostFile
  | 0, _ => []
  | count + 1, i =>
      match fs.content (partPath path i) with
      | none => []
      | some content => HostFile.opened content :: openParts fs path count (i + 1)

/-- {lit}`File::open` of a path that ends in {lit}`.iso.0`; {lit}`none` is the
return value {lit}`FAILED`. -/
def File.openMultipart (fs : FileSystem) (path : Bytes) : Option File := do
  let fd := HostFile.opened (← fs.content path)
  let st ← fstatFile fd
  let fp := fd :: openParts fs path 63 1
  return {
    fp := fp
    isMultipart := fp.length
    partSize := st.fileSize
    index := 0
    encType := .kDiscTypeNone
    regionInfo := []
    aesDec := .identity }

/-! ## The calls of a read -/

/-- A read of one call. -/
theorem File.readCalls_one {f : File} {n : Nat} {got : Option Bytes} {fd : HostFile}
    (hread : readFile (f.part f.index) n = (got, fd))
    (hstay : ¬ ((PartRead.mk 0 n got).ret < i64 n ∧ f.index + 1 < f.isMultipart)) :
    f.readCalls n = ([⟨0, n, got⟩], f.setPart f.index fd) := by
  simp only [File.readCalls, hread]
  rw [if_neg hstay]

/-- A read of two calls: the second is made at the start of the next part, for what
the first left. -/
theorem File.readCalls_two {f : File} {n : Nat} {got got' : Option Bytes}
    {fd fd' : HostFile} (hread : readFile (f.part f.index) n = (got, fd))
    (hcross : (PartRead.mk 0 n got).ret < i64 n ∧ f.index + 1 < f.isMultipart)
    (hread' : readFile { f.part (f.index + 1) with pos := 0 }
      (u64 ((n : Int) - (PartRead.mk 0 n got).ret).toNat) = (got', fd')) :
    f.readCalls n =
      ([⟨0, n, got⟩, ⟨(PartRead.mk 0 n got).ret,
          u64 ((n : Int) - (PartRead.mk 0 n got).ret).toNat, got'⟩],
        { (f.setPart f.index fd).setPart (f.index + 1) fd' with index := f.index + 1 }) := by
  have hother : (f.setPart f.index fd).part (f.index + 1) = f.part (f.index + 1) := by
    simp [File.part, File.setPart]
  have hseek : seekFile (f.part (f.index + 1)) 0 =
      (0, { f.part (f.index + 1) with pos := 0 }) := seekFile_of_nonneg (le_refl 0)
  simp only [File.readCalls, hread]
  rw [if_pos hcross]
  simp only [hother, hseek, hread']

/-- One successful call leaves what it delivered in the buffer. -/
theorem storeCalls_one (d : Bytes) (n : Nat) : storeCalls [⟨0, n, some d⟩] = d := by
  simp [storeCalls, storeAt]

/-- Two successful calls, the second behind the first, leave both pieces in the
buffer. -/
theorem storeCalls_two (d d' : Bytes) (n m : Nat) :
    storeCalls [⟨0, n, some d⟩, ⟨d.length, m, some d'⟩] = d ++ d' := by
  have hdest : ¬ ((d.length : Int) < 0) := by omega
  simp [storeCalls, storeAt, hdest]

/-- A read whose only call succeeds. -/
theorem File.readMultipart_one {f f' : File} {n : Nat} {d : Bytes}
    (hcalls : f.readCalls n = ([⟨0, n, some d⟩], f')) :
    f.readMultipart n = (some d, f') := by
  have hret : ¬ (([⟨0, n, some d⟩] : List PartRead).map PartRead.ret).sum < 0 := by
    simp [PartRead.ret]
  simp only [File.readMultipart, hcalls]
  rw [if_neg hret, storeCalls_one]
  simp [PartRead.ret]

/-- A read whose two calls both succeed. -/
theorem File.readMultipart_two {f f' : File} {n m : Nat} {d d' : Bytes}
    (hcalls : f.readCalls n = ([⟨0, n, some d⟩, ⟨d.length, m, some d'⟩], f')) :
    f.readMultipart n = (some (d ++ d'), f') := by
  have hsum : (([⟨0, n, some d⟩, ⟨d.length, m, some d'⟩] : List PartRead).map
      PartRead.ret).sum = ((d ++ d').length : Nat) := by
    simp [PartRead.ret]
  simp only [File.readMultipart, hcalls]
  rw [hsum, if_neg (by omega), storeCalls_two, Int.toNat_natCast, List.take_length]

/-! ## Images in parts -/

/-- The parts of an image: up to 64, all but the last of length
{lit}`partSize`, the last at most that long. -/
structure MultipartImage where
  parts : List Bytes
  partSize : Nat
  parts_pos : 0 < parts.length
  parts_le : parts.length ≤ 64
  partSize_pos : 0 < partSize
  full : ∀ i (h : i < parts.length), i + 1 < parts.length → (parts[i]).length = partSize
  length_le : ∀ i (h : i < parts.length), (parts[i]).length ≤ partSize

namespace MultipartImage

variable (img : MultipartImage)

/-- The image the parts make up. -/
def bytes : Bytes := img.parts.flatten

/-- The image reaches past part {lit}`i` by what the parts behind it hold. -/
theorem length_bytes {i : Nat} (h : i < img.parts.length) :
    img.bytes.length =
      i * img.partSize + (img.parts[i]).length + (img.parts.drop (i + 1)).flatten.length := by
  have hfull : ∀ j (hj : j < img.parts.length), j < i →
      (img.parts[j]).length = img.partSize := fun j hj hji => img.full j hj (by omega)
  have hdrop : (img.bytes.drop (i * img.partSize)).length =
      (img.parts[i]).length + (img.parts.drop (i + 1)).flatten.length := by
    rw [bytes, drop_flatten i hfull, List.drop_eq_getElem_cons h, List.flatten_cons,
      List.length_append]
  have htake : i * img.partSize ≤ img.bytes.length := by
    have hlen : ((img.parts.take i).map List.length).sum = i * img.partSize := by
      have hrep : (img.parts.take i).map List.length = List.replicate i img.partSize := by
        apply List.ext_getElem
        · simp
          omega
        · intro j h₁ h₂
          simp only [List.length_replicate] at h₂
          simp [hfull j (by omega) h₂]
      simp [hrep]
    have hsplit : img.bytes = (img.parts.take i).flatten ++ (img.parts.drop i).flatten := by
      rw [← List.flatten_append, List.take_append_drop, bytes]
    rw [hsplit, List.length_append, List.length_flatten, hlen]
    omega
  rw [List.length_drop] at hdrop
  omega

/-- The last part ends the image. -/
theorem length_bytes_last {i : Nat} (h : i < img.parts.length)
    (hlast : i + 1 = img.parts.length) :
    img.bytes.length = i * img.partSize + (img.parts[i]).length := by
  rw [img.length_bytes h, hlast, List.drop_length]
  simp

/-- A window that starts and ends in part {lit}`i`. -/
theorem window_bytes {i pos n : Nat} (h : i < img.parts.length)
    (hin : n ≤ (img.parts[i]).length - pos) :
    window img.bytes (i * img.partSize + pos) n = window (img.parts[i]) pos n := by
  have hfull : ∀ j (hj : j < img.parts.length), j < i →
      (img.parts[j]).length = img.partSize := fun j hj hji => img.full j hj (by omega)
  rw [bytes, window_flatten h hfull pos n, Nat.sub_eq_zero_of_le hin]
  simp

end MultipartImage

/-- An image in two parts. -/
def MultipartImage.pair (first last : Bytes) (hpos : 0 < first.length)
    (hle : last.length ≤ first.length) : MultipartImage where
  parts := [first, last]
  partSize := first.length
  parts_pos := Nat.succ_pos 1
  parts_le := show 2 ≤ 64 by omega
  partSize_pos := hpos
  full := by
    intro i h hnext
    obtain rfl : i = 0 := by
      simp only [List.length_cons, List.length_nil] at hnext
      omega
    rfl
  length_le := by
    intro i h
    match i, h with
    | 0, _ => exact le_refl _
    | 1, _ => exact hle

/-! ## The object over an image -/

/-- The descriptors of {lit}`f` are those of the image's parts, and no read of
them is cut short.  Their positions may be anywhere. -/
structure Serves (img : MultipartImage) (f : File) : Prop where
  isMultipart_eq : f.isMultipart = img.parts.length
  partSize_eq : f.partSize = img.partSize
  contents_eq : f.fp.map HostFile.content = img.parts
  steady : ∀ fd ∈ f.fp, fd.script = [] ∧ fd.stat.isSome = true
  index_lt : f.index < img.parts.length

/-- The position in the image. -/
def File.logicalPos (f : File) : Nat :=
  f.index * f.partSize + (f.part f.index).pos

namespace Serves

variable {img : MultipartImage} {f : File}

theorem length_fp (h : Serves img f) : f.fp.length = img.parts.length := by
  rw [← h.contents_eq, List.length_map]

/-- The descriptor of part {lit}`i`. -/
theorem part_mem (h : Serves img f) {i : Nat} (hi : i < img.parts.length) :
    f.part i ∈ f.fp := by
  have hlt : i < f.fp.length := by rw [h.length_fp]; exact hi
  simp [File.part, hlt]

theorem part_content (h : Serves img f) {i : Nat} (hi : i < img.parts.length) :
    (f.part i).content = img.parts[i] := by
  have hlt : i < f.fp.length := by rw [h.length_fp]; exact hi
  simp [File.part, hlt, ← h.contents_eq]

theorem part_script (h : Serves img f) {i : Nat} (hi : i < img.parts.length) :
    (f.part i).script = [] :=
  (h.steady _ (h.part_mem hi)).1

/-- A read of part {lit}`i` delivers everything up to the part's end. -/
theorem readFile_part (h : Serves img f) {i : Nat} (hi : i < img.parts.length) (n : Nat) :
    readFile (f.part i) n =
      (some (window (img.parts[i]) (f.part i).pos n),
        { f.part i with
          pos := (f.part i).pos + (window (img.parts[i]) (f.part i).pos n).length }) := by
  have hwin : window (f.part i).content (f.part i).pos n =
      window (img.parts[i]) (f.part i).pos n := by rw [h.part_content hi]
  rw [readFile_full (h.part_script hi), hwin]

/-- Moving a descriptor keeps the object over its image. -/
theorem setPart (h : Serves img f) {i : Nat} (hi : i < img.parts.length) (pos : Nat) :
    Serves img (f.setPart i { f.part i with pos := pos }) where
  isMultipart_eq := h.isMultipart_eq
  partSize_eq := h.partSize_eq
  contents_eq := by
    have hself : (img.parts.set i (img.parts[i])) = img.parts := List.set_getElem_self hi
    rw [File.setPart, List.map_set, h.contents_eq, h.part_content hi, hself]
  steady := by
    intro fd hfd
    rcases List.mem_or_eq_of_mem_set hfd with hmem | rfl
    · exact h.steady fd hmem
    · obtain ⟨hscript, hstat⟩ := h.steady _ (h.part_mem hi)
      exact ⟨hscript, hstat⟩
  index_lt := h.index_lt

/-- Entering another part keeps the object over its image. -/
theorem setIndex (h : Serves img f) {i : Nat} (hi : i < img.parts.length) :
    Serves img { f with index := i } :=
  { h with index_lt := hi }

/-- The descriptor that was moved. -/
theorem part_setPart_self (h : Serves img f) {i : Nat} (hi : i < img.parts.length)
    (fd : HostFile) : (f.setPart i fd).part i = fd := by
  have hlt : i < f.fp.length := by rw [h.length_fp]; exact hi
  simp [File.part, File.setPart, hlt]

/-- The other descriptors stay. -/
theorem part_setPart_ne {i j : Nat} (hij : i ≠ j) (fd : HostFile) :
    (f.setPart i fd).part j = f.part j := by
  simp [File.part, File.setPart, hij]

/-- Moving on to the next part keeps the object over its image. -/
theorem enterNext (h : Serves img f) (hnext : f.index + 1 < img.parts.length) (p q : Nat) :
    Serves img
      { (f.setPart f.index { f.part f.index with pos := p }).setPart (f.index + 1)
          { f.part (f.index + 1) with pos := q } with
        index := f.index + 1 } := by
  have hmoved := (h.setPart h.index_lt p).setPart hnext q
  rw [part_setPart_ne (by omega)] at hmoved
  exact hmoved.setIndex hnext

/-- The position of the part moved on to. -/
theorem enterNext_pos (h : Serves img f) (hnext : f.index + 1 < img.parts.length)
    (fd : HostFile) (q : Nat) :
    (((f.setPart f.index fd).setPart (f.index + 1)
      { f.part (f.index + 1) with pos := q }).part (f.index + 1)).pos = q := by
  have hlt : f.index + 1 < f.fp.length := by rw [h.length_fp]; exact hnext
  simp [File.part, File.setPart, hlt]

end Serves

/-! ## A fresh object -/

/-- The object over an image before its first seek or read. -/
def MultipartImage.opened (img : MultipartImage) : File where
  fp := img.parts.map HostFile.opened
  isMultipart := img.parts.length
  partSize := img.partSize
  index := 0
  encType := .kDiscTypeNone
  regionInfo := []
  aesDec := .identity

theorem MultipartImage.serves_opened (img : MultipartImage) : Serves img img.opened where
  isMultipart_eq := rfl
  partSize_eq := rfl
  contents_eq := by simp [opened, HostFile.opened, Function.comp_def]
  steady := by
    intro fd hfd
    obtain ⟨content, -, rfl⟩ := List.mem_map.mp hfd
    exact ⟨rfl, rfl⟩
  index_lt := img.parts_pos

/-- The loop opens the parts that exist, up to the last one. -/
theorem openParts_eq {fs : FileSystem} {path : Bytes} (parts : List Bytes) (count i : Nat)
    (hparts : parts.length ≤ i + count)
    (hcontent : ∀ j, i ≤ j → j < i + count → fs.content (partPath path j) = parts[j]?) :
    openParts fs path count i = (parts.drop i).map HostFile.opened := by
  induction count generalizing i with
  | zero =>
      rw [List.drop_eq_nil_of_le (by omega)]
      rfl
  | succ count ih =>
      rw [openParts, hcontent i (le_refl i) (by omega)]
      by_cases hi : i < parts.length
      · rw [List.getElem?_eq_getElem hi, List.drop_eq_getElem_cons hi, List.map_cons]
        simp only
        rw [ih (i + 1) (by omega) fun j hj hlt => hcontent j (by omega) (by omega)]
      · rw [List.getElem?_eq_none (by omega), List.drop_eq_nil_of_le (by omega)]
        rfl

/-- Opening {lit}`x.iso.0` next to exactly the other parts of an image, whose parts
are as long as the first, gives the fresh object over the image. -/
theorem openMultipart_eq {fs : FileSystem} {path : Bytes} {img : MultipartImage}
    (hfirst : fs.content path = img.parts[0]?)
    (hcontent : ∀ j, 1 ≤ j → j < 64 → fs.content (partPath path j) = img.parts[j]?)
    (hsize : (img.parts[0]?).map List.length = some img.partSize) :
    File.openMultipart fs path = some img.opened := by
  obtain ⟨first, hpart⟩ : ∃ first, img.parts[0]? = some first :=
    ⟨_, List.getElem?_eq_getElem img.parts_pos⟩
  have hcons : img.parts = first :: img.parts.drop 1 := by
    obtain ⟨h, rfl⟩ := List.getElem?_eq_some_iff.mp hpart
    exact List.drop_eq_getElem_cons h
  have hlen : first.length = img.partSize := by
    rw [hpart] at hsize
    exact Option.some.inj hsize
  have hloop : openParts fs path 63 1 = (img.parts.drop 1).map HostFile.opened :=
    openParts_eq img.parts 63 1 img.parts_le hcontent
  have hfp : HostFile.opened first :: openParts fs path 63 1 =
      img.parts.map HostFile.opened := by
    rw [hloop, ← List.map_cons, ← hcons]
  have hstat : fstatFile (HostFile.opened first) =
      some { fileSize := first.length, mtime := 0, ctime := 0, atime := 0, mode := S_IFREG } :=
    rfl
  simp only [File.openMultipart, hfirst, hpart, Option.bind_eq_bind, Option.bind_some, hstat,
    hfp, hlen, List.length_map]
  rfl

namespace Serves

variable {img : MultipartImage} {f : File}

/-! ## One read -/

/-- A call whose return value is not below the {lit}`ssize_t` it is compared
with. -/
theorem ret_lt_iff {d : Bytes} {n : Nat} (hn : n < 2 ^ 63) (dest : Int) :
    (PartRead.mk dest n (some d)).ret < i64 n ↔ d.length < n := by
  rw [i64_of_lt hn]
  simp [PartRead.ret]

/-- An object over an image is multi-part. -/
theorem read_eq (h : Serves img f) (n : Nat) : f.read n = .ok (f.readMultipart n) := by
  have hmulti : f.isMultipart ≠ 0 := by
    rw [h.isMultipart_eq]
    exact img.parts_pos.ne'
  rw [File.read, if_neg hmulti]

/-- A read that fills the buffer, or that is in the last part, stays in its
part. -/
theorem read_stay (h : Serves img f) (hi : f.index < img.parts.length) {n : Nat}
    (hn : n < 2 ^ 63) (hstay : (window (img.parts[f.index]) (f.part f.index).pos n).length = n ∨
      f.index + 1 = img.parts.length) :
    let first := window (img.parts[f.index]) (f.part f.index).pos n
    f.read n = .ok (some first,
      f.setPart f.index { f.part f.index with
        pos := (f.part f.index).pos + first.length }) := by
  intro first
  have hno : ¬ ((PartRead.mk 0 n (some first)).ret < i64 n ∧ f.index + 1 < f.isMultipart) := by
    rw [ret_lt_iff hn, h.isMultipart_eq]
    rintro ⟨hlt, hnext⟩
    rcases hstay with hfull | hlast
    · exact hlt.ne hfull
    · exact hnext.ne hlast
  rw [h.read_eq, File.readMultipart_one (File.readCalls_one (h.readFile_part hi n) hno)]

/-- A read that stops at the end of a part that has one behind it goes on at the
start of the next. -/
theorem read_cross (h : Serves img f) (hi : f.index < img.parts.length) {n : Nat}
    (hn : n < 2 ^ 63) (hnext : f.index + 1 < img.parts.length)
    (hshort : (window (img.parts[f.index]) (f.part f.index).pos n).length < n) :
    let first := window (img.parts[f.index]) (f.part f.index).pos n
    let second := window (img.parts[f.index + 1]) 0 (n - first.length)
    f.read n = .ok (some (first ++ second),
      { (f.setPart f.index { f.part f.index with
          pos := (f.part f.index).pos + first.length }).setPart (f.index + 1)
            { f.part (f.index + 1) with pos := second.length } with
        index := f.index + 1 }) := by
  intro first second
  have hyes : (PartRead.mk 0 n (some first)).ret < i64 n ∧ f.index + 1 < f.isMultipart := by
    rw [ret_lt_iff hn, h.isMultipart_eq]
    exact ⟨hshort, hnext⟩
  have hasked : u64 ((n : Int) - (PartRead.mk 0 n (some first)).ret).toNat =
      n - first.length := by
    rw [u64_of_lt (by simp only [PartRead.ret]; omega)]
    simp only [PartRead.ret]
    omega
  -- the next part is read from its start
  have hmoved := h.setPart hnext 0
  have hread' := hmoved.readFile_part hnext (n - first.length)
  rw [h.part_setPart_self hnext, Nat.zero_add, ← hasked] at hread'
  have hcalls := File.readCalls_two (h.readFile_part hi n) hyes hread'
  rw [h.read_eq, File.readMultipart_two hcalls, hasked]

end Serves

/-- An object over an image whose current part is not left behind. -/
structure Positioned (img : MultipartImage) (f : File) : Prop extends Serves img f where
  pos_le : (f.part f.index).pos ≤ img.partSize

/-- What a read of {lit}`n` bytes delivers and leaves: a prefix of the image at
the logical position, which moves by its length, empty for a non-empty request
only at the end of the image, and complete for a request of at most one part.  A
longer one stops at the end of the next part. -/
structure ReadStep (img : MultipartImage) (f : File) (n : Nat) (d : Bytes) (f' : File) :
    Prop where
  prefix_rest : d <+: img.bytes.drop f.logicalPos
  length_le : d.length ≤ n
  logicalPos_eq : f'.logicalPos = f.logicalPos + d.length
  end_of_nil : 0 < n → d = [] → img.bytes.length ≤ f.logicalPos
  complete : n ≤ img.partSize → d.length = min n (img.bytes.length - f.logicalPos)
  length_eq : d.length =
    min n (min ((f.index + 2) * img.partSize) img.bytes.length - f.logicalPos)

namespace Positioned

variable {img : MultipartImage} {f : File}

theorem logicalPos_eq (h : Positioned img f) :
    f.logicalPos = f.index * img.partSize + (f.part f.index).pos := by
  rw [File.logicalPos, h.partSize_eq]

/-- A read that stays in its part is a step in the image. -/
theorem step_stay (h : Positioned img f) (hi : f.index < img.parts.length) {n : Nat}
    (hstay : (window (img.parts[f.index]) (f.part f.index).pos n).length = n ∨
      f.index + 1 = img.parts.length) :
    let first := window (img.parts[f.index]) (f.part f.index).pos n
    ReadStep img f n first (f.setPart f.index { f.part f.index with
      pos := (f.part f.index).pos + first.length }) := by
  intro first
  have hlen : first.length = min n ((img.parts[f.index]).length - (f.part f.index).pos) :=
    length_window _ _ _
  have hbytes := img.length_bytes hi
  have hend : f.index + 1 = img.parts.length →
      img.bytes.length = f.index * img.partSize + (img.parts[f.index]).length :=
    img.length_bytes_last hi
  have hstay' : first.length = n ∨ f.index + 1 = img.parts.length := hstay
  have hmul : (f.index + 2) * img.partSize =
      f.index * img.partSize + img.partSize + img.partSize := by ring
  have hsize := img.partSize_pos
  have hpart := img.length_le _ hi
  have hfirst : first = window img.bytes f.logicalPos first.length := by
    rw [h.logicalPos_eq, img.window_bytes hi (by omega)]
    exact eq_window_of_prefix (window_prefix_drop _ _ _)
  refine ⟨?_, by omega, ?_, ?_, ?_, ?_⟩
  · rw [hfirst]
    exact window_prefix_drop _ _ _
  · simp only [File.logicalPos]
    rw [show (f.setPart f.index _).index = f.index from rfl, h.part_setPart_self hi,
      show (f.setPart f.index _).partSize = f.partSize from rfl]
    simp only
    omega
  · intro hn hnil
    rw [hnil, List.length_nil] at hlen hstay'
    rw [h.logicalPos_eq]
    omega
  · intro _
    rw [h.logicalPos_eq]
    omega
  · rw [h.logicalPos_eq, hmul]
    omega

/-- A read that goes on in the next part is a step in the image. -/
theorem step_cross (h : Positioned img f) (hi : f.index < img.parts.length) {n : Nat}
    (hnext : f.index + 1 < img.parts.length)
    (hshort : (window (img.parts[f.index]) (f.part f.index).pos n).length < n) :
    let first := window (img.parts[f.index]) (f.part f.index).pos n
    let second := window (img.parts[f.index + 1]) 0 (n - first.length)
    ReadStep img f n (first ++ second)
      { (f.setPart f.index { f.part f.index with
          pos := (f.part f.index).pos + first.length }).setPart (f.index + 1)
            { f.part (f.index + 1) with pos := second.length } with
        index := f.index + 1 } := by
  intro first second
  have hfull : (img.parts[f.index]).length = img.partSize := img.full _ hi hnext
  have hlen : first.length = min n ((img.parts[f.index]).length - (f.part f.index).pos) :=
    length_window _ _ _
  have hlen' : second.length = min (n - first.length) ((img.parts[f.index + 1]).length - 0) :=
    length_window _ _ _
  have hshort' : first.length < n := hshort
  have hmul : (f.index + 1) * img.partSize = f.index * img.partSize + img.partSize :=
    Nat.succ_mul _ _
  have hmul' : (f.index + 2) * img.partSize =
      f.index * img.partSize + img.partSize + img.partSize := by ring
  have hpart := img.length_le _ hnext
  have hpos := h.pos_le
  -- the first piece ends where the next part begins
  have hedge : f.logicalPos + first.length = (f.index + 1) * img.partSize + 0 := by
    rw [h.logicalPos_eq]
    omega
  have hfirst : first = window img.bytes f.logicalPos first.length := by
    rw [h.logicalPos_eq, img.window_bytes hi (by omega)]
    exact eq_window_of_prefix (window_prefix_drop _ _ _)
  have hsecond : second = window img.bytes (f.logicalPos + first.length) second.length := by
    rw [hedge, img.window_bytes hnext (by omega)]
    exact eq_window_of_prefix (window_prefix_drop _ _ _)
  have hboth : first ++ second =
      window img.bytes f.logicalPos (first.length + second.length) := by
    rw [window_add, ← hfirst, ← hsecond]
  have hrest := img.length_bytes hnext
  have hend : f.index + 1 + 1 = img.parts.length →
      img.bytes.length = (f.index + 1) * img.partSize + (img.parts[f.index + 1]).length :=
    img.length_bytes_last hnext
  have hmiddle : f.index + 1 + 1 < img.parts.length →
      (img.parts[f.index + 1]).length = img.partSize := img.full _ hnext
  have hsize := img.partSize_pos
  -- the second piece can go on up to here
  have hstop : min ((f.index + 2) * img.partSize) img.bytes.length =
      (f.index + 1) * img.partSize + (img.parts[f.index + 1]).length := by
    rw [hmul']
    rcases Nat.lt_or_ge (f.index + 1 + 1) img.parts.length with hmore | hlast
    · have hwhole := hmiddle hmore
      omega
    · have hwhole := hend (by omega)
      omega
  refine ⟨?_, by rw [List.length_append]; omega, ?_, ?_, ?_, ?_⟩
  · rw [hboth]
    exact window_prefix_drop _ _ _
  · rw [List.length_append, ← Nat.add_assoc, hedge, Nat.add_zero, ← h.partSize_eq]
    exact congrArg ((f.index + 1) * f.partSize + ·) (h.enterNext_pos hnext _ _)
  · intro hn hnil
    obtain ⟨hnil, hnil'⟩ := List.append_eq_nil_iff.mp hnil
    rw [hnil, List.length_nil] at hlen hlen' hedge
    rw [hnil', List.length_nil] at hlen'
    rw [← Nat.add_zero f.logicalPos, hedge]
    omega
  · intro hn
    rw [List.length_append, h.logicalPos_eq]
    rw [h.logicalPos_eq] at hedge
    omega
  · rw [List.length_append, h.logicalPos_eq, hstop]
    rw [h.logicalPos_eq] at hedge
    clear hend hmiddle hstop hrest
    omega

/-- One read, whatever its size, is a step in the image. -/
theorem read_step (h : Positioned img f) {n : Nat} (hn : n < 2 ^ 63) :
    ∃ d f', f.read n = .ok (some d, f') ∧ ReadStep img f n d f' ∧ Positioned img f' := by
  have hi := h.index_lt
  have hpos := h.pos_le
  have hle := img.length_le _ hi
  by_cases hstay : (window (img.parts[f.index]) (f.part f.index).pos n).length = n ∨
      f.index + 1 = img.parts.length
  · refine ⟨_, _, h.read_stay hi hn hstay, h.step_stay hi hstay, h.toServes.setPart hi _, ?_⟩
    rw [show (f.setPart f.index _).index = f.index from rfl, h.part_setPart_self hi]
    simp only [length_window]
    omega
  · have hlen : (window (img.parts[f.index]) (f.part f.index).pos n).length ≤ n := by
      rw [length_window]
      omega
    have hnext : f.index + 1 < img.parts.length := by omega
    have hshort : (window (img.parts[f.index]) (f.part f.index).pos n).length < n := by omega
    refine ⟨_, _, h.read_cross hi hn hnext hshort, h.step_cross hi hnext hshort,
      h.enterNext hnext _ _, ?_⟩
    refine (h.enterNext_pos hnext _ _).trans_le ?_
    rw [length_window]
    exact (min_le_right _ _).trans ((Nat.sub_le _ _).trans (img.length_le _ hnext))

end Positioned

/-! ## Seeking, attributes and runs -/

/-- The part a seek enters and the offset it seeks to there, if it is not
refused. -/
def MultipartImage.seekTarget (img : MultipartImage) (offset : Int) : Option (Nat × Int) :=
  let off := (offset % 2 ^ 64).toNat
  let partIndex := i64 (off / img.partSize)
  if partIndex < 0 ∨ partIndex ≥ img.parts.length then none
  else some (partIndex.toNat, i64 (off % img.partSize))

/-- A seek enters one of the parts. -/
theorem MultipartImage.seekTarget_lt {img : MultipartImage} {offset p : Int} {i : Nat}
    (h : img.seekTarget offset = some (i, p)) : i < img.parts.length := by
  simp only [seekTarget, Option.ite_none_left_eq_some, Option.some.injEq, Prod.mk.injEq] at h
  omega

/-- {lit}`File::seek` by its target. -/
theorem File.seek_eq_target {img : MultipartImage} {f : File}
    (hparts : f.isMultipart = img.parts.length) (hsize : f.partSize = img.partSize)
    (offset : Int) :
    f.seek offset =
      match img.seekTarget offset with
      | none => (-1, f)
      | some (i, p) =>
          ((seekFile (f.part i) p).1,
            { f.setPart i (seekFile (f.part i) p).2 with index := i }) := by
  have hmulti : ¬ (f.isMultipart = 0 ∨ f.partSize = 0) := by
    rw [hparts, hsize]
    exact not_or.mpr ⟨img.parts_pos.ne', img.partSize_pos.ne'⟩
  rw [File.seek, if_neg hmulti]
  simp only [hsize, hparts, MultipartImage.seekTarget]
  split
  · rfl
  · rfl

/-- An offset in the range of the parts has a target. -/
theorem MultipartImage.seekTarget_of_lt {img : MultipartImage} {offset : Nat}
    (hbound : offset < 2 ^ 63) (hoffset : offset < img.parts.length * img.partSize) :
    img.seekTarget offset =
      some (offset / img.partSize, ((offset % img.partSize : Nat) : Int)) := by
  have hoff : ((offset : Int) % 2 ^ 64).toNat = offset := by omega
  have hdiv : offset / img.partSize < 2 ^ 63 := (Nat.div_le_self _ _).trans_lt hbound
  have hmod : offset % img.partSize < 2 ^ 63 := (Nat.mod_le _ _).trans_lt hbound
  have hindex : offset / img.partSize < img.parts.length :=
    Nat.div_lt_of_lt_mul (by rw [Nat.mul_comm]; exact hoffset)
  have hrange : ¬ (((offset / img.partSize : Nat) : Int) < 0 ∨
      ((offset / img.partSize : Nat) : Int) ≥ (img.parts.length : Int)) :=
    not_or.mpr ⟨not_lt.mpr (Int.natCast_nonneg _), not_le.mpr (Int.ofNat_lt.mpr hindex)⟩
  simp only [seekTarget, hoff, i64_of_lt hdiv, i64_of_lt hmod]
  rw [if_neg hrange, Int.toNat_natCast]

/-- An offset past the range of the parts has none. -/
theorem MultipartImage.seekTarget_of_ge {img : MultipartImage} {offset : Nat}
    (hbound : offset < 2 ^ 63) (hoffset : img.parts.length * img.partSize ≤ offset) :
    img.seekTarget offset = none := by
  have hoff : ((offset : Int) % 2 ^ 64).toNat = offset := by omega
  have hdiv : offset / img.partSize < 2 ^ 63 := (Nat.div_le_self _ _).trans_lt hbound
  have hindex : img.parts.length ≤ offset / img.partSize :=
    (Nat.le_div_iff_mul_le img.partSize_pos).mpr hoffset
  simp only [seekTarget, hoff, i64_of_lt hdiv]
  rw [if_pos (Or.inr (Int.ofNat_le.mpr hindex))]

/-- A seek to an offset in the range of the parts succeeds and sets the logical
position. -/
theorem Serves.seek_positioned {img : MultipartImage} {f : File} (h : Serves img f)
    {offset : Nat} (hbound : offset < 2 ^ 63)
    (hoffset : offset < img.parts.length * img.partSize) :
    0 ≤ (f.seek offset).1 ∧ Positioned img (f.seek offset).2 ∧
      (f.seek offset).2.logicalPos = offset ∧
        (f.seek offset).2.index = offset / img.partSize := by
  have htarget := MultipartImage.seekTarget_of_lt hbound hoffset
  have hindex := MultipartImage.seekTarget_lt htarget
  have hseek : f.seek offset = (((offset % img.partSize : Nat) : Int),
      { f.setPart (offset / img.partSize)
          { f.part (offset / img.partSize) with pos := offset % img.partSize } with
        index := offset / img.partSize }) := by
    rw [File.seek_eq_target h.isMultipart_eq h.partSize_eq, htarget]
    simp only [seekFile_of_nonneg (Int.natCast_nonneg (offset % img.partSize)),
      Int.toNat_natCast]
  have hidx : (f.seek offset).2.index = offset / img.partSize := by rw [hseek]
  have hpos : (f.seek offset).2.part (offset / img.partSize) =
      { f.part (offset / img.partSize) with pos := offset % img.partSize } := by
    rw [hseek]
    exact h.part_setPart_self hindex _
  have hpositioned : Positioned img (f.seek offset).2 := by
    refine ⟨by rw [hseek]; exact (h.setPart hindex _).setIndex hindex, ?_⟩
    rw [hidx, hpos]
    exact (Nat.mod_lt _ img.partSize_pos).le
  refine ⟨by rw [hseek]; exact Int.natCast_nonneg _, hpositioned, ?_, hidx⟩
  rw [hpositioned.logicalPos_eq, hidx, hpos]
  exact Nat.div_add_mod' offset img.partSize

/-- A seek past the range of the parts is refused and moves nothing. -/
theorem Serves.seek_refused {img : MultipartImage} {f : File} (h : Serves img f)
    {offset : Nat} (hbound : offset < 2 ^ 63)
    (hoffset : img.parts.length * img.partSize ≤ offset) : f.seek offset = (-1, f) := by
  rw [File.seek_eq_target h.isMultipart_eq h.partSize_eq,
    MultipartImage.seekTarget_of_ge hbound hoffset]

/-- The sum over the parts. -/
theorem sumPartSizes_eq (last : Nat) (fp : List HostFile)
    (hstat : ∀ fd ∈ fp, fd.stat.isSome = true) :
    sumPartSizes last fp = (fp.map HostFile.content).flatten.length := by
  induction fp generalizing last with
  | nil => rfl
  | cons fd fp ih =>
      obtain ⟨st, hst⟩ := Option.isSome_iff_exists.mp (hstat fd (List.mem_cons_self ..))
      rw [sumPartSizes, ih _ fun fd' hfd' => hstat fd' (List.mem_cons_of_mem _ hfd')]
      simp [fstatFile, hst]

/-- {lit}`File::fstat` reports the length of the image as a {lit}`uint64_t`. -/
theorem Serves.fstat_eq {img : MultipartImage} {f : File} (h : Serves img f) :
    f.fstat.map FileStat.fileSize = some (u64 img.bytes.length) := by
  have hmulti : f.isMultipart ≠ 0 := by
    rw [h.isMultipart_eq]
    exact img.parts_pos.ne'
  obtain ⟨-, hstat⟩ := h.steady _ (h.part_mem img.parts_pos)
  obtain ⟨st, hst⟩ := Option.isSome_iff_exists.mp hstat
  have hall : f.fp.take f.isMultipart = f.fp := by
    rw [h.isMultipart_eq, ← h.length_fp, List.take_length]
  have hsum := sumPartSizes_eq 0 f.fp fun fd hfd => (h.steady fd hfd).2
  rw [File.fstat, if_neg hmulti, hall, hsum, h.contents_eq]
  simp [fstatFile, hst, MultipartImage.bytes]

/-- Reads of the given sizes, one after the other, are all steps in the image, and
the size reported in between is that of the image. -/
def ReadsInOrder (img : MultipartImage) : File → List Nat → Prop
  | f, [] => f.fstat.map FileStat.fileSize = some (u64 img.bytes.length)
  | f, n :: sizes =>
      f.fstat.map FileStat.fileSize = some (u64 img.bytes.length) ∧
        ∃ d f', f.read n = .ok (some d, f') ∧ ReadStep img f n d f' ∧
          ReadsInOrder img f' sizes

/-- From a position in the image every sequence of reads is in order. -/
theorem Positioned.reads_in_order {img : MultipartImage} {f : File} (h : Positioned img f)
    (sizes : List Nat) (hsizes : ∀ n ∈ sizes, n < 2 ^ 63) : ReadsInOrder img f sizes := by
  induction sizes generalizing f with
  | nil => exact h.fstat_eq
  | cons n sizes ih =>
      obtain ⟨d, f', hread, hstep, hpos⟩ := h.read_step (hsizes n (List.mem_cons_self ..))
      exact ⟨h.fstat_eq, d, f', hread, hstep,
        ih hpos fun m hm => hsizes m (List.mem_cons_of_mem _ hm)⟩

/-- Whatever was read before, a seek into the range of the parts and any sequence
of reads after it walk through the image from the offset on. -/
theorem multipart_reads (img : MultipartImage) (f : File) (h : Serves img f)
    (offset : Nat) (hbound : offset < 2 ^ 63)
    (hoffset : offset < img.parts.length * img.partSize)
    (sizes : List Nat) (hsizes : ∀ n ∈ sizes, n < 2 ^ 63) :
    0 ≤ (f.seek offset).1 ∧ (f.seek offset).2.logicalPos = offset ∧
      ReadsInOrder img (f.seek offset).2 sizes := by
  obtain ⟨hret, hpositioned, hlogical, -⟩ := h.seek_positioned hbound hoffset
  exact ⟨hret, hlogical, hpositioned.reads_in_order sizes hsizes⟩

/-- Two reads from offset 1 of an image in parts of two bytes and one byte. -/
theorem multipart_reads_pair :
    let img := MultipartImage.pair [1, 2] [3] (by decide) (by decide)
    0 ≤ (img.opened.seek 1).1 ∧ (img.opened.seek 1).2.logicalPos = 1 ∧
      ReadsInOrder img (img.opened.seek 1).2 [2, 5] :=
  multipart_reads (MultipartImage.pair [1, 2] [3] (by decide) (by decide)) _
    (MultipartImage.serves_opened _) 1 (by decide) (by decide) [2, 5] (by decide)

end Ps3Netsrv
