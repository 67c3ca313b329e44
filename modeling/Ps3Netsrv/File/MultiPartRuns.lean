import Ps3Netsrv.File.MultiPart

/-!
# Runs of seeks and reads on a multi-part image

A console may seek and read a multi-part image in any order before the request
that matters, and any read of a part may fail or stop short.  What such a run leaves
behind is a part number, a position for each part and the outcomes of the reads to
come; none of them depends on the bytes of the image.

Main results:

- Theorem {lit}`Tracks.readCalls`: what the calls of a read deliver, and where it takes the
  cursor.
- Theorem {lit}`Tracks.run`: runs move the cursor by their calls.
- Theorem {lit}`Tracks.readMultipart`: what a read counts as delivered.
- Theorem {lit}`SameShape.move_eq`: the cursor does not depend on the bytes.
-/

namespace Ps3Netsrv

open Lib

/-! ## Calls and runs -/

/-- A call on an opened image. -/
inductive FileOp where
  | seek (offset : Int)
  | read (nbyte : Nat)
deriving Repr, DecidableEq

/-- The object after a call. -/
def File.apply (f : File) : FileOp → File
  | .seek offset => (File.toAbstractFile.seek f offset).2
  | .read nbyte => (File.toAbstractFile.read f nbyte).2

/-- The object after a sequence of calls. -/
def File.run (f : File) (ops : List FileOp) : File :=
  ops.foldl File.apply f

/-- The object over an image before its first seek or read, when the reads of each part end
as its script says. -/
def MultipartImage.openedWith (img : MultipartImage) (scripts : Nat → List ReadOutcome) : File :=
  { img.opened with
    fp := img.parts.mapIdx fun i part => { HostFile.opened part with script := scripts i } }

/-! ## What a read delivers -/

/-- How many bytes a read of {lit}`n` bytes delivers when {lit}`left` bytes are in front of the
end of the file; {lit}`none` is a failing read. -/
def ReadOutcome.delivers (outcome : ReadOutcome) (left n : Nat) : Option Nat :=
  match outcome with
  | .full => some (min n left)
  | .short count => some (min (min count n) left)
  | .error => none

/-- The return value of a read. -/
def returnOf : Option Nat → Int
  | some count => count
  | none => -1

/-- What the {lit}`read_file` calls of a read deliver; {lit}`second` is {lit}`none` when the
read does not go on in the next part. -/
structure Delivery where
  first : Option Nat
  second : Option (Option Nat)
deriving Repr, DecidableEq

/-- The sum of the return values. -/
def Delivery.ret (d : Delivery) : Int :=
  returnOf d.first + d.second.elim 0 returnOf

theorem ReadOutcome.delivers_le {outcome : ReadOutcome} {left n count : Nat}
    (h : outcome.delivers left n = some count) : count ≤ n ∧ count ≤ left := by
  cases outcome with
  | full =>
      cases h
      omega
  | short k =>
      cases h
      omega
  | error => cases h

/-- {lit}`read_file` by the number of bytes it delivers. -/
theorem readFile_eq (fd : HostFile) (n : Nat) :
    let got := (fd.script.headD .full).delivers (fd.content.length - fd.pos) n
    readFile fd n = (got.map (window fd.content fd.pos),
      { fd with pos := fd.pos + got.getD 0, script := fd.script.tail }) := by
  have hcut : ∀ count, window fd.content fd.pos (min count (fd.content.length - fd.pos)) =
      window fd.content fd.pos count := window_min_length _ _
  unfold readFile
  cases fd.script.headD .full with
  | full => simp only [ReadOutcome.delivers, HostFile.deliver, Option.map_some, hcut,
      Option.getD_some, length_window]
  | short count => simp only [ReadOutcome.delivers, HostFile.deliver, Option.map_some, hcut,
      Option.getD_some, length_window]
  | error => simp [ReadOutcome.delivers]

/-- The position of a descriptor after a seek. -/
theorem seekFile_pos (fd : HostFile) (p : Int) :
    (seekFile fd p).2 = { fd with pos := if p < 0 then fd.pos else p.toNat } := by
  unfold seekFile
  split <;> rfl

/-! ## Cursors -/

/-- The part number, and for each part the position and the outcomes of the reads to come: all
that a call reads and writes. -/
structure Cursor where
  index : Nat
  pos : Nat → Nat
  script : Nat → List ReadOutcome

/-- The cursor of an object before its first seek or read. -/
def Cursor.start (scripts : Nat → List ReadOutcome) : Cursor where
  index := 0
  pos _ := 0
  script := scripts

/-- The cursor after a seek in part {lit}`i`. -/
def Cursor.seekPart (c : Cursor) (i pos : Nat) : Cursor :=
  { c with pos := Function.update c.pos i pos }

namespace MultipartImage

variable (img : MultipartImage)

/-- Part {lit}`i`, empty if there is none. -/
def part (i : Nat) : Bytes := img.parts.getD i []

/-- The length of part {lit}`i`. -/
def partLength (i : Nat) : Nat := (img.parts.map List.length).getD i 0

/-- How many bytes a read of part {lit}`i` delivers. -/
def delivers (c : Cursor) (i n : Nat) : Option Nat :=
  ((c.script i).headD .full).delivers (img.partLength i - c.pos i) n

/-- Where a read of part {lit}`i` takes the cursor. -/
def readPart (c : Cursor) (i n : Nat) : Cursor :=
  { c with
    pos := Function.update c.pos i (c.pos i + (img.delivers c i n).getD 0)
    script := Function.update c.script i (c.script i).tail }

/-- What a read delivers, and where it takes the cursor. -/
def readAt (c : Cursor) (n : Nat) : Delivery × Cursor :=
  let first := img.delivers c c.index n
  let c' := img.readPart c c.index n
  if returnOf first < i64 n ∧ c.index + 1 < img.parts.length then
    let next := c'.seekPart (c.index + 1) 0
    let asked := u64 ((n : Int) - returnOf first).toNat
    ({ first := first, second := some (img.delivers next (c.index + 1) asked) },
      { img.readPart next (c.index + 1) asked with index := c.index + 1 })
  else
    ({ first := first, second := none }, c')

/-- Where a call takes the cursor. -/
def move (c : Cursor) : FileOp → Cursor
  | .seek offset =>
      match img.seekTarget offset with
      | none => c
      | some (i, p) => { c.seekPart i (if p < 0 then c.pos i else p.toNat) with index := i }
  | .read n => (img.readAt c n).2

theorem part_eq {i : Nat} (hi : i < img.parts.length) : img.part i = img.parts[i] := by
  simp [part, hi]

theorem length_part (i : Nat) : (img.part i).length = img.partLength i := by
  rw [part, partLength, List.getD_eq_getElem?_getD, List.getD_eq_getElem?_getD, List.getElem?_map]
  cases img.parts[i]? <;> rfl

/-- A part with one behind it is full. -/
theorem partLength_eq {i : Nat} (hi : i + 1 < img.parts.length) :
    img.partLength i = img.partSize := by
  rw [← img.length_part, img.part_eq (by omega)]
  exact img.full i (by omega) hi

end MultipartImage

/-! ## Walking along -/

/-- The descriptors of {lit}`f` are those of the image's parts, and the cursor walks along
with the object. -/
structure Tracks (img : MultipartImage) (f : File) (c : Cursor) : Prop where
  isMultipart_eq : f.isMultipart = img.parts.length
  partSize_eq : f.partSize = img.partSize
  contents_eq : f.fp.map HostFile.content = img.parts
  index_eq : f.index = c.index
  index_lt : c.index < img.parts.length
  pos_eq : ∀ i < img.parts.length, (f.part i).pos = c.pos i
  script_eq : ∀ i < img.parts.length, (f.part i).script = c.script i

theorem MultipartImage.tracks_openedWith (img : MultipartImage)
    (scripts : Nat → List ReadOutcome) : Tracks img (img.openedWith scripts) (.start scripts) := by
  have hpart : ∀ (i : Nat) (hi : i < img.parts.length), (img.openedWith scripts).part i =
      { HostFile.opened img.parts[i] with script := scripts i } := by
    intro i hi
    simp [File.part, openedWith, hi]
  refine ⟨rfl, rfl, ?_, rfl, img.parts_pos, fun i hi => ?_, fun i hi => ?_⟩
  · apply List.ext_getElem
    · simp [openedWith]
    · intro i h₁ h₂
      simp [openedWith, HostFile.opened]
  · rw [hpart i hi]
    rfl
  · rw [hpart i hi]
    rfl

namespace Tracks

variable {img : MultipartImage} {f : File} {c : Cursor}

theorem length_fp (h : Tracks img f c) : f.fp.length = img.parts.length := by
  rw [← h.contents_eq, List.length_map]

theorem part_content (h : Tracks img f c) {i : Nat} (hi : i < img.parts.length) :
    (f.part i).content = img.part i := by
  have hlt : i < f.fp.length := by rw [h.length_fp]; exact hi
  simp [File.part, MultipartImage.part, ← h.contents_eq, hlt]

/-- Moving one descriptor moves its place in the cursor. -/
theorem setPart (h : Tracks img f c) {i : Nat} (hi : i < img.parts.length) (fd : HostFile)
    (hcontent : fd.content = img.part i) :
    Tracks img (f.setPart i fd)
      { c with
        pos := Function.update c.pos i fd.pos
        script := Function.update c.script i fd.script } := by
  have hlt : i < f.fp.length := by rw [h.length_fp]; exact hi
  have hself : (f.setPart i fd).part i = fd := by simp [File.part, File.setPart, hlt]
  have hother : ∀ j, j ≠ i → (f.setPart i fd).part j = f.part j := fun j hj =>
    Serves.part_setPart_ne (Ne.symm hj) fd
  refine ⟨h.isMultipart_eq, h.partSize_eq, ?_, h.index_eq, h.index_lt, fun j hj => ?_,
    fun j hj => ?_⟩
  · rw [File.setPart, List.map_set, h.contents_eq, hcontent, img.part_eq hi,
      List.set_getElem_self]
  · by_cases hij : j = i
    · subst hij
      simp only [hself, Function.update_self]
    · simp only [hother j hij, Function.update_of_ne hij, h.pos_eq j hj]
  · by_cases hij : j = i
    · subst hij
      simp only [hself, Function.update_self]
    · simp only [hother j hij, Function.update_of_ne hij, h.script_eq j hj]

/-- Entering another part. -/
theorem setIndex (h : Tracks img f c) {i : Nat} (hi : i < img.parts.length) :
    Tracks img { f with index := i } { c with index := i } :=
  { h with index_eq := rfl, index_lt := hi }

/-- A seek in a part. -/
theorem seekPart (h : Tracks img f c) {i : Nat} (hi : i < img.parts.length) (pos : Nat) :
    Tracks img (f.setPart i { f.part i with pos := pos }) (c.seekPart i pos) := by
  have hset := h.setPart hi { f.part i with pos := pos } (h.part_content hi)
  rw [h.script_eq i hi, Function.update_eq_self] at hset
  exact hset

/-- A read of a part. -/
theorem readPart (h : Tracks img f c) {i : Nat} (hi : i < img.parts.length) (n : Nat) :
    (readFile (f.part i) n).1 = (img.delivers c i n).map (window (img.part i) (c.pos i)) ∧
      Tracks img (f.setPart i (readFile (f.part i) n).2) (img.readPart c i n) := by
  have hleft : ((f.part i).script.headD .full).delivers
      ((f.part i).content.length - (f.part i).pos) n = img.delivers c i n := by
    rw [h.script_eq i hi, h.part_content hi, h.pos_eq i hi, img.length_part]
    rfl
  have hread := readFile_eq (f.part i) n
  simp only [hleft] at hread
  rw [hread]
  refine ⟨by rw [h.part_content hi, h.pos_eq i hi], ?_⟩
  have hset := h.setPart hi { f.part i with
    pos := (f.part i).pos + (img.delivers c i n).getD 0, script := (f.part i).script.tail }
    (h.part_content hi)
  rw [h.pos_eq i hi, h.script_eq i hi] at hset
  rw [h.pos_eq i hi, h.script_eq i hi]
  exact hset

/-- A seek moves the cursor. -/
theorem seek (h : Tracks img f c) (offset : Int) :
    Tracks img (f.seek offset).2 (img.move c (.seek offset)) := by
  rw [File.seek_eq_target h.isMultipart_eq h.partSize_eq, MultipartImage.move]
  rcases htarget : img.seekTarget offset with _ | ⟨i, p⟩
  · exact h
  · have hi := MultipartImage.seekTarget_lt htarget
    have hfd : (seekFile (f.part i) p).2 =
        { f.part i with pos := if p < 0 then c.pos i else p.toNat } := by
      rw [seekFile_pos, h.pos_eq i hi]
    simp only [hfd]
    exact (h.seekPart hi _).setIndex hi

end Tracks

/-! ## Reads -/

section Reads

variable {img : MultipartImage} {c : Cursor} {n : Nat}

/-- A read of a part stays inside it. -/
theorem MultipartImage.delivers_le {i count : Nat} (h : img.delivers c i n = some count) :
    count ≤ n ∧ count ≤ img.partLength i - c.pos i :=
  ReadOutcome.delivers_le h

/-- The first call is made in the current part. -/
theorem MultipartImage.readAt_first (img : MultipartImage) (c : Cursor) (n : Nat) :
    (img.readAt c n).1.first = img.delivers c c.index n := by
  rw [readAt]
  split <;> rfl

/-- The second call is made when the first was short and there is a next part, for the rest,
and stays inside that part. -/
theorem MultipartImage.readAt_second {got : Option Nat}
    (h : (img.readAt c n).1.second = some got) :
    returnOf (img.readAt c n).1.first < i64 n ∧ c.index + 1 < img.parts.length ∧
      ∀ count, got = some count →
        count ≤ u64 ((n : Int) - returnOf (img.readAt c n).1.first).toNat ∧
          count ≤ img.partLength (c.index + 1) := by
  rw [img.readAt_first c n]
  rw [readAt] at h
  split at h
  · rename_i hcross
    refine ⟨hcross.1, hcross.2, fun count hcount => ?_⟩
    rw [← Option.some.inj h] at hcount
    rcases delivers_le hcount with ⟨hasked, hleft⟩
    simp only [Cursor.seekPart, Function.update_self, Nat.sub_zero] at hleft
    exact ⟨hasked, hleft⟩
  · cases h

/-- The calls of a read. -/
def MultipartImage.callsAt (img : MultipartImage) (c : Cursor) (n : Nat) : List PartRead :=
  let d := (img.readAt c n).1
  { dest := 0, asked := n, got := d.first.map (window (img.part c.index) (c.pos c.index)) } ::
    d.second.toList.map fun got =>
      { dest := returnOf d.first
        asked := u64 ((n : Int) - returnOf d.first).toNat
        got := got.map (window (img.part (c.index + 1)) 0) }

/-- The bytes a read counts as delivered. -/
def MultipartImage.dataAt (img : MultipartImage) (c : Cursor) (n : Nat) : Bytes :=
  (storeCalls (img.callsAt c n)).take (img.readAt c n).1.ret.toNat

/-- The return value of a call by the number of bytes it delivers. -/
theorem PartRead.ret_window {dest : Int} {asked pos : Nat} {part : Bytes} {got : Option Nat}
    (h : ∀ count, got = some count → count ≤ part.length - pos) :
    (PartRead.mk dest asked (got.map (window part pos))).ret = returnOf got := by
  cases got with
  | none => rfl
  | some count =>
      have hlen : (window part pos count).length = count := by
        rw [length_window, min_eq_left (h count rfl)]
      change ((window part pos count).length : Int) = count
      rw [hlen]

/-- What a read of a tracked object does. -/
theorem Tracks.readCalls {f : File} (h : Tracks img f c) (n : Nat) :
    (f.readCalls n).1 = img.callsAt c n ∧ Tracks img (f.readCalls n).2 (img.readAt c n).2 := by
  have hi := h.index_lt
  rcases h.readPart hi n with ⟨hgot, hfirst⟩
  obtain ⟨fd, hfd⟩ : ∃ fd, (readFile (f.part c.index) n).2 = fd := ⟨_, rfl⟩
  rw [hfd] at hfirst
  have hread : readFile (f.part f.index) n =
      ((img.delivers c c.index n).map (window (img.part c.index) (c.pos c.index)), fd) := by
    rw [h.index_eq]
    exact Prod.ext hgot hfd
  have hret : (PartRead.mk 0 n ((img.delivers c c.index n).map
      (window (img.part c.index) (c.pos c.index)))).ret = returnOf (img.delivers c c.index n) :=
    PartRead.ret_window fun count hcount => by
      rw [img.length_part]
      exact (MultipartImage.delivers_le hcount).2
  by_cases hcross : returnOf (img.delivers c c.index n) < i64 n ∧ c.index + 1 < img.parts.length
  · -- the second call starts in the next part
    obtain ⟨asked, hasked⟩ : ∃ asked,
        u64 ((n : Int) - returnOf (img.delivers c c.index n)).toNat = asked := ⟨_, rfl⟩
    have hseek := hfirst.seekPart hcross.2 0
    have hother : (f.setPart c.index fd).part (c.index + 1) = f.part (c.index + 1) :=
      Serves.part_setPart_ne (by omega) fd
    rw [hother] at hseek
    have hlt : c.index + 1 < f.fp.length := by rw [h.length_fp]; exact hcross.2
    have hpart : ((f.setPart c.index fd).setPart (c.index + 1)
        { f.part (c.index + 1) with pos := 0 }).part (c.index + 1) =
          { f.part (c.index + 1) with pos := 0 } := by
      simp [File.part, File.setPart, hlt]
    have hset : ∀ fd', ((f.setPart c.index fd).setPart (c.index + 1)
        { f.part (c.index + 1) with pos := 0 }).setPart (c.index + 1) fd' =
          (f.setPart c.index fd).setPart (c.index + 1) fd' := by
      intro fd'
      simp [File.setPart]
    rcases hseek.readPart hcross.2 asked with ⟨hgot', hsecond⟩
    rw [hpart] at hgot' hsecond
    rw [hset] at hsecond
    obtain ⟨got', fd', hread'⟩ : ∃ got' fd',
        readFile { f.part (c.index + 1) with pos := 0 } asked = (got', fd') := ⟨_, _, rfl⟩
    simp only [hread', Cursor.seekPart, Function.update_self] at hgot' hsecond
    rw [← h.index_eq, ← hasked, ← hret] at hread'
    have hcalls := File.readCalls_two hread
      (by rw [hret, h.index_eq, h.isMultipart_eq]; exact hcross) hread'
    rw [hret, h.index_eq, hasked] at hcalls
    rw [hcalls, MultipartImage.callsAt, MultipartImage.readAt, if_pos hcross, hasked]
    refine ⟨?_, hsecond.setIndex hcross.2⟩
    simp only [hgot', Option.toList_some, List.map_cons, List.map_nil, Cursor.seekPart]
  · have hcalls := File.readCalls_one hread
      (by rw [hret, h.index_eq, h.isMultipart_eq]; exact hcross)
    rw [h.index_eq] at hcalls
    rw [hcalls, MultipartImage.callsAt, MultipartImage.readAt, if_neg hcross]
    exact ⟨rfl, hfirst⟩

/-- The sum of the return values. -/
theorem MultipartImage.sum_ret_callsAt (img : MultipartImage) (c : Cursor) (n : Nat) :
    ((img.callsAt c n).map PartRead.ret).sum = (img.readAt c n).1.ret := by
  have hfirst : ∀ count, (img.readAt c n).1.first = some count →
      count ≤ (img.part c.index).length - c.pos c.index := by
    intro count hcount
    rw [img.readAt_first] at hcount
    rw [img.length_part]
    exact (delivers_le hcount).2
  rw [callsAt, Delivery.ret, List.map_cons, List.sum_cons, PartRead.ret_window hfirst]
  cases hsecond : (img.readAt c n).1.second with
  | none => rfl
  | some got =>
      have hnext : ∀ count, got = some count → count ≤ (img.part (c.index + 1)).length - 0 := by
        intro count hcount
        rw [img.length_part]
        exact ((readAt_second hsecond).2.2 count hcount).2
      simp only [Option.toList_some, List.map_cons, List.map_nil, List.sum_cons, List.sum_nil,
        PartRead.ret_window hnext, Option.elim_some, add_zero]

/-- A read returns the sum of its calls, if that is not negative, and the bytes it counts. -/
theorem Tracks.readMultipart {f : File} (h : Tracks img f c) (n : Nat) :
    ∃ f', f.readMultipart n =
      (if (img.readAt c n).1.ret < 0 then none else some (img.dataAt c n), f') ∧
        Tracks img f' (img.readAt c n).2 := by
  rcases h.readCalls n with ⟨hcalls, htracks⟩
  refine ⟨(f.readCalls n).2, ?_, htracks⟩
  rw [File.readMultipart, hcalls, img.sum_ret_callsAt, MultipartImage.dataAt]

/-- A read moves the cursor. -/
theorem Tracks.read {f : File} (h : Tracks img f c) (n : Nat) :
    ∃ f', File.toAbstractFile.read f n =
      (if (img.readAt c n).1.ret < 0 then none else some (img.dataAt c n), f') ∧
        Tracks img f' (img.readAt c n).2 := by
  rcases h.readMultipart n with ⟨f', hread, htracks⟩
  have hmulti : f.isMultipart ≠ 0 := by
    rw [h.isMultipart_eq]
    exact img.parts_pos.ne'
  exact ⟨f', by simp only [File.toAbstractFile, File.read, if_neg hmulti, hread], htracks⟩

/-- Runs move the cursor by their calls. -/
theorem Tracks.run {f : File} (h : Tracks img f c) (ops : List FileOp) :
    Tracks img (f.run ops) (ops.foldl img.move c) := by
  induction ops generalizing f c with
  | nil => exact h
  | cons op ops ih =>
      apply ih
      cases op with
      | seek offset => exact h.seek offset
      | read n =>
          rcases h.read n with ⟨f', hread, htracks⟩
          have happly : f.apply (.read n) = f' := by rw [File.apply, hread]
          rw [happly]
          exact htracks

/-! ## The bytes of a read -/

/-- A read that stays in its part. -/
theorem MultipartImage.dataAt_stay {count : Nat}
    (hfirst : (img.readAt c n).1.first = some count) (hsecond : (img.readAt c n).1.second = none) :
    img.dataAt c n = window (img.part c.index) (c.pos c.index) count := by
  have hle := (delivers_le ((img.readAt_first c n).symm.trans hfirst)).2
  have hlen : (window (img.part c.index) (c.pos c.index) count).length = count := by
    rw [length_window, img.length_part, min_eq_left hle]
  simp only [dataAt, callsAt, hfirst, hsecond, Delivery.ret, returnOf, Option.elim_none, add_zero,
    Int.toNat_natCast, Option.map_some, Option.toList_none, List.map_nil, storeCalls_one]
  rw [List.take_of_length_le hlen.le]

/-- A read that goes on in the next part. -/
theorem MultipartImage.dataAt_cross {count next : Nat}
    (hfirst : (img.readAt c n).1.first = some count)
    (hsecond : (img.readAt c n).1.second = some (some next)) :
    img.dataAt c n = window (img.part c.index) (c.pos c.index) count ++
      window (img.part (c.index + 1)) 0 next := by
  have hle := (delivers_le ((img.readAt_first c n).symm.trans hfirst)).2
  have hnext := ((readAt_second hsecond).2.2 next rfl).2
  have hlen : (window (img.part c.index) (c.pos c.index) count).length = count := by
    rw [length_window, img.length_part, min_eq_left hle]
  have hlen' : (window (img.part (c.index + 1)) 0 next).length = next := by
    rw [length_window, img.length_part, Nat.sub_zero, min_eq_left hnext]
  have hstore := storeCalls_two (window (img.part c.index) (c.pos c.index) count)
    (window (img.part (c.index + 1)) 0 next) n (u64 ((n : Int) - count).toNat)
  rw [hlen] at hstore
  simp only [dataAt, callsAt, hfirst, hsecond, Delivery.ret, returnOf, Option.elim_some,
    Option.map_some, Option.toList_some, List.map_cons, List.map_nil, hstore]
  rw [List.take_of_length_le]
  rw [List.length_append, hlen, hlen']
  omega

/-- When the second call fails the last byte of the first is not counted. -/
theorem MultipartImage.dataAt_second_fails {count : Nat}
    (hfirst : (img.readAt c n).1.first = some count)
    (hsecond : (img.readAt c n).1.second = some none) :
    img.dataAt c n = window (img.part c.index) (c.pos c.index) (count - 1) := by
  have hle := (delivers_le ((img.readAt_first c n).symm.trans hfirst)).2
  have hlen : (window (img.part c.index) (c.pos c.index) count).length = count := by
    rw [length_window, img.length_part, min_eq_left hle]
  have hstore : storeCalls [⟨0, n, some (window (img.part c.index) (c.pos c.index) count)⟩,
      ⟨count, u64 ((n : Int) - count).toNat, none⟩] =
        window (img.part c.index) (c.pos c.index) count := by
    have hdest : ¬ ((count : Int) < 0) := by omega
    simp [storeCalls, storeAt, hdest, hle, img.length_part]
  simp only [dataAt, callsAt, hfirst, hsecond, Delivery.ret, returnOf, Option.elim_some,
    Option.map_some, Option.map_none, Option.toList_some, List.map_cons, List.map_nil, hstore]
  rw [take_window]
  congr 1
  omega

/-- When the first call fails the second stores its bytes one place too far in front. -/
theorem MultipartImage.dataAt_first_fails {next : Nat}
    (hfirst : (img.readAt c n).1.first = none)
    (hsecond : (img.readAt c n).1.second = some (some next)) :
    img.dataAt c n = window (img.part (c.index + 1)) 1 (next - 1) := by
  have hstore : storeCalls [⟨0, n, none⟩, ⟨-1, u64 ((n : Int) - -1).toNat,
      some (window (img.part (c.index + 1)) 0 next)⟩] =
        (window (img.part (c.index + 1)) 0 next).drop 1 := by
    simp [storeCalls, storeAt]
  simp only [dataAt, callsAt, hfirst, hsecond, Delivery.ret, returnOf, Option.elim_some,
    Option.map_some, Option.map_none, Option.toList_some, List.map_cons, List.map_nil, hstore]
  rw [drop_window, take_window]
  congr 1
  omega

/-- A read that does not fail counts as many bytes as it returns. -/
theorem MultipartImage.length_dataAt (hret : 0 ≤ (img.readAt c n).1.ret) :
    (img.dataAt c n).length = (img.readAt c n).1.ret.toNat := by
  have hle : ∀ count, (img.readAt c n).1.first = some count →
      count ≤ (img.part c.index).length - c.pos c.index := by
    intro count hcount
    rw [img.length_part]
    exact (delivers_le ((img.readAt_first c n).symm.trans hcount)).2
  have hle' : ∀ next, (img.readAt c n).1.second = some (some next) →
      next ≤ (img.part (c.index + 1)).length := by
    intro next hnext
    rw [img.length_part]
    exact ((readAt_second hnext).2.2 next rfl).2
  rw [Delivery.ret] at hret ⊢
  cases hfirst : (img.readAt c n).1.first with
  | some count =>
      have hcount := hle count hfirst
      cases hsecond : (img.readAt c n).1.second with
      | none =>
          rw [dataAt_stay hfirst hsecond, length_window]
          simp [returnOf, hcount]
      | some got =>
          cases got with
          | some next =>
              have hnext := hle' next hsecond
              rw [dataAt_cross hfirst hsecond, List.length_append, length_window, length_window]
              simp only [returnOf, Option.elim_some]
              omega
          | none =>
              rw [dataAt_second_fails hfirst hsecond, length_window]
              simp only [returnOf, Option.elim_some]
              omega
  | none =>
      cases hsecond : (img.readAt c n).1.second with
      | none => simp [hfirst, hsecond, returnOf] at hret
      | some got =>
          cases got with
          | some next =>
              have hnext := hle' next hsecond
              rw [dataAt_first_fails hfirst hsecond, length_window]
              simp only [returnOf, Option.elim_some]
              omega
          | none => simp [hfirst, hsecond, returnOf] at hret

end Reads

/-! ## Images of the same shape -/

/-- Images whose parts have the same lengths. -/
structure SameShape (img img' : MultipartImage) : Prop where
  partSize_eq : img'.partSize = img.partSize
  lengths_eq : img'.parts.map List.length = img.parts.map List.length

namespace SameShape

variable {img img' : MultipartImage} (h : SameShape img img')

include h

theorem length_parts : img'.parts.length = img.parts.length := by
  have hlen := congrArg List.length h.lengths_eq
  simpa using hlen

theorem length_bytes : img'.bytes.length = img.bytes.length := by
  rw [MultipartImage.bytes, MultipartImage.bytes, List.length_flatten, List.length_flatten,
    h.lengths_eq]

theorem partLength_eq : img'.partLength = img.partLength := by
  funext i
  rw [MultipartImage.partLength, h.lengths_eq, MultipartImage.partLength]

theorem delivers_eq : img'.delivers = img.delivers := by
  funext c i n
  rw [MultipartImage.delivers, h.partLength_eq, MultipartImage.delivers]

theorem readPart_eq : img'.readPart = img.readPart := by
  funext c i n
  rw [MultipartImage.readPart, h.delivers_eq, MultipartImage.readPart]

/-- What a read delivers does not depend on the bytes. -/
theorem readAt_eq : img'.readAt = img.readAt := by
  funext c n
  simp only [MultipartImage.readAt, h.delivers_eq, h.readPart_eq, h.length_parts]

/-- Neither does the cursor. -/
theorem move_eq : img'.move = img.move := by
  funext c op
  cases op with
  | seek offset =>
      simp only [MultipartImage.move, MultipartImage.seekTarget, h.partSize_eq, h.length_parts]
  | read n => simp only [MultipartImage.move, h.readAt_eq]

end SameShape

end Ps3Netsrv
