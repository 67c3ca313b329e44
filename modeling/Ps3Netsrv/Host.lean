import Ps3Netsrv.Lib.Window

/-!
# The host below the server: open files and file systems

The server reaches the operating system through the thin wrappers of
{lit}`compat.c`.  This module fixes what those wrappers see: an open regular file
with a position, whose reads may be complete, short or failing, and a file
system that answers {lit}`stat`, {lit}`scandir` and {lit}`open` by path.

Main results:

- Theorem {lit}`readFile_data`: whatever the outcome, the bytes of a read are a
  prefix of the rest of the file and the position moves by their number.
- Theorem {lit}`readFile_full`: a file with no scripted failure delivers every
  byte up to its end.
-/

namespace Ps3Netsrv

open Lib

/-- Memory contents, file contents and C strings (without their terminator). -/
abbrev Bytes := List UInt8

/-! ## Machine integers -/

/-- Conversion to {lit}`uint16_t`. -/
def u16 (n : Nat) : Nat := n % 2 ^ 16

/-- Conversion to {lit}`uint32_t`. -/
def u32 (n : Nat) : Nat := n % 2 ^ 32

/-- Conversion to {lit}`uint64_t`. -/
def u64 (n : Nat) : Nat := n % 2 ^ 64

/-- Conversion of an unsigned value to {lit}`int` (two's complement). -/
def i32 (n : Nat) : Int :=
  if u32 n < 2 ^ 31 then (u32 n : Int) else (u32 n : Int) - 2 ^ 32

/-- Conversion of an unsigned value to {lit}`int64_t` (two's complement). -/
def i64 (n : Nat) : Int :=
  if u64 n < 2 ^ 63 then (u64 n : Int) else (u64 n : Int) - 2 ^ 64

theorem u16_of_lt {n : Nat} (h : n < 2 ^ 16) : u16 n = n := Nat.mod_eq_of_lt h

theorem u32_of_lt {n : Nat} (h : n < 2 ^ 32) : u32 n = n := Nat.mod_eq_of_lt h

theorem u64_of_lt {n : Nat} (h : n < 2 ^ 64) : u64 n = n := Nat.mod_eq_of_lt h

/-- Small values keep their value as an {lit}`int`. -/
theorem i32_of_lt {n : Nat} (h : n < 2 ^ 31) : i32 n = n := by
  have hu : u32 n = n := u32_of_lt (by omega)
  simp only [i32, hu, if_pos h]

/-- Small values keep their value as an {lit}`int64_t`. -/
theorem i64_of_lt {n : Nat} (h : n < 2 ^ 63) : i64 n = n := by
  have hu : u64 n = n := u64_of_lt (by omega)
  simp only [i64, hu, if_pos h]

/-- The conversion never makes a value larger. -/
theorem i64_le (n : Nat) : i64 n ≤ n := by
  unfold i64 u64
  split <;> omega

/-! ## Undefined behaviour -/

/-- Ways a C function can leave its defined behaviour. -/
inductive Fault where
  | outOfBounds
  | nullPointer
deriving Repr, DecidableEq

/-- The source's {lit}`file_stat_t`. -/
structure FileStat where
  fileSize : Nat
  mtime : Nat
  ctime : Nat
  atime : Nat
  mode : Nat
deriving Repr, DecidableEq

/-- The directory bit pattern of {lit}`st_mode`. -/
def S_IFDIR : Nat := 0x4000

/-- The regular-file bit pattern of {lit}`st_mode`. -/
def S_IFREG : Nat := 0x8000

/-! ## Open files -/

/-- What the operating system makes of one {lit}`read` call: all that is there,
at most {lit}`count` bytes of it, or an error. -/
inductive ReadOutcome where
  | full
  | short (count : Nat)
  | error
deriving Repr, DecidableEq

/-- An open descriptor of a regular file.  {lit}`script` decides the outcomes of
the reads to come; once it is used up every read is complete.  {lit}`stat` is
what {lit}`fstat` reports, {lit}`none` for a failing call. -/
structure HostFile where
  content : Bytes
  pos : Nat
  script : List ReadOutcome
  stat : Option FileStat
deriving Repr, DecidableEq

/-- A freshly opened descriptor over the given content. -/
def HostFile.opened (content : Bytes) : HostFile where
  content := content
  pos := 0
  script := []
  stat := some { fileSize := content.length, mtime := 0, ctime := 0, atime := 0, mode := S_IFREG }

/-- {lit}`fstat_file`: the attributes of an open file, {lit}`none` for a failing
call. -/
def fstatFile (fd : HostFile) : Option FileStat :=
  fd.stat.map fun st => { st with fileSize := fd.content.length }

/-- Hand out at most {lit}`count` bytes at the position and move past them. -/
def HostFile.deliver (fd : HostFile) (count : Nat) : Bytes × HostFile :=
  let d := window fd.content fd.pos count
  (d, { fd with pos := fd.pos + d.length })

/-- {lit}`read_file`: the bytes stored into the buffer, or {lit}`none` for the
return value {lit}`-1`. -/
def readFile (fd : HostFile) (nbyte : Nat) : Option Bytes × HostFile :=
  let rest := { fd with script := fd.script.tail }
  match fd.script.headD .full with
  | .full => (some (rest.deliver nbyte).1, (rest.deliver nbyte).2)
  | .short count => (some (rest.deliver (min count nbyte)).1, (rest.deliver (min count nbyte)).2)
  | .error => (none, rest)

/-- {lit}`seek_file` with {lit}`SEEK_SET`: the new position, or {lit}`-1` and no
move for a negative offset. -/
def seekFile (fd : HostFile) (offset : Int) : Int × HostFile :=
  if offset < 0 then (-1, fd) else (offset, { fd with pos := offset.toNat })

/-- The bytes of a successful read are a prefix of the rest of the file, and the
position moves by exactly their number. -/
theorem readFile_data {fd fd' : HostFile} {nbyte : Nat} {d : Bytes}
    (h : readFile fd nbyte = (some d, fd')) :
    d <+: fd.content.drop fd.pos ∧ d.length ≤ nbyte ∧
      fd'.pos = fd.pos + d.length ∧ fd'.content = fd.content := by
  unfold readFile at h
  split at h
  · cases h
    exact ⟨window_prefix_drop _ _ _, by simp [HostFile.deliver], rfl, rfl⟩
  · cases h
    refine ⟨window_prefix_drop _ _ _, ?_, rfl, rfl⟩
    simp only [HostFile.deliver, length_window]
    omega
  · cases h

/-- A read that fails leaves the position and the file alone. -/
theorem readFile_error {fd fd' : HostFile} {nbyte : Nat}
    (h : readFile fd nbyte = (none, fd')) :
    fd'.pos = fd.pos ∧ fd'.content = fd.content := by
  unfold readFile at h
  split at h
  · cases h
  · cases h
  · cases h
    exact ⟨rfl, rfl⟩

/-- Without scripted outcomes a read delivers everything up to the end. -/
theorem readFile_full {fd : HostFile} (hscript : fd.script = []) (nbyte : Nat) :
    readFile fd nbyte =
      (some (window fd.content fd.pos nbyte),
        { fd with pos := fd.pos + (window fd.content fd.pos nbyte).length }) := by
  simp [readFile, HostFile.deliver, hscript]

/-- Seeking to a non-negative offset succeeds and sets the position. -/
theorem seekFile_of_nonneg {fd : HostFile} {offset : Int} (h : 0 ≤ offset) :
    seekFile fd offset = (offset, { fd with pos := offset.toNat }) := by
  simp [seekFile, not_lt.mpr h]

/-! ## File systems -/

/-- The entry type bits of {lit}`struct dirent`. -/
inductive DirentType where
  | dir
  | reg
  | special (bits : Nat)
deriving Repr, DecidableEq

/-- The numeric {lit}`d_type`. -/
def DirentType.bits : DirentType → Nat
  | .dir => 4
  | .reg => 8
  | .special b => b

/-- A directory entry as {lit}`scandir` reports it. -/
structure Dirent where
  dName : Bytes
  dType : DirentType
deriving Repr, DecidableEq

/-- The host file system by path: {lit}`none` is a failing call.
{lit}`scandir` lists every entry in {lit}`alphasort` order, before the caller's
selection function; {lit}`content` is what an {lit}`open` for reading gives. -/
structure FileSystem where
  statFile : Bytes → Option FileStat
  scandir : Bytes → Option (List Dirent)
  content : Bytes → Option Bytes

end Ps3Netsrv
