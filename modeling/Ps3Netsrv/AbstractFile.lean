import Ps3Netsrv.Host

/-!
# The backend interface and the client record

The command handlers of {lit}`main.cpp` talk to an opened image through the
virtual methods of {lit}`AbstractFile` and to the console through a socket.
This module states the interface, what a well-behaved backend promises about the
image it serves, and the part of {lit}`client_t` the read handlers use.

Main results:

- Structure {lit}`ImageBackend`: a backend whose reads fail or deliver a prefix
  of what is left of one fixed image.
- Structure {lit}`ClippedBackend`: a backend that never fails and clips reads at
  the end of the image; theorem {lit}`ClippedBackend.read_eq` and the definition
  {lit}`ClippedBackend.toImageBackend` place it below the first.
- Theorem {lit}`Socket.send_prefix`: whatever the network does, what leaves the
  socket is a prefix of what was handed to it.
-/

namespace Ps3Netsrv

open Lib

/-! ## Backends -/

/-- The methods of {lit}`AbstractFile` the handlers call on an object of state
{lit}`σ`.  A read returns the bytes it stored at the start of the buffer, or
{lit}`none` for a negative return value; {lit}`seek` is called with
{lit}`SEEK_SET` only. -/
structure AbstractFile (σ : Type) where
  read : σ → Nat → Option Bytes × σ
  seek : σ → Int → Int × σ
  fstat : σ → Option FileStat
  supportsBulkRead : σ → Bool

/-- A backend over one fixed image: a read fails or delivers a prefix of the
bytes left at the position and advances by that many, and a seek that succeeds
sets the position. -/
structure ImageBackend (σ : Type) extends AbstractFile σ where
  image : Bytes
  position : σ → Nat
  read_prefix : ∀ {s s' : σ} {n : Nat} {d : Bytes}, read s n = (some d, s') →
    d <+: image.drop (position s) ∧ d.length ≤ n ∧ position s' = position s + d.length
  seek_position : ∀ {s s' : σ} {offset r : Int}, seek s offset = (r, s') → 0 ≤ r →
    0 ≤ offset → position s' = offset.toNat

/-- A backend that cannot fail: every read delivers the image at the position,
clipped at its end, and every seek to a non-negative offset succeeds. -/
structure ClippedBackend (σ : Type) extends AbstractFile σ where
  image : Bytes
  position : σ → Nat
  read_window : ∀ (s : σ) (n : Nat), (read s n).1 = some (window image (position s) n)
  read_position : ∀ (s : σ) (n : Nat),
    position (read s n).2 = position s + (window image (position s) n).length
  seek_ok : ∀ (s : σ) (offset : Nat), 0 ≤ (seek s offset).1
  seek_position : ∀ (s : σ) (offset : Nat), position (seek s offset).2 = offset

variable {σ : Type}

/-- The result and the next state of a read of a backend that cannot fail. -/
theorem ClippedBackend.read_eq (B : ClippedBackend σ) (s : σ) (n : Nat) :
    B.read s n = (some (window B.image (B.position s) n), (B.read s n).2) := by
  rw [← B.read_window s n]

/-- A backend that cannot fail promises in particular what any image backend
does. -/
def ClippedBackend.toImageBackend (B : ClippedBackend σ) : ImageBackend σ where
  toAbstractFile := B.toAbstractFile
  image := B.image
  position := B.position
  read_prefix := by
    intro s s' n d h
    rw [B.read_eq] at h
    obtain ⟨hd, hs⟩ := Prod.mk.inj h
    obtain rfl := Option.some.inj hd
    refine ⟨window_prefix_drop _ _ _, by simp, ?_⟩
    rw [← hs, B.read_position]
  seek_position := by
    intro s s' offset r h _ hoff
    obtain ⟨n, rfl⟩ := Int.eq_ofNat_of_zero_le hoff
    have hpos := B.seek_position s n
    rw [h] at hpos
    simpa using hpos

/-! ## The client's socket -/

/-- A connected socket: what was sent so far, and what the network does with the
calls to come ({lit}`none` is an error, {lit}`some k` accepts at most {lit}`k`
bytes; a used-up script accepts everything). -/
structure Socket where
  sent : Bytes
  script : List (Option Nat)
deriving Repr, DecidableEq

/-- {lit}`send`: the return value and the socket afterwards. -/
def Socket.send (s : Socket) (bytes : Bytes) : Int × Socket :=
  match s.script with
  | [] => (bytes.length, { s with sent := s.sent ++ bytes })
  | none :: rest => (-1, { s with script := rest })
  | some k :: rest =>
      ((bytes.take k).length, { sent := s.sent ++ bytes.take k, script := rest })

/-- A socket that returns the full length has sent everything. -/
theorem Socket.send_full {s s' : Socket} {bytes : Bytes} {r : Int}
    (h : s.send bytes = (r, s')) (hr : r = bytes.length) :
    s'.sent = s.sent ++ bytes := by
  unfold Socket.send at h
  split at h
  · cases h
    rfl
  · cases h
    omega
  · rename_i k rest hscript
    cases h
    have hk : bytes.take k = bytes :=
      List.take_of_length_le (by simp only [List.length_take] at hr; omega)
    simp [hk]

/-- Whatever the network does, a prefix of the bytes leaves the socket. -/
theorem Socket.send_prefix {s s' : Socket} {bytes : Bytes} {r : Int}
    (h : s.send bytes = (r, s')) :
    ∃ part, part <+: bytes ∧ s'.sent = s.sent ++ part := by
  unfold Socket.send at h
  split at h
  · cases h
    exact ⟨bytes, List.prefix_rfl, rfl⟩
  · cases h
    exact ⟨[], List.nil_prefix, by simp⟩
  · cases h
    exact ⟨_, List.take_prefix _ _, rfl⟩

/-! ## The client record -/

/-- The return values of the handlers. -/
inductive Status where
  | succeeded
  | failed
deriving Repr, DecidableEq

/-- {lit}`BUFFER_SIZE`, the size of {lit}`client->buf`. -/
def bufferSize : Nat := 4 * 1048576

/-- The part of {lit}`client_t` that the read handlers use; {lit}`buf` records
that the transfer buffer is allocated. -/
structure Client (σ : Type) where
  s : Socket
  roFile : Option σ
  buf : Bool
  cdSectorSize : UInt16
  roFileSize : Nat
  eofPadLogged : Bool

/-- The record right after an image of {lit}`size` bytes was opened. -/
def Client.serving (roFile : σ) (size : Nat) : Client σ where
  s := { sent := [], script := [] }
  roFile := some roFile
  buf := true
  cdSectorSize := 2352
  roFileSize := size
  eofPadLogged := false

/-- {lit}`log_eof_padding` prints one note for each opened file and remembers
that it did. -/
def logEofPadding (client : Client σ) : Client σ :=
  { client with eofPadLogged := true }

@[simp]
theorem logEofPadding_s (client : Client σ) : (logEofPadding client).s = client.s := rfl

@[simp]
theorem logEofPadding_roFileSize (client : Client σ) :
    (logEofPadding client).roFileSize = client.roFileSize := rfl

end Ps3Netsrv
