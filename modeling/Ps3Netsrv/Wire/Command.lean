import Ps3Netsrv.Lib.Codec
import Ps3Netsrv.Session.Model

/-!
# Commands on the wire

A command of the netiso protocol has 16 bytes, the packed structures of {lit}`netiso.h`.  A
path, or the data of a WRITE_FILE, follows it without any mark.  {lit}`client_thread`
receives the 16 bytes, chooses a handler by the opcode, and leaves it to the handler to
receive what follows.

Main results:

- Definition {lit}`encodeCmd`: the bytes of a command.
- Definition {lit}`decodeCmd`: the command the server makes of 16 bytes.
- Theorem {lit}`decodeCmd_encodeCmd`: the server reads the command that was sent.
- Structure {lit}`Request`: a command with what belongs behind it.
-/

namespace Ps3Netsrv.Wire

open Lib

/-! ## The structures of netiso.h -/

/-- {lit}`enum NETISO_CMD`. -/
def opcode : NetisoCmd → UInt16
  | .openFile _ => 0x1224
  | .readFileCritical _ _ => 0x1225
  | .readCd2048Critical _ _ => 0x1226
  | .readFile _ _ => 0x1227
  | .createFile _ => 0x1228
  | .writeFile _ => 0x1229
  | .openDir _ => 0x122A
  | .readDirEntry => 0x122B
  | .deleteFile _ => 0x122C
  | .mkdir _ => 0x122D
  | .rmdir _ => 0x122E
  | .readDirEntryV2 => 0x122F
  | .statFile _ => 0x1230
  | .getDirSize _ => 0x1231
  | .readDir => 0x1232
  | .unknown op => op

/-- The 14 bytes behind the opcode, with zeros for the padding. -/
def encodeData : NetisoCmd → Bytes
  | .readFileCritical offset numBytes | .readFile offset numBytes =>
      big 2 0 ++ big 4 numBytes.toNat ++ big 8 offset.toNat
  | .readCd2048Critical startSector sectorCount =>
      big 2 0 ++ big 4 startSector.toNat ++ big 4 sectorCount.toNat ++ big 4 0
  | .writeFile numBytes => big 2 0 ++ big 4 numBytes.toNat ++ big 8 0
  | .openFile len | .createFile len | .deleteFile len | .statFile len | .openDir len
  | .getDirSize len | .mkdir len | .rmdir len => big 2 len.toNat ++ List.replicate 12 0
  | .readDirEntry | .readDirEntryV2 | .readDir | .unknown _ => List.replicate 14 0

/-- {lit}`netiso_cmd`. -/
def encodeCmd (cmd : NetisoCmd) : Bytes :=
  big 2 (opcode cmd).toNat ++ encodeData cmd

@[simp]
theorem length_encodeData (cmd : NetisoCmd) : (encodeData cmd).length = 14 := by
  cases cmd <;> simp [encodeData]

/-- {lit}`sizeof(netiso_cmd)`. -/
@[simp]
theorem length_encodeCmd (cmd : NetisoCmd) : (encodeCmd cmd).length = 16 := by
  simp [encodeCmd]

/-! ## The switch of the client thread -/

/-- A big-endian field of a packed structure. -/
def field (cmd : Bytes) (off width : Nat) : Nat := ofBig (window cmd off width)

/-- The command that the handlers see in 16 bytes: the opcode chooses the structure, and the
structure tells where its fields are. -/
def decodeCmd (cmd : Bytes) : NetisoCmd :=
  let op := UInt16.ofNat (field cmd 0 2)
  let len := UInt16.ofNat (field cmd 2 2)
  let numBytes := UInt32.ofNat (field cmd 4 4)
  let offset := UInt64.ofNat (field cmd 8 8)
  if op = 0x1225 then .readFileCritical offset numBytes
  else if op = 0x1227 then .readFile offset numBytes
  else if op = 0x1226 then .readCd2048Critical numBytes (UInt32.ofNat (field cmd 8 4))
  else if op = 0x1229 then .writeFile numBytes
  else if op = 0x122B then .readDirEntry
  else if op = 0x122F then .readDirEntryV2
  else if op = 0x1230 then .statFile len
  else if op = 0x1224 then .openFile len
  else if op = 0x1228 then .createFile len
  else if op = 0x122C then .deleteFile len
  else if op = 0x122A then .openDir len
  else if op = 0x1232 then .readDir
  else if op = 0x1231 then .getDirSize len
  else if op = 0x122D then .mkdir len
  else if op = 0x122E then .rmdir len
  else .unknown op

/-- The command is one of the protocol. -/
def IsKnown : NetisoCmd → Prop
  | .unknown _ => False
  | _ => True

/-- A field behind others. -/
theorem field_append (front cmd : Bytes) (off width : Nat) :
    field (front ++ cmd) (front.length + off) width = field cmd off width := by
  rw [field, window_append_right (by omega), Nat.add_sub_cancel_left, field]

/-- The first field of a structure. -/
theorem field_head (width n : Nat) (rest : Bytes) :
    field (big width n ++ rest) 0 width = n % 256 ^ width := by
  have hfirst : window (big width n ++ rest) 0 width = big width n := by
    simp [window, List.take_left']
  rw [field, hfirst, ofBig_big]

/-- A field of a structure behind its first one. -/
theorem field_behind (width n : Nat) (rest : Bytes) (off w : Nat) :
    field (big width n ++ rest) (width + off) w = field rest off w := by
  have h := field_append (big width n) rest off w
  rwa [length_big] at h

/-- The server reads the command that was sent. -/
theorem decodeCmd_encodeCmd {cmd : NetisoCmd} (h : IsKnown cmd) :
    decodeCmd (encodeCmd cmd) = cmd := by
  have hop : UInt16.ofNat (field (encodeCmd cmd) 0 2) = opcode cmd := by
    rw [encodeCmd, field_head]
    simp
  have hfield : ∀ off width, field (encodeCmd cmd) (2 + off) width =
      field (encodeData cmd) off width := field_behind 2 (opcode cmd).toNat (encodeData cmd)
  -- the fields of a structure with two bytes of padding
  have hfirst : ∀ n rest, field (big 2 0 ++ (big 4 n ++ rest)) 2 4 = n % 256 ^ 4 := by
    intro n rest
    rw [field_behind 2 0 _ 0, field_head]
  have hsecond : ∀ n rest w, field (big 2 0 ++ (big 4 n ++ rest)) 6 w = field rest 0 w := by
    intro n rest w
    rw [field_behind 2 0 _ 4, field_behind 4 n _ 0]
  unfold decodeCmd
  rw [hop, hfield 0 2, hfield 2 4, hfield 6 8, hfield 6 4]
  cases cmd with
  | unknown op => exact h.elim
  | readFileCritical offset numBytes | readFile offset numBytes =>
      have hoffset : field (big 8 offset.toNat) 0 8 = offset.toNat % 256 ^ 8 := by
        simpa using field_head 8 offset.toNat []
      simp [opcode, encodeData, hfirst, hsecond, hoffset]
  | readCd2048Critical startSector sectorCount =>
      simp [opcode, encodeData, hfirst, hsecond, field_head]
  | writeFile numBytes => simp [opcode, encodeData, hfirst]
  | readDirEntry | readDirEntryV2 | readDir => simp [opcode]
  | openFile len | createFile len | deleteFile len | statFile len | openDir len
  | getDirSize len | mkdir len | rmdir len => simp [opcode, encodeData, field_head]

/-! ## Requests -/

/-- The bytes that belong behind a command. -/
def payloadLength : NetisoCmd → Nat
  | .openFile len | .createFile len | .deleteFile len | .statFile len | .openDir len
  | .getDirSize len | .mkdir len | .rmdir len => len.toNat
  | .writeFile numBytes => numBytes.toNat
  | _ => 0

/-- A command of the protocol with the path or the data behind it. -/
structure Request where
  cmd : NetisoCmd
  known : IsKnown cmd
  payload : Bytes
  length_payload : payload.length = payloadLength cmd

/-- What a console sends for a request. -/
def Request.encode (r : Request) : Bytes := encodeCmd r.cmd ++ r.payload

/-- What a console sends for a list of requests. -/
def encodeRequests (rs : List Request) : Bytes := rs.flatMap Request.encode

@[simp]
theorem encodeRequests_nil : encodeRequests [] = [] := rfl

@[simp]
theorem encodeRequests_cons (r : Request) (rs : List Request) :
    encodeRequests (r :: rs) = r.encode ++ encodeRequests rs := rfl

end Ps3Netsrv.Wire
