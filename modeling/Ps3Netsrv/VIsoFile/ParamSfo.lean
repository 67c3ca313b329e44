import Ps3Netsrv.VIsoFile.Tree

/-!
# The title of a game

A virtual image in PS3 mode carries the product code of the game, which
{lit}`get_title_id` reads from {lit}`PS3_GAME/PARAM.SFO`.  {lit}`parse_param_sfo`
loads the file into a zeroed buffer that is 16 bytes longer and walks the key
table, adding up the sizes of the values it passes.

Main results:

- Definition {lit}`parseParamSfo`: the field of a file, with every read checked
  against the buffer.
- Definition {lit}`getTitleId`: the title of a directory.
-/

namespace Ps3Netsrv.VIso

/-- One byte of the buffer of {lit}`parse_param_sfo`. -/
def memAt (mem : Bytes) (k : Nat) : Except Fault Nat := byteAt mem k

/-- A 16-bit number of the buffer, least significant byte first. -/
def memWord (mem : Bytes) (k : Nat) : Except Fault Nat := do
  let lo ← memAt mem k
  let hi ← memAt mem (k + 1)
  return lo + hi * 256

/-- The C string at an offset of the buffer. -/
def memString (mem : Bytes) (k : Nat) : Bytes := (mem.drop k).takeWhile (· ≠ 0)

/-- The loop of {lit}`parse_param_sfo`: the value of the field, or none when the
keys end without it.  Each round moves {lit}`str` on by at least one.  The position of a
value is an {lit}`unsigned`, and that of an index entry an {lit}`int`, whose overflow is
undefined. -/
def parseFrom (mem : Bytes) (len : Nat) (name : Bytes) (fieldLen : Nat) :
    (rounds str pos indx : Nat) → Except Fault (Option Bytes)
  | 0, _, _, _ => .ok none
  | rounds + 1, str, pos, indx =>
      if len ≤ str then .ok none
      else do
        let c ← memAt mem str
        if c = 0 then return none
        else if memString mem str = name then
          if len ≤ pos then return none
          else return some ((memString mem pos).take fieldLen)
        else if 2 ^ 31 ≤ 0x1d + indx then throw .outOfBounds
        else
          let step ← memWord mem (0x1c + indx)
          parseFrom mem len name fieldLen rounds (str + (memString mem str).length + 1)
            (u32 (pos + step)) (indx + 16)

/-- The buffer of {lit}`parse_param_sfo` with the content of the file; {lit}`len + 16` is an
{lit}`unsigned`, and a size that wraps makes a buffer that {lit}`read_file` runs over. -/
def paramSfoBuffer (content : Bytes) : Except Fault Bytes :=
  let len := u32 content.length
  if u32 (len + 16) < len then .error .outOfBounds
  else .ok (content.take len ++ List.replicate 16 0)

/-- {lit}`parse_param_sfo` on a file of the given content, with at most {lit}`rounds` rounds of its
loop: the bytes {lit}`strncpy` stores before the padding. -/
def parseWithin (rounds : Nat) (content name : Bytes) (fieldLen : Nat) :
    Except Fault (Option Bytes) :=
  if fieldLen = 0 ∨ name = [] then .ok none
  else do
    let mem ← paramSfoBuffer content
    let str ← memWord mem 0x8
    let pos ← memWord mem 0xc
    parseFrom mem (u32 content.length) name fieldLen rounds str pos 0

/-- {lit}`parse_param_sfo`. -/
def parseParamSfo (content name : Bytes) (fieldLen : Nat) : Except Fault (Option Bytes) :=
  parseWithin (u32 content.length + 1) content name fieldLen

/-- {lit}`/PS3_GAME/PARAM.SFO`. -/
def paramSfoPath : Bytes :=
  [47, 80, 83, 51, 95, 71, 65, 77, 69, 47, 80, 65, 82, 65, 77, 46, 83, 70, 79]

/-- {lit}`TITLE_ID`. -/
def titleIdField : Bytes := [84, 73, 84, 76, 69, 95, 73, 68]

/-- The longest path {lit}`snprintf` leaves in {lit}`sfo_path`. -/
def maxSfoPath : Nat := 2048 - 2

/-- {lit}`get_title_id`: the ten bytes of the product code, none when it cannot be
found. -/
def getTitleId (os : Platform) (dir : Bytes) : Except Fault (Option Bytes) :=
  match os.content ((dir ++ paramSfoPath).take maxSfoPath) with
  | none => .ok none
  | some content => do
      let value ← parseParamSfo content titleIdField 10
      return value.map fun t => t ++ List.replicate (10 - t.length) 0

end Ps3Netsrv.VIso
