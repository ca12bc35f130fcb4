import ComHeaders.Fault
import ComHeaders.Gzip.Crc
import ComHeaders.Gzip.Inflate

/-!
# Compressed files

A compressed file is a sequence of members.  Each has a header with optional fields, a
deflated stream, a checksum and a length.  Zeros may follow a member; anything else that
follows has to be another member.
-/

namespace ComHeaders.Gzip

/-- Whether bytes start like a compressed file. -/
def isCompressed (data : ByteArray) : Bool := data.data[0]? = some 0x1f && data.data[1]? = some 0x8b

/-- The byte at a position, as a number. -/
def byteAt (data : ByteArray) (pos : Nat) : Nat := (data.data[pos]?.getD 0).toNat

/-- The number that `count` bytes from a position on write, the lowest byte first. -/
def littleEndian (data : ByteArray) (pos : Nat) : Nat → Nat
  | 0 => 0
  | n + 1 => byteAt data pos + 256 * littleEndian data (pos + 1) n

/-- The position behind `count` bytes, which all have to be there. -/
def skip (data : ByteArray) (pos count : Nat) : Except Fault Nat :=
  if pos + count ≤ data.size then .ok (pos + count) else .error .truncatedStream

/-- The position behind the next zero byte, or the end of the data. -/
def behindZero (data : ByteArray) (pos : Nat) : Nat :=
  let text := (data.data.toList.drop pos).takeWhile (· ≠ 0)
  min (pos + text.length + 1) data.size

/-- The position behind the zero bytes from a position on. -/
def behindZeros (data : ByteArray) (pos : Nat) : Nat :=
  pos + ((data.data.toList.drop pos).takeWhile (· = 0)).length

/-- The position behind the header of the member at a position.  A header has a magic of two
bytes, a method and eight bits of flags, of which four announce optional fields. -/
def behindHeader (data : ByteArray) (pos : Nat) : Except Fault Nat := do
  if byteAt data pos ≠ 0x1f || byteAt data (pos + 1) ≠ 0x8b || data.size < pos + 2 then
    throw .badFrame
  let behind ← skip data pos 10
  let flags := byteAt data (pos + 3)
  if byteAt data (pos + 2) ≠ 8 then throw .badFrame
  let behind ←
    if flags.testBit 2 then do
      let p ← skip data behind 2
      skip data p (littleEndian data behind 2)
    else pure behind
  let behind := if flags.testBit 3 then behindZero data behind else behind
  let behind := if flags.testBit 4 then behindZero data behind else behind
  if flags.testBit 1 then skip data behind 2 else pure behind

/-- The contents of the member at a position and the position behind it and its padding. -/
def readMember (data : ByteArray) (pos : Nat) : Except Fault (ByteArray × Nat) := do
  let start ← behindHeader data pos
  match inflate data start with
  | .error .truncated => throw .truncatedStream
  | .error .corrupt => throw .corruptStream
  | .ok (out, stop) =>
    let behind ← skip data stop 8
    if littleEndian data stop 4 ≠ (crc out).toNat then throw .badFrame
    if littleEndian data (stop + 4) 4 ≠ out.size % 0x100000000 then throw .badFrame
    return (out, behindZeros data behind)

/-- The contents of all members from a position on, behind those of the earlier ones.  A
member is longer than its header's ten bytes, so there are no more than bytes. -/
def readMembers (data : ByteArray) : Nat → Nat → ByteArray → Except Fault ByteArray
  | 0, _, out => .ok out
  | fuel + 1, pos, out =>
    if data.size ≤ pos then .ok out
    else do
      let (contents, behind) ← readMember data pos
      readMembers data fuel behind (out ++ contents)

/-- The contents of a compressed file. -/
def decompress (data : ByteArray) : Except Fault ByteArray :=
  readMembers data (data.size + 1) 0 ByteArray.empty

end ComHeaders.Gzip
