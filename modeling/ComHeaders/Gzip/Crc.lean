/-!
# The checksum of a compressed member

The thirty-two bit cyclic redundancy code with the reversed polynomial `0xEDB88320`,
started and finished with all bits set.
-/

namespace ComHeaders.Gzip

/-- Shifts one bit out of the register. -/
def crcShift (r : UInt32) : UInt32 :=
  if r &&& 1 = 1 then (r >>> 1) ^^^ 0xEDB88320 else r >>> 1

/-- Takes one byte into the register. -/
def crcByte (r : UInt32) (b : UInt8) : UInt32 :=
  Nat.repeat crcShift 8 (r ^^^ b.toUInt32)

/-- The checksum of a byte sequence. -/
def crc (bytes : ByteArray) : UInt32 :=
  bytes.foldl crcByte 0xFFFFFFFF ^^^ 0xFFFFFFFF

end ComHeaders.Gzip
