import BufferPool.Bytes

/-! # CRC-32

The checksum of log records: the reflected cyclic redundancy check with the
polynomial `0x04C11DB7`, started and finished with all bits inverted.
-/

namespace BufferPool

namespace Crc32

/-- The polynomial with its bits in reflected order. -/
def polynomial : UInt32 := 0xEDB88320

/-- Divides one bit out of the register. -/
def shift (c : UInt32) : UInt32 :=
  if c &&& 1 = 1 then (c >>> 1) ^^^ polynomial else c >>> 1

def feed (c : UInt32) (b : UInt8) : UInt32 :=
  Nat.repeat shift 8 (c ^^^ b.toUInt32)

end Crc32

def crc32 (bs : Bytes) : UInt32 :=
  bs.foldl Crc32.feed 0xFFFFFFFF ^^^ 0xFFFFFFFF

example : crc32 [0x31, 0x32, 0x33, 0x34, 0x35, 0x36, 0x37, 0x38, 0x39] = 0xCBF43926 := by
  decide +kernel

end BufferPool
