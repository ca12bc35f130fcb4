/-!
# Inflating

A deflated stream is a sequence of blocks over a sequence of bits, the low bit of each
byte first.  A block is stored as it is, or written with two canonical prefix codes: one
for literals and lengths, one for distances.

Two faults have to be told apart: the stream ends before its last block does, or the bits
that are there have no meaning.  Every reading step therefore either returns a value with
the position behind it, or one of the two faults.  Each turn of the two loops consumes at
least one bit, so the number of bits left bounds the number of turns.
-/

namespace ComHeaders.Gzip

/-- What can be wrong with a deflated stream. -/
inductive InflateError where
  | truncated
  | corrupt
  deriving DecidableEq, Repr

/-- A value read at some bit position, with the position behind it. -/
abbrev BitReader (α : Type) := StateT Nat (Except InflateError) α

/-- The bit at a position. -/
def readBit (data : ByteArray) : BitReader Nat := fun pos =>
  if h : pos / 8 < data.size then
    .ok ((data[pos / 8].toNat >>> (pos % 8)) % 2, pos + 1)
  else .error .truncated

/-- A number of the given count of bits, the lowest one first. -/
def readBits (data : ByteArray) : Nat → BitReader Nat
  | 0 => pure 0
  | n + 1 => do
    let low ← readBit data
    let high ← readBits data n
    return low + 2 * high

/-! ## Canonical prefix codes -/

/-- A canonical code: how many codewords there are of each length from one on, and the
symbols in the order of their codewords. -/
structure Code where
  counts : List Nat
  symbols : Array Nat

/-- The code given by the length of each symbol's codeword; a length of zero is none. -/
def Code.ofLengths (maxLength : Nat) (lengths : List Nat) : Code :=
  let numbered := lengths.zipIdx
  let ofLength := fun (l : Nat) => (numbered.filter fun p => p.1 = l).map (·.2)
  let byLength := (List.range maxLength).map fun (l : Nat) => ofLength (l + 1)
  ⟨byLength.map List.length, byLength.flatten.toArray⟩

/-- How many codewords of the greatest length remain unused: negative for a code with too
many codewords, zero for a complete one. -/
def Code.unused (c : Code) : Int :=
  c.counts.foldl (fun (left : Int) (n : Nat) => 2 * left - n) 1

/-- The length of the longest codeword. -/
def Code.longest (c : Code) : Nat :=
  (c.counts.zipIdx.filter fun p => p.1 ≠ 0).foldl (fun (m : Nat) (p : Nat × Nat) => max m (p.2 + 1)) 0

/-- Reads a codeword bit by bit.  `first` is the first codeword of the current length,
`index` the number of symbols with shorter codewords. -/
def decodeFrom (data : ByteArray) (symbols : Array Nat) (code first index : Nat) :
    List Nat → BitReader Nat
  | [] => throw .corrupt
  | count :: counts => do
    let b ← readBit data
    let code := code + b
    if code < first + count then
      match symbols[index + (code - first)]? with
      | some s => return s
      | none => throw .corrupt
    else decodeFrom data symbols (2 * code) (2 * (first + count)) (index + count) counts

/-- Reads a symbol.  Bits that are no codeword are noticed after the longest codeword. -/
def Code.decode (c : Code) (data : ByteArray) : BitReader Nat :=
  decodeFrom data c.symbols 0 0 0 (c.counts.take (max 1 c.longest))

/-- Codes for literals and lengths, and for distances, may lack codewords only if there is
at most one of them, of one bit. -/
def Code.admissible (c : Code) : Bool :=
  c.unused = 0 || (0 < c.unused && c.longest ≤ 1)

/-! ## Lengths and distances -/

/-- Base and extra bits of the length symbols from 257 on. -/
def lengthTable : Array (Nat × Nat) := #[
  (3, 0), (4, 0), (5, 0), (6, 0), (7, 0), (8, 0), (9, 0), (10, 0), (11, 1), (13, 1), (15, 1),
  (17, 1), (19, 2), (23, 2), (27, 2), (31, 2), (35, 3), (43, 3), (51, 3), (59, 3), (67, 4),
  (83, 4), (99, 4), (115, 4), (131, 5), (163, 5), (195, 5), (227, 5), (258, 0)]

/-- Base and extra bits of the distance symbols. -/
def distanceTable : Array (Nat × Nat) := #[
  (1, 0), (2, 0), (3, 0), (4, 0), (5, 1), (7, 1), (9, 2), (13, 2), (17, 3), (25, 3), (33, 4),
  (49, 4), (65, 5), (97, 5), (129, 6), (193, 6), (257, 7), (385, 7), (513, 8), (769, 8),
  (1025, 9), (1537, 9), (2049, 10), (3073, 10), (4097, 11), (6145, 11), (8193, 12),
  (12289, 12), (16385, 13), (24577, 13)]

/-- Reads the extra bits of a symbol of one of the two tables. -/
def readExtra (data : ByteArray) (table : Array (Nat × Nat)) (symbol : Nat) : BitReader Nat :=
  match table[symbol]? with
  | some (base, extra) => do return base + (← readBits data extra)
  | none => throw .corrupt

/-- Repeats `length` bytes from `distance` bytes back; the copy may overlap itself. -/
def copyBack (distance : Nat) : Nat → ByteArray → ByteArray
  | 0, out => out
  | n + 1, out =>
    let b := if h : out.size - distance < out.size then out[out.size - distance] else 0
    copyBack distance n (out.push b)

/-! ## Blocks -/

/-- Reads symbols up to the end mark. -/
def inflateSymbols (data : ByteArray) (literals distances : Code) :
    Nat → ByteArray → BitReader ByteArray
  | 0, _ => throw .truncated
  | fuel + 1, out => do
    let s ← literals.decode data
    if s < 256 then inflateSymbols data literals distances fuel (out.push s.toUInt8)
    else if s = 256 then return out
    else
      let length ← readExtra data lengthTable (s - 257)
      let d ← distances.decode data
      let distance ← readExtra data distanceTable d
      if out.size < distance then throw .corrupt
      else inflateSymbols data literals distances fuel (copyBack distance length out)

/-- Copies bytes from the stream. -/
def copyStored (data : ByteArray) : Nat → ByteArray → BitReader ByteArray
  | 0, out => pure out
  | n + 1, out => do copyStored data n (out.push (← readBits data 8).toUInt8)

/-- A stored block: its length, the complement of its length, its bytes. -/
def inflateStored (data : ByteArray) (out : ByteArray) : BitReader ByteArray := do
  modify fun pos => (pos + 7) / 8 * 8
  let length ← readBits data 16
  let complement ← readBits data 16
  if length + complement ≠ 0xFFFF then throw .corrupt
  copyStored data length out

/-- The fixed code for literals and lengths. -/
def fixedLiterals : Code := Code.ofLengths 15
  (List.replicate 144 8 ++ List.replicate 112 9 ++ List.replicate 24 7 ++ List.replicate 8 8)

/-- The fixed code for distances. -/
def fixedDistances : Code := Code.ofLengths 15 (List.replicate 32 5)

/-- The order in which the lengths of the code for code lengths are written. -/
def lengthOrder : List Nat := [16, 17, 18, 0, 8, 7, 9, 6, 10, 5, 11, 4, 12, 3, 13, 2, 14, 1, 15]

/-- Reads code lengths until there are `total` of them; `acc` has the latest first. -/
def readLengths (data : ByteArray) (code : Code) (total : Nat) :
    Nat → List Nat → BitReader (List Nat)
  | 0, _ => throw .corrupt
  | fuel + 1, acc => do
    if total ≤ acc.length then return acc.reverse
    let s ← code.decode data
    if s < 16 then readLengths data code total fuel (s :: acc)
    else
      let (length, count) ←
        if s = 16 then do
          let n ← readBits data 2
          match acc with
          | l :: _ => pure (l, n + 3)
          | [] => throw .corrupt
        else if s = 17 then do pure (0, (← readBits data 3) + 3)
        else do pure (0, (← readBits data 7) + 11)
      if total < acc.length + count then throw .corrupt
      readLengths data code total fuel (List.replicate count length ++ acc)

/-- A block that brings its own codes. -/
def readCodes (data : ByteArray) : BitReader (Code × Code) := do
  let literalCount := (← readBits data 5) + 257
  let distanceCount := (← readBits data 5) + 1
  let lengthCount := (← readBits data 4) + 4
  if 286 < literalCount || 30 < distanceCount then throw .corrupt
  let written ← (lengthOrder.take lengthCount).mapM fun s => do
    return (s, ← readBits data 3)
  let code := Code.ofLengths 7 ((List.range 19).map fun s => (written.lookup s).getD 0)
  let total := literalCount + distanceCount
  if code.longest = 0 then
    -- With no codeword at all every bit counts as a length of zero, and the end mark has none.
    let _ ← readBits data total
    throw .corrupt
  if code.unused ≠ 0 then throw .corrupt
  let lengths ← readLengths data code total (total + 1) []
  let literals := Code.ofLengths 15 (lengths.take literalCount)
  let distances := Code.ofLengths 15 (lengths.drop literalCount)
  if lengths.getD 256 0 = 0 then throw .corrupt
  if !literals.admissible then throw .corrupt
  if !distances.admissible then throw .corrupt
  return (literals, distances)

/-- Reads blocks up to the last one. -/
def inflateBlocks (data : ByteArray) : Nat → ByteArray → BitReader ByteArray
  | 0, _ => throw .truncated
  | fuel + 1, out => do
    let last ← readBit data
    let kind ← readBits data 2
    let turns := 8 * data.size + 1
    let out ← match kind with
      | 0 => inflateStored data out
      | 1 => inflateSymbols data fixedLiterals fixedDistances turns out
      | 2 => do
        let (literals, distances) ← readCodes data
        inflateSymbols data literals distances turns out
      | _ => throw .corrupt
    if last = 1 then return out else inflateBlocks data fuel out

/-- Inflates the stream that starts at a byte position.  Returns the bytes and the position
of the first byte behind the stream. -/
def inflate (data : ByteArray) (start : Nat) : Except InflateError (ByteArray × Nat) :=
  match inflateBlocks data (8 * data.size + 1) ByteArray.empty (8 * start) with
  | .ok (out, pos) => .ok (out, (pos + 7) / 8)
  | .error e => .error e

end ComHeaders.Gzip
