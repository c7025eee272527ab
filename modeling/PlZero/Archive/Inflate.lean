namespace PlZero.Archive.Inflate

abbrev Bits := List Bool

def bitsOfByte (b : UInt8) : Bits :=
  (List.range 8).map fun i => b.toNat.testBit i

def bitsOfBytes (bytes : List UInt8) : Bits :=
  bytes.flatMap bitsOfByte

def take : Nat → Bits → Option (Nat × Bits)
  | 0, bits => some (0, bits)
  | _ + 1, [] => none
  | width + 1, bit :: bits =>
      (take width bits).map fun (high, bits) => (bit.toNat + 2 * high, bits)

structure Code where
  counts : List Nat
  symbols : Array Nat

def maxLength : Nat := 15

def Code.ofLengths (lengths : List Nat) : Code :=
  let wordLengths := (List.range maxLength).map (· + 1)
  { counts := wordLengths.map fun n => lengths.count n
    symbols := (wordLengths.flatMap fun n =>
      (lengths.zipIdx.filter (·.1 == n)).map (·.2)).toArray }

def Code.coverage (c : Code) : Nat :=
  c.counts.foldl (fun sum count => 2 * sum + count) 0

-- Does every bit sequence begin with exactly one code word? Codes without a code word, and with one of a
-- single bit, are allowed as well.
def Code.isComplete (c : Code) : Bool :=
  c.coverage == Nat.pow 2 maxLength || c.symbols.isEmpty ||
    (c.symbols.size == 1 && c.counts.head? == some 1)

-- Reads a code word: among those of each length, `first` is the lowest and `index` the place of its symbol.
def Code.readWord (symbols : Array Nat) : List Nat → Nat → Nat → Nat → Bits → Option (Nat × Bits)
  | [], _, _, _, _ => none
  | _, _, _, _, [] => none
  | count :: counts, word, first, index, bit :: bits =>
      let word := word + bit.toNat
      if word < first + count then (symbols[index + (word - first)]?).map (·, bits)
      else readWord symbols counts (2 * word) (2 * (first + count)) (index + count) bits

def Code.read (c : Code) (bits : Bits) : Option (Nat × Bits) :=
  readWord c.symbols c.counts 0 0 0 bits

structure Codes where
  literals : Code
  distances : Code

def fixedCodes : Codes :=
  { literals := .ofLengths (List.replicate 144 8 ++ List.replicate 112 9 ++ List.replicate 24 7
      ++ List.replicate 8 8)
    distances := .ofLengths (List.replicate 32 5) }

def endOfBlock : Nat := 256

def lengthTable : Array (Nat × Nat) := #[
  (3, 0), (4, 0), (5, 0), (6, 0), (7, 0), (8, 0), (9, 0), (10, 0), (11, 1), (13, 1), (15, 1), (17, 1),
  (19, 2), (23, 2), (27, 2), (31, 2), (35, 3), (43, 3), (51, 3), (59, 3), (67, 4), (83, 4), (99, 4),
  (115, 4), (131, 5), (163, 5), (195, 5), (227, 5), (258, 0)]

def distanceTable : Array (Nat × Nat) := #[
  (1, 0), (2, 0), (3, 0), (4, 0), (5, 1), (7, 1), (9, 2), (13, 2), (17, 3), (25, 3), (33, 4), (49, 4),
  (65, 5), (97, 5), (129, 6), (193, 6), (257, 7), (385, 7), (513, 8), (769, 8), (1025, 9), (1537, 9),
  (2049, 10), (3073, 10), (4097, 11), (6145, 11), (8193, 12), (12289, 12), (16385, 13), (24577, 13)]

def readExtra (table : Array (Nat × Nat)) (symbol : Nat) (bits : Bits) : Option (Nat × Bits) := do
  let (least, width) ← table[symbol]?
  let (extra, bits) ← take width bits
  return (least + extra, bits)

def copy (distance : Nat) : Nat → Array UInt8 → Array UInt8
  | 0, out => out
  | n + 1, out => copy distance n (out.push (out.getD (out.size - distance) 0))

-- Reads the symbols of a block up to its end. Every symbol takes a bit, so there are no more of them than
-- bits.
def readSymbols (codes : Codes) : Nat → Bits → Array UInt8 → Option (Bits × Array UInt8)
  | 0, _, _ => none
  | n + 1, bits, out => do
      let (symbol, bits) ← codes.literals.read bits
      if symbol < endOfBlock then readSymbols codes n bits (out.push (UInt8.ofNat symbol))
      else if symbol = endOfBlock then return (bits, out)
      else
        let (length, bits) ← readExtra lengthTable (symbol - endOfBlock - 1) bits
        let (symbol, bits) ← codes.distances.read bits
        let (distance, bits) ← readExtra distanceTable symbol bits
        if out.size < distance then none else readSymbols codes n bits (copy distance length out)

def lengthOrder : List Nat :=
  [16, 17, 18, 0, 8, 7, 9, 6, 10, 5, 11, 4, 12, 3, 13, 2, 14, 1, 15]

def readTriples : Nat → Bits → Option (List Nat × Bits)
  | 0, bits => some ([], bits)
  | n + 1, bits => do
      let (first, bits) ← take 3 bits
      let (rest, bits) ← readTriples n bits
      return (first :: rest, bits)

-- Reads code lengths until there are `total`; some symbols repeat a length. The lengths so far are given
-- last first. Every symbol adds a length, so `n` symbols are enough if `total` are.
def readLengths (code : Code) (total : Nat) : Nat → List Nat → Bits → Option (List Nat × Bits)
  | 0, lengths, bits => if lengths.length = total then some (lengths.reverse, bits) else none
  | n + 1, lengths, bits =>
      if lengths.length = total then some (lengths.reverse, bits)
      else do
        let (symbol, bits) ← code.read bits
        if symbol < 16 then readLengths code total n (symbol :: lengths) bits
        else
          let (value, least, width) ←
            match symbol with
            | 16 => lengths.head?.map fun last => (last, 3, 2)
            | 17 => some (0, 3, 3)
            | _ => some (0, 11, 7)
          let (extra, bits) ← take width bits
          let times := least + extra
          if total < lengths.length + times then none
          else readLengths code total n (List.replicate times value ++ lengths) bits

def readCodes (bits : Bits) : Option (Codes × Bits) := do
  let (literals, bits) ← take 5 bits
  let (distances, bits) ← take 5 bits
  let (triples, bits) ← take 4 bits
  let literals := literals + 257
  let distances := distances + 1
  if 286 < literals ∨ 30 < distances then none
  let (widths, bits) ← readTriples (triples + 4) bits
  let lengthCode := Code.ofLengths ((List.range 19).map fun s => ((lengthOrder.zip widths).lookup s).getD 0)
  if !lengthCode.isComplete then none
  let total := literals + distances
  let (lengths, bits) ← readLengths lengthCode total total [] bits
  let codes : Codes := ⟨.ofLengths (lengths.take literals), .ofLengths (lengths.drop literals)⟩
  if codes.literals.isComplete && codes.distances.isComplete then some (codes, bits) else none

def readBytes : Nat → Bits → Array UInt8 → Option (Bits × Array UInt8)
  | 0, bits, out => some (bits, out)
  | n + 1, bits, out => do
      let (b, bits) ← take 8 bits
      readBytes n bits (out.push (UInt8.ofNat b))

def readStored (bits : Bits) (out : Array UInt8) : Option (Bits × Array UInt8) := do
  let bits := bits.drop (bits.length % 8)
  let (length, bits) ← take 16 bits
  let (inverted, bits) ← take 16 bits
  if length + inverted = 0xFFFF then readBytes length bits out else none

def readBlock (kind : Nat) (bits : Bits) (out : Array UInt8) : Option (Bits × Array UInt8) :=
  match kind with
  | 0 => readStored bits out
  | 1 => readSymbols fixedCodes bits.length bits out
  | 2 => do
      let (codes, bits) ← readCodes bits
      readSymbols codes bits.length bits out
  | _ => none

-- Reads blocks up to the last one. Every block takes a bit.
def readBlocks : Nat → Bits → Array UInt8 → Option (Array UInt8)
  | 0, _, _ => none
  | n + 1, bits, out => do
      let (last, bits) ← take 1 bits
      let (kind, bits) ← take 2 bits
      let (bits, out) ← readBlock kind bits out
      if last = 1 then some out else readBlocks n bits out

end Inflate

def inflate (bytes : List UInt8) : Option (List UInt8) :=
  let bits := Inflate.bitsOfBytes bytes
  (Inflate.readBlocks bits.length bits #[]).map Array.toList

end PlZero.Archive
