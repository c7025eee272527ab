import PlZero.Archive.Field

namespace PlZero.Archive

structure Header where
  name : List UInt8
  flags : Nat
  method : Nat
  checksum : Nat
  compressedSize : Nat
  size : Nat
  offset : Int
deriving DecidableEq, Repr

structure Directory where
  entries : Nat
  size : Nat
  offset : Nat
deriving DecidableEq, Repr

def directorySignature : Nat := 0x02014b50

def directoryHeaderSize : Nat := 46

def endSignature : Nat := 0x06054b50

def endSize : Nat := 22

def locatorSignature : Nat := 0x07064b50

def locatorSize : Nat := 20

def end64Signature : Nat := 0x06064b50

def end64Size : Nat := 56

def wideTag : Nat := 1

def full16 : Nat := 0xFFFF

def full32 : Nat := 0xFFFFFFFF

structure Sizes where
  size : Nat
  compressedSize : Nat
  offset : Nat
  needsSize : Bool
  needsCompressedSize : Bool
  needsOffset : Bool
deriving DecidableEq, Repr

def takeWide (needed : Bool) (old : Nat) (bytes : List UInt8) : Option (Nat × List UInt8) :=
  if needed then
    if bytes.length < 8 then none else some (numberAt bytes 0 8, bytes.drop 8)
  else some (old, bytes)

def Sizes.fill (s : Sizes) (bytes : List UInt8) : Option Sizes := do
  let (size, bytes) ← takeWide s.needsSize s.size bytes
  let (compressedSize, bytes) ← takeWide s.needsCompressedSize s.compressedSize bytes
  let (offset, _) ← takeWide s.needsOffset s.offset bytes
  return ⟨size, compressedSize, offset, false, false, false⟩

def readExtras : Nat → Sizes → List UInt8 → Option Sizes
  | 0, s, _ => some s
  | n + 1, s, bytes =>
      if bytes.length < 4 then some s
      else
        let tag := numberAt bytes 0 2
        let length := numberAt bytes 2 2
        let bytes := bytes.drop 4
        if bytes.length < length then some s
        else if tag = wideTag then do
          let s ← s.fill (bytes.take length)
          readExtras n s (bytes.drop length)
        else readExtras n s (bytes.drop length)

inductive HeaderRead where
  | entry (header : Header) (rest : List UInt8)
  | other
  | nothing

def readHeader (bytes : List UInt8) : HeaderRead :=
  if bytes.isEmpty then .nothing
  else
    match slice? bytes 0 directoryHeaderSize with
    | none => .other
    | some head =>
        if numberAt head 0 4 ≠ directorySignature then .other
        else
          let rest := bytes.drop directoryHeaderSize
          let nameLength := numberAt head 28 2
          let extraLength := numberAt head 30 2
          let commentLength := numberAt head 32 2
          let total := nameLength + extraLength + commentLength
          match slice? rest 0 total with
          | none => if rest.isEmpty then .nothing else .other
          | some tail =>
              let compressedSize := numberAt head 20 4
              let size := numberAt head 24 4
              let offset := numberAt head 42 4
              let sizes : Sizes := ⟨size, compressedSize, offset, size == full32,
                compressedSize == full32, offset == full32⟩
              let extra := (tail.drop nameLength).take extraLength
              match readExtras extra.length sizes extra with
              | none => .other
              | some sizes =>
                  if sizes.needsCompressedSize || sizes.needsOffset then .other
                  else
                    .entry
                      { name := tail.take nameLength
                        flags := numberAt head 8 2
                        method := numberAt head 10 2
                        checksum := numberAt head 16 4
                        compressedSize := sizes.compressedSize
                        size := sizes.size
                        offset := (Int64.ofNat sizes.offset).toInt }
                      (rest.drop total)

-- Reads entries as long as there are some. An entry takes bytes, so `n` of them are enough if there are `n`
-- bytes. There is no answer if the bytes end where an entry should begin.
def readHeaders : Nat → List UInt8 → Option (List Header)
  | 0, _ => none
  | n + 1, bytes =>
      match readHeader bytes with
      | .nothing => none
      | .other => some []
      | .entry header rest => (readHeaders n rest).map (header :: ·)

def findEnd : Nat → List UInt8 → Option (Nat × List UInt8)
  | _, [] => none
  | before, b :: bytes =>
      match findEnd (before + 1) bytes with
      | some found => some found
      | none =>
          if endSize ≤ (b :: bytes).length ∧ numberAt (b :: bytes) 0 4 = endSignature
          then some (before, b :: bytes) else none

def searchLength : Nat := 65 * 1024

def sliceAt? (bytes : List UInt8) (offset : Int) (length : Nat) : Option (List UInt8) :=
  if 0 ≤ offset then slice? bytes offset.toNat length else none

def findWideEnd (bytes : List UInt8) (endOffset : Nat) : Option Int :=
  if endOffset < locatorSize then none
  else
    let locator := bytes.drop (endOffset - locatorSize)
    if numberAt locator 0 4 = locatorSignature ∧ numberAt locator 4 4 = 0 ∧ numberAt locator 16 4 = 1
    then
      let place := (Int64.ofNat (numberAt locator 8 8)).toInt
      if 0 ≤ place then some place else none
    else none

def readEnd (bytes : List UInt8) : Option (Int × Directory) := do
  let skipped := bytes.length - searchLength
  let (endOffset, record) ← findEnd skipped (bytes.drop skipped)
  if record.length < endSize + numberAt record 20 2 then none
  let narrow : Directory := ⟨numberAt record 10 2, numberAt record 12 4, numberAt record 16 4⟩
  if narrow.entries = full16 ∨ narrow.size = full16 ∨ narrow.offset = full32 then
    match findWideEnd bytes endOffset with
    | none => return (endOffset, narrow)
    | some place =>
        let wide ← sliceAt? bytes place end64Size
        if numberAt wide 0 4 = end64Signature then
          return (place, ⟨numberAt wide 32 8, numberAt wide 40 8, numberAt wide 48 8⟩)
        else none
  else return (endOffset, narrow)

def offsetLimit : Nat := Nat.pow 2 63

-- All entries in the order of the directory, with their offsets in the bytes. The archive begins as far
-- before the directory as the directory says it does, unless there is an entry where the directory would
-- begin without that.
def readDirectory (bytes : List UInt8) : Option (List Header) := do
  let (endOffset, directory) ← readEnd bytes
  if offsetLimit ≤ directory.size ∨ offsetLimit ≤ directory.offset then none
  let base := endOffset - directory.size - directory.offset
  let start := base + directory.offset
  if start < 0 ∨ bytes.length ≤ start then none
  let base :=
    if 0 < base then
      match readHeader (bytes.drop directory.offset) with
      | .entry _ _ => 0
      | _ => base
    else base
  let headers ← readHeaders (bytes.length + 1) (bytes.drop (base + directory.offset).toNat)
  if headers.length % 65536 = directory.entries % 65536 then
    return headers.map fun h => { h with offset := h.offset + base }
  else none

end PlZero.Archive
