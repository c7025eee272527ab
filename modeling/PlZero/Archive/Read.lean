import PlZero.Archive.Checksum
import PlZero.Archive.Directory
import PlZero.Archive.Inflate

namespace PlZero.Archive

inductive OpenError where
  | offBegin
  | offEnd
  | noEntry
  | unknownMethod
deriving DecidableEq, Repr

def OpenError.message : OpenError → String
  | offBegin => "bytes.Reader.ReadAt: negative offset"
  | offEnd => "EOF"
  | noEntry => "zip: not a valid zip file"
  | unknownMethod => "zip: unsupported compression algorithm"

inductive ReadError where
  | unopened (error : OpenError)
  | damaged
deriving DecidableEq, Repr

def entrySignature : Nat := 0x04034b50

def entryHeaderSize : Nat := 30

def descriptorSignature : Nat := 0x08074b50

inductive Method where
  | stored
  | deflated
deriving DecidableEq, Repr

def Method.ofCode? : Nat → Option Method
  | 0 => some stored
  | 8 => some deflated
  | _ => none

def Method.unpack : Method → List UInt8 → Option (List UInt8)
  | stored, bytes => some bytes
  | deflated, bytes => inflate bytes

def contentsOffset (bytes : List UInt8) (h : Header) : Except OpenError Nat :=
  if h.offset < 0 then .error .offBegin
  else
    match slice? bytes h.offset.toNat entryHeaderSize with
    | none => .error .offEnd
    | some record =>
        if numberAt record 0 4 = entrySignature then
          .ok (entryHeaderSize + numberAt record 26 2 + numberAt record 28 2)
        else .error .noEntry

def descriptorChecksum (bytes : List UInt8) : Option Nat := do
  let first ← slice? bytes 0 4
  if number first = descriptorSignature then
    let _ ← slice? bytes 0 16
    return numberAt bytes 4 4
  else
    let _ ← slice? bytes 0 12
    return number first

def Header.hasDescriptor (h : Header) : Bool :=
  h.flags.testBit 3

def Header.describes (h : Header) (contents after : List UInt8) : Bool :=
  contents.length == h.size &&
    if h.hasDescriptor then
      descriptorChecksum after == some h.checksum && (Archive.checksum contents).toNat == h.checksum
    else h.checksum == 0 || (Archive.checksum contents).toNat == h.checksum

def readContents (bytes : List UInt8) (h : Header) : Except ReadError (List UInt8) :=
  match contentsOffset bytes h with
  | .error e => .error (.unopened e)
  | .ok skip =>
      match Method.ofCode? h.method with
      | none => .error (.unopened .unknownMethod)
      | some method =>
          let packed := bytes.drop (h.offset.toNat + skip)
          let length := if h.compressedSize < offsetLimit then h.compressedSize else 0
          match method.unpack (packed.take length) with
          | none => .error .damaged
          | some contents =>
              if h.describes contents (packed.drop length) then .ok contents else .error .damaged

def findEntry? (headers : List Header) (name : List UInt8) : Option Header :=
  headers.reverse.find? (·.name == name)

def readAll (bytes : List UInt8) : Option (List (List UInt8 × List UInt8)) := do
  let headers ← readDirectory bytes
  headers.mapM fun h =>
    match readContents bytes h with
    | .ok contents => some (h.name, contents)
    | .error _ => none

end PlZero.Archive
