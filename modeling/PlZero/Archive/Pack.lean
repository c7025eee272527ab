import PlZero.Archive.Checksum
import PlZero.Archive.Directory
import PlZero.Archive.Read

namespace PlZero.Archive

structure Member where
  name : List UInt8
  contents : List UInt8
deriving DecidableEq, Repr

def version : Nat := 45

def Member.summary (m : Member) : List UInt8 :=
  field 2 version ++ field 2 0 ++ field 2 0 ++ field 4 0 ++ field 4 (checksum m.contents).toNat
    ++ field 4 full32 ++ field 4 full32 ++ field 2 m.name.length

def Member.wideSizes (m : Member) (more : List UInt8) : List UInt8 :=
  field 2 wideTag ++ field 2 (16 + more.length) ++ field 8 m.contents.length
    ++ field 8 m.contents.length ++ more

def Member.record (m : Member) : List UInt8 :=
  let extra := m.wideSizes []
  field 4 entrySignature ++ m.summary ++ field 2 extra.length ++ m.name ++ extra ++ m.contents

def Member.listed (m : Member) (offset : Nat) : List UInt8 :=
  let extra := m.wideSizes (field 8 offset)
  field 4 directorySignature ++ field 2 version ++ m.summary ++ field 2 extra.length ++ field 2 0
    ++ field 2 0 ++ field 2 0 ++ field 4 0 ++ field 4 full32 ++ m.name ++ extra

def listMembers : Nat → List Member → List UInt8
  | _, [] => []
  | offset, m :: members => m.listed offset ++ listMembers (offset + m.record.length) members

def endRecords (count size offset : Nat) : List UInt8 :=
  field 4 end64Signature ++ field 8 (end64Size - 12) ++ field 2 version ++ field 2 version
    ++ field 4 0 ++ field 4 0 ++ field 8 count ++ field 8 count ++ field 8 size ++ field 8 offset
    ++ field 4 locatorSignature ++ field 4 0 ++ field 8 (offset + size) ++ field 4 1
    ++ field 4 endSignature ++ field 2 0 ++ field 2 0 ++ field 2 full16 ++ field 2 full16
    ++ field 4 full32 ++ field 4 full32 ++ field 2 0

def pack (members : List Member) : List UInt8 :=
  let records := members.flatMap Member.record
  let directory := listMembers 0 members
  records ++ directory ++ endRecords members.length directory.length records.length

end PlZero.Archive
