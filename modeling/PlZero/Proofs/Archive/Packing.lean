import Mathlib.Data.List.Forall2
import PlZero.Archive.Pack

namespace PlZero.Archive

-- The bytes hold `part` from an offset on.
def At (bytes : List UInt8) (offset : Nat) (part : List UInt8) : Prop := part <+: bytes.drop offset

theorem at_self (bytes : List UInt8) : At bytes 0 bytes := List.prefix_rfl

theorem at_append {bytes : List UInt8} {offset : Nat} {a b : List UInt8} :
    At bytes offset (a ++ b) ↔ At bytes offset a ∧ At bytes (offset + a.length) b := by
  unfold At
  constructor
  · rintro ⟨rest, h⟩
    refine ⟨⟨b ++ rest, by rw [← h, List.append_assoc]⟩, rest, ?_⟩
    rw [← List.drop_drop, ← h, List.append_assoc, List.drop_left]
  · rintro ⟨⟨rest, h⟩, more, h'⟩
    rw [← List.drop_drop, ← h, List.drop_left] at h'
    exact ⟨more, by rw [← h, ← h', List.append_assoc]⟩

namespace At

variable {bytes part : List UInt8} {offset : Nat}

theorem take (h : At bytes offset part) : (bytes.drop offset).take part.length = part :=
  (List.prefix_iff_eq_take.mp h).symm

theorem slice? (h : At bytes offset part) : slice? bytes offset part.length = some part := by
  rw [Archive.slice?, h.take, if_pos rfl]

theorem numberAt {width n : Nat} (h : At bytes offset (field width n)) (hn : n < Nat.pow 256 width) :
    numberAt bytes offset width = n := by
  have htake := h.take
  rw [length_field] at htake
  rw [Archive.numberAt, htake, number_field hn]

end At

namespace Member

def head (m : Member) (extraLength : Nat) : List UInt8 :=
  field 4 directorySignature ++ field 2 version ++ m.summary ++ field 2 extraLength ++ field 2 0
    ++ field 2 0 ++ field 2 0 ++ field 4 0 ++ field 4 full32

theorem listed_eq (m : Member) (offset : Nat) :
    m.listed offset = m.head 28 ++ (m.name ++ m.wideSizes (field 8 offset)) := by
  simp [listed, head, wideSizes]

theorem length_head (m : Member) (n : Nat) : (m.head n).length = directoryHeaderSize := by
  simp [head, summary, directoryHeaderSize]

structure Heads (m : Member) (extraLength : Nat) (head : List UInt8) : Prop where
  signature : numberAt head 0 4 = directorySignature
  flags : numberAt head 8 2 = 0
  method : numberAt head 10 2 = 0
  checksum : numberAt head 16 4 = (Archive.checksum m.contents).toNat
  compressedSize : numberAt head 20 4 = full32
  size : numberAt head 24 4 = full32
  nameLength : numberAt head 28 2 = m.name.length
  extraLength : numberAt head 30 2 = extraLength
  commentLength : numberAt head 32 2 = 0
  offset : numberAt head 42 4 = full32

theorem heads_of_at {m : Member} (hname : m.name.length < 0x10000) {n : Nat} (hn : n < 0x10000)
    {bytes : List UInt8} (h : At bytes 0 (m.head n)) : Heads m n bytes := by
  simp only [head, summary, at_append, List.length_append, length_field, Nat.reduceAdd] at h
  obtain ⟨⟨⟨⟨⟨⟨⟨⟨hsignature, _⟩, ⟨⟨⟨⟨⟨⟨_, hflags⟩, hmethod⟩, _⟩, hchecksum⟩, hcompressed⟩, hsize⟩,
    hnameLength⟩, hextra⟩, hcomment⟩, _⟩, _⟩, _⟩, hoffset⟩ := h
  have hfull : full32 < Nat.pow 256 4 := by decide
  exact {
    signature := hsignature.numberAt (by decide)
    flags := hflags.numberAt (by decide)
    method := hmethod.numberAt (by decide)
    checksum := hchecksum.numberAt (Archive.checksum m.contents).toNat_lt
    compressedSize := hcompressed.numberAt hfull
    size := hsize.numberAt hfull
    nameLength := hnameLength.numberAt hname
    extraLength := hextra.numberAt hn
    commentLength := hcomment.numberAt (by decide)
    offset := hoffset.numberAt hfull }

end Member

theorem takeWide_field {n old : Nat} (h : n < Nat.pow 256 8) (rest : List UInt8) :
    takeWide true old (field 8 n ++ rest) = some (n, rest) := by
  have hat : At (field 8 n ++ rest) 0 (field 8 n) := ⟨rest, rfl⟩
  have hdrop : (field 8 n ++ rest).drop 8 = rest := List.drop_left' (length_field 8 n)
  rw [takeWide, if_pos rfl, if_neg (by simp), hat.numberAt h, hdrop]

theorem readExtras_nil (n : Nat) (s : Sizes) : readExtras n s [] = some s := by
  cases n <;> rfl

theorem fill_fields {s : Sizes} (hs : s.needsSize ∧ s.needsCompressedSize ∧ s.needsOffset)
    {size compressedSize offset : Nat} (hsize : size < Nat.pow 256 8)
    (hcompressed : compressedSize < Nat.pow 256 8) (hoffset : offset < Nat.pow 256 8) :
    s.fill (field 8 size ++ (field 8 compressedSize ++ (field 8 offset ++ []))) =
      some ⟨size, compressedSize, offset, false, false, false⟩ := by
  simp only [Sizes.fill, hs.1, hs.2.1, hs.2.2, takeWide_field hsize, takeWide_field hcompressed,
    takeWide_field hoffset, Option.bind_eq_bind, Option.bind_some, Option.pure_def]

theorem readExtras_wideSizes {m : Member} (hsize : m.contents.length < Nat.pow 256 8) {offset : Nat}
    (hoffset : offset < Nat.pow 256 8) (n : Nat) {s : Sizes}
    (hs : s.needsSize ∧ s.needsCompressedSize ∧ s.needsOffset) :
    readExtras (n + 1) s (m.wideSizes (field 8 offset)) =
      some ⟨m.contents.length, m.contents.length, offset, false, false, false⟩ := by
  obtain ⟨body, hbody⟩ : ∃ body, body = field 8 m.contents.length ++
      (field 8 m.contents.length ++ (field 8 offset ++ [])) := ⟨_, rfl⟩
  have hlength : body.length = 24 := by simp [hbody]
  have hextra : m.wideSizes (field 8 offset) = (field 2 wideTag ++ field 2 24) ++ body := by
    simp [Member.wideSizes, hbody]
  have hat : At (m.wideSizes (field 8 offset)) 0 (field 2 wideTag ++ field 2 24) :=
    ⟨body, hextra.symm⟩
  rw [at_append, length_field] at hat
  have hdrop : (m.wideSizes (field 8 offset)).drop 4 = body := by
    rw [hextra]
    exact List.drop_left' (by simp)
  have hlong : ¬ (m.wideSizes (field 8 offset)).length < 4 := by
    simp only [hextra, List.length_append, length_field, hlength]
    decide
  have htag := hat.1.numberAt (by decide)
  have hwidth := hat.2.numberAt (by decide)
  simp only [readExtras, hlong, htag, hwidth, hdrop, hlength, Nat.lt_irrefl, if_true, if_false,
    List.take_of_length_le (Nat.le_of_eq hlength), List.drop_of_length_le (Nat.le_of_eq hlength)]
  rw [hbody, fill_fields hs hsize hsize hoffset]
  exact readExtras_nil n _

-- What the directory says about a member whose record begins at an offset.
def Member.header (m : Member) (offset : Nat) : Header where
  name := m.name
  flags := 0
  method := 0
  checksum := (Archive.checksum m.contents).toNat
  compressedSize := m.contents.length
  size := m.contents.length
  offset := offset

theorem toInt_ofNat_of_lt {n : Nat} (h : n < offsetLimit) : (Int64.ofNat n).toInt = n :=
  Int64.toInt_ofNat_of_lt h

theorem readHeader_listed {m : Member} (hname : m.name.length < 0x10000)
    (hsize : m.contents.length < offsetLimit) {offset : Nat} (hoffset : offset < offsetLimit)
    (rest : List UInt8) :
    readHeader (m.listed offset ++ rest) = .entry (m.header offset) rest := by
  have hlimit : offsetLimit < Nat.pow 256 8 := by decide
  have hbytes : m.listed offset ++ rest =
      m.head 28 ++ ((m.name ++ m.wideSizes (field 8 offset)) ++ rest) := by
    rw [m.listed_eq, List.append_assoc]
  have hat : At (m.listed offset ++ rest) 0 (m.head 28) := ⟨_, hbytes.symm⟩
  have hslice := hat.slice?
  rw [m.length_head] at hslice
  have heads := Member.heads_of_at hname (by decide) (at_self (m.head 28))
  have hdrop : (m.listed offset ++ rest).drop directoryHeaderSize =
      (m.name ++ m.wideSizes (field 8 offset)) ++ rest := by
    rw [hbytes]
    exact List.drop_left' (m.length_head 28)
  have hne : ¬ (m.listed offset ++ rest).isEmpty = true := by
    intro hempty
    rw [List.isEmpty_iff.mp hempty] at hslice
    cases hslice
  have hwide : (m.wideSizes (field 8 offset)).length = 28 := by simp [Member.wideSizes]
  have htail := (show At (m.name ++ m.wideSizes (field 8 offset) ++ rest) 0
    (m.name ++ m.wideSizes (field 8 offset)) from ⟨rest, rfl⟩).slice?
  rw [List.length_append, hwide] at htail
  have hrest : (m.name ++ m.wideSizes (field 8 offset) ++ rest).drop (m.name.length + 28) = rest :=
    List.drop_left' (by rw [List.length_append, hwide])
  have hextras : readExtras 28 ⟨full32, full32, full32, true, true, true⟩ (m.wideSizes (field 8 offset)) =
      some ⟨m.contents.length, m.contents.length, offset, false, false, false⟩ :=
    readExtras_wideSizes (by omega) (by omega) 27 ⟨rfl, rfl, rfl⟩
  simp only [readHeader, hne, hslice, heads.signature, hdrop, heads.nameLength, heads.extraLength,
    heads.commentLength, Nat.add_zero, htail, heads.compressedSize, heads.size, heads.offset,
    ne_eq, not_true_eq_false, if_false, Bool.false_eq_true, BEq.rfl, List.drop_left,
    List.take_of_length_le (Nat.le_of_eq hwide), hwide, hextras, Bool.or_false, List.take_left,
    heads.flags, heads.method, heads.checksum, toInt_ofNat_of_lt hoffset, hrest, Member.header]

def headers : Nat → List Member → List Header
  | _, [] => []
  | offset, m :: members => m.header offset :: headers (offset + m.record.length) members

theorem length_headers (offset : Nat) (members : List Member) :
    (headers offset members).length = members.length := by
  induction members generalizing offset with
  | nil => rfl
  | cons m members ih => simp [headers, ih]

-- The members' names and sizes can be written in the directory.
structure Sized (offset : Nat) (members : List Member) : Prop where
  names : ∀ m ∈ members, m.name.length < 0x10000
  total : offset + (members.flatMap Member.record).length < offsetLimit

theorem Member.length_record (m : Member) : m.contents.length ≤ m.record.length := by
  simp only [Member.record, List.length_append]
  omega

theorem Sized.head {offset : Nat} {m : Member} {members : List Member}
    (h : Sized offset (m :: members)) :
    m.name.length < 0x10000 ∧ m.contents.length < offsetLimit ∧ offset < offsetLimit := by
  have htotal := h.total
  have hrecord := m.length_record
  simp only [List.flatMap_cons, List.length_append] at htotal
  exact ⟨h.names m (by simp), by omega, by omega⟩

theorem Sized.tail {offset : Nat} {m : Member} {members : List Member}
    (h : Sized offset (m :: members)) : Sized (offset + m.record.length) members where
  names := fun n hn => h.names n (List.mem_cons_of_mem _ hn)
  total := by
    have htotal := h.total
    simp only [List.flatMap_cons, List.length_append] at htotal
    omega

theorem readHeaders_listMembers {offset : Nat} {members : List Member} (h : Sized offset members)
    {rest : List UInt8} (hrest : readHeader rest = .other) {n : Nat} (hn : members.length < n) :
    readHeaders n (listMembers offset members ++ rest) = some (headers offset members) := by
  induction members generalizing offset n with
  | nil =>
      obtain ⟨n, rfl⟩ := Nat.exists_eq_succ_of_ne_zero (Nat.ne_zero_of_lt hn)
      simp [listMembers, readHeaders, hrest, headers]
  | cons m members ih =>
      obtain ⟨n, rfl⟩ := Nat.exists_eq_succ_of_ne_zero (Nat.ne_zero_of_lt hn)
      obtain ⟨hname, hsize, hoffset⟩ := h.head
      rw [listMembers, List.append_assoc, readHeaders, readHeader_listed hname hsize hoffset]
      simp only
      rw [ih h.tail (Nat.lt_of_succ_lt_succ hn)]
      rfl

-- An end record is exactly at the end of the bytes, so no later place can hold one.
theorem findEnd_of_short (before : Nat) {bytes : List UInt8} (h : bytes.length < endSize) :
    findEnd before bytes = none := by
  induction bytes generalizing before with
  | nil => rfl
  | cons b bytes ih =>
      have hshort : ¬ endSize ≤ (b :: bytes).length := Nat.not_le.mpr h
      rw [findEnd, ih (before + 1) (Nat.lt_of_succ_lt h)]
      simp only [hshort, false_and, if_false]

theorem findEnd_append (before : Nat) (bytes : List UInt8) {record : List UInt8}
    (hlength : record.length = endSize) (hsignature : numberAt record 0 4 = endSignature) :
    findEnd before (bytes ++ record) = some (before + bytes.length, record) := by
  induction bytes generalizing before with
  | nil =>
      rcases record with _ | ⟨b, record⟩
      · cases hlength
      · have hshort : record.length < endSize := by
          rw [← hlength, List.length_cons]
          omega
        rw [List.nil_append, findEnd, findEnd_of_short _ hshort]
        simp [hlength, hsignature]
  | cons b bytes ih =>
      rw [List.cons_append, findEnd, ih (before + 1)]
      simp only [List.length_cons]
      congr 2
      omega

def wideEnd (count size offset : Nat) : List UInt8 :=
  field 4 end64Signature ++ field 8 (end64Size - 12) ++ field 2 version ++ field 2 version
    ++ field 4 0 ++ field 4 0 ++ field 8 count ++ field 8 count ++ field 8 size ++ field 8 offset

def locator (place : Nat) : List UInt8 :=
  field 4 locatorSignature ++ field 4 0 ++ field 8 place ++ field 4 1

def narrowEnd : List UInt8 :=
  field 4 endSignature ++ field 2 0 ++ field 2 0 ++ field 2 full16 ++ field 2 full16
    ++ field 4 full32 ++ field 4 full32 ++ field 2 0

theorem endRecords_eq (count size offset : Nat) :
    endRecords count size offset = wideEnd count size offset ++ (locator (offset + size) ++ narrowEnd) := by
  unfold endRecords wideEnd locator narrowEnd
  simp only [List.append_assoc]

theorem length_narrowEnd : narrowEnd.length = endSize := by
  simp only [narrowEnd, List.length_append, length_field, endSize]

theorem length_locator (place : Nat) : (locator place).length = locatorSize := by
  simp only [locator, List.length_append, length_field, locatorSize]

theorem length_wideEnd (count size offset : Nat) : (wideEnd count size offset).length = end64Size := by
  simp only [wideEnd, List.length_append, length_field, end64Size]

theorem findWideEnd_locator {bytes : List UInt8} {endOffset place : Nat} (hplace : place < offsetLimit)
    (hoffset : locatorSize ≤ endOffset) (h : At bytes (endOffset - locatorSize) (locator place)) :
    findWideEnd bytes endOffset = some (place : Int) := by
  have hlimit : offsetLimit < Nat.pow 256 8 := by decide
  have hat : At (bytes.drop (endOffset - locatorSize)) 0 (locator place) := h
  simp only [locator, at_append, List.length_append, length_field, Nat.reduceAdd] at hat
  obtain ⟨⟨⟨hsignature, hdisk⟩, hnumber⟩, hdisks⟩ := hat
  have hsignature := hsignature.numberAt (by decide)
  have hdisk := hdisk.numberAt (by decide)
  have hnumber := hnumber.numberAt (Nat.lt_trans hplace hlimit)
  have hdisks := hdisks.numberAt (by decide)
  simp only [findWideEnd, Nat.not_lt.mpr hoffset, if_false, hsignature, hdisk, hdisks, hnumber, and_self,
    if_true, toInt_ofNat_of_lt hplace, Int.natCast_nonneg]

theorem findEnd_drop (front : List UInt8) {record : List UInt8} (hlength : record.length = endSize)
    (hsignature : numberAt record 0 4 = endSignature) :
    findEnd ((front ++ record).length - searchLength)
        ((front ++ record).drop ((front ++ record).length - searchLength)) =
      some (front.length, record) := by
  have hskip : (front ++ record).length - searchLength ≤ front.length := by
    have hsearch : endSize ≤ searchLength := by decide
    rw [List.length_append]
    omega
  rw [List.drop_append_of_le_length hskip, findEnd_append _ _ hlength hsignature, List.length_drop,
    Nat.add_sub_cancel' hskip]

theorem narrowEnd_numbers {bytes : List UInt8} (h : At bytes 0 narrowEnd) :
    numberAt bytes 0 4 = endSignature ∧ numberAt bytes 10 2 = full16 ∧ numberAt bytes 20 2 = 0 := by
  simp only [narrowEnd, at_append, List.length_append, length_field, Nat.reduceAdd] at h
  obtain ⟨⟨⟨⟨⟨⟨⟨hsignature, _⟩, _⟩, _⟩, hcount⟩, _⟩, _⟩, hcomment⟩ := h
  exact ⟨hsignature.numberAt (by decide), hcount.numberAt (by decide), hcomment.numberAt (by decide)⟩

theorem wideEnd_numbers {bytes : List UInt8} {count size offset : Nat} (hcount : count < Nat.pow 256 8)
    (hsize : size < Nat.pow 256 8) (hoffset : offset < Nat.pow 256 8)
    (h : At bytes 0 (wideEnd count size offset)) :
    numberAt bytes 0 4 = end64Signature ∧ numberAt bytes 32 8 = count ∧ numberAt bytes 40 8 = size ∧
      numberAt bytes 48 8 = offset := by
  simp only [wideEnd, at_append, List.length_append, length_field, Nat.reduceAdd] at h
  obtain ⟨⟨⟨⟨⟨⟨⟨⟨⟨hsignature, _⟩, _⟩, _⟩, _⟩, _⟩, _⟩, hentries⟩, hdirectory⟩, hplace⟩ := h
  exact ⟨hsignature.numberAt (by decide), hentries.numberAt hcount, hdirectory.numberAt hsize,
    hplace.numberAt hoffset⟩

theorem readEnd_append {body : List UInt8} {count size offset : Nat} (hbody : body.length = offset + size)
    (hcount : count < Nat.pow 256 8) (hplace : offset + size < offsetLimit) :
    readEnd (body ++ endRecords count size offset) =
      some (((offset + size : Nat) : Int), ⟨count, size, offset⟩) := by
  have hlimit : offsetLimit < Nat.pow 256 8 := by decide
  obtain ⟨front, hfront⟩ : ∃ front, front =
    body ++ (wideEnd count size offset ++ locator (offset + size)) := ⟨_, rfl⟩
  have hbytes : body ++ endRecords count size offset = front ++ narrowEnd := by
    rw [endRecords_eq, hfront, List.append_assoc, List.append_assoc]
  have hlength : front.length = offset + size + (end64Size + locatorSize) := by
    rw [hfront, List.length_append, List.length_append, length_wideEnd, length_locator, hbody]
  have hat : At (front ++ narrowEnd) 0
      (body ++ (wideEnd count size offset ++ locator (offset + size))) :=
    hfront ▸ List.prefix_append _ _
  simp only [at_append, length_wideEnd, hbody, Nat.zero_add] at hat
  obtain ⟨_, hwide, hlocator⟩ := hat
  have hslice := hwide.slice?
  rw [length_wideEnd] at hslice
  have hlocated : findWideEnd (front ++ narrowEnd) front.length = some ((offset + size : Nat) : Int) :=
    findWideEnd_locator hplace (by omega) (by rwa [hlength, ← Nat.add_assoc, Nat.add_sub_cancel])
  obtain ⟨hsignature, hfull, hcomment⟩ := narrowEnd_numbers (at_self narrowEnd)
  obtain ⟨hwideSignature, hentries, hdirectory, hstart⟩ := wideEnd_numbers hcount
    (by omega) (by omega) (at_self (wideEnd count size offset))
  rw [hbytes]
  simp only [readEnd, findEnd_drop front length_narrowEnd hsignature, Option.bind_eq_bind, Option.bind_some,
    hcomment, length_narrowEnd, Nat.add_zero, Nat.lt_irrefl, if_false, hfull, true_or, if_true, hlocated,
    sliceAt?, Int.natCast_nonneg, Int.toNat_natCast, hslice, hwideSignature, hentries, hdirectory, hstart,
    Option.pure_def]

theorem readHeader_other {bytes : List UInt8} {n : Nat} (h : At bytes 0 (field 4 n))
    (hn : n < Nat.pow 256 4) (hother : n ≠ directorySignature)
    (hlength : directoryHeaderSize ≤ bytes.length) : readHeader bytes = .other := by
  have hne : ¬ bytes.isEmpty = true := by
    intro hempty
    rw [List.isEmpty_iff.mp hempty] at hlength
    cases hlength
  have hslice : slice? bytes 0 directoryHeaderSize = some (bytes.take directoryHeaderSize) := by
    rw [slice?, List.drop_zero, List.length_take, Nat.min_eq_left hlength, if_pos rfl]
  have hhead : At (bytes.take directoryHeaderSize) 0 (field 4 n) := by
    refine List.prefix_take_iff.mpr ⟨h, ?_⟩
    rw [length_field]
    decide
  simp only [readHeader, hne, hslice, hhead.numberAt hn, ne_eq, hother, not_false_eq_true, if_true]
  rfl

theorem length_le_records (members : List Member) :
    members.length ≤ (members.flatMap Member.record).length := by
  induction members with
  | nil => exact Nat.le_refl _
  | cons m members ih =>
      have hrecord : 1 ≤ m.record.length := by
        simp only [Member.record, List.length_append, length_field]
        omega
      rw [List.flatMap_cons, List.length_append, List.length_cons]
      omega

theorem length_pack (members : List Member) :
    (pack members).length = (members.flatMap Member.record).length + (listMembers 0 members).length + 98 := by
  rw [pack, List.length_append, List.length_append, endRecords_eq, List.length_append, List.length_append,
    length_wideEnd, length_locator, length_narrowEnd]
  rfl

theorem readDirectory_pack {members : List Member} (hnames : ∀ m ∈ members, m.name.length < 0x10000)
    (hsize : (pack members).length < offsetLimit) :
    readDirectory (pack members) = some (headers 0 members) := by
  have hlength := length_pack members
  have hcount := length_le_records members
  have hlimit : offsetLimit < Nat.pow 256 8 := by decide
  obtain ⟨records, hrecords⟩ : ∃ records, records = members.flatMap Member.record := ⟨_, rfl⟩
  obtain ⟨directory, hdirectory⟩ : ∃ directory, directory = listMembers 0 members := ⟨_, rfl⟩
  have hpack : pack members =
      (records ++ directory) ++ endRecords members.length directory.length records.length := by
    rw [pack, hrecords, hdirectory]
  rw [← hrecords, ← hdirectory] at hlength
  rw [← hrecords] at hcount
  have hend : readEnd (pack members) = some (((records.length + directory.length : Nat) : Int),
      ⟨members.length, directory.length, records.length⟩) := by
    rw [hpack]
    exact readEnd_append List.length_append (by omega) (by omega)
  have hrest : readHeader (endRecords members.length directory.length records.length) = .other := by
    have hlong : directoryHeaderSize ≤
        (endRecords members.length directory.length records.length).length := by
      rw [endRecords_eq, List.length_append, length_wideEnd]
      exact Nat.le_trans (by decide) (Nat.le_add_right _ _)
    refine readHeader_other (n := end64Signature) ?_ (by decide) (by decide) hlong
    rw [endRecords_eq, wideEnd]
    simp only [List.append_assoc]
    exact List.prefix_append _ _
  have hsized : Sized 0 members := ⟨hnames, by rw [← hrecords]; omega⟩
  have hheaders := readHeaders_listMembers hsized hrest (n := (pack members).length + 1) (by omega)
  have hdrop : (pack members).drop records.length =
      listMembers 0 members ++ endRecords members.length directory.length records.length := by
    rw [hpack, List.append_assoc, List.drop_left, hdirectory]
  have hbase : ((records.length + directory.length : Nat) : Int) - directory.length - records.length = 0 := by
    omega
  have hfits : ¬ (offsetLimit ≤ directory.length ∨ offsetLimit ≤ records.length) := by omega
  have hstart : ¬ ((records.length : Int) < 0 ∨ ((pack members).length : Int) ≤ records.length) := by omega
  simp only [readDirectory, hend, Option.bind_eq_bind, Option.bind_some, hbase, hfits, hstart, Int.zero_add,
    Int.toNat_natCast, hdrop, hheaders, length_headers, if_true, if_false, Int.lt_irrefl, Int.add_zero]
  exact congrArg some (List.map_id' _)

namespace Member

def front (m : Member) : List UInt8 := field 4 entrySignature ++ m.summary ++ field 2 20

theorem length_wideSizes (m : Member) (more : List UInt8) :
    (m.wideSizes more).length = 20 + more.length := by
  simp only [wideSizes, List.length_append, length_field]

theorem length_front (m : Member) : m.front.length = entryHeaderSize := by
  simp only [front, summary, List.length_append, length_field, entryHeaderSize]

theorem record_eq (m : Member) :
    m.record = m.front ++ (m.name ++ (m.wideSizes [] ++ m.contents)) := by
  simp only [record, front, length_wideSizes, List.length_nil, List.append_assoc]

theorem front_numbers {m : Member} (hname : m.name.length < 0x10000) {bytes : List UInt8}
    (h : At bytes 0 m.front) :
    numberAt bytes 0 4 = entrySignature ∧ numberAt bytes 26 2 = m.name.length ∧
      numberAt bytes 28 2 = 20 := by
  simp only [front, summary, at_append, List.length_append, length_field, Nat.reduceAdd] at h
  obtain ⟨⟨hsignature, _, hnameLength⟩, hextraLength⟩ := h
  exact ⟨hsignature.numberAt (by decide), hnameLength.numberAt hname, hextraLength.numberAt (by decide)⟩

end Member

theorem readContents_record {bytes : List UInt8} {m : Member} {offset : Nat}
    (hname : m.name.length < 0x10000) (hsize : m.contents.length < offsetLimit)
    (h : At bytes offset m.record) : readContents bytes (m.header offset) = .ok m.contents := by
  rw [m.record_eq] at h
  simp only [at_append, m.length_front, m.length_wideSizes, List.length_nil, Nat.add_zero] at h
  obtain ⟨hfront, _, _, hcontents⟩ := h
  have hslice := hfront.slice?
  rw [m.length_front] at hslice
  obtain ⟨hsignature, hnameLength, hextraLength⟩ := Member.front_numbers hname (at_self m.front)
  have hoffset : contentsOffset bytes (m.header offset) =
      .ok (entryHeaderSize + m.name.length + 20) := by
    simp only [contentsOffset, Member.header, Int.toNat_natCast, hslice, hsignature, hnameLength,
      hextraLength, if_true]
    exact if_neg (by omega)
  have hdescribes (after : List UInt8) : (m.header offset).describes m.contents after = true := by
    simp [Header.describes, Header.hasDescriptor, Member.header]
  rw [Nat.add_assoc, Nat.add_assoc, ← Nat.add_assoc entryHeaderSize] at hcontents
  have htake := hcontents.take
  simp only [readContents, hoffset]
  simp only [Member.header, Method.ofCode?, Int.toNat_natCast, hsize, if_true, Method.unpack, htake]
  exact if_pos (hdescribes _)

theorem readContents_headers {bytes : List UInt8} {offset : Nat} {members : List Member}
    (hsized : Sized offset members) (h : At bytes offset (members.flatMap Member.record)) :
    List.Forall₂ (fun header m => header.name = m.name ∧ readContents bytes header = .ok m.contents)
      (headers offset members) members := by
  induction members generalizing offset with
  | nil => exact .nil
  | cons m members ih =>
      rw [List.flatMap_cons, at_append] at h
      obtain ⟨hname, hsize, _⟩ := hsized.head
      exact .cons ⟨rfl, readContents_record hname hsize h.1⟩ (ih hsized.tail h.2)

theorem readContents_pack {members : List Member} (hnames : ∀ m ∈ members, m.name.length < 0x10000)
    (hsize : (pack members).length < offsetLimit) :
    List.Forall₂ (fun header m => header.name = m.name ∧ readContents (pack members) header = .ok m.contents)
      (headers 0 members) members := by
  have hlength := length_pack members
  apply readContents_headers ⟨hnames, by omega⟩
  rw [pack, List.append_assoc]
  exact List.prefix_append _ _

theorem find?_name {P : Header → Member → Prop} {hs : List Header} {ms : List Member}
    (h : List.Forall₂ (fun header m => header.name = m.name ∧ P header m) hs ms)
    (hnodup : (ms.map Member.name).Nodup) {m : Member} (hm : m ∈ ms) :
    ∃ header, hs.find? (·.name == m.name) = some header ∧ P header m := by
  induction h with
  | nil => cases hm
  | @cons header n hs ms hfirst _ ih =>
      obtain ⟨hnotin, hnodup⟩ := List.nodup_cons.mp hnodup
      rcases List.mem_cons.mp hm with rfl | hm
      · exact ⟨header, by simp [hfirst.1], hfirst.2⟩
      · have hne : n.name ≠ m.name := fun heq => hnotin (heq ▸ List.mem_map_of_mem hm)
        obtain ⟨found, hfound, hP⟩ := ih hnodup hm
        exact ⟨found, by rw [List.find?_cons_of_neg (by simpa [hfirst.1] using hne), hfound], hP⟩

theorem findEntry?_pack {members : List Member} (hnames : ∀ m ∈ members, m.name.length < 0x10000)
    (hsize : (pack members).length < offsetLimit) (hnodup : (members.map Member.name).Nodup)
    {m : Member} (hm : m ∈ members) :
    ∃ header, findEntry? (headers 0 members) m.name = some header ∧
      readContents (pack members) header = .ok m.contents := by
  refine find?_name (List.forall₂_reverse_iff.mpr (readContents_pack hnames hsize)) ?_
    (List.mem_reverse.mpr hm)
  rw [List.map_reverse]
  exact List.pairwise_reverse.mpr (hnodup.imp Ne.symm)

theorem readAll_pack {members : List Member} (hnames : ∀ m ∈ members, m.name.length < 0x10000)
    (hsize : (pack members).length < offsetLimit) :
    readAll (pack members) = some (members.map fun m => (m.name, m.contents)) := by
  have hcontents := readContents_pack hnames hsize
  simp only [readAll, readDirectory_pack hnames hsize, Option.bind_eq_bind, Option.bind_some]
  generalize headers 0 members = hs at hcontents
  generalize pack members = bytes at hcontents ⊢
  clear hnames hsize
  induction hcontents with
  | nil => rfl
  | cons hfirst _ ih =>
      rw [List.mapM_cons, ih]
      simp [hfirst.1, hfirst.2]

end PlZero.Archive
