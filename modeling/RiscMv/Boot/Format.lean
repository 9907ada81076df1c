import Mathlib.Data.List.Basic
import RiscMv.ForStd.Guard
import RiscMv.ForStd.RecordTable

/-!
# Kernel images (`src/boot_format.c`)

`cvm_kernel_image_finalize` and `cvm_kernel_image_validate`.  An image is a memory of bytes and its
size; the arrays of bytes in the header are numbers as well, low byte first.  What is accepted is
well formed, and `cvm_kernel_image_finalize` makes an image that breaks no rule but those about the
checksums an accepted one.

## Key results
- `cvmKernelHeaderEncode_decode`: encoding a decoded header gives back its bytes
- `cvmKernelImageFinalize_eq`: what `cvm_kernel_image_finalize` stores
- `WellFormed.of_ok`: what the checks of the addresses and segments establish
-/

namespace RiscMv.Boot

/-- The failures of `CvmBootFormatStatus`. -/
inductive CvmBootFormatStatus
  | invalidArgument
  | truncated
  | badMagic
  | unsupported
  | badLayout
  | badChecksum
  | badSegment
  | badEntry
  deriving DecidableEq, Repr

/-- A status and the text of its error. -/
abbrev Failure := CvmBootFormatStatus × String

/-- `CvmKernelHeader`. -/
structure CvmKernelHeader where
  magic : Nat
  formatMajor : Nat
  formatMinor : Nat
  headerSize : Nat
  flags : Nat
  isaId : Nat
  isaVersion : Nat
  addressBits : Nat
  byteOrder : Nat
  segmentCount : Nat
  segmentEntrySize : Nat
  segmentTableOffset : Nat
  entryPhysicalAddress : Nat
  imageFileSize : Nat
  requiredCpuFeatures : Nat
  buildId : Nat
  headerCrc32 : Nat
  payloadCrc32 : Nat
  entryVirtualAddress : Nat
  virtualBase : Nat
  virtualSize : Nat
  reserved : Nat
  deriving DecidableEq

/-- `CvmKernelSegment`. -/
structure CvmKernelSegment where
  type : Nat
  flags : Nat
  fileOffset : Nat
  loadAddress : Nat
  virtualAddress : Nat
  fileSize : Nat
  memorySize : Nat
  alignment : Nat
  reserved : Nat

def kernelHeaderSize : Nat := 128
def kernelSegmentSize : Nat := 64
def kernelMaxSegments : Nat := 64
def kernelHeaderCrcOffset : Nat := 0x58
def kernelPayloadCrcOffset : Nat := 0x5C
def uint64Max : Nat := 2 ^ 64 - 1

/-- `RISC_MV_EXF_MAGIC`: `RMVEXF01`. -/
def exfMagic : Nat := 0x3130465845564D52

/-! ## Encoding and decoding -/

/-- The numbers of a header. -/
def CvmKernelHeader.fields (header : CvmKernelHeader) : List Field :=
  [⟨0x00, 8, header.magic⟩, ⟨0x08, 2, header.formatMajor⟩, ⟨0x0A, 2, header.formatMinor⟩,
    ⟨0x0C, 4, header.headerSize⟩, ⟨0x10, 8, header.flags⟩, ⟨0x18, 4, header.isaId⟩,
    ⟨0x1C, 4, header.isaVersion⟩, ⟨0x20, 1, header.addressBits⟩, ⟨0x21, 1, header.byteOrder⟩,
    ⟨0x22, 2, header.segmentCount⟩, ⟨0x24, 4, header.segmentEntrySize⟩,
    ⟨0x28, 8, header.segmentTableOffset⟩, ⟨0x30, 8, header.entryPhysicalAddress⟩,
    ⟨0x38, 8, header.imageFileSize⟩, ⟨0x40, 8, header.requiredCpuFeatures⟩,
    ⟨0x48, 16, header.buildId⟩, ⟨0x58, 4, header.headerCrc32⟩, ⟨0x5C, 4, header.payloadCrc32⟩,
    ⟨0x60, 8, header.entryVirtualAddress⟩, ⟨0x68, 8, header.virtualBase⟩,
    ⟨0x70, 8, header.virtualSize⟩, ⟨0x78, 8, header.reserved⟩]

/-- `cvm_kernel_header_encode`, at the beginning of the image. -/
def cvmKernelHeaderEncode (output : ByteMemory) (header : CvmKernelHeader) : ByteMemory :=
  storeFields (fun p => if p < kernelHeaderSize then 0 else output p) 0 header.fields

/-- `cvm_kernel_header_decode`. -/
def cvmKernelHeaderDecode (input : ByteMemory) : CvmKernelHeader where
  magic := loadLE input 0x00 8
  formatMajor := loadLE input 0x08 2
  formatMinor := loadLE input 0x0A 2
  headerSize := loadLE input 0x0C 4
  flags := loadLE input 0x10 8
  isaId := loadLE input 0x18 4
  isaVersion := loadLE input 0x1C 4
  addressBits := loadLE input 0x20 1
  byteOrder := loadLE input 0x21 1
  segmentCount := loadLE input 0x22 2
  segmentEntrySize := loadLE input 0x24 4
  segmentTableOffset := loadLE input 0x28 8
  entryPhysicalAddress := loadLE input 0x30 8
  imageFileSize := loadLE input 0x38 8
  requiredCpuFeatures := loadLE input 0x40 8
  buildId := loadLE input 0x48 16
  headerCrc32 := loadLE input 0x58 4
  payloadCrc32 := loadLE input 0x5C 4
  entryVirtualAddress := loadLE input 0x60 8
  virtualBase := loadLE input 0x68 8
  virtualSize := loadLE input 0x70 8
  reserved := loadLE input 0x78 8

/-- `cvm_kernel_segment_decode`, of the entry at `encoded`. -/
def cvmKernelSegmentDecode (image : ByteMemory) (encoded : Nat) : CvmKernelSegment where
  type := loadLE image (encoded + 0x00) 4
  flags := loadLE image (encoded + 0x04) 4
  fileOffset := loadLE image (encoded + 0x08) 8
  loadAddress := loadLE image (encoded + 0x10) 8
  virtualAddress := loadLE image (encoded + 0x18) 8
  fileSize := loadLE image (encoded + 0x20) 8
  memorySize := loadLE image (encoded + 0x28) 8
  alignment := loadLE image (encoded + 0x30) 8
  reserved := loadLE image (encoded + 0x38) 8

/-- The segment of the `i`th entry of the table. -/
def segmentAt (image : ByteMemory) (header : CvmKernelHeader) (i : Nat) : CvmKernelSegment :=
  cvmKernelSegmentDecode image (header.segmentTableOffset + i * kernelSegmentSize)

/-! ## Checksums -/

/-- One bit of `crc32_with_zero_range`. -/
def crcBit (crc : UInt32) : UInt32 :=
  let mask := 0 - (crc &&& 1)
  (crc >>> 1) ^^^ (0xEDB88320 &&& mask)

/-- `crc32_with_zero_range`, of the bytes from `data` on. -/
def crc32WithZeroRange (image : ByteMemory) (data size zeroOffset zeroSize : Nat) : UInt32 :=
  let crc := (List.range size).foldl (fun crc i =>
    let byte := if zeroOffset ≤ i ∧ i - zeroOffset < zeroSize then 0 else image (data + i)
    (List.range 8).foldl (fun crc _ => crcBit crc) (crc ^^^ byte.toUInt32)) 0xFFFFFFFF
  crc ^^^ 0xFFFFFFFF

/-- `cvm_crc32`. -/
def cvmCrc32 (image : ByteMemory) (data size : Nat) : UInt32 :=
  crc32WithZeroRange image data size size 0

/-- The checksum of the header, without its own bytes. -/
def headerCrc (image : ByteMemory) : UInt32 :=
  crc32WithZeroRange image 0 kernelHeaderSize kernelHeaderCrcOffset 4

/-- The checksum of the bytes behind the header. -/
def payloadCrc (image : ByteMemory) (size : Nat) : UInt32 :=
  cvmCrc32 image kernelHeaderSize (size - kernelHeaderSize)

/-- `cvm_kernel_image_finalize`. -/
def cvmKernelImageFinalize (image : ByteMemory) (size : Nat) :
    Except CvmBootFormatStatus ByteMemory := do
  failIf (size < kernelHeaderSize) .invalidArgument
  let header := cvmKernelHeaderDecode image
  failIf (header.imageFileSize ≠ size ∨ header.headerSize ≠ kernelHeaderSize) .badLayout
  let header := { header with headerCrc32 := 0, payloadCrc32 := (payloadCrc image size).toNat }
  let image := cvmKernelHeaderEncode image header
  let header := { header with headerCrc32 := (headerCrc image).toNat }
  return cvmKernelHeaderEncode image header

/-! ## Validation -/

/-- The checks of the header before its checksum. -/
def headerRules (size : Nat) (header : CvmKernelHeader) : Except Failure Unit := do
  failIf (header.magic ≠ exfMagic) (.badMagic, "invalid RISC-MV EXF magic")
  failIf (header.formatMajor ≠ 1 ∨ header.formatMinor > 0)
    (.unsupported, "unsupported EXF format version")
  failIf (header.headerSize ≠ kernelHeaderSize ∨ header.segmentEntrySize ≠ kernelSegmentSize ∨
    header.segmentCount = 0 ∨ header.segmentCount > kernelMaxSegments)
    (.badLayout, "invalid EXF table dimensions")
  failIf (header.flags &&& (uint64Max - 1) ≠ 0 ∨ header.isaId ≠ 0x34364152 ∨
    header.isaVersion ≠ 1 ∨ header.addressBits ≠ 64 ∨ header.byteOrder ≠ 1)
    (.unsupported, "EXF requires an unsupported RArchM64 ABI")
  failIf (header.reserved ≠ 0) (.unsupported, "reserved EXF header bytes are set")
  failIf (header.imageFileSize ≠ size) (.badLayout, "EXF file size does not match header")
  failIf (header.segmentTableOffset < kernelHeaderSize ∨ header.segmentTableOffset &&& 7 ≠ 0 ∨
    header.segmentTableOffset > uint64Max) (.badLayout, "invalid segment table offset")
  failIf (header.segmentCount ≠ 0 ∧ kernelSegmentSize > uint64Max / header.segmentCount)
    (.badLayout, "segment table size overflow")
  failIf (header.segmentTableOffset > size ∨
    header.segmentCount * kernelSegmentSize > size - header.segmentTableOffset)
    (.truncated, "segment table is truncated")

/-- The checks of the two checksums. -/
def checksumRules (image : ByteMemory) (size : Nat) (header : CvmKernelHeader) :
    Except Failure Unit := do
  failIf (header.headerCrc32 ≠ (headerCrc image).toNat) (.badChecksum, "EXF header CRC32 mismatch")
  failIf (header.payloadCrc32 ≠ (payloadCrc image size).toNat)
    (.badChecksum, "EXF payload CRC32 mismatch")

/-- `add_u64` fails. -/
abbrev AddOverflows (left right : Nat) : Prop := right > uint64Max - left

/-- `CVM_KERNEL_FLAG_RELOCATABLE_PHYSICAL`. -/
abbrev CvmKernelHeader.Relocatable (header : CvmKernelHeader) : Prop := header.flags &&& 1 ≠ 0

/-- The checks of the addresses in the header. -/
def addressRules (header : CvmKernelHeader) : Except Failure Unit :=
  if header.Relocatable then
    failIf (header.virtualSize = 0 ∨ AddOverflows header.virtualBase header.virtualSize ∨
      header.entryVirtualAddress < header.virtualBase ∨
      header.entryVirtualAddress ≥ header.virtualBase + header.virtualSize ∨
      header.entryPhysicalAddress ≠ header.entryVirtualAddress - header.virtualBase)
      (.badLayout, "invalid relocatable kernel address geometry")
  else
    failIf (header.entryVirtualAddress ≠ 0 ∨ header.virtualBase ≠ 0 ∨ header.virtualSize ≠ 0)
      (.unsupported, "fixed kernel contains virtual handoff fields")

/-- `ranges_overlap`. -/
abbrev RangesOverlap (leftBase leftSize rightBase rightSize : Nat) : Prop :=
  AddOverflows leftBase leftSize ∨ AddOverflows rightBase rightSize ∨
    leftBase < rightBase + rightSize ∧ rightBase < leftBase + leftSize

/-- `table_end`. -/
def CvmKernelHeader.tableEnd (header : CvmKernelHeader) : Nat :=
  header.segmentTableOffset + header.segmentCount * kernelSegmentSize

/-- The checks of the `i`th segment. -/
def segmentRules (size : Nat) (header : CvmKernelHeader) (segments : Nat → CvmKernelSegment)
    (i : Nat) : Except Failure Unit := do
  let segment := segments i
  failIf (segment.type ≠ 1 ∨ segment.flags &&& (2 ^ 32 - 1 - 7) ≠ 0 ∨ segment.flags &&& 1 = 0 ∨
    segment.reserved ≠ 0) (.badSegment, "invalid load segment type or flags")
  failIf (segment.memorySize = 0 ∨ segment.fileSize > segment.memorySize ∨
    ¬ (segment.alignment ≠ 0 ∧ segment.alignment &&& (segment.alignment - 1) = 0) ∨
    segment.loadAddress % segment.alignment ≠ 0 ∨ segment.virtualAddress % segment.alignment ≠ 0)
    (.badSegment, "invalid load segment dimensions")
  failIf (AddOverflows segment.loadAddress segment.memorySize)
    (.badSegment, "load segment address overflow")
  failIf (AddOverflows segment.virtualAddress segment.memorySize)
    (.badSegment, "virtual segment address overflow")
  failIf (header.Relocatable ∧ (segment.virtualAddress < header.virtualBase ∨
    segment.virtualAddress - header.virtualBase ≠ segment.loadAddress ∨
    segment.virtualAddress + segment.memorySize - header.virtualBase > header.virtualSize))
    (.badSegment, "relocatable segment is outside the virtual image")
  failIf (segment.fileSize ≠ 0 ∧ (segment.fileOffset < header.tableEnd ∨
    AddOverflows segment.fileOffset segment.fileSize ∨
    segment.fileOffset + segment.fileSize > size))
    (.badSegment, "load segment file range is invalid")
  (List.range i).forM fun previous => do
    let other := segments previous
    failIf (RangesOverlap segment.loadAddress segment.memorySize other.loadAddress
      other.memorySize) (.badSegment, "load segments overlap in RAM")
    failIf (RangesOverlap segment.virtualAddress segment.memorySize other.virtualAddress
      other.memorySize) (.badSegment, "load segments overlap virtually")

/-- The entry is in the segment, and the segment is executable. -/
def holdsEntry (header : CvmKernelHeader) (segment : CvmKernelSegment) : Bool :=
  let entry := if header.Relocatable then header.entryVirtualAddress
    else header.entryPhysicalAddress
  let base := if header.Relocatable then segment.virtualAddress else segment.loadAddress
  segment.flags &&& 4 ≠ 0 ∧ entry ≥ base ∧ entry < base + segment.memorySize

/-- The loop over the segments. -/
def segmentTableRules (size : Nat) (header : CvmKernelHeader)
    (segments : Nat → CvmKernelSegment) : Except Failure Unit := do
  let entryFound ← (List.range header.segmentCount).foldlM (fun entryFound i => do
    segmentRules size header segments i
    return entryFound || holdsEntry header (segments i)) false
  failIf (entryFound = false) (.badEntry, "kernel entry is outside executable segments")

/-- `cvm_kernel_image_validate`, with the checks of the checksums or without them. -/
def validateWith (checksums : Except Failure Unit) (image : ByteMemory) (size : Nat) :
    Except Failure CvmKernelHeader := do
  failIf (size < kernelHeaderSize) (.truncated, "EXF header is truncated")
  let header := cvmKernelHeaderDecode image
  headerRules size header
  checksums
  addressRules header
  segmentTableRules size header (segmentAt image header)
  return header

/-- `cvm_kernel_image_validate`. -/
def cvmKernelImageValidate (image : ByteMemory) (size : Nat) : Except Failure CvmKernelHeader :=
  validateWith (checksumRules image size (cvmKernelHeaderDecode image)) image size

/-- The rules of `cvm_kernel_image_validate` but for the checksums. -/
def validateStructure (image : ByteMemory) (size : Nat) : Except Failure CvmKernelHeader :=
  validateWith (.ok ()) image size

variable {image image' : ByteMemory} {size i : Nat} {header : CvmKernelHeader} {x y : UInt32}

/-! ## The checksum fields -/

/-- Encoding a decoded header gives back its bytes. -/
theorem cvmKernelHeaderEncode_decode (output m : ByteMemory) (p : Nat) :
    cvmKernelHeaderEncode output (cvmKernelHeaderDecode m) p =
      if p < kernelHeaderSize then m p else output p := by
  have hpacked : Packed kernelHeaderSize 0 (cvmKernelHeaderDecode m).fields := by
    simp [Packed, CvmKernelHeader.fields, kernelHeaderSize]
  have htiled : Tiled kernelHeaderSize 0 (cvmKernelHeaderDecode m).fields := by
    simp [Tiled, CvmKernelHeader.fields, kernelHeaderSize]
  have hfields : FieldsAt m 0 (cvmKernelHeaderDecode m).fields := by
    simp only [FieldsAt, CvmKernelHeader.fields, cvmKernelHeaderDecode, Nat.zero_add,
      Nat.mod_eq_of_lt (loadLE_lt _ _ _), and_self]
  split
  · next hp =>
    exact (fieldsAt_storeFields _ hpacked).byte_eq hfields htiled (Nat.zero_le p) (by omega)
  · next hp => rw [cvmKernelHeaderEncode, storeFields_of_not hpacked (by omega), if_neg hp]

/-- The image with other checksums. -/
def withChecksums (image : ByteMemory) (x y : UInt32) : ByteMemory :=
  storeLE (storeLE image kernelHeaderCrcOffset 4 x.toNat) kernelPayloadCrcOffset 4 y.toNat

theorem withChecksums_of_not {p : Nat} (hp : ¬ (0x58 ≤ p ∧ p < 0x60)) :
    withChecksums image x y p = image p := by
  unfold withChecksums kernelHeaderCrcOffset kernelPayloadCrcOffset
  rw [storeLE_of_not (by omega), storeLE_of_not (by omega)]

theorem withChecksums_withChecksums (x' y' : UInt32) :
    withChecksums (withChecksums image x' y') x y = withChecksums image x y := by
  funext p
  unfold withChecksums storeLE
  grind

theorem cvmKernelHeaderDecode_withChecksums (h : cvmKernelHeaderDecode image = header) :
    cvmKernelHeaderDecode (withChecksums image x y) = { header with
      headerCrc32 := x.toNat
      payloadCrc32 := y.toNat } := by
  subst h
  have hload : ∀ a n, a + n ≤ 0x58 ∨ 0x60 ≤ a →
      loadLE (withChecksums image x y) a n = loadLE image a n :=
    fun a n h => loadLE_congr fun p _ _ => withChecksums_of_not (by omega)
  have hheader : loadLE (withChecksums image x y) 0x58 4 = x.toNat := by
    rw [withChecksums, loadLE_storeLE_of_disjoint (by decide)]
    exact loadLE_storeLE_of_lt x.toNat_lt
  have hpayload : loadLE (withChecksums image x y) 0x5C 4 = y.toNat :=
    loadLE_storeLE_of_lt y.toNat_lt
  simp only [cvmKernelHeaderDecode, hheader, hpayload]
  simp [hload]

theorem cvmKernelHeaderEncode_eq (output image : ByteMemory) (x y : UInt32)
    (h : ∀ p, kernelHeaderSize ≤ p → output p = image p) :
    cvmKernelHeaderEncode output { cvmKernelHeaderDecode image with
      headerCrc32 := x.toNat
      payloadCrc32 := y.toNat } = withChecksums image x y := by
  funext p
  rw [← cvmKernelHeaderDecode_withChecksums rfl, cvmKernelHeaderEncode_decode]
  split
  · rfl
  · next hp =>
    unfold kernelHeaderSize at hp h
    rw [h p (by omega), withChecksums_of_not (by omega)]

theorem crc32WithZeroRange_congr {data zeroOffset zeroSize : Nat}
    (h : ∀ i, ¬ (zeroOffset ≤ i ∧ i - zeroOffset < zeroSize) →
      image' (data + i) = image (data + i)) :
    crc32WithZeroRange image' data size zeroOffset zeroSize =
      crc32WithZeroRange image data size zeroOffset zeroSize := by
  refine congrArg (· ^^^ _) (List.foldl_ext _ _ _ fun crc i _ => ?_)
  dsimp only
  split
  · rfl
  · next hi => rw [h i hi]

/-- The checksums do not depend on what stands in their own fields. -/
theorem headerCrc_withChecksums :
    headerCrc (withChecksums image x y) = headerCrc (withChecksums image 0 y) := by
  apply crc32WithZeroRange_congr
  intro i hi
  unfold kernelHeaderCrcOffset at hi
  simp only [withChecksums, storeLE, kernelHeaderCrcOffset, Nat.zero_add]
  rw [if_neg (show ¬ (0x58 ≤ i ∧ i < 0x58 + 4) by omega),
    if_neg (show ¬ (0x58 ≤ i ∧ i < 0x58 + 4) by omega)]

theorem payloadCrc_withChecksums :
    payloadCrc (withChecksums image x y) size = payloadCrc image size := by
  apply crc32WithZeroRange_congr
  intro i _
  exact withChecksums_of_not (by unfold kernelHeaderSize; omega)

/-- `cvm_kernel_image_finalize` stores both checksums. -/
theorem cvmKernelImageFinalize_eq (hsize : kernelHeaderSize ≤ size)
    (hfile : (cvmKernelHeaderDecode image).imageFileSize = size)
    (hheader : (cvmKernelHeaderDecode image).headerSize = kernelHeaderSize) :
    cvmKernelImageFinalize image size = .ok (withChecksums image
      (headerCrc (withChecksums image 0 (payloadCrc image size))) (payloadCrc image size)) := by
  have hfirst := cvmKernelHeaderEncode_eq image image 0 (payloadCrc image size) fun _ _ => rfl
  have hsecond := cvmKernelHeaderEncode_eq (withChecksums image 0 (payloadCrc image size)) image
    (headerCrc (withChecksums image 0 (payloadCrc image size))) (payloadCrc image size)
    fun p hp => withChecksums_of_not (by unfold kernelHeaderSize at hp; omega)
  simp only [cvmKernelImageFinalize, check_bind_eq_ok, failIf_eq_ok, pure_eq_ok]
  refine ⟨by omega, by simp [hfile, hheader], ?_⟩
  rw [← hsecond, ← hfirst]
  rfl

/-! ## What the rules establish -/

/-- What is accepted is well formed: the bytes of the segments' files are in the image behind the
    table; the segments do not wrap around and are apart from each other; the entry is in one that
    is executable; and in a relocatable image physical and virtual addresses differ by
    `virtual_base`, and the segments are in the virtual image. -/
structure WellFormed (size : Nat) (header : CvmKernelHeader) (segments : Nat → CvmKernelSegment) :
    Prop where
  file : ∀ i < header.segmentCount, ∀ p, (segments i).fileOffset ≤ p →
    p < (segments i).fileOffset + (segments i).fileSize → header.tableEnd ≤ p ∧ p < size
  noWrap : ∀ i < header.segmentCount, (segments i).loadAddress + (segments i).memorySize < 2 ^ 64 ∧
    (segments i).virtualAddress + (segments i).memorySize < 2 ^ 64
  apart : ∀ j < header.segmentCount, ∀ i < j,
    ((segments i).loadAddress + (segments i).memorySize ≤ (segments j).loadAddress ∨
      (segments j).loadAddress + (segments j).memorySize ≤ (segments i).loadAddress) ∧
    ((segments i).virtualAddress + (segments i).memorySize ≤ (segments j).virtualAddress ∨
      (segments j).virtualAddress + (segments j).memorySize ≤ (segments i).virtualAddress)
  entry : ∃ i < header.segmentCount, (segments i).flags &&& 4 ≠ 0 ∧
    (segments i).loadAddress ≤ header.entryPhysicalAddress ∧
    header.entryPhysicalAddress < (segments i).loadAddress + (segments i).memorySize ∧
    (header.Relocatable → (segments i).virtualAddress ≤ header.entryVirtualAddress ∧
      header.entryVirtualAddress < (segments i).virtualAddress + (segments i).memorySize)
  relocatable : header.Relocatable →
    header.entryVirtualAddress = header.entryPhysicalAddress + header.virtualBase ∧
    ∀ i < header.segmentCount,
      (segments i).virtualAddress = (segments i).loadAddress + header.virtualBase ∧
      header.virtualBase ≤ (segments i).virtualAddress ∧
      (segments i).virtualAddress + (segments i).memorySize ≤
        header.virtualBase + header.virtualSize

theorem WellFormed.of_ok {segments : Nat → CvmKernelSegment}
    (haddress : addressRules header = .ok ())
    (hsegments : segmentTableRules size header segments = .ok ()) :
    WellFormed size header segments := by
  obtain ⟨found, hloop, hentry⟩ := bind_eq_ok.mp hsegments
  obtain ⟨hrules, rfl⟩ := foldlM_eq_ok.mp hloop
  simp only [failIf_eq_ok, Bool.false_or, Bool.not_eq_false, List.any_eq_true,
    List.mem_range] at hentry
  simp only [List.mem_range, segmentRules, check_bind_eq_ok, failIf_eq_ok, forM_eq_ok, not_or,
    not_and, not_lt, ne_eq, not_not] at hrules
  have hreloc : header.Relocatable →
      header.entryVirtualAddress = header.entryPhysicalAddress + header.virtualBase := by
    intro hr
    rw [addressRules, if_pos hr, failIf_eq_ok] at haddress
    omega
  constructor
  · intro i hi p hle hlt
    obtain ⟨-, -, -, -, -, hfile, -⟩ := hrules i hi
    have hrange := hfile (by omega)
    omega
  · intro i hi
    obtain ⟨-, ⟨hmemory, -⟩, hload, hvirtual, -⟩ := hrules i hi
    unfold uint64Max at hload hvirtual
    omega
  · intro j hj i hij
    obtain ⟨-, -, -, -, -, -, hothers⟩ := hrules j hj
    have hother := hothers i hij
    omega
  · obtain ⟨i, hi, hholds⟩ := hentry
    obtain ⟨-, -, -, -, hinside, -⟩ := hrules i hi
    simp only [holdsEntry, decide_eq_true_eq] at hholds
    refine ⟨i, hi, hholds.1, ?_⟩
    by_cases hr : header.Relocatable
    · -- the entry was looked for among the virtual addresses
      have hshift := hreloc hr
      have hsegment := hinside hr
      rw [if_pos hr, if_pos hr] at hholds
      omega
    · rw [if_neg hr, if_neg hr] at hholds
      exact ⟨hholds.2.1, hholds.2.2, fun h => absurd h hr⟩
  · intro hr
    refine ⟨hreloc hr, fun i hi => ?_⟩
    obtain ⟨-, -, -, -, hinside, -⟩ := hrules i hi
    have hsegment := hinside hr
    omega

theorem validateWith_eq_ok {checksums : Except Failure Unit} :
    validateWith checksums image size = .ok header ↔ kernelHeaderSize ≤ size ∧
      headerRules size header = .ok () ∧ checksums = .ok () ∧ addressRules header = .ok () ∧
      segmentTableRules size header (segmentAt image header) = .ok () ∧
      cvmKernelHeaderDecode image = header := by
  simp only [validateWith, check_bind_eq_ok, failIf_eq_ok, pure_eq_ok, not_lt]
  constructor <;> rintro ⟨hsize, hheader, hchecksums, haddress, hsegments, rfl⟩ <;>
    exact ⟨hsize, hheader, hchecksums, haddress, hsegments, rfl⟩

/-- The other rules do not look at the checksums. -/
theorem validateWith_checksums {checksums : Except Failure Unit} (x y : Nat)
    (h : validateWith (.ok ()) image size = .ok header) (hchecksums : checksums = .ok ())
    (hdecode : cvmKernelHeaderDecode image' = { header with headerCrc32 := x, payloadCrc32 := y })
    (htable : segmentAt image' header = segmentAt image header) :
    validateWith checksums image' size =
      .ok { header with headerCrc32 := x, payloadCrc32 := y } := by
  obtain ⟨hsize, hheader, -, haddress, hsegments, -⟩ := validateWith_eq_ok.mp h
  rw [← htable] at hsegments
  exact validateWith_eq_ok.mpr ⟨hsize, hheader, hchecksums, haddress, hsegments, hdecode⟩

/-- With the right checksums an image that keeps the other rules is accepted. -/
theorem cvmKernelImageValidate_of_structure (h : validateStructure image size = .ok header)
    (hx : x = headerCrc (withChecksums image 0 (payloadCrc image size)))
    (hy : y = payloadCrc image size) :
    cvmKernelImageValidate (withChecksums image x y) size = .ok { header with
      headerCrc32 := x.toNat
      payloadCrc32 := y.toNat } := by
  obtain ⟨-, hheader, -, -, -, hdecode⟩ := validateWith_eq_ok.mp h
  have hoffset : kernelHeaderSize ≤ header.segmentTableOffset := by
    simp only [headerRules, check_bind_eq_ok, failIf_eq_ok] at hheader
    omega
  have hdecode' := cvmKernelHeaderDecode_withChecksums (x := x) (y := y) hdecode
  refine validateWith_checksums x.toNat y.toNat h ?_ hdecode' ?_
  · rw [checksumRules, hdecode', headerCrc_withChecksums, payloadCrc_withChecksums]
    simp [hx, hy]
  · -- the table stands behind the header
    funext i
    have hload : ∀ k n, loadLE (withChecksums image x y)
        (header.segmentTableOffset + i * kernelSegmentSize + k) n =
        loadLE image (header.segmentTableOffset + i * kernelSegmentSize + k) n :=
      fun k n => loadLE_congr fun p _ _ => withChecksums_of_not (by
        unfold kernelHeaderSize at hoffset
        omega)
    simp only [segmentAt, cvmKernelSegmentDecode, hload]

/-- Whatever `cvm_kernel_image_validate` accepts is well formed; and if an image keeps all its rules
    but those about the checksums, `cvm_kernel_image_finalize` succeeds, changes the two checksum
    fields only, makes the image an accepted one, and changes nothing when it is called again. -/
theorem kernel_image_valid (image : ByteMemory) (size : Nat) (header : CvmKernelHeader) :
    (cvmKernelImageValidate image size = .ok header →
      WellFormed size header (segmentAt image header)) ∧
    (validateStructure image size = .ok header →
      ∃ image' header', cvmKernelImageFinalize image size = .ok image' ∧
        (∀ p, ¬ (0x58 ≤ p ∧ p < 0x60) → image' p = image p) ∧
        cvmKernelImageValidate image' size = .ok header' ∧
        cvmKernelImageFinalize image' size = .ok image') := by
  constructor
  · intro h
    obtain ⟨-, -, -, haddress, hsegments, -⟩ := validateWith_eq_ok.mp h
    exact .of_ok haddress hsegments
  · intro h
    have hvalid := cvmKernelImageValidate_of_structure h rfl rfl
    obtain ⟨hsize, hheader, -, -, -, rfl⟩ := validateWith_eq_ok.mp h
    simp only [headerRules, check_bind_eq_ok, failIf_eq_ok, not_or, not_not] at hheader
    obtain ⟨-, -, ⟨hsizes, -⟩, -, -, hfile, -⟩ := hheader
    refine ⟨_, _, cvmKernelImageFinalize_eq hsize hfile hsizes,
      fun p hp => withChecksums_of_not hp, hvalid, ?_⟩
    rw [cvmKernelImageFinalize_eq hsize, withChecksums_withChecksums, withChecksums_withChecksums,
      payloadCrc_withChecksums]
    · rw [cvmKernelHeaderDecode_withChecksums rfl]
      exact hfile
    · rw [cvmKernelHeaderDecode_withChecksums rfl]
      exact hsizes

/-- A relocatable kernel: a header, a table of two segments, one with code and one with data, and
    eight bytes of contents for each. -/
def smallKernel : ByteMemory :=
  storeFields (fun _ => 0) 0 [⟨0x00, 8, exfMagic⟩, ⟨0x08, 2, 1⟩, ⟨0x0C, 4, 128⟩, ⟨0x10, 8, 1⟩,
    ⟨0x18, 4, 0x34364152⟩, ⟨0x1C, 4, 1⟩, ⟨0x20, 1, 64⟩, ⟨0x21, 1, 1⟩, ⟨0x22, 2, 2⟩, ⟨0x24, 4, 64⟩,
    ⟨0x28, 8, 128⟩, ⟨0x38, 8, 272⟩, ⟨0x60, 8, 0x40000000⟩, ⟨0x68, 8, 0x40000000⟩,
    ⟨0x70, 8, 0x3000⟩,
    ⟨0x80, 4, 1⟩, ⟨0x84, 4, 5⟩, ⟨0x88, 8, 256⟩, ⟨0x98, 8, 0x40000000⟩, ⟨0xA0, 8, 8⟩,
    ⟨0xA8, 8, 0x1000⟩, ⟨0xB0, 8, 0x1000⟩,
    ⟨0xC0, 4, 1⟩, ⟨0xC4, 4, 3⟩, ⟨0xC8, 8, 264⟩, ⟨0xD0, 8, 0x1000⟩, ⟨0xD8, 8, 0x40001000⟩,
    ⟨0xE0, 8, 8⟩, ⟨0xE8, 8, 0x2000⟩, ⟨0xF0, 8, 0x1000⟩,
    ⟨256, 8, 0x123456789ABCDEF⟩, ⟨264, 8, 42⟩]

theorem kernel_image_valid_smallKernel : ∃ image' header',
    cvmKernelImageFinalize smallKernel 272 = .ok image' ∧ image' 264 = 42 ∧
    cvmKernelImageValidate image' 272 = .ok header' ∧ header'.Relocatable ∧
    WellFormed 272 header' (segmentAt image' header') := by
  obtain ⟨image', header', hfinal, hsame, hvalid, -⟩ :=
    (kernel_image_valid smallKernel 272 (cvmKernelHeaderDecode smallKernel)).2 rfl
  obtain ⟨-, -, -, -, -, rfl⟩ := validateWith_eq_ok.mp hvalid
  have hflags : (cvmKernelHeaderDecode image').flags = 1 :=
    loadLE_congr fun p _ _ => hsame p (by omega)
  refine ⟨image', _, hfinal, hsame 264 (by decide), hvalid, ?_,
    (kernel_image_valid image' 272 _).1 hvalid⟩
  rw [CvmKernelHeader.Relocatable, hflags]
  decide

end RiscMv.Boot
