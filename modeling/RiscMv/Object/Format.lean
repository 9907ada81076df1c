import Mathlib.Data.List.TakeWhile
import RiscMv.ForStd.RecordTable

/-!
# Object files (`tools/object/object_format.c`)

`object_valid`, `cvm_object_write` and `cvm_object_decode`.  Names are C strings, given by the bytes
before the NUL; the data of a section is given by its `file_size` bytes, so a pointer that is NULL
although bytes are expected cannot be built.  Memory allocation and the host's file operations are
assumed to succeed: the result of `cvm_object_write` is the contents of the file.
-/

namespace RiscMv.Object

/-- A C string without its NUL. -/
@[ext]
structure CString where
  bytes : List UInt8
  noNul : 0 ∉ bytes
  deriving DecidableEq

/-- `strlen`. -/
def CString.strlen (s : CString) : Nat := s.bytes.length

/-- `CvmObjectSection`. -/
structure CvmObjectSection where
  name : CString
  flags : UInt32
  alignment : UInt64
  data : List UInt8
  memorySize : UInt64
  deriving DecidableEq

/-- `file_size`. -/
def CvmObjectSection.fileSize (s : CvmObjectSection) : Nat := s.data.length

/-- `CvmObjectSymbol`. -/
structure CvmObjectSymbol where
  name : CString
  sectionIndex : UInt16
  flags : UInt16
  value : UInt64
  size : UInt64
  deriving DecidableEq

/-- `CvmObjectRelocation`. -/
structure CvmObjectRelocation where
  sectionIndex : UInt16
  type : UInt16
  symbolIndex : UInt32
  offset : UInt64
  addend : Int64
  deriving DecidableEq

/-- `CvmObjectFile`. -/
structure CvmObjectFile where
  sections : List CvmObjectSection
  symbols : List CvmObjectSymbol
  relocations : List CvmObjectRelocation
  deriving DecidableEq

/-! ## Constants -/

def headerSize : Nat := 80
def sectionSize : Nat := 48
def symbolSize : Nat := 32
def relocationSize : Nat := 32

/-- `CVM_OBJECT_MAGIC`: `CVMOBJ2` and a NUL. -/
def magic : List UInt8 := [0x43, 0x56, 0x4D, 0x4F, 0x42, 0x4A, 0x32, 0x00]

def version : UInt32 := 2
def maxSections : Nat := 32
def maxSymbols : Nat := 65536
def maxRelocations : Nat := 1048576
def maxSize : Nat := 64 * 1024 * 1024

/-- `SIZE_MAX`. -/
def sizeMax : Nat := 2 ^ 64 - 1

def sectionAlloc : UInt32 := 1
def sectionWrite : UInt32 := 2
def sectionExecute : UInt32 := 4
def sectionNobits : UInt32 := 8

def symbolGlobal : UInt16 := 1
def symbolDefined : UInt16 := 2
def symbolEntry : UInt16 := 4
def symbolWeak : UInt16 := 8
def symbolFunction : UInt16 := 16
def symbolObject : UInt16 := 32
def symbolCommon : UInt16 := 64

def undefinedSection : UInt16 := 0xFFFF
def absoluteSection : UInt16 := 0xFFFE
def commonSection : UInt16 := 0xFFFD

/-! ## Validity -/

/-- `power_of_two`. -/
def powerOfTwo (value : UInt64) : Bool := value != 0 && value &&& (value - 1) == 0

/-- `cvm_object_relocation_width`. -/
def relocationWidth (type : UInt16) : Nat :=
  if type = 1 ∨ type = 3 then 4 else if type = 2 then 8 else 0

/-- The checks of `object_valid` on a section. -/
def sectionValid (s : CvmObjectSection) : Bool :=
  let allowed := sectionAlloc ||| sectionWrite ||| sectionExecute ||| sectionNobits
  let nobits := s.flags &&& sectionNobits ≠ 0
  !decide (s.name.bytes = [] ∨
    ¬ powerOfTwo s.alignment ∨
    s.flags &&& ~~~allowed ≠ 0 ∨
    s.flags &&& sectionAlloc = 0 ∨
    (s.flags &&& sectionWrite ≠ 0 ∧ s.flags &&& sectionExecute ≠ 0) ∨
    s.fileSize > s.memorySize.toNat ∨
    (nobits ∧ s.fileSize ≠ 0))

/-- The memory size of a section of the object. -/
def memorySizeOf (sections : List CvmObjectSection) (index : UInt16) : Nat :=
  (sections[index.toNat]?.map (·.memorySize.toNat)).getD 0

/-- The file size of a section of the object. -/
def fileSizeOf (sections : List CvmObjectSection) (index : UInt16) : Nat :=
  (sections[index.toNat]?.map (·.fileSize)).getD 0

/-- The checks of `object_valid` on a symbol. -/
def symbolValid (sections : List CvmObjectSection) (s : CvmObjectSymbol) : Bool :=
  let allowed := symbolGlobal ||| symbolDefined ||| symbolEntry ||| symbolWeak |||
    symbolFunction ||| symbolObject ||| symbolCommon
  let defined := s.flags &&& symbolDefined ≠ 0
  let common := s.flags &&& symbolCommon ≠ 0
  !decide (s.name.bytes = [] ∨
    s.flags &&& ~~~allowed ≠ 0 ∨
    (s.flags &&& symbolFunction ≠ 0 ∧ s.flags &&& symbolObject ≠ 0) ∨
    (s.flags &&& symbolWeak ≠ 0 ∧ s.flags &&& symbolGlobal = 0) ∨
    (common ∧ (defined ∨ s.flags &&& symbolGlobal = 0 ∨ s.sectionIndex ≠ commonSection ∨
      s.size = 0 ∨ ¬ powerOfTwo s.value)) ∨
    (defined ∧ s.sectionIndex ≠ absoluteSection ∧ s.sectionIndex.toNat ≥ sections.length) ∨
    (¬ defined ∧ ¬ common ∧ s.sectionIndex ≠ undefinedSection) ∨
    (s.flags &&& symbolEntry ≠ 0 ∧ (¬ defined ∨ common)) ∨
    (defined ∧ s.sectionIndex ≠ absoluteSection ∧
      (s.value.toNat > memorySizeOf sections s.sectionIndex ∨
        s.size.toNat > memorySizeOf sections s.sectionIndex - s.value.toNat)))

/-- The checks of `object_valid` on a relocation. -/
def relocationValid (object : CvmObjectFile) (r : CvmObjectRelocation) : Bool :=
  let width := relocationWidth r.type
  !decide (r.sectionIndex.toNat ≥ object.sections.length ∨ width = 0 ∨
    r.symbolIndex.toNat ≥ object.symbols.length ∨
    r.offset.toNat > fileSizeOf object.sections r.sectionIndex ∨
    width > fileSizeOf object.sections r.sectionIndex - r.offset.toNat)

/-- `object_valid`. -/
def objectValid (object : CvmObjectFile) : Bool :=
  !decide (object.sections.length = 0 ∨ object.sections.length > maxSections ∨
      object.symbols.length > maxSymbols ∨ object.relocations.length > maxRelocations) &&
    object.sections.all sectionValid &&
    object.symbols.all (symbolValid object.sections) &&
    object.relocations.all (relocationValid object)

/-! ## Numbers in the image -/

def writeU16 (m : ByteMemory) (a : Nat) (value : UInt16) : ByteMemory := storeLE m a 2 value.toNat
def writeU32 (m : ByteMemory) (a : Nat) (value : UInt32) : ByteMemory := storeLE m a 4 value.toNat
def writeU64 (m : ByteMemory) (a : Nat) (value : UInt64) : ByteMemory := storeLE m a 8 value.toNat
def readU16 (m : ByteMemory) (a : Nat) : UInt16 := (loadLE m a 2).toUInt16
def readU32 (m : ByteMemory) (a : Nat) : UInt32 := (loadLE m a 4).toUInt32
def readU64 (m : ByteMemory) (a : Nat) : UInt64 := (loadLE m a 8).toUInt64

/-- `add_size`. -/
def addSize (left right : Nat) : Option Nat :=
  if left > sizeMax - right then none else some (left + right)

/-- `multiply_size`. -/
def multiplySize (left right : Nat) : Option Nat :=
  if left ≠ 0 ∧ right > sizeMax / left then none else some (left * right)

/-- `range_valid`. -/
def rangeValid (size : Nat) (offset length : UInt64) : Bool :=
  offset.toNat ≤ size && length.toNat ≤ size - offset.toNat

/-! ## Writing -/

/-- The section loop of `cvm_object_write`. -/
def writeSection (stringOffset entry : Nat) (s : CvmObjectSection) (w : Writer) : Writer :=
  let data := writeU32 w.data (entry + 0x00) (w.stringCursor - stringOffset).toUInt32
  let data := writeU32 data (entry + 0x04) s.flags
  let data := writeU64 data (entry + 0x08) s.alignment
  let data := writeU64 data (entry + 0x10) w.fileCursor.toUInt64
  let data := writeU64 data (entry + 0x18) s.fileSize.toUInt64
  let data := writeU64 data (entry + 0x20) s.memorySize
  let data := storeBytes data w.stringCursor (s.name.bytes ++ [0])
  let stringCursor := w.stringCursor + (s.name.strlen + 1)
  if s.fileSize ≠ 0 then
    ⟨storeBytes data w.fileCursor s.data, stringCursor, w.fileCursor + s.fileSize⟩
  else ⟨data, stringCursor, w.fileCursor⟩

/-- The symbol loop of `cvm_object_write`. -/
def writeSymbol (stringOffset entry : Nat) (s : CvmObjectSymbol) (w : Writer) : Writer :=
  let data := writeU32 w.data (entry + 0x00) (w.stringCursor - stringOffset).toUInt32
  let data := writeU16 data (entry + 0x04) s.sectionIndex
  let data := writeU16 data (entry + 0x06) s.flags
  let data := writeU64 data (entry + 0x08) s.value
  let data := writeU64 data (entry + 0x10) s.size
  let data := storeBytes data w.stringCursor (s.name.bytes ++ [0])
  ⟨data, w.stringCursor + (s.name.strlen + 1), w.fileCursor⟩

/-- The relocation loop of `cvm_object_write`. -/
def writeRelocation (entry : Nat) (r : CvmObjectRelocation) (w : Writer) : Writer :=
  let data := writeU16 w.data (entry + 0x00) r.sectionIndex
  let data := writeU16 data (entry + 0x02) r.type
  let data := writeU32 data (entry + 0x04) r.symbolIndex
  let data := writeU64 data (entry + 0x08) r.offset
  let data := writeU64 data (entry + 0x10) r.addend.toUInt64
  { w with data := data }

/-- The places of the tables in the image. -/
structure Layout where
  sectionBytes : Nat
  symbolBytes : Nat
  relocationBytes : Nat
  stringOffset : Nat
  stringSize : Nat
  size : Nat

/-- The sizes of the three tables and where the strings start. -/
def tableSizes (object : CvmObjectFile) : Option (Nat × Nat × Nat × Nat) := do
  let sectionBytes ← multiplySize object.sections.length sectionSize
  let symbolBytes ← multiplySize object.symbols.length symbolSize
  let relocationBytes ← multiplySize object.relocations.length relocationSize
  let cursor ← addSize headerSize sectionBytes
  let cursor ← addSize cursor symbolBytes
  let cursor ← addSize cursor relocationBytes
  return (sectionBytes, symbolBytes, relocationBytes, cursor)

/-- The loops that add up sizes. -/
def addSizes (cursor : Nat) (sizes : List Nat) : Option Nat := sizes.foldlM addSize cursor

/-- The size computation of `cvm_object_write`. -/
def layout (object : CvmObjectFile) : Except String Layout :=
  match tableSizes object with
  | none => .error "object table size overflow"
  | some (sectionBytes, symbolBytes, relocationBytes, stringOffset) =>
    match addSizes stringOffset (object.sections.map (·.name.strlen + 1) ++
        object.symbols.map (·.name.strlen + 1)) with
    | none => .error "object string table overflow"
    | some fileOffset =>
      match addSizes fileOffset (object.sections.map (·.fileSize)) with
      | none => .error "object section data overflow"
      | some cursor =>
        if cursor > maxSize then .error "object exceeds maximum size"
        else .ok ⟨sectionBytes, symbolBytes, relocationBytes, stringOffset,
          fileOffset - stringOffset, cursor⟩

/-- The header that `cvm_object_write` stores. -/
def writeHeader (object : CvmObjectFile) (l : Layout) : ByteMemory :=
  let data := storeBytes (fun _ => 0) 0 magic
  let data := writeU32 data 0x08 version
  let data := writeU32 data 0x0C object.sections.length.toUInt32
  let data := writeU32 data 0x10 object.symbols.length.toUInt32
  let data := writeU32 data 0x14 object.relocations.length.toUInt32
  let data := writeU64 data 0x18 headerSize.toUInt64
  let data := writeU64 data 0x20 (headerSize + l.sectionBytes).toUInt64
  let data := writeU64 data 0x28 (headerSize + l.sectionBytes + l.symbolBytes).toUInt64
  let data := writeU64 data 0x30 l.stringOffset.toUInt64
  let data := writeU64 data 0x38 l.stringSize.toUInt64
  writeU64 data 0x40 l.size.toUInt64

/-- The image that `cvm_object_write` builds. -/
def writeImage (object : CvmObjectFile) (l : Layout) : ByteMemory :=
  let w : Writer := ⟨writeHeader object l, l.stringOffset, l.stringOffset + l.stringSize⟩
  let w := writeTable (writeSection l.stringOffset) sectionSize headerSize object.sections w
  let w := writeTable (writeSymbol l.stringOffset) symbolSize (headerSize + l.sectionBytes)
    object.symbols w
  let w := writeTable writeRelocation relocationSize
    (headerSize + l.sectionBytes + l.symbolBytes) object.relocations w
  w.data

/-- `cvm_object_write`: the contents of the file. -/
def cvmObjectWrite (object : CvmObjectFile) : Except String (List UInt8) :=
  if ¬ objectValid object then .error "invalid object data"
  else (layout object).map fun l => bytesAt (writeImage object l) 0 l.size

/-! ## Decoding -/

/-- `memchr` for a NUL: its distance from the start. -/
def memchr (m : ByteMemory) (start maximum : Nat) : Option Nat :=
  (List.range maximum).find? fun i => m (start + i) == 0

/-- The C string that starts with the given bytes. -/
def copyString (text : List UInt8) : CString where
  bytes := text.takeWhile (· != 0)
  noNul h := by simpa using List.mem_takeWhile_imp h

/-- `read_name`. -/
def readName (m : ByteMemory) (fileSize stringOffset stringSize : Nat) (relative : UInt32) :
    Option CString :=
  if relative.toNat ≥ stringSize then none
  else
    let start := stringOffset + relative.toNat
    let maximum := stringSize - relative.toNat
    match memchr m start maximum with
    | none => none
    | some length =>
      if length = 0 ∨ start + length ≥ fileSize then none
      else some (copyString (bytesAt m start length))

/-- The section loop of `cvm_object_decode`. -/
def decodeSection (m : ByteMemory) (size stringOffset stringSize entry : Nat) :
    Option CvmObjectSection :=
  let dataOffset := readU64 m (entry + 0x10)
  let fileSize := readU64 m (entry + 0x18)
  match readName m size stringOffset stringSize (readU32 m (entry + 0x00)) with
  | none => none
  | some name =>
    if ¬ rangeValid size dataOffset fileSize ∨ fileSize.toNat > sizeMax then none
    else some {
      name := name
      flags := readU32 m (entry + 0x04)
      alignment := readU64 m (entry + 0x08)
      data := bytesAt m dataOffset.toNat fileSize.toNat
      memorySize := readU64 m (entry + 0x20) }

/-- The symbol loop of `cvm_object_decode`. -/
def decodeSymbol (m : ByteMemory) (size stringOffset stringSize entry : Nat) :
    Option CvmObjectSymbol :=
  (readName m size stringOffset stringSize (readU32 m (entry + 0x00))).map fun name => {
    name := name
    sectionIndex := readU16 m (entry + 0x04)
    flags := readU16 m (entry + 0x06)
    value := readU64 m (entry + 0x08)
    size := readU64 m (entry + 0x10) }

/-- The relocation loop of `cvm_object_decode`. -/
def decodeRelocation (m : ByteMemory) (entry : Nat) : CvmObjectRelocation where
  sectionIndex := readU16 m (entry + 0x00)
  type := readU16 m (entry + 0x02)
  symbolIndex := readU32 m (entry + 0x04)
  offset := readU64 m (entry + 0x08)
  addend := (readU64 m (entry + 0x10)).toInt64

/-- The numbers in the header. -/
structure Header where
  sectionCount : UInt32
  symbolCount : UInt32
  relocationCount : UInt32
  sectionOffset : UInt64
  symbolOffset : UInt64
  relocationOffset : UInt64
  stringOffset : UInt64
  stringSize : UInt64
  encodedSize : UInt64

def readHeader (m : ByteMemory) : Header where
  sectionCount := readU32 m 0x0C
  symbolCount := readU32 m 0x10
  relocationCount := readU32 m 0x14
  sectionOffset := readU64 m 0x18
  symbolOffset := readU64 m 0x20
  relocationOffset := readU64 m 0x28
  stringOffset := readU64 m 0x30
  stringSize := readU64 m 0x38
  encodedSize := readU64 m 0x40

/-- Whether a table of `count` entries lies in the file. -/
def tableValid (size : Nat) (offset : UInt64) (count : UInt32) (stride : Nat) : Bool :=
  match multiplySize count.toNat stride with
  | none => false
  | some bytes => rangeValid size offset bytes.toUInt64

/-- The checks of `cvm_object_decode` on the header. -/
def headerValid (m : ByteMemory) (size : Nat) (h : Header) : Bool :=
  !decide (bytesAt m 0 8 ≠ magic ∨ readU32 m 0x08 ≠ version ∨ h.encodedSize.toNat ≠ size ∨
    h.sectionCount = 0 ∨ h.sectionCount.toNat > maxSections ∨
    h.symbolCount.toNat > maxSymbols ∨ h.relocationCount.toNat > maxRelocations ∨
    ¬ tableValid size h.sectionOffset h.sectionCount sectionSize ∨
    ¬ tableValid size h.symbolOffset h.symbolCount symbolSize ∨
    ¬ tableValid size h.relocationOffset h.relocationCount relocationSize ∨
    ¬ rangeValid size h.stringOffset h.stringSize ∨
    h.stringOffset.toNat > sizeMax ∨ h.stringSize.toNat > sizeMax)

/-- The tables of an object whose header was accepted. -/
def decodeTables (m : ByteMemory) (size : Nat) (h : Header) : Except String CvmObjectFile :=
  let stringOffset := h.stringOffset.toNat
  let stringSize := h.stringSize.toNat
  match readTable (decodeSection m size stringOffset stringSize) sectionSize
      h.sectionOffset.toNat h.sectionCount.toNat with
  | none => .error "invalid object section"
  | some sections =>
    match readTable (decodeSymbol m size stringOffset stringSize) symbolSize
        h.symbolOffset.toNat h.symbolCount.toNat with
    | none => .error "invalid object symbol"
    | some symbols =>
      .ok ⟨sections, symbols, (List.range h.relocationCount.toNat).map fun i =>
        decodeRelocation m (h.relocationOffset.toNat + i * relocationSize)⟩

/-- `cvm_object_decode`. -/
def cvmObjectDecode (contents : List UInt8) : Except String CvmObjectFile :=
  let size := contents.length
  if size < headerSize ∨ size > maxSize then .error "invalid object data size"
  else
    let m : ByteMemory := fun i => contents.getD i 0
    let h := readHeader m
    if ¬ headerValid m size h then .error "invalid object header or tables"
    else
      match decodeTables m size h with
      | .error e => .error e
      | .ok object =>
        if ¬ objectValid object then .error "object contents violate format rules"
        else .ok object

end RiscMv.Object
