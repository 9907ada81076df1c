import RiscMv.Object.Format

/-!
# Object files are read back as they were written

Each kind of record (sections, symbols, relocations) is a `RecordKind`: what stands in the image
after `cvm_object_write` wrote it, and is read from there by `cvm_object_decode`.

## Key results
- `writeSection_eq`, `decodeSection_eq` and the like: one record
- `writeImage_holds`: the whole image
- `object_round_trip`: writing and decoding
-/

namespace RiscMv.Object

open RecordKind

variable {m m' : ByteMemory} {a b n size stringOffset stringSize nameAt entry dataAt : Nat}
  {object : CvmObjectFile} {l : Layout}

/-! ## Numbers -/

theorem toUInt16_mod (v : UInt16) : (v.toNat % 256 ^ 2).toUInt16 = v := by
  have hlt : v.toNat < 256 ^ 2 := v.toNat_lt
  rw [Nat.mod_eq_of_lt hlt]
  exact UInt16.ofNat_toNat

theorem toUInt32_mod (v : UInt32) : (v.toNat % 256 ^ 4).toUInt32 = v := by
  have hlt : v.toNat < 256 ^ 4 := v.toNat_lt
  rw [Nat.mod_eq_of_lt hlt]
  exact UInt32.ofNat_toNat

theorem toUInt64_mod (v : UInt64) : (v.toNat % 256 ^ 8).toUInt64 = v := by
  have hlt : v.toNat < 256 ^ 8 := v.toNat_lt
  rw [Nat.mod_eq_of_lt hlt]
  exact UInt64.ofNat_toNat

theorem toNat_toUInt32 (h : n < 2 ^ 32) : n.toUInt32.toNat = n :=
  UInt32.toNat_ofNat_of_lt h

theorem toNat_toUInt64 (h : n < 2 ^ 64) : n.toUInt64.toNat = n :=
  UInt64.toNat_ofNat_of_lt h

theorem readU16_eq {v : UInt16} (h : loadLE m a 2 = v.toNat % 256 ^ 2) : readU16 m a = v := by
  rw [readU16, h, toUInt16_mod]

theorem readU32_eq {v : UInt32} (h : loadLE m a 4 = v.toNat % 256 ^ 4) : readU32 m a = v := by
  rw [readU32, h, toUInt32_mod]

theorem readU64_eq {v : UInt64} (h : loadLE m a 8 = v.toNat % 256 ^ 8) : readU64 m a = v := by
  rw [readU64, h, toUInt64_mod]

def field16 (offset : Nat) (value : UInt16) : Field := ⟨offset, 2, value.toNat⟩
def field32 (offset : Nat) (value : UInt32) : Field := ⟨offset, 4, value.toNat⟩
def field64 (offset : Nat) (value : UInt64) : Field := ⟨offset, 8, value.toNat⟩

/-! ## Names -/

/-- A name as it stands in the string table. -/
def CString.terminated (s : CString) : List UInt8 := s.bytes ++ [0]

@[simp] theorem CString.terminated_length (s : CString) : s.terminated.length = s.strlen + 1 := by
  simp [terminated, strlen]

/-- The NUL that `memchr` finds is the first one. -/
theorem memchr_eq {start maximum : Nat} (hbefore : ∀ i < n, m (start + i) ≠ 0)
    (hnul : m (start + n) = 0) (hn : n < maximum) : memchr m start maximum = some n := by
  rw [memchr, List.find?_range_eq_some]
  refine ⟨by simp [hnul], List.mem_range.mpr hn, fun j hj => ?_⟩
  simpa using hbefore j hj

/-- A name in the string table is read back. -/
theorem readName_eq {name : CString}
    (hname : bytesAt m nameAt name.terminated.length = name.terminated) (hne : name.bytes ≠ [])
    (hstart : stringOffset ≤ nameAt)
    (hend : nameAt + name.terminated.length ≤ stringOffset + stringSize)
    (hsize : stringOffset + stringSize ≤ size) (hsmall : size < 2 ^ 32) :
    readName m size stringOffset stringSize (nameAt - stringOffset).toUInt32 = some name := by
  rw [CString.terminated_length] at hname hend
  have hzero : ∀ i < name.strlen, m (nameAt + i) ≠ 0 := by
    intro i hi hzero
    have hget := eq_getElem_of_bytesAt (bytesAt_of_append hname) hi
    rw [hzero] at hget
    exact name.noNul (hget ▸ List.getElem_mem hi)
  have hnul : m (nameAt + name.strlen) = 0 := by
    have hget := eq_getElem_of_bytesAt hname (i := name.strlen) (by simp)
    simpa [CString.terminated, CString.strlen] using hget
  have hpos : name.strlen ≠ 0 := fun h => hne (List.length_eq_zero_iff.mp h)
  have hcopy : copyString (bytesAt m nameAt name.strlen) = name := by
    have hbytes : bytesAt m nameAt name.strlen = name.bytes := bytesAt_of_append hname
    have hself : name.bytes.takeWhile (· != 0) = name.bytes := by
      rw [List.takeWhile_eq_self_iff]
      intro x hx
      simpa using ne_of_mem_of_not_mem hx name.noNul
    rw [hbytes]
    exact CString.ext hself
  have hplace : stringOffset + (nameAt - stringOffset) = nameAt := by omega
  rw [readName, toNat_toUInt32 (by omega), hplace, if_neg (by omega)]
  dsimp only
  rw [memchr_eq hzero hnul (by omega)]
  dsimp only
  rw [hcopy, if_neg (by omega)]

/-! ## Sections -/

/-- Sections as records. -/
def sectionKind (stringOffset : Nat) : RecordKind CvmObjectSection where
  stride := sectionSize
  fields nameAt dataAt s := [field32 0x00 (nameAt - stringOffset).toUInt32, field32 0x04 s.flags,
    field64 0x08 s.alignment, field64 0x10 dataAt.toUInt64, field64 0x18 s.fileSize.toUInt64,
    field64 0x20 s.memorySize]
  name s := s.name.terminated
  data s := s.data
  dataSize s := s.fileSize
  packed _ _ _ := by simp [Packed, field32, field64, sectionSize]
  fits _ := Nat.le_refl _

theorem writeSection_eq (stringOffset : Nat) :
    writeSection stringOffset = (sectionKind stringOffset).write := by
  funext entry s w
  unfold writeSection
  simp only [RecordKind.write, sectionKind, CString.terminated_length]
  split
  · rfl
  · next hzero =>
    -- nothing is copied for a section without data
    have hnil : s.data = [] := List.length_eq_zero_iff.mp (not_not.mp hzero)
    simp only [CvmObjectSection.fileSize, hnil, storeBytes_nil]
    rfl

theorem decodeSection_eq {s : CvmObjectSection}
    (h : (sectionKind stringOffset).Holds m entry nameAt dataAt s) (hne : s.name.bytes ≠ [])
    (hstart : stringOffset ≤ nameAt)
    (hname : nameAt + s.name.terminated.length ≤ stringOffset + stringSize)
    (hsize : stringOffset + stringSize ≤ size) (hdata : dataAt + s.fileSize ≤ size)
    (hsmall : size < 2 ^ 32) : decodeSection m size stringOffset stringSize entry = some s := by
  obtain ⟨hrelative, hflags, halignment, hoffset, hfile, hmemory, -⟩ := h.fields
  have hbytes : bytesAt m dataAt s.fileSize = s.data := h.data
  have hvalid : rangeValid size dataAt.toUInt64 s.fileSize.toUInt64 = true := by
    simp only [rangeValid, Bool.and_eq_true, decide_eq_true_eq]
    rw [toNat_toUInt64 (by omega), toNat_toUInt64 (by omega)]
    omega
  rw [decodeSection, readU32_eq hrelative, readName_eq h.name hne hstart hname hsize hsmall,
    readU64_eq hoffset, readU64_eq hfile, readU32_eq hflags, readU64_eq halignment,
    readU64_eq hmemory, toNat_toUInt64 (n := dataAt) (by omega),
    toNat_toUInt64 (n := s.fileSize) (by omega), hbytes]
  simp only [hvalid, not_true_eq_false, false_or]
  rw [if_neg (by unfold sizeMax; omega)]

/-! ## Symbols -/

/-- Symbols as records; they have no data. -/
def symbolKind (stringOffset : Nat) : RecordKind CvmObjectSymbol where
  stride := symbolSize
  fields nameAt _ s := [field32 0x00 (nameAt - stringOffset).toUInt32, field16 0x04 s.sectionIndex,
    field16 0x06 s.flags, field64 0x08 s.value, field64 0x10 s.size]
  name s := s.name.terminated
  data _ := []
  dataSize _ := 0
  packed _ _ _ := by simp [Packed, field16, field32, field64, symbolSize]
  fits _ := Nat.le_refl _

theorem writeSymbol_eq (stringOffset : Nat) :
    writeSymbol stringOffset = (symbolKind stringOffset).write := by
  funext entry s w
  simp only [RecordKind.write, symbolKind, CString.terminated_length, storeBytes_nil]
  rfl

theorem decodeSymbol_eq {s : CvmObjectSymbol}
    (h : (symbolKind stringOffset).Holds m entry nameAt dataAt s) (hne : s.name.bytes ≠ [])
    (hstart : stringOffset ≤ nameAt)
    (hname : nameAt + s.name.terminated.length ≤ stringOffset + stringSize)
    (hsize : stringOffset + stringSize ≤ size) (hsmall : size < 2 ^ 32) :
    decodeSymbol m size stringOffset stringSize entry = some s := by
  obtain ⟨hrelative, hindex, hflags, hvalue, hsymbolSize, -⟩ := h.fields
  rw [decodeSymbol, readU32_eq hrelative, readName_eq h.name hne hstart hname hsize hsmall,
    Option.map_some, readU16_eq hindex, readU16_eq hflags, readU64_eq hvalue,
    readU64_eq hsymbolSize]

/-! ## Relocations -/

/-- Relocations as records; they have neither name nor data. -/
def relocationKind : RecordKind CvmObjectRelocation where
  stride := relocationSize
  fields _ _ r := [field16 0x00 r.sectionIndex, field16 0x02 r.type, field32 0x04 r.symbolIndex,
    field64 0x08 r.offset, field64 0x10 r.addend.toUInt64]
  name _ := []
  data _ := []
  dataSize _ := 0
  packed _ _ _ := by simp [Packed, field16, field32, field64, relocationSize]
  fits _ := Nat.le_refl _

theorem writeRelocation_eq : writeRelocation = relocationKind.write := by
  funext entry r w
  simp only [RecordKind.write, relocationKind, storeBytes_nil]
  rfl

theorem decodeRelocation_eq {r : CvmObjectRelocation}
    (h : relocationKind.Holds m entry nameAt dataAt r) : decodeRelocation m entry = r := by
  obtain ⟨hindex, htype, hsymbol, hoffset, haddend, -⟩ := h.fields
  rw [decodeRelocation, readU16_eq hindex, readU16_eq htype, readU32_eq hsymbol,
    readU64_eq hoffset, readU64_eq haddend]
  rfl

/-! ## Layout -/

/-- The size of the encoding of an object. -/
def encodedSize (object : CvmObjectFile) : Nat :=
  headerSize + sectionSize * object.sections.length + symbolSize * object.symbols.length +
    relocationSize * object.relocations.length +
    ((object.sections.map (·.name.strlen + 1)).sum + (object.symbols.map (·.name.strlen + 1)).sum) +
    (object.sections.map (·.fileSize)).sum

theorem addSizes_eq {cursor : Nat} {sizes : List Nat} (h : cursor + sizes.sum ≤ sizeMax) :
    addSizes cursor sizes = some (cursor + sizes.sum) := by
  induction sizes generalizing cursor with
  | nil => rfl
  | cons n sizes ih =>
    rw [List.sum_cons] at h ⊢
    have hfirst : addSize cursor n = some (cursor + n) := if_neg (by omega)
    have hrest : addSizes (cursor + n) sizes = some (cursor + n + sizes.sum) := ih (by omega)
    rw [addSizes, List.foldlM_cons, hfirst, ← Nat.add_assoc]
    exact hrest

theorem multiplySize_eq {left right : Nat} (h : left * right ≤ sizeMax) :
    multiplySize left right = some (left * right) := by
  apply if_neg
  rintro ⟨hpos, hgt⟩
  have hle : right ≤ sizeMax / left :=
    (Nat.le_div_iff_mul_le (Nat.pos_of_ne_zero hpos)).mpr (Nat.mul_comm left right ▸ h)
  omega

/-- Where the parts of an object are. -/
structure LayoutOf (object : CvmObjectFile) (l : Layout) : Prop where
  sectionBytes : l.sectionBytes = sectionSize * object.sections.length
  symbolBytes : l.symbolBytes = symbolSize * object.symbols.length
  relocationBytes : l.relocationBytes = relocationSize * object.relocations.length
  stringOffset : l.stringOffset =
    headerSize + l.sectionBytes + l.symbolBytes + l.relocationBytes
  stringSize : l.stringSize = (sectionKind l.stringOffset).names object.sections +
    (symbolKind l.stringOffset).names object.symbols
  size : l.size = l.stringOffset + l.stringSize + (sectionKind l.stringOffset).datas object.sections
  small : l.size ≤ maxSize

theorem sectionKind_names (stringOffset : Nat) (sections : List CvmObjectSection) :
    (sectionKind stringOffset).names sections = (sections.map (·.name.strlen + 1)).sum := by
  simp [names, sectionKind]

theorem symbolKind_names (stringOffset : Nat) (symbols : List CvmObjectSymbol) :
    (symbolKind stringOffset).names symbols = (symbols.map (·.name.strlen + 1)).sum := by
  simp [names, symbolKind]

/-- An object whose encoding is small enough has a layout. -/
theorem layout_eq (h : encodedSize object ≤ maxSize) :
    ∃ l, layout object = .ok l ∧ LayoutOf object l := by
  have hmax : maxSize = 67108864 := rfl
  have hsize : sizeMax = 18446744073709551615 := rfl
  unfold encodedSize at h
  have htables : tableSizes object = some (object.sections.length * sectionSize,
      object.symbols.length * symbolSize, object.relocations.length * relocationSize,
      headerSize + object.sections.length * sectionSize + object.symbols.length * symbolSize +
        object.relocations.length * relocationSize) := by
    rw [Nat.mul_comm sectionSize, Nat.mul_comm symbolSize, Nat.mul_comm relocationSize] at h
    rw [tableSizes, multiplySize_eq (by omega), multiplySize_eq (by omega),
      multiplySize_eq (by omega)]
    simp only [Option.bind_eq_bind, Option.bind_some]
    rw [addSize, if_neg (by omega), Option.bind_some, addSize, if_neg (by omega),
      Option.bind_some, addSize, if_neg (by omega)]
    rfl
  rw [Nat.mul_comm sectionSize, Nat.mul_comm symbolSize, Nat.mul_comm relocationSize] at h
  rw [layout, htables]
  dsimp only
  rw [addSizes_eq (by rw [List.sum_append]; omega)]
  dsimp only
  rw [List.sum_append, addSizes_eq (by omega)]
  dsimp only
  rw [if_neg (by omega)]
  refine ⟨_, rfl, Nat.mul_comm _ _, Nat.mul_comm _ _, Nat.mul_comm _ _, rfl, ?_, ?_, ?_⟩
  · rw [sectionKind_names, symbolKind_names]
    exact Nat.add_sub_cancel_left _ _
  · simp only [Nat.add_sub_cancel_left]
    rfl
  · dsimp only
    omega

/-! ## The image -/

/-- The numbers of the header. -/
def headerFields (object : CvmObjectFile) (l : Layout) : List Field :=
  [field32 0x08 version, field32 0x0C object.sections.length.toUInt32,
    field32 0x10 object.symbols.length.toUInt32, field32 0x14 object.relocations.length.toUInt32,
    field64 0x18 headerSize.toUInt64, field64 0x20 (headerSize + l.sectionBytes).toUInt64,
    field64 0x28 (headerSize + l.sectionBytes + l.symbolBytes).toUInt64,
    field64 0x30 l.stringOffset.toUInt64, field64 0x38 l.stringSize.toUInt64,
    field64 0x40 l.size.toUInt64]

theorem headerFields_packed (object : CvmObjectFile) (l : Layout) :
    Packed headerSize 8 (headerFields object l) := by
  simp [Packed, headerFields, field32, field64, headerSize]

/-- The header stands in the image. -/
structure HeaderAt (object : CvmObjectFile) (l : Layout) (m : ByteMemory) : Prop where
  magic : bytesAt m 0 8 = magic
  fields : FieldsAt m 0 (headerFields object l)

theorem writeHeader_at (object : CvmObjectFile) (l : Layout) :
    HeaderAt object l (writeHeader object l) where
  magic := by
    have hframe : bytesAt (writeHeader object l) 0 8 =
        bytesAt (storeBytes (fun _ => 0) 0 Object.magic) 0 8 :=
      bytesAt_congr fun p _ hp => storeFields_of_not (headerFields_packed object l) (by omega)
    rw [hframe]
    exact bytesAt_storeBytes _ 0 Object.magic
  fields := fieldsAt_storeFields _ (headerFields_packed object l)

theorem HeaderAt.congr (h : HeaderAt object l m) (heq : ∀ p < headerSize, m' p = m p) :
    HeaderAt object l m' where
  magic := by
    rw [bytesAt_congr fun p _ hp => heq p (by unfold headerSize; omega)]
    exact h.magic
  fields := h.fields.congr (headerFields_packed object l) fun p _ hp => heq p (by omega)

/-- What is read from the header. -/
theorem HeaderAt.read (h : HeaderAt object l m) :
    readU32 m 0x08 = version ∧ readHeader m = {
      sectionCount := object.sections.length.toUInt32
      symbolCount := object.symbols.length.toUInt32
      relocationCount := object.relocations.length.toUInt32
      sectionOffset := headerSize.toUInt64
      symbolOffset := (headerSize + l.sectionBytes).toUInt64
      relocationOffset := (headerSize + l.sectionBytes + l.symbolBytes).toUInt64
      stringOffset := l.stringOffset.toUInt64
      stringSize := l.stringSize.toUInt64
      encodedSize := l.size.toUInt64 } := by
  obtain ⟨hversion, hsec, hsym, hrel, hsecAt, hsymAt, hrelAt, hstrAt, hstr, hsize, -⟩ := h.fields
  refine ⟨readU32_eq hversion, ?_⟩
  rw [readHeader, readU32_eq hsec, readU32_eq hsym, readU32_eq hrel, readU64_eq hsecAt,
    readU64_eq hsymAt, readU64_eq hrelAt, readU64_eq hstrAt, readU64_eq hstr, readU64_eq hsize]

/-- The object stands in memory. -/
structure ImageOf (object : CvmObjectFile) (l : Layout) (m : ByteMemory) : Prop where
  header : HeaderAt object l m
  sections : (sectionKind l.stringOffset).TableHolds m headerSize l.stringOffset
    (l.stringOffset + l.stringSize) object.sections
  symbols : (symbolKind l.stringOffset).TableHolds m (headerSize + l.sectionBytes)
    (l.stringOffset + (sectionKind l.stringOffset).names object.sections) l.size object.symbols
  relocations : relocationKind.TableHolds m (headerSize + l.sectionBytes + l.symbolBytes)
    (l.stringOffset + l.stringSize) l.size object.relocations

theorem symbolKind_datas (stringOffset : Nat) (symbols : List CvmObjectSymbol) :
    (symbolKind stringOffset).datas symbols = 0 := datas_eq_zero (fun _ => rfl) symbols

theorem relocationKind_names (relocations : List CvmObjectRelocation) :
    relocationKind.names relocations = 0 := names_eq_zero (fun _ => rfl) relocations

theorem relocationKind_datas (relocations : List CvmObjectRelocation) :
    relocationKind.datas relocations = 0 := datas_eq_zero (fun _ => rfl) relocations

theorem ImageOf.congr (hl : LayoutOf object l) (h : ImageOf object l m)
    (heq : ∀ p < l.size, m' p = m p) : ImageOf object l m' := by
  obtain ⟨hsec, hsym, hrel, hstr, hnames, hsize, -⟩ := hl
  have hstride : (sectionKind l.stringOffset).stride = sectionSize := rfl
  have hstride' : (symbolKind l.stringOffset).stride = symbolSize := rfl
  have hstride'' : relocationKind.stride = relocationSize := rfl
  exact {
    header := h.header.congr fun p hp => heq p (by omega)
    sections := h.sections.congr fun p hp => heq p (by
      by_contra hge
      apply hp
      rw [hstride]
      unfold Outside
      omega)
    symbols := h.symbols.congr fun p hp => heq p (by
      by_contra hge
      apply hp
      rw [hstride', symbolKind_datas]
      unfold Outside
      omega)
    relocations := h.relocations.congr fun p hp => heq p (by
      by_contra hge
      apply hp
      rw [hstride'', relocationKind_datas, relocationKind_names]
      unfold Outside
      omega) }

/-- `cvm_object_write` builds an image of the object. -/
theorem writeImage_holds (hl : LayoutOf object l) : ImageOf object l (writeImage object l) := by
  obtain ⟨hsec, hsym, hrel, hstr, hnames, hsize, hsmall⟩ := hl
  have hdatas := symbolKind_datas l.stringOffset object.symbols
  have hstride : (sectionKind l.stringOffset).stride = sectionSize := rfl
  have hstride' : (symbolKind l.stringOffset).stride = symbolSize := rfl
  have hstride'' : relocationKind.stride = relocationSize := rfl
  unfold writeImage
  dsimp only
  -- the three loops, one after the other
  rw [writeSection_eq, writeSymbol_eq, writeRelocation_eq]
  have h₁ := writeTable_written (K := sectionKind l.stringOffset) headerSize object.sections
    ⟨writeHeader object l, l.stringOffset, l.stringOffset + l.stringSize⟩
  rw [hstride] at h₁
  generalize writeTable (sectionKind l.stringOffset).write _ _ _ _ = w₁ at h₁ ⊢
  have h₂ := writeTable_written (K := symbolKind l.stringOffset) (headerSize + l.sectionBytes)
    object.symbols w₁
  rw [hstride'] at h₂
  generalize writeTable (symbolKind l.stringOffset).write _ _ _ _ = w₂ at h₂ ⊢
  have h₃ := writeTable_written (K := relocationKind)
    (headerSize + l.sectionBytes + l.symbolBytes) object.relocations w₂
  rw [hstride''] at h₃
  generalize writeTable relocationKind.write _ _ _ _ = w₃ at h₃ ⊢
  have hs₁ := h₁.stringCursor
  have hf₁ := h₁.fileCursor
  have hs₂ := h₂.stringCursor
  have hf₂ := h₂.fileCursor
  dsimp only at hs₁ hf₁
  have hframe₁ := h₁.frame
  have hframe₂ := h₂.frame
  have hframe₃ := h₃.frame
  dsimp only [Outside] at hframe₁
  rw [hstride] at hframe₁
  rw [hstride', hs₁, hf₁, hdatas] at hframe₂
  rw [hstride'', relocationKind_names, relocationKind_datas] at hframe₃
  have hlater : ∀ p, (p < headerSize + l.sectionBytes ∨ l.stringOffset ≤ p) →
      (p < l.stringOffset + (sectionKind l.stringOffset).names object.sections ∨
        l.stringOffset + l.stringSize ≤ p) → w₃.data p = w₁.data p := by
    intro p hp hp'
    rw [hframe₃ p, hframe₂ p]
    · unfold Outside
      omega
    · unfold Outside
      omega
  exact {
    header := (writeHeader_at object l).congr fun p hp => by
      rw [hlater p (by omega) (by omega), hframe₁ p (by omega)]
    sections := by
      refine TableHolds.congr (h₁.holds (by dsimp only; rw [hstride]; omega)
        (by dsimp only; omega)) fun p hp => ?_
      rw [hstride] at hp
      unfold Outside at hp
      exact hlater p (by omega) (by omega)
    symbols := by
      have hheld := h₂.holds (by rw [hstride']; omega) (by omega)
      rw [hs₁, hf₁, ← hsize] at hheld
      refine hheld.congr fun p hp => ?_
      rw [hstride', hdatas] at hp
      apply hframe₃
      unfold Outside at hp ⊢
      omega
    relocations := by
      have hheld := h₃.holds (by rw [hstride'']; omega) (by rw [relocationKind_names]; omega)
      have hs₂' : w₂.stringCursor = l.stringOffset + l.stringSize := by omega
      have hf₂' : w₂.fileCursor = l.size := by omega
      rw [hs₂', hf₂'] at hheld
      exact hheld }

/-! ## Decoding the image -/

/-- What decoding needs to know of a valid object. -/
structure Fits (object : CvmObjectFile) : Prop where
  nonempty : object.sections.length ≠ 0
  sections : object.sections.length ≤ maxSections
  symbols : object.symbols.length ≤ maxSymbols
  relocations : object.relocations.length ≤ maxRelocations
  sectionNames : ∀ s ∈ object.sections, s.name.bytes ≠ []
  symbolNames : ∀ s ∈ object.symbols, s.name.bytes ≠ []

theorem fits_of_valid (h : objectValid object = true) : Fits object := by
  simp only [objectValid, Bool.and_eq_true, Bool.not_eq_true', decide_eq_false_iff_not, not_or,
    List.all_eq_true] at h
  obtain ⟨⟨⟨⟨hne, hsec, hsym, hrel⟩, hsections⟩, hsymbols⟩, -⟩ := h
  refine ⟨hne, by omega, by omega, by omega, fun s hs hnil => ?_, fun s hs hnil => ?_⟩
  · have hvalid := hsections s hs
    simp [sectionValid, hnil] at hvalid
  · have hvalid := hsymbols s hs
    simp [symbolValid, hnil] at hvalid

theorem tableValid_eq {offset count stride : Nat} (hsize : size ≤ maxSize) (hcount : count < 2 ^ 32)
    (h : offset + stride * count ≤ size) :
    tableValid size offset.toUInt64 count.toUInt32 stride = true := by
  have hmax : maxSize = 67108864 := rfl
  have hsizeMax : sizeMax = 18446744073709551615 := rfl
  rw [Nat.mul_comm] at h
  rw [tableValid, toNat_toUInt32 hcount, multiplySize_eq (by omega)]
  simp only [rangeValid, toNat_toUInt64 (show offset < 2 ^ 64 by omega),
    toNat_toUInt64 (show count * stride < 2 ^ 64 by omega), Bool.and_eq_true, decide_eq_true_eq]
  omega

theorem Fits.lengths (h : Fits object) : object.sections.length < 2 ^ 32 ∧
    object.symbols.length < 2 ^ 32 ∧ object.relocations.length < 2 ^ 32 :=
  ⟨h.sections.trans_lt (by decide), h.symbols.trans_lt (by decide),
    h.relocations.trans_lt (by decide)⟩

theorem headerValid_of_image (hfits : Fits object) (hl : LayoutOf object l)
    (h : HeaderAt object l m) : headerValid m l.size (readHeader m) = true := by
  obtain ⟨hsec, hsym, hrel, hstr, -, hsize, hsmall⟩ := hl
  have hmax : maxSize = 67108864 := rfl
  have hsizeMax : sizeMax = 18446744073709551615 := rfl
  obtain ⟨hsections, hsymbols, hrelocations⟩ := hfits.lengths
  have hnonempty : object.sections.length.toUInt32 ≠ 0 := by
    intro hzero
    have hnat := congrArg UInt32.toNat hzero
    rw [toNat_toUInt32 hsections] at hnat
    exact hfits.nonempty hnat
  have hrange : rangeValid l.size l.stringOffset.toUInt64 l.stringSize.toUInt64 = true := by
    simp only [rangeValid, toNat_toUInt64 (show l.stringOffset < 2 ^ 64 by omega),
      toNat_toUInt64 (show l.stringSize < 2 ^ 64 by omega), Bool.and_eq_true, decide_eq_true_eq]
    omega
  rw [headerValid, h.magic, h.read.1, h.read.2]
  dsimp only
  rw [hrange, tableValid_eq hsmall hsections (by omega),
    tableValid_eq hsmall hsymbols (by omega), tableValid_eq hsmall hrelocations (by omega),
    toNat_toUInt32 hsections, toNat_toUInt32 hsymbols, toNat_toUInt32 hrelocations,
    toNat_toUInt64 (show l.size < 2 ^ 64 by omega),
    toNat_toUInt64 (show l.stringOffset < 2 ^ 64 by omega),
    toNat_toUInt64 (show l.stringSize < 2 ^ 64 by omega)]
  simp only [Bool.not_eq_true', decide_eq_false_iff_not, not_or, not_true_eq_false,
    not_false_eq_true, ne_eq, true_and, hnonempty]
  exact ⟨by simpa using hfits.sections, by simpa using hfits.symbols,
    by simpa using hfits.relocations, by omega, by omega⟩

/-- The tables of an image are decoded to the object. -/
theorem decodeTables_of_image (hfits : Fits object) (hl : LayoutOf object l)
    (h : ImageOf object l m) : decodeTables m l.size (readHeader m) = .ok object := by
  have hmax : maxSize = 67108864 := rfl
  obtain ⟨hsections, hsymbols, hrelocations⟩ := hfits.lengths
  have hsymDatas := symbolKind_datas l.stringOffset object.symbols
  obtain ⟨hsec, hsym, hrel, hstr, hnames, hsize, hsmall⟩ := hl
  have hfirst : readTable (decodeSection m l.size l.stringOffset l.stringSize) sectionSize
      headerSize object.sections.length = some object.sections :=
    readTable_eq (l.stringOffset + l.stringSize) l.size h.sections
      (fun entry nameAt dataAt s hs hat hstart hname hdata =>
        decodeSection_eq hat (hfits.sectionNames s hs) hstart hname (by omega) hdata (by omega))
      (by omega) (by omega)
  have hsecond : readTable (decodeSymbol m l.size l.stringOffset l.stringSize) symbolSize
      (headerSize + l.sectionBytes) object.symbols.length = some object.symbols :=
    readTable_eq (l.stringOffset + l.stringSize) l.size h.symbols
      (fun entry nameAt dataAt s hs hat hstart hname hdata =>
        decodeSymbol_eq hat (hfits.symbolNames s hs) (by omega) hname (by omega) (by omega))
      (by omega) (by omega)
  have hthird : (List.range object.relocations.length).map (fun i => decodeRelocation m
      (headerSize + l.sectionBytes + l.symbolBytes + i * relocationSize)) =
        object.relocations := by
    have hread : readTable (fun entry => some (decodeRelocation m entry)) relocationSize
        (headerSize + l.sectionBytes + l.symbolBytes) object.relocations.length =
          some object.relocations :=
      readTable_eq _ _ h.relocations
        (fun entry _ _ r _ hat _ _ _ => congrArg some (decodeRelocation_eq hat))
        (Nat.le_refl _) (Nat.le_refl _)
    rw [readTable_some] at hread
    exact Option.some.inj hread
  rw [decodeTables, h.header.read.2]
  dsimp only
  rw [toNat_toUInt32 hsections, toNat_toUInt32 hsymbols,
    toNat_toUInt32 hrelocations, toNat_toUInt64 (show l.stringOffset < 2 ^ 64 by omega),
    toNat_toUInt64 (show l.stringSize < 2 ^ 64 by omega),
    toNat_toUInt64 (show headerSize < 2 ^ 64 by decide),
    toNat_toUInt64 (show headerSize + l.sectionBytes < 2 ^ 64 by omega),
    toNat_toUInt64 (show headerSize + l.sectionBytes + l.symbolBytes < 2 ^ 64 by omega)]
  rw [hfirst]
  dsimp only
  rw [hsecond, hthird]

/-! ## Round trip -/

/-- A valid object whose encoding is small enough is written, and decoded as it was. -/
theorem decode_write (hvalid : objectValid object = true) (hsize : encodedSize object ≤ maxSize) :
    ∃ contents, cvmObjectWrite object = .ok contents ∧ cvmObjectDecode contents = .ok object := by
  obtain ⟨l, hlayout, hl⟩ := layout_eq hsize
  have hfits := fits_of_valid hvalid
  refine ⟨bytesAt (writeImage object l) 0 l.size, ?_, ?_⟩
  · rw [cvmObjectWrite, hlayout]
    simp [hvalid, Except.map]
  · have himage : ImageOf object l fun i => (bytesAt (writeImage object l) 0 l.size).getD i 0 := by
      refine (writeImage_holds hl).congr hl fun p hp => ?_
      simp [bytesAt, hp]
    have hsmall := hl.small
    have hheader : headerSize ≤ l.size := by
      have hstr := hl.stringOffset
      have hsz := hl.size
      omega
    rw [cvmObjectDecode, bytesAt_length]
    dsimp only
    rw [if_neg (by omega), headerValid_of_image hfits hl himage.header,
      decodeTables_of_image hfits hl himage]
    simp [hvalid]

/-- What `cvm_object_decode` accepts is valid. -/
theorem valid_of_decode {contents : List UInt8} (h : cvmObjectDecode contents = .ok object) :
    objectValid object = true := by
  unfold cvmObjectDecode at h
  dsimp only at h
  split at h
  · cases h
  · split at h
    · cases h
    · split at h
      · cases h
      · split at h
        · cases h
        · next hvalid =>
          cases h
          simpa using hvalid

/-- Valid objects survive writing and decoding, and what decoding accepts is valid and survives
    being written and decoded again. -/
theorem object_round_trip :
    (∀ object, objectValid object = true → encodedSize object ≤ maxSize →
      ∃ contents, cvmObjectWrite object = .ok contents ∧
        cvmObjectDecode contents = .ok object) ∧
    ∀ contents object, cvmObjectDecode contents = .ok object → objectValid object = true ∧
      (encodedSize object ≤ maxSize → ∃ contents', cvmObjectWrite object = .ok contents' ∧
        cvmObjectDecode contents' = .ok object) := by
  refine ⟨fun object hvalid hsize => decode_write hvalid hsize, fun contents object h => ?_⟩
  have hvalid := valid_of_decode h
  exact ⟨hvalid, decode_write hvalid⟩

/-- A section `.` with a symbol `a` and a relocation to it. -/
def smallObject : CvmObjectFile where
  sections := [⟨⟨[0x2E], by decide⟩, sectionAlloc ||| sectionWrite, 8, [1, 2, 3, 4], 16⟩]
  symbols := [⟨⟨[0x61], by decide⟩, 0, symbolGlobal ||| symbolDefined, 4, 8⟩]
  relocations := [⟨0, 1, 0, 0, -1⟩]

theorem object_round_trip_small : ∃ contents, cvmObjectWrite smallObject = .ok contents ∧
    cvmObjectDecode contents = .ok smallObject ∧ objectValid smallObject = true := by
  obtain ⟨contents, hwrite, hdecode⟩ := object_round_trip.1 smallObject (by decide) (by decide)
  exact ⟨contents, hwrite, hdecode, (object_round_trip.2 contents smallObject hdecode).1⟩

end RiscMv.Object
