import RiscMv.ForStd.LittleEndian

/-!
# Tables of records in an image

A file image with tables of records of a fixed size.  What has no fixed size stands elsewhere: the
names in a string area, the data in a file area, each appended where the last one ended.  A
`RecordKind` says which numbers, which name and which data a record has; `writeTable_written` says
that a table stands in memory after it was written, and `readTable_eq` that it is read from there.
-/

namespace RiscMv

variable {α : Type}

/-- An image under construction: its bytes, and where the next name and the next data go. -/
structure Writer where
  data : ByteMemory
  stringCursor : Nat
  fileCursor : Nat

/-- Writes the records into entries of `stride` bytes from `entry` on. -/
def writeTable (write : Nat → α → Writer → Writer) (stride : Nat) :
    Nat → List α → Writer → Writer
  | _, [], w => w
  | entry, x :: xs, w => writeTable write stride (entry + stride) xs (write entry x w)

/-- Reads a number of entries of `stride` bytes from `entry` on. -/
def readTable (read : Nat → Option α) (stride : Nat) : Nat → Nat → Option (List α)
  | _, 0 => some []
  | entry, n + 1 => do
    let x ← read entry
    let xs ← readTable read stride (entry + stride) n
    return x :: xs

/-! ## Numbers in an entry -/

/-- A number in an entry: its place, its width in bytes and its value. -/
structure Field where
  offset : Nat
  width : Nat
  value : Nat

variable {m m' : ByteMemory} {entry start size : Nat} {fs : List Field}

/-- Stores the numbers of an entry. -/
def storeFields (m : ByteMemory) (entry : Nat) : List Field → ByteMemory
  | [] => m
  | f :: fs => storeFields (storeLE m (entry + f.offset) f.width f.value) entry fs

/-- The numbers stand in the entry, as far as their width allows. -/
def FieldsAt (m : ByteMemory) (entry : Nat) : List Field → Prop
  | [] => True
  | ⟨offset, width, value⟩ :: fs =>
    loadLE m (entry + offset) width = value % 256 ^ width ∧ FieldsAt m entry fs

/-- The numbers follow each other between `start` and `size`. -/
def Packed (size : Nat) : Nat → List Field → Prop
  | start, [] => start ≤ size
  | start, f :: fs => start ≤ f.offset ∧ Packed size (f.offset + f.width) fs

theorem Packed.le (h : Packed size start fs) : start ≤ size := by
  induction fs generalizing start with
  | nil => exact h
  | cons f fs ih =>
    have hrest := ih h.2
    have hfirst := h.1
    omega

theorem storeFields_of_not {p : Nat} (h : Packed size start fs)
    (hp : ¬ (entry + start ≤ p ∧ p < entry + size)) : storeFields m entry fs p = m p := by
  induction fs generalizing m start with
  | nil => rfl
  | cons f fs ih =>
    have hfirst := h.1
    have hle := h.2.le
    rw [storeFields, ih h.2 (by omega), storeLE_of_not (by omega)]

theorem FieldsAt.congr (h : FieldsAt m entry fs) (hp : Packed size start fs)
    (heq : ∀ p, entry + start ≤ p → p < entry + size → m' p = m p) : FieldsAt m' entry fs := by
  induction fs generalizing start with
  | nil => trivial
  | cons f fs ih =>
    have hfirst := hp.1
    have hle := hp.2.le
    refine ⟨?_, ih h.2 hp.2 fun p hstart => heq p (by omega)⟩
    rw [loadLE_congr fun p _ _ => heq p (by omega) (by omega)]
    exact h.1

theorem fieldsAt_storeFields (m : ByteMemory) (h : Packed size start fs) :
    FieldsAt (storeFields m entry fs) entry fs := by
  induction fs generalizing m start with
  | nil => trivial
  | cons f fs ih =>
    refine ⟨?_, ih _ h.2⟩
    -- the other numbers stand behind the first one
    rw [storeFields, loadLE_congr fun p _ _ => storeFields_of_not h.2 (by omega), loadLE_storeLE]

/-- The numbers fill the bytes from `start` to `size`. -/
def Tiled (size : Nat) : Nat → List Field → Prop
  | start, [] => start = size
  | start, f :: fs => f.offset = start ∧ Tiled size (start + f.width) fs

/-- Numbers that leave no gap determine the bytes. -/
theorem FieldsAt.byte_eq {p : Nat} (h : FieldsAt m entry fs) (h' : FieldsAt m' entry fs)
    (ht : Tiled size start fs) (hle : entry + start ≤ p) (hlt : p < entry + size) :
    m p = m' p := by
  induction fs generalizing start with
  | nil =>
    have hsize : start = size := ht
    omega
  | cons f fs ih =>
    obtain ⟨rfl, ht⟩ := ht
    by_cases hp : p < entry + f.offset + f.width
    · have hi : p - (entry + f.offset) < f.width := by omega
      have hload := h.1.trans h'.1.symm
      have hbyte := byte_loadLE m (entry + f.offset) hi
      rw [hload, byte_loadLE m' _ hi, Nat.add_sub_cancel' hle] at hbyte
      exact hbyte.symm
    · exact ih h.2 h'.2 ht (by omega)

/-! ## Records -/

/-- `p` is neither in the entries, nor in the names, nor in the data of some records. -/
def Outside (p entry entries nameAt names dataAt datas : Nat) : Prop :=
  ¬ (entry ≤ p ∧ p < entry + entries) ∧ ¬ (nameAt ≤ p ∧ p < nameAt + names) ∧
    ¬ (dataAt ≤ p ∧ p < dataAt + datas)

/-- Records of one kind: numbers, which may say where the name and the data are, a name and data,
    with room behind them. -/
structure RecordKind (α : Type) where
  stride : Nat
  fields : Nat → Nat → α → List Field
  name : α → List UInt8
  data : α → List UInt8
  dataSize : α → Nat
  packed : ∀ nameAt dataAt x, Packed stride 0 (fields nameAt dataAt x)
  fits : ∀ x, (data x).length ≤ dataSize x

namespace RecordKind

variable (K : RecordKind α)

/-- The record stands in memory, with its entry, its name and its data at these places. -/
structure Holds (m : ByteMemory) (entry nameAt dataAt : Nat) (x : α) : Prop where
  fields : FieldsAt m entry (K.fields nameAt dataAt x)
  name : bytesAt m nameAt (K.name x).length = K.name x
  data : bytesAt m dataAt (K.data x).length = K.data x

/-- Writes a record. -/
def write (entry : Nat) (x : α) (w : Writer) : Writer where
  data := storeBytes (storeBytes (storeFields w.data entry
    (K.fields w.stringCursor w.fileCursor x)) w.stringCursor (K.name x)) w.fileCursor (K.data x)
  stringCursor := w.stringCursor + (K.name x).length
  fileCursor := w.fileCursor + K.dataSize x

/-- The bytes of the records' names. -/
def names (xs : List α) : Nat := (xs.map fun x => (K.name x).length).sum

/-- The bytes of the records' data. -/
def datas (xs : List α) : Nat := (xs.map K.dataSize).sum

/-- The records stand in memory, one after the other. -/
def TableHolds (m : ByteMemory) : Nat → Nat → Nat → List α → Prop
  | _, _, _, [] => True
  | entry, nameAt, dataAt, x :: xs => K.Holds m entry nameAt dataAt x ∧
    TableHolds m (entry + K.stride) (nameAt + (K.name x).length) (dataAt + K.dataSize x) xs

variable {K} {nameAt dataAt : Nat} {x : α} {xs : List α}

@[simp] theorem names_cons : K.names (x :: xs) = (K.name x).length + K.names xs := by
  simp [names]

@[simp] theorem datas_cons : K.datas (x :: xs) = K.dataSize x + K.datas xs := by
  simp [datas]

theorem names_eq_zero (h : ∀ x, K.name x = []) (xs : List α) : K.names xs = 0 := by
  induction xs with
  | nil => rfl
  | cons x xs ih => rw [names_cons, ih, h, List.length_nil]

theorem datas_eq_zero (h : ∀ x, K.dataSize x = 0) (xs : List α) : K.datas xs = 0 := by
  induction xs with
  | nil => rfl
  | cons x xs ih => rw [datas_cons, ih, h]

/-- That depends on its own bytes only. -/
theorem Holds.congr (h : K.Holds m entry nameAt dataAt x)
    (heq : ∀ p, ¬ Outside p entry K.stride nameAt (K.name x).length dataAt (K.dataSize x) →
      m' p = m p) : K.Holds m' entry nameAt dataAt x where
  fields := h.fields.congr (K.packed ..) fun p hle hlt => heq p fun hout => hout.1 ⟨hle, hlt⟩
  name := by
    rw [bytesAt_congr fun p hle hlt => heq p fun hout => hout.2.1 ⟨hle, hlt⟩]
    exact h.name
  data := by
    have hfits := K.fits x
    rw [bytesAt_congr fun p hle hlt => heq p fun hout => hout.2.2 ⟨hle, by omega⟩]
    exact h.data

/-- A write changes the bytes of its record only. -/
theorem write_of_outside {w : Writer} {p : Nat} (hp : Outside p entry K.stride w.stringCursor
    (K.name x).length w.fileCursor (K.dataSize x)) : (K.write entry x w).data p = w.data p := by
  obtain ⟨hentry, hname, hdata⟩ := hp
  have hfits := K.fits x
  simp only [write]
  rw [storeBytes_of_not (by omega), storeBytes_of_not hname,
    storeFields_of_not (K.packed ..) (by omega)]

/-- A record that was written stands in memory. -/
theorem write_holds {w : Writer} (hentry : entry + K.stride ≤ w.stringCursor)
    (hname : w.stringCursor + (K.name x).length ≤ w.fileCursor) :
    K.Holds (K.write entry x w).data entry w.stringCursor w.fileCursor x where
  fields := by
    refine (fieldsAt_storeFields w.data (K.packed ..)).congr (K.packed ..) fun p _ hlt => ?_
    simp only [write]
    rw [storeBytes_of_not (by omega), storeBytes_of_not (by omega)]
  name := by
    simp only [write]
    rw [bytesAt_storeBytes_of_disjoint (.inr hname), bytesAt_storeBytes]
  data := bytesAt_storeBytes ..

theorem TableHolds.congr (h : K.TableHolds m entry nameAt dataAt xs)
    (heq : ∀ p, ¬ Outside p entry (K.stride * xs.length) nameAt (K.names xs) dataAt
      (K.datas xs) → m' p = m p) : K.TableHolds m' entry nameAt dataAt xs := by
  induction xs generalizing entry nameAt dataAt with
  | nil => trivial
  | cons x xs ih =>
    simp only [List.length_cons, Nat.mul_add, Nat.mul_one, names_cons, datas_cons] at heq
    refine ⟨h.1.congr fun p hp => heq p fun hout => hp ?_, ih h.2 fun p hp => heq p fun hout =>
      hp ?_⟩
    · -- the bytes of the first record
      unfold Outside at hout ⊢
      omega
    · unfold Outside at hout ⊢
      omega

variable (K) in
/-- What writing a table does. -/
structure Written (entry : Nat) (xs : List α) (w w' : Writer) : Prop where
  stringCursor : w'.stringCursor = w.stringCursor + K.names xs
  fileCursor : w'.fileCursor = w.fileCursor + K.datas xs
  frame : ∀ p, Outside p entry (K.stride * xs.length) w.stringCursor (K.names xs) w.fileCursor
    (K.datas xs) → w'.data p = w.data p
  holds : entry + K.stride * xs.length ≤ w.stringCursor →
    w.stringCursor + K.names xs ≤ w.fileCursor →
    K.TableHolds w'.data entry w.stringCursor w.fileCursor xs

/-- A written table stands in the image. -/
theorem writeTable_written (entry : Nat) (xs : List α) (w : Writer) :
    K.Written entry xs w (writeTable K.write K.stride entry xs w) := by
  induction xs generalizing entry w with
  | nil => exact ⟨rfl, rfl, fun _ _ => rfl, fun _ _ => trivial⟩
  | cons x xs ih =>
    obtain ⟨hstring, hfile, hframe, hholds⟩ := ih (entry + K.stride) (K.write entry x w)
    have hcursor : (K.write entry x w).stringCursor = w.stringCursor + (K.name x).length := rfl
    have hcursor' : (K.write entry x w).fileCursor = w.fileCursor + K.dataSize x := rfl
    rw [hcursor] at hstring hframe hholds
    rw [hcursor'] at hfile hframe hholds
    constructor
    all_goals simp only [writeTable, List.length_cons, Nat.mul_add, Nat.mul_one, names_cons,
      datas_cons]
    · omega
    · omega
    · intro p hp
      rw [hframe p, write_of_outside]
      · unfold Outside at hp ⊢
        omega
      · unfold Outside at hp ⊢
        omega
    · intro hentry hname
      refine ⟨(write_holds (by omega) (by omega)).congr fun p hp => ?_,
        hholds (by omega) (by omega)⟩
      -- the other records do not overwrite the first one
      apply hframe
      unfold Outside at hp ⊢
      omega

/-- A table that stands in memory is read back, if each of its records is. -/
theorem readTable_eq {read : Nat → Option α} (stringEnd fileEnd : Nat)
    (h : K.TableHolds m entry nameAt dataAt xs)
    (hread : ∀ entry nameAt' dataAt', ∀ x ∈ xs, K.Holds m entry nameAt' dataAt' x →
      nameAt ≤ nameAt' → nameAt' + (K.name x).length ≤ stringEnd →
      dataAt' + K.dataSize x ≤ fileEnd →
      read entry = some x)
    (hname : nameAt + K.names xs ≤ stringEnd) (hdata : dataAt + K.datas xs ≤ fileEnd) :
    readTable read K.stride entry xs.length = some xs := by
  induction xs generalizing entry nameAt dataAt with
  | nil => rfl
  | cons x xs ih =>
    rw [names_cons] at hname
    rw [datas_cons] at hdata
    have hfirst := hread entry nameAt dataAt x List.mem_cons_self h.1 (Nat.le_refl _) (by omega)
      (by omega)
    have hrest := ih h.2 (fun e n d y hy hh hn => hread e n d y (List.mem_cons_of_mem x hy) hh
      (by omega)) (by omega) (by omega)
    rw [List.length_cons, readTable, hfirst, hrest]
    rfl

/-- A table whose entries are always accepted. -/
theorem readTable_some (f : Nat → α) (stride entry n : Nat) :
    readTable (fun e => some (f e)) stride entry n =
      some ((List.range n).map fun i => f (entry + i * stride)) := by
  induction n generalizing entry with
  | zero => rfl
  | succ n ih =>
    have hshift : ∀ i, entry + stride + i * stride = entry + (i + 1) * stride := by
      intro i
      ring
    rw [readTable, ih, List.range_succ_eq_map]
    simp [hshift, Function.comp_def]

end RecordKind

end RiscMv
