import RiscMv.ForStd.Attempt
import RiscMv.Kernel.Sched
import RiscMv.Paging.UserCopy

/-!
# The stack of a new thread (`kernel_thread_set_startup`)

The strings are copied below the top of the stack, one below the other; under them stands the table
of their addresses.  A failure leaves what was copied before it.

The proofs look at the memory as user mode sees it: a copy into the stack is a `storeBytes` there.

## Key results
- `copyStrings_fits`, `copyStrings_fails`: when the strings fit, and where they stand
- `writeWords_spec`: the words of the table
- `threadSetStartup_layout`: the whole stack
-/

namespace RiscMv.User

open Paging
open Kernel (ThreadState)

/-- `KERNEL_USER_STACK_SIZE`. -/
def userStackSize : Nat := 0x10000

/-- `STARTUP_VECTOR_LIMIT`. -/
def startupVectorLimit : Nat := 32

/-- A C string: the characters before its NUL. -/
structure CString where
  chars : List UInt8
  no_nul : 0 ∉ chars

/-- The characters with the NUL. -/
def CString.bytes (text : CString) : List UInt8 := text.chars ++ [0]

/-- The fields of `KernelThread` that `kernel_thread_set_startup` looks at.  Both its callers give
    every thread a stack of the same size. -/
structure NewThread where
  state : ThreadState
  userStackBottom : Nat
  userStackTop : Nat
  stackPointer : Nat
  /-- R0 to R14. -/
  registers : Nat → Nat
  stack_size : userStackTop = userStackBottom + userStackSize

/-- `kernel_copy_to_user`, with the failure of its caller. -/
def copyOrFail (space : AddressSpace) (destination : Nat) (source : List UInt8) :
    Attempt State Unit := fun s =>
  match s.copyToUser space destination source with
  | (true, s) => (some (), s)
  | (false, s) => (none, s)

/-- `process_copy_user_u64`. -/
def processCopyUserU64 (space : AddressSpace) (address value : Nat) : Attempt State Unit :=
  copyOrFail space address (bytesLE 8 value)

/-- The loop of `process_string_size` over the characters that are left. -/
def stringLength : List UInt8 → Nat → Option Nat
  | [], length => some length
  | _ :: rest, length =>
    if length ≥ userStackSize - 1 then none else stringLength rest (length + 1)

/-- `process_string_size`; the string may be `NULL`. -/
def processStringSize (text : Option CString) : Option Nat :=
  text.bind fun text => (stringLength text.chars 0).map (· + 1)

/-- The loop that copies the strings below `cursor`: their addresses, and the new cursor. -/
def copyStrings (space : AddressSpace) (bottom : Nat) :
    List (Option CString) → Nat → Attempt State (List Nat × Nat)
  | [], cursor => pure ([], cursor)
  | text :: rest, cursor =>
    match processStringSize text, text with
    | some length, some text =>
      if cursor < bottom + length then failure
      else do
        copyOrFail space (cursor - length) text.bytes
        let (addresses, last) ← copyStrings space bottom rest (cursor - length)
        return ((cursor - length) :: addresses, last)
    | _, _ => failure

/-- The loops that write addresses from `slot` on: the slot behind them. -/
def writeWords (space : AddressSpace) : List Nat → Nat → Attempt State Nat
  | [], slot => pure slot
  | word :: rest, slot => do
    processCopyUserU64 space slot word
    writeWords space rest (slot + 8)

/-- The size of the table for so many strings; at most 32 of each, so that nothing overflows. -/
def tableSize (argumentCount environmentCount : Nat) : Nat :=
  (1 + argumentCount + 1 + environmentCount + 1) * 8

/-- The part of `kernel_thread_set_startup` that writes the table: the address of the environment
    pointers. -/
def writeTable (space : AddressSpace) (stackPointer : Nat)
    (argumentAddresses environmentAddresses : List Nat) : Attempt State Nat := do
  processCopyUserU64 space stackPointer argumentAddresses.length
  let slot ← writeWords space argumentAddresses (stackPointer + 8)
  processCopyUserU64 space slot 0
  let environmentPointer := slot + 8
  let slot ← writeWords space environmentAddresses environmentPointer
  processCopyUserU64 space slot 0
  return environmentPointer

/-- `kernel_thread_set_startup`; it returns the thread where the code returns 0. -/
def threadSetStartup (space : AddressSpace) (thread : NewThread)
    (arguments environment : List (Option CString)) : Attempt State NewThread :=
  if thread.state ≠ .new ∨ arguments.length > startupVectorLimit ∨
      environment.length > startupVectorLimit then failure
  else do
    let (argumentAddresses, cursor) ←
      copyStrings space thread.userStackBottom arguments thread.userStackTop
    let (environmentAddresses, cursor) ←
      copyStrings space thread.userStackBottom environment cursor
    let size := tableSize arguments.length environment.length
    let stackPointer := (cursor - size) / 16 * 16
    if cursor < thread.userStackBottom + size ∨ stackPointer < thread.userStackBottom then failure
    else do
      let environmentPointer ← writeTable space stackPointer argumentAddresses environmentAddresses
      let registers := Function.update (Function.update (Function.update thread.registers
        0 arguments.length) 1 (stackPointer + 8)) 2 environmentPointer
      return { thread with stackPointer, registers }

/-! ## The memory of user mode -/

section View

variable {spaces : Nat → Option AddressSpace} {k1 id bottom top : Nat} {L1 L0 : Set Nat}
  {sp : AddressSpace} {s : State} {m : ByteMemory}

/-- The stack is writable, and user mode sees the memory `m`. -/
structure StackView (spaces : Nat → Option AddressSpace) (k1 : Nat) (L1 L0 : Set Nat)
    (sp : AddressSpace) (bottom top : Nat) (s : State) (m : ByteMemory) : Prop where
  walls : Walls s spaces k1 L1 L0
  direct : DirectPages s sp
  writable : UserWritable s sp bottom (top - bottom)
  view : userBytes s sp = m

variable {a : Nat}

theorem copyOrFail_spec {bs : List UInt8} (h : StackView spaces k1 L1 L0 sp bottom top s m)
    (hsp : spaces id = some sp) (hlow : bottom ≤ a) (hhigh : a + bs.length ≤ top) :
    ∃ s', copyOrFail sp a bs s = (some (), s') ∧
      StackView spaces k1 L1 L0 sp bottom top s' (storeBytes m a bs) := by
  have hwritable : UserWritable s sp a bs.length := by
    intro i hi
    have hin := h.writable (a - bottom + i) (by omega)
    rwa [show bottom + (a - bottom + i) = a + i by omega] at hin
  obtain ⟨s', hcopy, hwalls, hsize, hview, hsame⟩ :=
    copyToUser_writable h.walls hsp h.direct hwritable
  refine ⟨s', by rw [copyOrFail, hcopy], hwalls, ?_, ?_, ?_⟩
  · intro r hr
    rw [hsize]
    exact h.direct r hr
  · exact (hsame _ _).mpr h.writable
  · rw [hview, h.view]

theorem processCopyUserU64_spec {v : Nat} (h : StackView spaces k1 L1 L0 sp bottom top s m)
    (hsp : spaces id = some sp) (hlow : bottom ≤ a) (hhigh : a + 8 ≤ top) :
    ∃ s', processCopyUserU64 sp a v s = (some (), s') ∧
      StackView spaces k1 L1 L0 sp bottom top s' (storeLE m a 8 v) := by
  rw [← storeBytes_bytesLE]
  exact copyOrFail_spec h hsp hlow (by rw [bytesLE_length]; exact hhigh)

theorem writeWords_spec {slot : Nat} (words : List Nat)
    (h : StackView spaces k1 L1 L0 sp bottom top s m) (hsp : spaces id = some sp)
    (hlow : bottom ≤ slot) (hhigh : slot + 8 * words.length ≤ top) :
    ∃ s', writeWords sp words slot s = (some (slot + 8 * words.length), s') ∧
      StackView spaces k1 L1 L0 sp bottom top s' (storeWords m slot words) := by
  induction words generalizing slot s m with
  | nil => exact ⟨s, rfl, h⟩
  | cons word rest ih =>
    rw [List.length_cons] at hhigh
    obtain ⟨s₁, hword, h₁⟩ := processCopyUserU64_spec (v := word) h hsp hlow (by omega)
    have hnext : bottom ≤ slot + 8 := by omega
    obtain ⟨s₂, hrest, h₂⟩ := ih h₁ hnext (by omega)
    refine ⟨s₂, ?_, h₂⟩
    rw [writeWords, Attempt.bind_of_some hword, hrest, List.length_cons,
      show slot + 8 + 8 * rest.length = slot + 8 * (rest.length + 1) by omega]

/-! ## The strings -/

/-- The bytes that strings need. -/
def stringsSize (texts : List CString) : Nat := (texts.map fun text => text.bytes.length).sum

/-- Where strings stand below `cursor`. -/
def placesBelow : List CString → Nat → List Nat
  | [], _ => []
  | text :: rest, cursor =>
    (cursor - text.bytes.length) :: placesBelow rest (cursor - text.bytes.length)

/-- The memory with strings below `cursor`. -/
def storeStrings (m : ByteMemory) : List CString → Nat → ByteMemory
  | [], _ => m
  | text :: rest, cursor =>
    storeStrings (storeBytes m (cursor - text.bytes.length) text.bytes) rest
      (cursor - text.bytes.length)

theorem CString.length_bytes (text : CString) : text.bytes.length = text.chars.length + 1 := by
  simp [CString.bytes]

theorem stringLength_eq (chars : List UInt8) (length : Nat) :
    stringLength chars length =
      if chars = [] ∨ length + chars.length < userStackSize then some (length + chars.length)
      else none := by
  induction chars generalizing length with
  | nil => simp [stringLength]
  | cons c chars ih =>
    rw [stringLength]
    split
    · next hlong =>
      rw [if_neg]
      simp only [userStackSize, List.length_cons, reduceCtorEq, false_or] at *
      omega
    · next hshort =>
      rw [ih, List.length_cons,
        show length + 1 + chars.length = length + (chars.length + 1) by omega]
      congr 1
      simp only [eq_iff_iff, reduceCtorEq, false_or]
      constructor
      · rintro (rfl | hlt)
        · simp only [userStackSize, List.length_nil] at *
          omega
        · exact hlt
      · exact .inr

theorem processStringSize_some (text : CString) :
    processStringSize (some text) =
      if text.bytes.length ≤ userStackSize then some text.bytes.length else none := by
  rw [processStringSize, Option.bind_some, stringLength_eq, text.length_bytes, Nat.zero_add]
  by_cases hfits : text.chars.length + 1 ≤ userStackSize
  · rw [if_pos (.inr hfits), if_pos hfits]
    rfl
  · rw [if_neg, if_neg hfits]
    · rfl
    · rintro (hnil | hlt)
      · rw [hnil] at hfits
        exact hfits (by decide)
      · exact hfits hlt

theorem stringsSize_cons (text : CString) (rest : List CString) :
    stringsSize (text :: rest) = text.bytes.length + stringsSize rest := rfl

theorem stringsSize_append (xs ys : List CString) :
    stringsSize (xs ++ ys) = stringsSize xs + stringsSize ys := by
  simp [stringsSize]

/-- One turn of the loop, for a string that is there. -/
theorem copyStrings_cons (sp : AddressSpace) (bottom : Nat) (text : CString)
    (rest : List (Option CString)) (cursor : Nat) :
    copyStrings sp bottom (some text :: rest) cursor =
      if text.bytes.length ≤ userStackSize ∧ bottom + text.bytes.length ≤ cursor then do
        copyOrFail sp (cursor - text.bytes.length) text.bytes
        let (addresses, last) ← copyStrings sp bottom rest (cursor - text.bytes.length)
        return ((cursor - text.bytes.length) :: addresses, last)
      else failure := by
  conv_lhs => unfold copyStrings
  rw [processStringSize_some]
  by_cases hlength : text.bytes.length ≤ userStackSize
  · rw [if_pos hlength]
    dsimp only
    by_cases hroom : bottom + text.bytes.length ≤ cursor
    · rw [if_neg (Nat.not_lt.mpr hroom), if_pos ⟨hlength, hroom⟩]
    · rw [if_pos (Nat.lt_of_not_le hroom), if_neg fun h => hroom h.2]
  · rw [if_neg hlength, if_neg fun h => hlength h.1]

/-- Strings that fit in the stack are copied. -/
theorem copyStrings_fits {texts : List CString} {cursor : Nat}
    (h : StackView spaces k1 L1 L0 sp bottom top s m) (hsp : spaces id = some sp)
    (hsize : top ≤ bottom + userStackSize) (htop : cursor ≤ top)
    (hfits : bottom + stringsSize texts ≤ cursor) :
    ∃ s', copyStrings sp bottom (texts.map some) cursor s =
        (some (placesBelow texts cursor, cursor - stringsSize texts), s') ∧
      StackView spaces k1 L1 L0 sp bottom top s' (storeStrings m texts cursor) := by
  induction texts generalizing cursor s m with
  | nil => exact ⟨s, rfl, h⟩
  | cons text rest ih =>
    rw [stringsSize_cons] at hfits
    have hlow : bottom ≤ cursor - text.bytes.length := by omega
    have hhigh : cursor - text.bytes.length + text.bytes.length ≤ top := by omega
    obtain ⟨s₁, hcopy, h₁⟩ := copyOrFail_spec h hsp hlow hhigh
    have hrest : bottom + stringsSize rest ≤ cursor - text.bytes.length := by omega
    obtain ⟨s₂, hstrings, h₂⟩ := ih h₁ (by omega) hrest
    refine ⟨s₂, ?_, h₂⟩
    rw [List.map_cons, copyStrings_cons, if_pos ⟨by omega, by omega⟩, Attempt.bind_of_some hcopy,
      Attempt.bind_of_some hstrings, stringsSize_cons, ← Nat.sub_sub]
    rfl

variable {strings : List (Option CString)} {s' : State}

/-- Strings that were copied are there and fit in the stack. -/
theorem copyStrings_some {cursor last : Nat} {addresses : List Nat} (hlow : bottom ≤ cursor)
    (hcopy : copyStrings sp bottom strings cursor s = (some (addresses, last), s')) :
    ∃ texts : List CString, strings = texts.map some ∧ bottom + stringsSize texts ≤ cursor ∧
      last = cursor - stringsSize texts := by
  induction strings generalizing cursor s s' addresses with
  | nil =>
    cases hcopy
    exact ⟨[], rfl, hlow, rfl⟩
  | cons string rest ih =>
    cases string with
    | none => cases hcopy
    | some text =>
      rw [copyStrings_cons] at hcopy
      split at hcopy
      · next hroom =>
        obtain ⟨_, s₁, -, hcopy⟩ := Attempt.bind_eq_some hcopy
        obtain ⟨⟨rest', last'⟩, s₂, hstrings, hcopy⟩ := Attempt.bind_eq_some hcopy
        cases hcopy
        have hbelow : bottom ≤ cursor - text.bytes.length := by omega
        obtain ⟨texts, rfl, hfits, hlast⟩ := ih hbelow hstrings
        refine ⟨text :: texts, rfl, ?_⟩
        rw [stringsSize_cons]
        omega
      · cases hcopy

end View

/-! ### Where the strings are -/

section Places

variable {m : ByteMemory} {texts : List CString} {cursor x : Nat}

theorem length_placesBelow (texts : List CString) (cursor : Nat) :
    (placesBelow texts cursor).length = texts.length := by
  induction texts generalizing cursor with
  | nil => rfl
  | cons text rest ih => rw [placesBelow, List.length_cons, List.length_cons, ih]

theorem placesBelow_append (xs ys : List CString) (cursor : Nat) :
    placesBelow (xs ++ ys) cursor =
      placesBelow xs cursor ++ placesBelow ys (cursor - stringsSize xs) := by
  induction xs generalizing cursor with
  | nil => rfl
  | cons text rest ih =>
    rw [List.cons_append, placesBelow, ih, placesBelow, stringsSize_cons, Nat.sub_sub,
      List.cons_append]

theorem storeStrings_append (m : ByteMemory) (xs ys : List CString) (cursor : Nat) :
    storeStrings m (xs ++ ys) cursor =
      storeStrings (storeStrings m xs cursor) ys (cursor - stringsSize xs) := by
  induction xs generalizing m cursor with
  | nil => rfl
  | cons text rest ih =>
    rw [List.cons_append, storeStrings, ih, storeStrings, stringsSize_cons, Nat.sub_sub]

/-- Above the cursor and below the last string nothing changes. -/
theorem storeStrings_of_not (hfits : stringsSize texts ≤ cursor)
    (hx : x < cursor - stringsSize texts ∨ cursor ≤ x) : storeStrings m texts cursor x = m x := by
  induction texts generalizing m cursor with
  | nil => rfl
  | cons text rest ih =>
    rw [stringsSize_cons] at hfits hx
    rw [storeStrings, ih (by omega) (by omega), storeBytes_of_not (by omega)]

/-- Every string is at its place, in a memory that has the bytes of the strings. -/
theorem bytesAt_storeStrings {m' : ByteMemory} (hfits : stringsSize texts ≤ cursor)
    (hsame : ∀ x, cursor - stringsSize texts ≤ x → x < cursor →
      m' x = storeStrings m texts cursor x) :
    List.Forall₂ (fun a text => bytesAt m' a text.bytes.length = text.bytes)
      (placesBelow texts cursor) texts := by
  induction texts generalizing m cursor with
  | nil => exact .nil
  | cons text rest ih =>
    rw [stringsSize_cons] at hfits hsame
    refine .cons ?_ (ih (by omega) fun x hle hlt => hsame x (by omega) (by omega))
    rw [bytesAt_congr fun x hle hlt => hsame x (by omega) (by omega), storeStrings,
      -- the strings that follow are below this one
      bytesAt_congr fun x hle hlt => storeStrings_of_not (by omega) (by omega)]
    exact bytesAt_storeBytes _ _ _

/-- A range of addresses, with its size. -/
abbrev Range := Nat × Nat

/-- Two ranges have no address in common. -/
def Range.Apart (r r' : Range) : Prop := r.1 + r.2 ≤ r'.1 ∨ r'.1 + r'.2 ≤ r.1

/-- The ranges of strings. -/
def stringRanges (addresses : List Nat) (texts : List CString) : List Range :=
  List.zipWith (fun a text => (a, text.bytes.length)) addresses texts

theorem stringRanges_inside (hfits : stringsSize texts ≤ cursor) :
    ∀ r ∈ stringRanges (placesBelow texts cursor) texts,
      cursor - stringsSize texts ≤ r.1 ∧ r.1 + r.2 ≤ cursor := by
  induction texts generalizing cursor with
  | nil => simp [stringRanges, placesBelow]
  | cons text rest ih =>
    rw [stringsSize_cons] at hfits ⊢
    intro r hr
    obtain rfl | hr := List.mem_cons.mp hr
    · dsimp only
      omega
    · have hrest := ih (by omega) r hr
      omega

theorem stringRanges_apart (hfits : stringsSize texts ≤ cursor) :
    (stringRanges (placesBelow texts cursor) texts).Pairwise Range.Apart := by
  induction texts generalizing cursor with
  | nil => exact .nil
  | cons text rest ih =>
    rw [stringsSize_cons] at hfits
    refine .cons (fun r hr => .inr ?_) (ih (by omega))
    exact (stringRanges_inside (by omega) r hr).2

theorem mem_placesBelow_lt (hfits : stringsSize texts ≤ cursor) :
    ∀ a ∈ placesBelow texts cursor, a ≤ cursor := by
  induction texts generalizing cursor with
  | nil => simp [placesBelow]
  | cons text rest ih =>
    rw [stringsSize_cons] at hfits
    intro a ha
    obtain rfl | ha := List.mem_cons.mp ha
    · omega
    · have hrest := ih (by omega) a ha
      omega

end Places

/-! ## The whole stack -/

section Layout

variable {spaces : Nat → Option AddressSpace} {k1 id bottom top : Nat} {L1 L0 : Set Nat}
  {sp : AddressSpace} {s : State} {m : ByteMemory} {thread : NewThread}

/-- The words of the table. -/
def tableWords (argumentAddresses environmentAddresses : List Nat) : List Nat :=
  argumentAddresses.length :: (argumentAddresses ++ 0 :: (environmentAddresses ++ [0]))

theorem length_tableWords (xs ys : List Nat) :
    8 * (tableWords xs ys).length = tableSize xs.length ys.length := by
  simp only [tableWords, tableSize, List.length_cons, List.length_append, List.length_nil]
  omega

theorem writeTable_spec {xs ys : List Nat} (h : StackView spaces k1 L1 L0 sp bottom top s m)
    (hsp : spaces id = some sp) (hlow : bottom ≤ a)
    (hhigh : a + tableSize xs.length ys.length ≤ top) :
    ∃ s', writeTable sp a xs ys s = (some (a + 8 * (xs.length + 2)), s') ∧
      StackView spaces k1 L1 L0 sp bottom top s' (storeWords m a (tableWords xs ys)) := by
  simp only [tableSize] at hhigh
  obtain ⟨s₁, hcount, h₁⟩ := processCopyUserU64_spec (v := xs.length) h hsp hlow (by omega)
  have hlow₁ : bottom ≤ a + 8 := by omega
  obtain ⟨s₂, hxs, h₂⟩ := writeWords_spec xs h₁ hsp hlow₁ (by omega)
  have hlow₂ : bottom ≤ a + 8 + 8 * xs.length := by omega
  obtain ⟨s₃, hzero, h₃⟩ := processCopyUserU64_spec (v := 0) h₂ hsp hlow₂ (by omega)
  have hlow₃ : bottom ≤ a + 8 + 8 * xs.length + 8 := by omega
  obtain ⟨s₄, hys, h₄⟩ := writeWords_spec ys h₃ hsp hlow₃ (by omega)
  have hlow₄ : bottom ≤ a + 8 + 8 * xs.length + 8 + 8 * ys.length := by omega
  obtain ⟨s₅, hlast, h₅⟩ := processCopyUserU64_spec (v := 0) h₄ hsp hlow₄ (by omega)
  refine ⟨s₅, ?_, ?_⟩
  · rw [writeTable, Attempt.bind_of_some hcount, Attempt.bind_of_some hxs,
      Attempt.bind_of_some hzero, Attempt.bind_of_some hys, Attempt.bind_of_some hlast,
      Attempt.pure_apply, show a + 8 + 8 * xs.length + 8 = a + 8 * (xs.length + 2) by omega]
  · rw [tableWords, storeWords, storeWords_append, storeWords, storeWords_append, storeWords,
      storeWords]
    exact h₅

/-- The strings and the table fit. -/
def FitsStack (thread : NewThread) (args envs : List CString) : Prop :=
  args.length ≤ startupVectorLimit ∧ envs.length ≤ startupVectorLimit ∧
    thread.userStackBottom + (stringsSize (args ++ envs) + tableSize args.length envs.length) ≤
      thread.userStackTop

/-- The thread that is returned. -/
def started (thread : NewThread) (args envs : List CString) : NewThread :=
  let stackPointer := (thread.userStackTop - stringsSize (args ++ envs) -
    tableSize args.length envs.length) / 16 * 16
  { thread with
    stackPointer
    registers := Function.update (Function.update (Function.update thread.registers
      0 args.length) 1 (stackPointer + 8)) 2 (stackPointer + 8 * (args.length + 2)) }

theorem threadSetStartup_fits {args envs : List CString}
    (h : StackView spaces k1 L1 L0 sp thread.userStackBottom thread.userStackTop s m)
    (hsp : spaces id = some sp) (hnew : thread.state = .new)
    (halign : thread.userStackBottom % pageSize = 0) (hfits : FitsStack thread args envs) :
    ∃ s', threadSetStartup sp thread (args.map some) (envs.map some) s =
        (some (started thread args envs), s') ∧
      StackView spaces k1 L1 L0 sp thread.userStackBottom thread.userStackTop s'
        (storeWords (storeStrings m (args ++ envs) thread.userStackTop)
          (started thread args envs).stackPointer
          (tableWords (placesBelow args thread.userStackTop)
            (placesBelow envs (thread.userStackTop - stringsSize args)))) := by
  obtain ⟨hargs, henvs, hroom⟩ := hfits
  have hsize := thread.stack_size
  have hsum := stringsSize_append args envs
  -- the strings
  have hroom₁ : thread.userStackBottom + stringsSize args ≤ thread.userStackTop := by omega
  obtain ⟨s₁, hcopy₁, h₁⟩ := copyStrings_fits h hsp (Nat.le_of_eq hsize) (Nat.le_refl _) hroom₁
  have hroom₂ : thread.userStackBottom + stringsSize envs ≤
      thread.userStackTop - stringsSize args := by omega
  obtain ⟨s₂, hcopy₂, h₂⟩ := copyStrings_fits h₁ hsp (Nat.le_of_eq hsize) (by omega) hroom₂
  rw [Nat.sub_sub, ← hsum] at hcopy₂
  rw [← storeStrings_append] at h₂
  -- the table
  have hlow : thread.userStackBottom ≤ (started thread args envs).stackPointer := by
    simp only [started, pageSize] at halign ⊢
    omega
  have hhigh : (started thread args envs).stackPointer +
      tableSize (placesBelow args thread.userStackTop).length
        (placesBelow envs (thread.userStackTop - stringsSize args)).length ≤
      thread.userStackTop := by
    rw [length_placesBelow, length_placesBelow, started]
    dsimp only
    omega
  obtain ⟨s₃, htable, h₃⟩ := writeTable_spec h₂ hsp hlow hhigh
  refine ⟨s₃, ?_, h₃⟩
  have hchecks : ¬ (thread.state ≠ .new ∨ (args.map some).length > startupVectorLimit ∨
      (envs.map some).length > startupVectorLimit) := by
    rw [List.length_map, List.length_map, hnew]
    simp only [ne_eq, not_true_eq_false, false_or, not_or]
    omega
  have hspace : ¬ (thread.userStackTop - stringsSize (args ++ envs) <
      thread.userStackBottom + tableSize args.length envs.length ∨
      (thread.userStackTop - stringsSize (args ++ envs) - tableSize args.length envs.length) / 16 *
        16 < thread.userStackBottom) := not_or.mpr ⟨by omega, Nat.not_lt.mpr hlow⟩
  rw [length_placesBelow] at htable
  rw [threadSetStartup, if_neg hchecks, Attempt.bind_of_some hcopy₁]
  dsimp only
  rw [Attempt.bind_of_some hcopy₂]
  simp only [List.length_map]
  rw [if_neg hspace]
  exact Attempt.bind_of_some htable

/-- What is returned fitted. -/
theorem threadSetStartup_some {arguments environment : List (Option CString)} {thread' : NewThread}
    (hst : threadSetStartup sp thread arguments environment s = (some thread', s')) :
    ∃ args envs : List CString, arguments = args.map some ∧ environment = envs.map some ∧
      FitsStack thread args envs := by
  rw [threadSetStartup] at hst
  split at hst
  · cases hst
  next hchecks =>
  obtain ⟨⟨xs, cursor⟩, s₁, hcopy₁, hst⟩ := Attempt.bind_eq_some hst
  obtain ⟨⟨ys, cursor'⟩, s₂, hcopy₂, hst⟩ := Attempt.bind_eq_some hst
  dsimp only at hcopy₂ hst
  split at hst
  · cases hst
  next hroom =>
  have hsize := thread.stack_size
  obtain ⟨args, rfl, hargs, rfl⟩ := copyStrings_some (by omega) hcopy₁
  obtain ⟨envs, rfl, henvs, rfl⟩ := copyStrings_some (by omega) hcopy₂
  rw [List.length_map, List.length_map] at hchecks hroom
  refine ⟨args, envs, rfl, rfl, by omega, by omega, ?_⟩
  rw [stringsSize_append]
  omega

/-- Addresses that user mode reaches are small. -/
theorem writable_below_limit {n : Nat} (h : UserWritable s sp a n) (hn : 0 < n) :
    a + n ≤ virtualAddressLimit := by
  obtain ⟨p, hread, -⟩ := h (n - 1) (by omega)
  rw [Paging.translate] at hread
  split at hread
  · cases hread
  · omega

/-- `NULL` is not among the strings. -/
theorem exists_texts (h : none ∉ strings) : ∃ texts : List CString, strings = texts.map some := by
  induction strings with
  | nil => exact ⟨[], rfl⟩
  | cons string rest ih =>
    cases string with
    | none => simp at h
    | some text =>
      obtain ⟨texts, rfl⟩ := ih fun hmem => h (List.mem_cons_of_mem _ hmem)
      exact ⟨text :: texts, rfl⟩

/-- For a new thread with a stack that user mode may write: if `kernel_thread_set_startup` returns 0
    the stack pointer is aligned and inside the stack; the words from there on are the number of
    arguments, their addresses, 0, the addresses of the environment and 0; R0, R1 and R2 are the
    number and the addresses of the two arrays; every address has a copy of its string; and the
    strings and the table are apart from each other and inside the stack.  It fails only with too
    many strings, a `NULL` string, or too little room. -/
theorem threadSetStartup_layout (h : Walls s s.space k1 L1 L0) (hsp : s.space id = some sp)
    (hdirect : DirectPages s sp) (hnew : thread.state = .new)
    (halign : thread.userStackBottom % pageSize = 0)
    (hwritable : UserWritable s sp thread.userStackBottom
      (thread.userStackTop - thread.userStackBottom))
    (arguments environment : List (Option CString)) :
    (∀ thread' s', threadSetStartup sp thread arguments environment s = (some thread', s') →
      ∃ (args envs : List CString) (xs ys : List Nat),
        arguments = args.map some ∧ environment = envs.map some ∧
        thread'.stackPointer % 16 = 0 ∧ thread.userStackBottom ≤ thread'.stackPointer ∧
        thread'.stackPointer < thread.userStackTop ∧
        wordsAt (userBytes s' sp) thread'.stackPointer (args.length + envs.length + 3) =
          args.length :: (xs ++ 0 :: (ys ++ [0])) ∧
        thread'.registers 0 = args.length ∧
        thread'.registers 1 = thread'.stackPointer + 8 ∧
        thread'.registers 2 = thread'.stackPointer + 8 * (args.length + 2) ∧
        List.Forall₂ (fun a text => bytesAt (userBytes s' sp) a text.bytes.length = text.bytes)
          xs args ∧
        List.Forall₂ (fun a text => bytesAt (userBytes s' sp) a text.bytes.length = text.bytes)
          ys envs ∧
        ((thread'.stackPointer, 8 * (args.length + envs.length + 3)) ::
          stringRanges (xs ++ ys) (args ++ envs)).Pairwise Range.Apart ∧
        ∀ r ∈ (thread'.stackPointer, 8 * (args.length + envs.length + 3)) ::
          stringRanges (xs ++ ys) (args ++ envs),
          thread.userStackBottom ≤ r.1 ∧ r.1 + r.2 ≤ thread.userStackTop) ∧
    ((threadSetStartup sp thread arguments environment s).1 = none →
      arguments.length > 32 ∨ environment.length > 32 ∨ none ∈ arguments ∨ none ∈ environment ∨
        ∃ args envs : List CString, arguments = args.map some ∧ environment = envs.map some ∧
          thread.userStackTop < thread.userStackBottom + (stringsSize (args ++ envs) +
            8 * (args.length + envs.length + 3))) := by
  have hview : StackView s.space k1 L1 L0 sp thread.userStackBottom thread.userStackTop s
      (userBytes s sp) := ⟨h, hdirect, hwritable, rfl⟩
  constructor
  · intro thread' s' hst
    obtain ⟨args, envs, rfl, rfl, hfits⟩ := threadSetStartup_some hst
    obtain ⟨s₁, hst₁, h₁⟩ := threadSetStartup_fits hview hsp hnew halign hfits
    rw [hst] at hst₁
    cases hst₁
    obtain ⟨hargs, henvs, hroom⟩ := hfits
    have hsum := stringsSize_append args envs
    have hpointer : (started thread args envs).stackPointer = (thread.userStackTop -
      stringsSize (args ++ envs) - tableSize args.length envs.length) / 16 * 16 := rfl
    have htable : tableSize args.length envs.length = 8 * (args.length + envs.length + 3) := by
      simp only [tableSize]
      omega
    rw [htable] at hroom hpointer
    have hlimit := writable_below_limit hwritable (by omega)
    have hwords := length_tableWords (placesBelow args thread.userStackTop)
      (placesBelow envs (thread.userStackTop - stringsSize args))
    rw [length_placesBelow, length_placesBelow, htable] at hwords
    -- the table is below the strings
    have habove : ∀ x, thread.userStackTop - stringsSize (args ++ envs) ≤ x →
        userBytes s' sp x = storeStrings (userBytes s sp) (args ++ envs) thread.userStackTop x := by
      intro x hx
      rw [h₁.view]
      exact storeWords_of_not (by omega)
    have hranges : ∀ r ∈ stringRanges (placesBelow (args ++ envs) thread.userStackTop)
          (args ++ envs),
        thread.userStackTop - stringsSize (args ++ envs) ≤ r.1 ∧ r.1 + r.2 ≤ thread.userStackTop :=
      stringRanges_inside (by omega)
    simp only [pageSize] at halign
    refine ⟨args, envs, placesBelow args thread.userStackTop,
      placesBelow envs (thread.userStackTop - stringsSize args), rfl, rfl, by omega, by omega,
      by omega, ?_, rfl, rfl, rfl, ?_, ?_, ?_, ?_⟩
    · have hsmall : ∀ w ∈ tableWords (placesBelow args thread.userStackTop)
          (placesBelow envs (thread.userStackTop - stringsSize args)), w < 256 ^ 8 := by
        simp only [tableWords, length_placesBelow, List.mem_cons, List.mem_append,
          startupVectorLimit, virtualAddressLimit] at hargs hlimit ⊢
        rintro w (rfl | hw | rfl | hw | hw)
        · omega
        · have := mem_placesBelow_lt (by omega) w hw
          omega
        · decide
        · have := mem_placesBelow_lt (by omega) w hw
          omega
        · simp at hw
          omega
      have hload := wordsAt_storeWords (m := storeStrings (userBytes s sp) (args ++ envs)
        thread.userStackTop) (a := (started thread args envs).stackPointer) hsmall
      rw [← h₁.view, show (tableWords _ _).length = args.length + envs.length + 3 by omega] at hload
      rw [hload, tableWords, length_placesBelow]
    · refine bytesAt_storeStrings (m := userBytes s sp) (by omega) fun x hle hlt => ?_
      rw [habove x (by omega), storeStrings_append]
      exact storeStrings_of_not (by omega) (by omega)
    · refine bytesAt_storeStrings (m := storeStrings (userBytes s sp) args thread.userStackTop)
        (by omega) fun x hle hlt => ?_
      rw [habove x (by omega), storeStrings_append]
    · rw [← placesBelow_append]
      refine .cons (fun r hr => .inl ?_) (stringRanges_apart (by omega))
      have hr' := (hranges r hr).1
      dsimp only
      omega
    · rw [← placesBelow_append]
      intro r hr
      obtain rfl | hr := List.mem_cons.mp hr
      · dsimp only
        omega
      · have hr' := hranges r hr
        omega
  · intro hnone
    by_contra hnot
    simp only [not_or, not_exists, not_and, Nat.not_lt] at hnot
    obtain ⟨hargs, henvs, hnull, hnull', hroom⟩ := hnot
    obtain ⟨args, rfl⟩ := exists_texts hnull
    obtain ⟨envs, rfl⟩ := exists_texts hnull'
    rw [List.length_map] at hargs henvs
    have hfits : FitsStack thread args envs := by
      refine ⟨hargs, henvs, ?_⟩
      have hr := hroom args envs rfl rfl
      simp only [tableSize]
      omega
    obtain ⟨s₁, hst₁, -⟩ := threadSetStartup_fits hview hsp hnew halign hfits
    rw [hst₁] at hnone
    cases hnone

end Layout

/-- A thread with the first stack of a process. -/
def firstThread : NewThread := ⟨.new, 0x3EFF0000, 0x3F000000, 0x3F000000, fun _ => 0, rfl⟩

/-- "hi". -/
def hiString : CString := ⟨[104, 105], by decide⟩

/-- "you". -/
def youString : CString := ⟨[121, 111, 117], by decide⟩

/-- "A=1". -/
def settingString : CString := ⟨[65, 61, 49], by decide⟩

/-- Two arguments and an environment of one string. -/
theorem threadSetStartup_layout_hi : ∃ (s : State) (sp : AddressSpace) (k1 : Nat) (L1 L0 : Set Nat)
    (thread : NewThread) (s' : State) (a b e : Nat),
    Walls s s.space k1 L1 L0 ∧ s.space 0 = some sp ∧ DirectPages s sp ∧
      UserWritable s sp firstThread.userStackBottom 0x10000 ∧
      threadSetStartup sp firstThread [some hiString, some youString] [some settingString] s =
        (some thread, s') ∧
      thread.stackPointer % 16 = 0 ∧ thread.registers 0 = 2 ∧
      thread.registers 1 = thread.stackPointer + 8 ∧
      thread.registers 2 = thread.stackPointer + 32 ∧
      wordsAt (userBytes s' sp) thread.stackPointer 6 = [2, a, b, 0, e, 0] ∧
      bytesAt (userBytes s' sp) a hiString.bytes.length = hiString.bytes ∧
      bytesAt (userBytes s' sp) b youString.bytes.length = youString.bytes ∧
      bytesAt (userBytes s' sp) e settingString.bytes.length = settingString.bytes := by
  have h₁ := oneTraced_reached MapsUnclaimed trivial
  have hguard : MapsUnclaimed oneTraced
      (.mapPhysical 0 0x3EFF0000 0x20000 0x10000 6 fun _ => (true, true)) :=
    fun i hi => oneSpace_unclaimed i hi
  have hrest : (tracedStep oneTraced
      (.mapPhysical 0 0x3EFF0000 0x20000 0x10000 6 fun _ => (true, true))).any (fun t =>
        (t.state.space 0).any fun sp =>
          sp.records.all (fun r => r.physicalAddress + pageSize ≤ t.state.directMapSize) &&
            t.state.userRangeValid sp 0x3EFF0000 0x10000 (pteRead ||| pteWrite) &&
              (threadSetStartup sp firstThread [some hiString, some youString]
                [some settingString] t.state).1.isSome) = true := by
    decide +kernel
  simp only [Option.any_eq_true, Bool.and_eq_true, List.all_eq_true, decide_eq_true_eq] at hrest
  obtain ⟨t, hst, sp, hsp, ⟨hdirect, hvalid⟩, hsome⟩ := hrest
  obtain ⟨thread, hthread⟩ := Option.isSome_iff_exists.mp hsome
  obtain ⟨⟨k1, L1, L0, hw⟩, -⟩ := bootState_walled.apart_of_run (h₁.tail hguard hst)
  have hwritable : UserWritable t.state sp firstThread.userStackBottom 0x10000 :=
    (hw.userWritable_iff hsp _ _).mpr ((userRangeValid_iff _ _ _ _ _).mp hvalid)
  have hresult : threadSetStartup sp firstThread [some hiString, some youString]
      [some settingString] t.state = (some thread, (threadSetStartup sp firstThread
        [some hiString, some youString] [some settingString] t.state).2) := by
    rw [← hthread]
  obtain ⟨args, envs, xs, ys, hargs, henvs, haligned, -, -, hwords, h0, h1, h2, hxs, hys, -⟩ :=
    (threadSetStartup_layout hw hsp hdirect rfl rfl hwritable _ _).1 _ _ hresult
  have hinj := List.map_injective_iff.mpr (Option.some_injective CString)
  obtain rfl : [hiString, youString] = args := hinj hargs
  obtain rfl : [settingString] = envs := hinj henvs
  rcases hxs with _ | ⟨ha, _ | ⟨hb, _ | _⟩⟩
  rcases hys with _ | ⟨he, _ | _⟩
  exact ⟨t.state, sp, k1, L1, L0, thread, _, _, _, _, hw, hsp, hdirect, hwritable, hresult,
    haligned, h0, h1, h2, hwords, ha, hb, he⟩

end RiscMv.User
