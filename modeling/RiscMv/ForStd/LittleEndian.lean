import Mathlib.Algebra.Order.Group.Nat
import Mathlib.Tactic.Ring

/-!
# Little-endian numbers in a byte memory

`loadLE` reads a number of `n` bytes, `storeLE` writes one.  A load sees the last store to its
bytes and nothing of a store elsewhere.  `bytesAt` and `storeBytes` do the same for byte strings.
-/

namespace RiscMv

/-- A memory of bytes. -/
abbrev ByteMemory := Nat → UInt8

variable {m m' : ByteMemory} {a b n k v i : Nat} {ws : List Nat}

/-- The number in the `n` bytes from `a` on, low byte first. -/
def loadLE (m : ByteMemory) (a : Nat) : Nat → Nat
  | 0 => 0
  | n + 1 => (m a).toNat + 256 * loadLE m (a + 1) n

/-- Writes the low `n` bytes of `v` from `a` on. -/
def storeLE (m : ByteMemory) (a n v : Nat) : ByteMemory :=
  fun x => if a ≤ x ∧ x < a + n then UInt8.ofNat (v / 256 ^ (x - a)) else m x

/-- A load depends on its own bytes only. -/
theorem loadLE_congr (h : ∀ x, a ≤ x → x < a + n → m' x = m x) : loadLE m' a n = loadLE m a n := by
  induction n generalizing a with
  | zero => rfl
  | succ n ih =>
    rw [loadLE, loadLE, h a (Nat.le_refl a) (by omega),
      ih fun x hle hlt => h x (by omega) (by omega)]

theorem loadLE_lt (m : ByteMemory) (a n : Nat) : loadLE m a n < 256 ^ n := by
  induction n generalizing a with
  | zero => simp [loadLE]
  | succ n ih =>
    have hbyte := (m a).toNat_lt
    have hrest := ih (a + 1)
    rw [loadLE, Nat.pow_succ]
    omega

/-- Outside its bytes a store changes nothing. -/
theorem storeLE_of_not (h : ¬ (a ≤ k ∧ k < a + n)) : storeLE m a n v k = m k := if_neg h

/-- A load of what was stored, with the high bytes already consumed. -/
theorem loadLE_storeLE_shift (m : ByteMemory) (a n v i : Nat) (hi : i ≤ n) :
    loadLE (storeLE m a n v) (a + i) (n - i) = v / 256 ^ i % 256 ^ (n - i) := by
  induction hk : n - i generalizing i with
  | zero => simp [loadLE, Nat.mod_one]
  | succ k ih =>
    have hrest := ih (i + 1) (by omega) (by omega)
    have hbyte : storeLE m a n v (a + i) = UInt8.ofNat (v / 256 ^ i) := by
      rw [storeLE, if_pos (by omega), Nat.add_sub_cancel_left]
    rw [loadLE, Nat.add_assoc, hrest, hbyte, Nat.pow_succ, ← Nat.div_div_eq_div_mul,
      Nat.pow_succ, Nat.mul_comm (256 ^ k), Nat.mod_mul]
    simp

@[simp] theorem loadLE_storeLE (m : ByteMemory) (a n v : Nat) :
    loadLE (storeLE m a n v) a n = v % 256 ^ n := by
  simpa using loadLE_storeLE_shift m a n v 0 (Nat.zero_le n)

theorem loadLE_storeLE_of_lt (hv : v < 256 ^ n) : loadLE (storeLE m a n v) a n = v := by
  rw [loadLE_storeLE, Nat.mod_eq_of_lt hv]

/-- A load does not see a store to other bytes. -/
theorem loadLE_storeLE_of_disjoint (h : a + n ≤ b ∨ b + k ≤ a) :
    loadLE (storeLE m a n v) b k = loadLE m b k :=
  loadLE_congr fun x hle hlt => storeLE_of_not (by omega)

/-- A byte of the number that is loaded. -/
theorem byte_loadLE (m : ByteMemory) (a : Nat) {n : Nat} (hi : i < n) :
    UInt8.ofNat (loadLE m a n / 256 ^ i) = m (a + i) := by
  induction n generalizing a i with
  | zero => omega
  | succ n ih =>
    have hbyte := (m a).toNat_lt
    cases i with
    | zero =>
      apply UInt8.toNat_inj.mp
      simp only [loadLE, UInt8.toNat_ofNat', Nat.pow_zero, Nat.div_one, Nat.add_zero]
      omega
    | succ i =>
      have hdiv : loadLE m a (n + 1) / 256 = loadLE m (a + 1) n := by
        rw [loadLE]
        omega
      rw [Nat.pow_succ', ← Nat.div_div_eq_div_mul, hdiv, ih (a + 1) (by omega), Nat.add_assoc,
        Nat.add_comm 1 i]

/-- Equal bytes give equal numbers, wherever they are. -/
theorem loadLE_of_bytes (h : ∀ i < n, m' (b + i) = m (a + i)) : loadLE m' b n = loadLE m a n := by
  induction n generalizing a b with
  | zero => rfl
  | succ n ih =>
    have hrest : loadLE m' (b + 1) n = loadLE m (a + 1) n := by
      apply ih
      intro i hi
      have hnext := h (i + 1) (by omega)
      rwa [Nat.add_comm i 1, ← Nat.add_assoc, ← Nat.add_assoc] at hnext
    rw [loadLE, loadLE, hrest]
    exact congrArg (fun x : UInt8 => x.toNat + 256 * loadLE m (a + 1) n) (h 0 (by omega))

/-- The number in bytes that are the bytes of `v`. -/
theorem loadLE_of_eq_bytes (h : ∀ i < n, m (a + i) = UInt8.ofNat (v / 256 ^ i)) :
    loadLE m a n = v % 256 ^ n := by
  rw [← loadLE_storeLE m a n v]
  apply loadLE_of_bytes
  intro i hi
  rw [h i hi, storeLE, if_pos (by omega), Nat.add_sub_cancel_left]

/-- A number in two parts. -/
theorem loadLE_add (m : ByteMemory) (a n k : Nat) :
    loadLE m a (n + k) = loadLE m a n + 256 ^ n * loadLE m (a + n) k := by
  induction n generalizing a with
  | zero => simp [loadLE]
  | succ n ih =>
    rw [Nat.add_right_comm, loadLE, loadLE, ih (a + 1), Nat.add_comm n 1, ← Nat.add_assoc a 1 n]
    ring

/-! ## Byte strings -/

/-- The `n` bytes from `a` on. -/
def bytesAt (m : ByteMemory) (a n : Nat) : List UInt8 := (List.range n).map fun i => m (a + i)

/-- Writes a byte string from `a` on. -/
def storeBytes (m : ByteMemory) (a : Nat) (bs : List UInt8) : ByteMemory :=
  fun x => if a ≤ x ∧ x < a + bs.length then bs.getD (x - a) 0 else m x

variable {bs : List UInt8}

@[simp] theorem bytesAt_length (m : ByteMemory) (a n : Nat) : (bytesAt m a n).length = n := by
  simp [bytesAt]

theorem eq_getElem_of_bytesAt (h : bytesAt m a n = bs) (hi : i < bs.length) :
    m (a + i) = bs[i] := by
  subst h
  simp [bytesAt]

/-- The first bytes of a byte string. -/
theorem bytesAt_of_append {cs : List UInt8} (h : bytesAt m a n = bs ++ cs) :
    bytesAt m a bs.length = bs := by
  apply List.ext_getElem
  · simp
  · intro i _ hi
    have hlt : i < (bs ++ cs).length := by
      rw [List.length_append]
      omega
    have hget := eq_getElem_of_bytesAt h hlt
    rw [List.getElem_append_left hi] at hget
    simp [bytesAt, hget]

theorem bytesAt_congr (h : ∀ x, a ≤ x → x < a + n → m' x = m x) :
    bytesAt m' a n = bytesAt m a n := by
  apply List.map_congr_left
  intro i hi
  have hi := List.mem_range.mp hi
  exact h (a + i) (by omega) (by omega)

/-- Outside its bytes a store changes nothing. -/
theorem storeBytes_of_not (h : ¬ (a ≤ k ∧ k < a + bs.length)) : storeBytes m a bs k = m k :=
  if_neg h

@[simp] theorem storeBytes_nil (m : ByteMemory) (a : Nat) : storeBytes m a [] = m := by
  funext x
  apply storeBytes_of_not
  rw [List.length_nil]
  omega

@[simp] theorem bytesAt_storeBytes (m : ByteMemory) (a : Nat) (bs : List UInt8) :
    bytesAt (storeBytes m a bs) a bs.length = bs := by
  apply List.ext_getElem
  · simp
  · intro i _ hi
    simp [bytesAt, storeBytes, hi]

theorem bytesAt_storeBytes_of_disjoint (h : a + bs.length ≤ b ∨ b + k ≤ a) :
    bytesAt (storeBytes m a bs) b k = bytesAt m b k :=
  bytesAt_congr fun x hle hlt => storeBytes_of_not (by omega)

/-- The bytes of a number, low byte first. -/
def bytesLE (n v : Nat) : List UInt8 := (List.range n).map fun i => UInt8.ofNat (v / 256 ^ i)

@[simp] theorem bytesLE_length (n v : Nat) : (bytesLE n v).length = n := by
  simp [bytesLE]

theorem storeBytes_bytesLE (m : ByteMemory) (a n v : Nat) :
    storeBytes m a (bytesLE n v) = storeLE m a n v := by
  funext x
  rw [storeBytes, storeLE, bytesLE_length]
  split
  · next hx =>
    have hi : x - a < n := by omega
    simp [bytesLE, hi]
  · rfl

/-! ## Tables of 64-bit words -/

/-- Writes words from `a` on. -/
def storeWords (m : ByteMemory) (a : Nat) : List Nat → ByteMemory
  | [] => m
  | w :: ws => storeWords (storeLE m a 8 w) (a + 8) ws

/-- The `n` words from `a` on. -/
def wordsAt (m : ByteMemory) (a n : Nat) : List Nat :=
  (List.range n).map fun i => loadLE m (a + 8 * i) 8

theorem storeWords_append (m : ByteMemory) (a : Nat) (xs ys : List Nat) :
    storeWords m a (xs ++ ys) = storeWords (storeWords m a xs) (a + 8 * xs.length) ys := by
  induction xs generalizing m a with
  | nil => rfl
  | cons x xs ih =>
    rw [List.cons_append, storeWords, ih, storeWords, List.length_cons,
      show a + 8 + 8 * xs.length = a + 8 * (xs.length + 1) by omega]

/-- Outside its words a store changes nothing. -/
theorem storeWords_of_not (h : ¬ (a ≤ k ∧ k < a + 8 * ws.length)) : storeWords m a ws k = m k := by
  induction ws generalizing m a with
  | nil => rfl
  | cons w ws ih =>
    rw [List.length_cons] at h
    rw [storeWords, ih (by omega), storeLE_of_not (by omega)]

theorem loadLE_storeWords (hi : i < ws.length) (hw : ws[i] < 256 ^ 8) :
    loadLE (storeWords m a ws) (a + 8 * i) 8 = ws[i] := by
  induction ws generalizing m a i with
  | nil => cases hi
  | cons w ws ih =>
    rw [storeWords]
    cases i with
    | zero =>
      -- the later words are behind the first one
      rw [loadLE_congr fun x hle hlt => storeWords_of_not (by omega)]
      exact loadLE_storeLE_of_lt hw
    | succ i =>
      rw [show a + 8 * (i + 1) = a + 8 + 8 * i by omega]
      exact ih (by simpa using hi) hw

theorem wordsAt_storeWords (hws : ∀ w ∈ ws, w < 256 ^ 8) :
    wordsAt (storeWords m a ws) a ws.length = ws := by
  apply List.ext_getElem
  · simp [wordsAt]
  · intro i _ hi
    simp only [wordsAt, List.getElem_map, List.getElem_range]
    exact loadLE_storeWords hi (hws _ (List.getElem_mem hi))

end RiscMv
