import Mathlib.Data.List.Chain
import RiscMv.Memory.Heap

/-!
# The blocks of the heap

`Rep` relates the memory of the heap to a list of blocks: their headers tile a range and are
linked both ways.  Each operation of the heap changes the list as its name says, keeps the other
blocks that are in use and does not touch their payloads.
-/

namespace RiscMv.Memory

/-- A block: the size of its payload, and whether it is free. -/
structure Block where
  size : Nat
  free : Bool
deriving DecidableEq

/-- The bytes the blocks take, with their headers. -/
def extent : List Block → Nat
  | [] => 0
  | b :: bs => headerSize + b.size + extent bs

@[simp] theorem extent_nil : extent [] = 0 := rfl

@[simp] theorem extent_cons (b : Block) (bs : List Block) :
    extent (b :: bs) = headerSize + b.size + extent bs := rfl

@[simp] theorem extent_append (xs ys : List Block) :
    extent (xs ++ ys) = extent xs + extent ys := by
  induction xs with
  | nil => simp
  | cons b xs ih => simp [ih, Nat.add_assoc]

/-- The address of the last block from `a` on, or `p` if there is none. -/
def lastBlock (p a : Nat) : List Block → Nat
  | [] => p
  | b :: bs => lastBlock a (a + headerSize + b.size) bs

/-- The address of the next block, if there is one. -/
def following (a next : Nat) : List Block → Nat
  | [] => next
  | _ :: _ => a

/-- The words of a header. -/
def headerOf (b : Block) (previous next : Nat) : HeaderField → Nat
  | .magic => heapMagic
  | .size => b.size
  | .previous => previous
  | .next => next
  | .flags => if b.free then 1 else 0
  | .reserved => 0

/-- The memory holds the blocks from `a` on, after the block at `p` and before the one at
    `next`. -/
def Rep (h : Heap) : (p a : Nat) → List Block → (next : Nat) → Prop
  | _, _, [], _ => True
  | p, a, b :: bs, next =>
    h.field a = headerOf b p (following (a + headerSize + b.size) next bs) ∧
      Rep h a (a + headerSize + b.size) bs next

variable {h h' : Heap} {bs xs ys pre post : List Block} {b c : Block} {p a x y t v n next q : Nat}
  {f g : HeaderField} {X : Nat → Prop}

/-- The variables that stay when blocks change: all but the last block and the memory. -/
def Heap.variables (h : Heap) : (Nat × Nat × Nat × Nat) × List Allocation :=
  ((h.base, h.limit, h.mappedSize, h.first), h.live)

theorem Heap.variables_eq (hv : h'.variables = h.variables) : h'.base = h.base ∧
    h'.limit = h.limit ∧ h'.mappedSize = h.mappedSize ∧ h'.first = h.first ∧ h'.live = h.live := by
  simpa [Heap.variables, and_assoc] using hv

/-! ## Header words -/

@[simp] theorem setField_variables : (h.setField x f v).variables = h.variables := rfl

@[simp] theorem setField_base : (h.setField x f v).base = h.base := rfl

@[simp] theorem setField_last : (h.setField x f v).last = h.last := rfl

@[simp] theorem writeHeader_variables : (h.writeHeader x n p next).variables = h.variables := by
  simp only [Heap.writeHeader, setField_variables]

@[simp] theorem writeHeader_last : (h.writeHeader x n p next).last = h.last := by
  simp only [Heap.writeHeader, setField_last]

@[simp] theorem relink_variables : (h.relink next t).variables = h.variables := by
  unfold Heap.relink
  split <;> rfl

theorem HeaderField.index_lt (f : HeaderField) : f.index < 6 := by cases f <;> decide

theorem HeaderField.index_injective (hfg : f.index = g.index) : f = g := by
  cases f <;> cases g <;> first | rfl | cases hfg

/-- A store to a header changes none of the bytes outside. -/
theorem setField_byte (hz : ¬ (x ≤ a ∧ a < x + headerSize)) :
    (h.setField x f v).byte a = h.byte a := by
  have := f.index_lt
  refine storeLE_of_not ?_
  simp only [headerSize] at hz
  omega

/-- The words of a header after a store to one of them. -/
theorem setField_field_self (hv : v < 2 ^ 64) :
    (h.setField x f v).field x = Function.update (h.field x) f v := by
  funext g
  by_cases hgf : g = f
  · subst hgf
    rw [Function.update_self]
    exact loadLE_storeLE_of_lt hv
  · rw [Function.update_of_ne hgf]
    refine loadLE_storeLE_of_disjoint ?_
    have hne : f.index ≠ g.index := fun heq => hgf (HeaderField.index_injective heq.symm)
    omega

/-- The words of a header depend on its bytes only. -/
theorem field_congr (hbyte : ∀ z, x ≤ z → z < x + headerSize → h'.byte z = h.byte z) :
    h'.field x = h.field x := by
  funext g
  have := g.index_lt
  refine loadLE_congr fun z hle hlt => hbyte z (by omega) ?_
  simp only [headerSize]
  omega

/-- The words of another header. -/
theorem setField_field_apart (hxy : x + headerSize ≤ y ∨ y + headerSize ≤ x) :
    (h.setField x f v).field y = h.field y :=
  field_congr fun z hle hlt => setField_byte (by omega)

theorem writeHeader_field_self (hn : n < 2 ^ 64) (hp : p < 2 ^ 64) (hnext : next < 2 ^ 64) :
    (h.writeHeader x n p next).field x = headerOf ⟨n, true⟩ p next := by
  simp only [Heap.writeHeader]
  rw [setField_field_self (by decide), setField_field_self (by decide), setField_field_self hnext,
    setField_field_self hp, setField_field_self hn, setField_field_self (by decide)]
  funext g
  cases g <;> rfl

theorem writeHeader_byte (hz : ¬ (x ≤ a ∧ a < x + headerSize)) :
    (h.writeHeader x n p next).byte a = h.byte a := by
  simp only [Heap.writeHeader]
  rw [setField_byte hz, setField_byte hz, setField_byte hz, setField_byte hz, setField_byte hz,
    setField_byte hz]

/-- A header tells whether the block is free. -/
theorem heapBlockFree_of_field (hx : h.field x = headerOf b p next) :
    heapBlockFree h x = b.free := by
  unfold heapBlockFree
  rw [hx]
  cases b with
  | mk size free => cases free <;> simp [headerOf, heapFree]

/-! ## The represented list -/

theorem Rep.congr (hr : Rep h p a bs next)
    (hbyte : ∀ z, a ≤ z → z < a + extent bs → h'.byte z = h.byte z) : Rep h' p a bs next := by
  induction bs generalizing p a with
  | nil => trivial
  | cons b bs ih =>
    simp only [extent_cons] at hbyte
    refine ⟨(field_congr fun z hle hlt => hbyte z hle (by omega)).trans hr.1,
      ih hr.2 fun z hle hlt => hbyte z (by omega) (by omega)⟩

theorem Rep.append_iff : Rep h p a (xs ++ ys) next ↔
    Rep h p a xs (following (a + extent xs) next ys) ∧
      Rep h (lastBlock p a xs) (a + extent xs) ys next := by
  induction xs generalizing p a with
  | nil => simp [Rep, lastBlock]
  | cons b xs ih =>
    have hassoc : a + (headerSize + b.size + extent xs) = a + headerSize + b.size + extent xs := by
      omega
    simp only [List.cons_append, Rep, ih, lastBlock, extent_cons, hassoc, and_assoc]
    cases xs with
    | nil => simp [following]
    | cons b' xs => simp [following]

/-- A block with what comes before and after it. -/
theorem Rep.split (hr : Rep h p a (pre ++ b :: post) next) (hx : x = a + extent pre) :
    Rep h p a pre x ∧
      h.field x = headerOf b (lastBlock p a pre)
        (following (x + headerSize + b.size) next post) ∧
      Rep h x (x + headerSize + b.size) post next := by
  obtain ⟨hpre, hb⟩ := Rep.append_iff.mp hr
  subst hx
  exact ⟨hpre, hb⟩

theorem Rep.join (hpre : Rep h p a pre x) (hx : x = a + extent pre)
    (hb : h.field x = headerOf b (lastBlock p a pre)
      (following (x + headerSize + b.size) next post))
    (hpost : Rep h x (x + headerSize + b.size) post next) :
    Rep h p a (pre ++ b :: post) next := by
  subst hx
  exact Rep.append_iff.mpr ⟨hpre, hb, hpost⟩

/-- The blocks after a block are told where it is. -/
theorem Rep.setPrevious (hr : Rep h x y (c :: post) next) (ht : t < 2 ^ 64) :
    Rep (h.setField y .previous t) t y (c :: post) next := by
  obtain ⟨hc, hpost⟩ := hr
  refine ⟨?_, hpost.congr fun z hle hlt => setField_byte (by omega)⟩
  rw [setField_field_self ht, hc]
  funext g
  cases g <;> rfl

/-- The last block is told where the next one is. -/
theorem Rep.setNext (hr : Rep h p a (pre ++ [c]) next) (ht : t < 2 ^ 64) :
    Rep (h.setField (a + extent pre) .next t) p a (pre ++ [c]) t := by
  obtain ⟨hpre, hc, -⟩ := hr.split rfl
  refine Rep.join (hpre.congr fun z _ hlt => setField_byte (by omega)) rfl ?_ trivial
  rw [setField_field_self ht, hc]
  funext g
  cases g <;> rfl

theorem lastBlock_append :
    lastBlock p a (xs ++ ys) = lastBlock (lastBlock p a xs) (a + extent xs) ys := by
  induction xs generalizing p a with
  | nil => simp [lastBlock]
  | cons b xs ih =>
    have hassoc : a + (headerSize + b.size + extent xs) = a + headerSize + b.size + extent xs := by
      omega
    simp [lastBlock, ih, hassoc]

/-- The last block lies in the range. -/
theorem lastBlock_bounds (hbs : bs ≠ []) :
    a ≤ lastBlock p a bs ∧ lastBlock p a bs + headerSize ≤ a + extent bs := by
  induction bs generalizing p a with
  | nil => exact absurd rfl hbs
  | cons b bs ih =>
    cases bs with
    | nil =>
      simp only [lastBlock, extent_cons, extent_nil]
      omega
    | cons b' bs =>
      have := ih (p := a) (a := a + headerSize + b.size) (by simp)
      simp only [lastBlock, extent_cons] at this ⊢
      omega

/-- With a block there is room for its header. -/
theorem headerSize_le_extent (hbs : bs ≠ []) : headerSize ≤ extent bs := by
  cases bs with
  | nil => exact absurd rfl hbs
  | cons b bs =>
    rw [extent_cons]
    omega

/-! ## The invariant -/

/-- The variables of the heap agree with the list of blocks. -/
structure HeapOk (h : Heap) (bs : List Block) : Prop where
  rep : Rep h 0 h.base bs 0
  nonempty : bs ≠ []
  first : h.first = h.base
  last : h.last = lastBlock 0 h.base bs
  mapped : h.mappedSize = extent bs
  sizes : ∀ b ∈ bs, b.size % heapAlignment = 0
  base : 0 < h.base ∧ h.base % heapAlignment = 0
  bound : h.base + h.mappedSize ≤ h.limit ∧ h.limit < 2 ^ 64
  pages : h.mappedSize % pageSize = 0

/-- No two free blocks are next to each other. -/
def Coalesced (bs : List Block) : Prop := bs.IsChain fun b c => ¬ (b.free = true ∧ c.free = true)

/-- A block of `n` bytes at `q` is in use. -/
def Used (a : Nat) : List Block → (q n : Nat) → Prop
  | [], _, _ => False
  | b :: bs, q, n => b = ⟨n, false⟩ ∧ q = a + headerSize ∨ Used (a + headerSize + b.size) bs q n

/-- The blocks in use stay, except those at `X`, and so do the bytes of their payloads. -/
structure Keeps (X : Nat → Prop) (h : Heap) (bs : List Block) (h' : Heap) (bs' : List Block) :
    Prop where
  used : ∀ q n, ¬ X q → Used h.base bs q n → Used h.base bs' q n
  bytes : ∀ q n, ¬ X q → Used h.base bs q n → ∀ z, q ≤ z → z < q + n → h'.byte z = h.byte z
  base : h'.base = h.base
  live : h'.live = h.live

theorem Keeps.refl (X : Nat → Prop) (h : Heap) (bs : List Block) : Keeps X h bs h bs :=
  ⟨fun _ _ _ hu => hu, fun _ _ _ _ _ _ _ => rfl, rfl, rfl⟩

theorem Keeps.trans {h₁ h₂ h₃ : Heap} {bs₁ bs₂ bs₃ : List Block} (h12 : Keeps X h₁ bs₁ h₂ bs₂)
    (h23 : Keeps X h₂ bs₂ h₃ bs₃) : Keeps X h₁ bs₁ h₃ bs₃ where
  used q n hX hu := by
    have := h23.used q n hX (h12.base ▸ h12.used q n hX hu)
    rwa [h12.base] at this
  bytes q n hX hu z hle hlt := by
    have hu₂ : Used h₂.base bs₂ q n := h12.base ▸ h12.used q n hX hu
    rw [h23.bytes q n hX hu₂ z hle hlt, h12.bytes q n hX hu z hle hlt]
  base := h23.base.trans h12.base
  live := h23.live.trans h12.live

theorem Used.append_iff : Used a (xs ++ ys) q n ↔ Used a xs q n ∨ Used (a + extent xs) ys q n := by
  induction xs generalizing a with
  | nil => simp [Used]
  | cons b xs ih =>
    have hassoc : a + (headerSize + b.size + extent xs) = a + headerSize + b.size + extent xs := by
      omega
    simp only [List.cons_append, Used, ih, extent_cons, hassoc, or_assoc]

/-- A block in use lies in the range of the list, after its own header. -/
theorem Used.bounds (hu : Used a bs q n) : a + headerSize ≤ q ∧ q + n ≤ a + extent bs := by
  induction bs generalizing a with
  | nil => exact hu.elim
  | cons b bs ih =>
    simp only [extent_cons]
    rcases hu with ⟨rfl, rfl⟩ | hu
    · simp only
      omega
    · have := ih hu
      omega

/-- Where a block in use stands in the list. -/
theorem Used.split (hu : Used a bs q n) :
    ∃ pre post, bs = pre ++ ⟨n, false⟩ :: post ∧ q = a + extent pre + headerSize := by
  induction bs generalizing a with
  | nil => exact hu.elim
  | cons b bs ih =>
    rcases hu with ⟨rfl, rfl⟩ | hu
    · exact ⟨[], bs, rfl, rfl⟩
    · obtain ⟨pre, post, rfl, rfl⟩ := ih hu
      refine ⟨b :: pre, post, rfl, ?_⟩
      simp only [extent_cons]
      omega

/-- Two blocks in use at different addresses do not overlap. -/
theorem Used.disjoint {r k : Nat} (hq : Used a bs q n) (hr : Used a bs r k) (hne : q ≠ r) :
    q + n ≤ r ∨ r + k ≤ q := by
  induction bs generalizing a with
  | nil => exact hq.elim
  | cons b bs ih =>
    rcases hq with ⟨rfl, rfl⟩ | hq <;> rcases hr with ⟨hb, rfl⟩ | hr
    · exact absurd rfl hne
    · have := hr.bounds
      simp only at this
      omega
    · have := hq.bounds
      subst hb
      simp only at this
      omega
    · exact ih hq hr

/-- The addresses of the heap fit a word. -/
theorem HeapOk.lt (hok : HeapOk h bs) (hx : x ≤ h.base + extent bs) : x < 2 ^ 64 := by
  have := hok.mapped
  have := hok.bound
  omega

theorem lastBlock_eq (hpost : post ≠ []) : lastBlock p a post = lastBlock t a post := by
  cases post with
  | nil => exact absurd rfl hpost
  | cons b post => rfl

/-- Some blocks in the middle are replaced by others of the same extent. -/
theorem HeapOk.replace {m l : List Block} (hok : HeapOk h (pre ++ (m ++ post)))
    (hx : x = h.base + extent pre) (hm : m ≠ []) (hl : l ≠ [])
    (hext : extent l = extent m) (hsizes : ∀ b ∈ l, b.size % heapAlignment = 0)
    (hbyte : ∀ z, z < x → h'.byte z = h.byte z)
    (hrep : Rep h' (lastBlock 0 h.base pre) x l (following (x + extent m) 0 post))
    (hpost : Rep h' (lastBlock 0 x l) (x + extent m) post 0)
    (hlast : h'.last = if post = [] then lastBlock 0 x l else h.last)
    (hvariables : h'.variables = h.variables) : HeapOk h' (pre ++ (l ++ post)) := by
  obtain ⟨hbase, hlimit, hmapped, hfirst, -⟩ := Heap.variables_eq hvariables
  have hpre := (Rep.append_iff.mp hok.rep).1
  rw [← hx] at hpre
  refine ⟨?_, by simp [hl], by rw [hfirst, hbase, hok.first], ?_, ?_, fun b hb => ?_,
    by rw [hbase]; exact hok.base, by rw [hbase, hlimit, hmapped]; exact hok.bound,
    by rw [hmapped]; exact hok.pages⟩
  · rw [hbase, Rep.append_iff, Rep.append_iff, ← hx, hext]
    refine ⟨?_, hrep, ?_⟩
    · have hfollow : following x 0 (l ++ post) = following x 0 (m ++ post) := by
        cases m with
        | nil => exact absurd rfl hm
        | cons b m => cases l with
          | nil => exact absurd rfl hl
          | cons b' l => rfl
      rw [hfollow]
      exact hpre.congr fun z _ hlt => hbyte z (hx ▸ hlt)
    · rw [lastBlock_eq hl]
      exact hpost
  · rw [hlast, hbase, lastBlock_append, lastBlock_append, ← hx, hext]
    split
    · next hnil =>
      subst hnil
      exact lastBlock_eq hl
    · next hne =>
      rw [hok.last, lastBlock_append, lastBlock_append, ← hx]
      exact lastBlock_eq hne
  · rw [hmapped, hok.mapped]
    simp [hext]
  · simp only [List.mem_append] at hb
    rcases hb with hb | hb | hb
    · exact hok.sizes b (by simp [hb])
    · exact hsizes b hb
    · exact hok.sizes b (by simp [hb])

/-- Some blocks in the middle are replaced: those in use before and after them stay. -/
theorem Keeps.replace {m l : List Block} (hx : x = h.base + extent pre)
    (hm : ∀ q n, ¬ X q → ¬ Used x m q n) (hext : extent l = extent m)
    (hbyte : ∀ z, z < x ∨ x + extent m + headerSize ≤ z → h'.byte z = h.byte z)
    (hvariables : h'.variables = h.variables) :
    Keeps X h (pre ++ (m ++ post)) h' (pre ++ (l ++ post)) := by
  obtain ⟨hbase, -, -, -, hlive⟩ := Heap.variables_eq hvariables
  subst hx
  refine ⟨fun q n hX hu => ?_, fun q n hX hu z hle hlt => ?_, hbase, hlive⟩
  · rw [Used.append_iff, Used.append_iff] at hu ⊢
    rw [hext]
    exact hu.imp id (Or.imp (fun hu => absurd hu (hm q n hX)) id)
  · rw [Used.append_iff, Used.append_iff] at hu
    rcases hu with hu | hu | hu
    · have := hu.bounds
      exact hbyte z (by omega)
    · exact absurd hu (hm q n hX)
    · have := hu.bounds
      exact hbyte z (by omega)

/-- The blocks after `t` are told where it is. -/
theorem relink_rep (hr : Rep h x y post 0) (hy : y ≠ 0) (ht : t < 2 ^ 64) :
    Rep (h.relink (following y 0 post) t) t y post 0 := by
  cases post with
  | nil => trivial
  | cons c post =>
    rw [Heap.relink, following, if_pos hy]
    exact hr.setPrevious ht

theorem relink_byte (hz : ¬ (y ≤ a ∧ a < y + headerSize)) :
    (h.relink (following y 0 post) t).byte a = h.byte a := by
  unfold Heap.relink
  split
  · next hne =>
    cases post with
    | nil => exact absurd rfl hne
    | cons c post => exact setField_byte hz
  · rfl

theorem relink_last (hy : y ≠ 0) :
    (h.relink (following y 0 post) t).last = if post = [] then t else h.last := by
  cases post with
  | nil => simp [Heap.relink, following]
  | cons c post => simp [Heap.relink, following, hy, Heap.setField]

end RiscMv.Memory
