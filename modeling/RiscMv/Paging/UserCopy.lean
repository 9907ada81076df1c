import RiscMv.ForStd.LittleEndian
import RiscMv.Paging.Isolation

/-!
# Copies between kernel buffers and user memory (`syscall.c`)

`kernel_copy_to_user` and `kernel_copy_from_user` first look up every page of the range, and then
copy page by page through the direct map.  Page tables are words of the same memory: the copy does
not change them because no user page is a table.

## Key results
- `Walls.storeBytes`: the invariant of the page tables holds after a store into a user page
- `copyOut_spec`, `copyIn_spec`: what the loops have done
- `userCopy_exact`: both copies are all or nothing
- `copyToUser_shared`: with one physical page mapped twice the later bytes win
-/

namespace RiscMv.Paging

/-! ## Bytes of RAM -/

namespace Ram

/-- The bytes of RAM. -/
def bytes (ram : Ram) : ByteMemory :=
  fun a => UInt8.ofNat (ram.word (a / 8 * 8) / 256 ^ (a % 8))

/-- Stores bytes in RAM. -/
def storeBytes (ram : Ram) (a : Nat) (bs : List UInt8) : Ram :=
  let word w :=
    if a < w + 8 ∧ w < a + bs.length then loadLE (RiscMv.storeBytes ram.bytes a bs) w 8
    else ram.word w
  { ram with word }

variable {ram : Ram} {a w : Nat} {bs : List UInt8}

@[simp] theorem bytes_storeBytes (ram : Ram) (a : Nat) (bs : List UInt8) :
    (ram.storeBytes a bs).bytes = RiscMv.storeBytes ram.bytes a bs := by
  funext x
  have hx : x / 8 * 8 + x % 8 = x := by omega
  rw [bytes, storeBytes]
  dsimp only
  split
  · next hmeets =>
    rw [byte_loadLE _ _ (Nat.mod_lt x (by decide)), hx]
  · next hapart =>
    rw [storeBytes_of_not (by omega)]
    rfl

/-- A word elsewhere stays. -/
theorem word_storeBytes (h : w + 8 ≤ a ∨ a + bs.length ≤ w) :
    (ram.storeBytes a bs).word w = ram.word w := by
  rw [storeBytes]
  dsimp only
  rw [if_neg (by omega)]

end Ram

/-! ## The copies -/

namespace State

variable (s : State)

/-- Stores bytes through the direct map. -/
def storeBytes (a : Nat) (bs : List UInt8) : State := { s with ram := s.ram.storeBytes a bs }

/-- The loop of `user_range_valid` over the pages; `n` bounds the turns. -/
def pagesValid (space : AddressSpace) (flags lastPage : Nat) : Nat → Nat → Bool
  | 0, _ => false
  | n + 1, page =>
    if (s.resolve space page flags).isNone then false
    else if page = lastPage then true
    else if page > 2 ^ 64 - 1 - pageSize then false
    else pagesValid space flags lastPage n (page + pageSize)

/-- `user_range_valid`. -/
def userRangeValid (space : AddressSpace) (address size flags : Nat) : Bool :=
  if size = 0 then true
  else if address > 2 ^ 64 - 1 - (size - 1) then false
  else
    let lastPage := addressOf (address + size - 1)
    let page := addressOf address
    s.pagesValid space flags lastPage ((lastPage - page) / pageSize + 1) page

/-- The loop of `kernel_copy_to_user` from offset `i` on, with the bytes that are left; each turn
    copies at least one, so that their number bounds the turns. -/
def copyOut (space : AddressSpace) (destination : Nat) :
    Nat → Nat → List UInt8 → State → Bool × State
  | 0, _, left, s => (left.isEmpty, s)
  | n + 1, i, left, s =>
    if left.isEmpty then (true, s)
    else match s.resolve space (destination + i) (pteRead ||| pteWrite) with
      | none => (false, s)
      | some physical =>
        let chunk := min (pageSize - physical % pageSize) left.length
        if !s.direct physical then (false, s)
        else copyOut space destination n (i + chunk) (left.drop chunk)
          (s.storeBytes physical (left.take chunk))

/-- `kernel_copy_to_user`: whether it returns 1. -/
def copyToUser (space : AddressSpace) (destination : Nat) (source : List UInt8) : Bool × State :=
  if !s.userRangeValid space destination source.length (pteRead ||| pteWrite) then (false, s)
  else copyOut space destination source.length 0 source s

/-- The loop of `kernel_copy_from_user` from offset `i` on, `left` bytes before its end. -/
def copyIn (space : AddressSpace) (source : Nat) :
    Nat → Nat → Nat → ByteMemory → Bool × ByteMemory
  | 0, _, left, buffer => (left == 0, buffer)
  | n + 1, i, left, buffer =>
    if left = 0 then (true, buffer)
    else match s.resolve space (source + i) pteRead with
      | none => (false, buffer)
      | some physical =>
        let chunk := min (pageSize - physical % pageSize) left
        if !s.direct physical then (false, buffer)
        else copyIn space source n (i + chunk) (left - chunk)
          (RiscMv.storeBytes buffer i (bytesAt s.ram.bytes physical chunk))

/-- `kernel_copy_from_user`: whether it returns 1, and the buffer, by offsets. -/
def copyFromUser (space : AddressSpace) (buffer : ByteMemory) (source size : Nat) :
    Bool × ByteMemory :=
  if !s.userRangeValid space source size pteRead then (false, buffer)
  else s.copyIn space source size 0 size buffer

end State

variable {s s' : State} {space : Nat → Option AddressSpace} {k1 : Nat} {L1 L0 : Set Nat}
  {sp : AddressSpace} {id va flags p q : Nat} {r : AddressPage}

/-! ## Looking up pages -/

/-- `kernel_address_space_resolve` gives the same page for all addresses of a page. -/
theorem resolve_page (s : State) (sp : AddressSpace) (va flags : Nat) :
    s.resolve sp va flags = (s.resolve sp (addressOf va) flags).map (· + va % pageSize) := by
  have hindex : ∀ shift, 12 ≤ shift → tableIndex (addressOf va) shift = tableIndex va shift := by
    intro shift hshift
    obtain ⟨k, rfl⟩ := Nat.exists_eq_add_of_le hshift
    simp only [tableIndex, addressOf, pageSize, Nat.pow_add, ← Nat.div_div_eq_div_mul]
    congr 2
    omega
  have hlow : addressOf va < userImageBase ↔ va < userImageBase := by
    simp only [addressOf, pageSize, userImageBase]
    omega
  have hhigh : addressOf va ≥ userStackTop ↔ va ≥ userStackTop := by
    simp only [addressOf, pageSize, userStackTop]
    omega
  unfold State.resolve
  simp only [hindex 30 (by decide), hindex 21 (by decide), hindex 12 (by decide), hlow, hhigh]
  split_ifs <;> try rfl
  rw [or_flags (addressOf_aligned _) (Nat.mod_lt _ (by decide)), addressOf_aligned]
  simp

theorem resolve_isSome_page (s : State) (sp : AddressSpace) (va flags : Nat) :
    (s.resolve sp va flags).isSome = (s.resolve sp (addressOf va) flags).isSome := by
  rw [resolve_page s sp va, Option.isSome_map]

/-- Only addresses of the user range are resolved. -/
theorem inUser_of_resolve (h : (s.resolve sp va flags).isSome = true) : InUser va := by
  unfold State.resolve at h
  dsimp only at h
  split at h
  · cases h
  · next hargs =>
    simp only [not_or, not_lt, not_le] at hargs
    exact ⟨hargs.2.2.1, hargs.2.2.2⟩

/-- The loop of `user_range_valid` over the pages up to the last one. -/
theorem pagesValid_iff (s : State) (sp : AddressSpace) (flags k page : Nat) :
    s.pagesValid sp flags (page + k * pageSize) (k + 1) page = true ↔
      ∀ j ≤ k, (s.resolve sp (page + j * pageSize) flags).isSome = true := by
  induction k generalizing page with
  | zero => simp [State.pagesValid, Option.isSome_iff_ne_none]
  | succ k ih =>
    have hnext : page + (k + 1) * pageSize = page + pageSize + k * pageSize := by
      rw [Nat.succ_mul]
      omega
    have hne : page ≠ page + (k + 1) * pageSize := by
      simp only [pageSize]
      omega
    rw [State.pagesValid]
    cases hres : s.resolve sp page flags with
    | none =>
      refine iff_of_false (by simp) fun hall => ?_
      have hzero := hall 0 (Nat.zero_le _)
      rw [Nat.zero_mul, Nat.add_zero, hres] at hzero
      cases hzero
    | some p =>
      -- an address that is resolved lies far below the last one
      have hsome : (s.resolve sp page flags).isSome = true := by
        rw [hres]
        rfl
      have hlow := (inUser_of_resolve hsome).2
      have hwrap : ¬ page > 2 ^ 64 - 1 - pageSize := by
        simp only [userStackTop, pageSize] at *
        omega
      rw [if_neg (by simp), if_neg hne, if_neg hwrap, hnext, ih]
      constructor
      · intro hall j hj
        cases j with
        | zero =>
          rw [Nat.zero_mul, Nat.add_zero, hres]
          rfl
        | succ j =>
          rw [Nat.succ_mul, Nat.add_comm (j * pageSize), ← Nat.add_assoc]
          exact hall j (by omega)
      · intro hall j hj
        have hj' := hall (j + 1) (by omega)
        rwa [Nat.succ_mul, Nat.add_comm (j * pageSize), ← Nat.add_assoc] at hj'

/-- `user_range_valid` looks at every address of the range. -/
theorem userRangeValid_iff (s : State) (sp : AddressSpace) (address size flags : Nat) :
    s.userRangeValid sp address size flags = true ↔
      ∀ i < size, (s.resolve sp (address + i) flags).isSome = true := by
  rw [State.userRangeValid]
  split
  · next hzero => simp [hzero]
  next hsize =>
  split
  · next hwrap =>
    refine iff_of_false (by simp) fun hall => ?_
    have hlast := (inUser_of_resolve (hall (size - 1) (by omega))).2
    have hfirst := (inUser_of_resolve (hall 0 (by omega))).2
    simp only [userStackTop] at *
    omega
  have hlast : addressOf (address + size - 1) = addressOf address +
      (addressOf (address + size - 1) - addressOf address) / pageSize * pageSize := by
    simp only [addressOf, pageSize]
    omega
  dsimp only
  generalize hk : (addressOf (address + size - 1) - addressOf address) / pageSize = k at *
  rw [hlast, pagesValid_iff]
  constructor
  · intro hall i hi
    have hj : addressOf (address + i) = addressOf address +
        (addressOf (address + i) - addressOf address) / pageSize * pageSize := by
      simp only [addressOf, pageSize]
      omega
    rw [resolve_isSome_page, hj]
    apply hall
    simp only [addressOf, pageSize] at *
    omega
  · intro hall j hj
    -- the first address of the range in that page
    have hin : addressOf address + j * pageSize - address < size := by
      simp only [addressOf, pageSize] at hlast ⊢
      omega
    have hpage : addressOf (address + (addressOf address + j * pageSize - address)) =
        addressOf address + j * pageSize := by
      simp only [addressOf, pageSize]
      omega
    have hi := hall _ hin
    rwa [resolve_isSome_page, hpage] at hi

/-! ## Stores into user pages -/

/-- What a successful look-up says about the page. -/
theorem Walls.of_resolve (h : Walls s space k1 L1 L0) (hsp : space id = some sp)
    (hres : s.resolve sp va flags = some p) :
    ∃ r ∈ sp.records, r.virtualAddress = addressOf va ∧ p = r.physicalAddress + va % pageSize := by
  obtain ⟨-, ⟨access, hok⟩, -⟩ := (h.resolve_iff hsp).mp hres
  obtain ⟨r, hr, hva⟩ := h.record_of_translate hsp hok
  have hpage := ((h.spaces id sp hsp).pages.record r hr).page
  rw [h.translate_record hsp hr hva, or_flags hpage (Nat.mod_lt _ (by decide))] at hok
  split at hok
  · cases hok
    exact ⟨r, hr, hva, rfl⟩
  · cases hok

/-- Two addresses are not resolved to the same physical address. -/
theorem Walls.resolve_injective {va' flags' : Nat} (h : Walls s space k1 L1 L0)
    (hsp : space id = some sp) (hres : s.resolve sp va flags = some p)
    (hres' : s.resolve sp va' flags' = some p) : va = va' := by
  obtain ⟨r, hr, hva, hp⟩ := h.of_resolve hsp hres
  obtain ⟨r', hr', hva', hp'⟩ := h.of_resolve hsp hres'
  have hpage := ((h.spaces id sp hsp).pages.record r hr).page
  have hpage' := ((h.spaces id sp hsp).pages.record r' hr').page
  have hframe : r.physicalAddress = r'.physicalAddress := by
    simp only [pageSize] at *
    omega
  obtain ⟨-, rfl⟩ := h.page_injective hsp hsp (AddressSpace.mem_records.mp hr).1
    (AddressSpace.mem_records.mp hr').1 hframe
  have hbase : addressOf va = addressOf va' := hva.symm.trans hva'
  simp only [addressOf, pageSize] at *
  omega

/-- Look-ups read nothing but the tables of the address space. -/
theorem Walls.resolve_congr (h : Walls s space k1 L1 L0) (h' : Walls s' space k1 L1 L0)
    (hsp : space id = some sp) (hentry : ∀ q ∈ sp.tables, ∀ i < 512, s'.entry q i = s.entry q i)
    (va flags : Nat) : s'.resolve sp va flags = s.resolve sp va flags := by
  by_cases hargs : flags ≥ 16 ∨ isValid flags = true ∨ va < userImageBase ∨ va ≥ userStackTop
  · unfold State.resolve
    rw [if_pos hargs, if_pos hargs]
  simp only [not_or, not_lt, ge_iff_le, not_le, Bool.not_eq_true] at hargs
  obtain ⟨hflags, hvalid, hlow, hhigh⟩ := hargs
  have hva : InUser va := ⟨hlow, hhigh⟩
  cases ho : sp.ownedLevel0 (tableIndex va 21) with
  | false => rw [h.resolve_unowned hsp hva ho, h'.resolve_unowned hsp hva ho]
  | true =>
    rw [h.resolve_owned hsp hva ho hflags hvalid, h'.resolve_owned hsp hva ho hflags hvalid,
      (h.spaces id sp hsp).linked.userEntry_congr ho hentry]

/-- A page with a record is none of the tables of an address space. -/
theorem Walls.record_ne_table {id' : Nat} {sp' : AddressSpace} (h : Walls s space k1 L1 L0)
    (hsp : space id = some sp) (hr : r ∈ sp.records) (hsp' : space id' = some sp')
    (hq : q ∈ sp'.tables) : q ≠ r.physicalAddress := by
  obtain ⟨hmem, hkind⟩ := AddressSpace.mem_records.mp hr
  rintro rfl
  obtain ⟨r', hr', hk', hp'⟩ := AddressSpace.mem_tables.mp hq
  obtain ⟨-, rfl⟩ := h.page_injective hsp' hsp hr' hmem hp'
  exact hkind hk'

/-- A store into a user page leaves the entries of the tables. -/
theorem entry_storeBytes {a i : Nat} {bs : List UInt8} (hpage : p % pageSize = 0)
    (hlow : p ≤ a) (hhigh : a + bs.length ≤ p + pageSize) (hq : q % pageSize = 0) (hne : q ≠ p)
    (hi : i < 512) : (s.storeBytes a bs).entry q i = s.entry q i := by
  apply Ram.word_storeBytes
  simp only [pageSize] at *
  omega

/-- The invariant of the page tables holds after a store into a user page, and look-ups stay. -/
theorem Walls.storeBytes {a : Nat} {bs : List UInt8} (h : Walls s space k1 L1 L0)
    (hsp : space id = some sp) (hr : r ∈ sp.records) (hlow : r.physicalAddress ≤ a)
    (hhigh : a + bs.length ≤ r.physicalAddress + pageSize) :
    Walls (s.storeBytes a bs) space k1 L1 L0 ∧ ∀ id' sp', space id' = some sp' →
      ∀ va flags, (s.storeBytes a bs).resolve sp' va flags = s.resolve sp' va flags := by
  have hpage := ((h.spaces id sp hsp).pages.record r hr).page
  have hwalls : Walls (s.storeBytes a bs) space k1 L1 L0 := by
    refine h.frame ⟨rfl, rfl, rfl, rfl⟩ rfl fun q hq i hi => ?_
    refine entry_storeBytes hpage hlow hhigh (h.guarded.watched hq).1 ?_ hi
    obtain hK | ⟨id', sp', hsp', hmem⟩ := hq
    · rintro rfl
      exact (h.page hsp (AddressSpace.mem_records.mp hr).1).2.1 hK
    · exact h.record_ne_table hsp hr hsp' hmem
  refine ⟨hwalls, fun id' sp' hsp' => h.resolve_congr hwalls hsp' fun q hq i hi => ?_⟩
  refine entry_storeBytes hpage hlow hhigh (h.table_page hsp' hq).1.aligned ?_ hi
  exact h.record_ne_table hsp hr hsp' hq

/-! ## The loops -/

/-- The user pages of an address space lie inside the direct map. -/
def DirectPages (s : State) (sp : AddressSpace) : Prop :=
  ∀ r ∈ sp.records, r.physicalAddress + pageSize ≤ s.directMapSize

/-- The chunk of a turn: addresses from `va` on that are in one page. -/
theorem Walls.resolve_chunk {c j : Nat} (h : Walls s space k1 L1 L0) (hsp : space id = some sp)
    (hres : s.resolve sp va flags = some p) (hc : c ≤ pageSize - p % pageSize) (hj : j < c) :
    s.resolve sp (va + j) flags = some (p + j) := by
  obtain ⟨r, hr, -, hp⟩ := h.of_resolve hsp hres
  have hpage := ((h.spaces id sp hsp).pages.record r hr).page
  have hoffset : p % pageSize = va % pageSize := by
    rw [hp, Nat.add_mod, hpage, Nat.zero_add, Nat.mod_mod, Nat.mod_mod]
  have hbase : addressOf (va + j) = addressOf va := by
    simp only [addressOf, pageSize] at *
    omega
  have hmod : (va + j) % pageSize = va % pageSize + j := by
    simp only [pageSize] at *
    omega
  rw [resolve_page] at hres
  obtain ⟨b, hb, rfl⟩ := Option.map_eq_some_iff.mp hres
  rw [resolve_page, hbase, hb, hmod, Option.map_some, Nat.add_assoc]

/-- What `kernel_copy_to_user` has done to the memory: the bytes are at the addresses from `va` on,
    and nothing else has changed. -/
structure CopiedOut (s : State) (sp : AddressSpace) (va : Nat) (bs : List UInt8) (s' : State) :
    Prop where
  rest : s' = { s with ram := { s.ram with word := s'.ram.word } }
  bytes : ∀ j p (hj : j < bs.length), s.resolve sp (va + j) (pteRead ||| pteWrite) = some p →
    s'.ram.bytes p = bs[j]
  others : ∀ x, (∀ j < bs.length, s.resolve sp (va + j) (pteRead ||| pteWrite) ≠ some x) →
    s'.ram.bytes x = s.ram.bytes x
  lookups : ∀ va flags, s'.resolve sp va flags = s.resolve sp va flags

theorem copyOut_spec {n i destination : Nat} {left : List UInt8} (h : Walls s space k1 L1 L0)
    (hsp : space id = some sp) (hdirect : DirectPages s sp)
    (hall : ∀ j < left.length,
      (s.resolve sp (destination + i + j) (pteRead ||| pteWrite)).isSome = true)
    (hn : left.length ≤ n) :
    ∃ s', State.copyOut sp destination n i left s = (true, s') ∧
      CopiedOut s sp (destination + i) left s' ∧ Walls s' space k1 L1 L0 := by
  induction n generalizing i left s with
  | zero =>
    cases left with
    | cons b bs => simp at hn
    | nil =>
      refine ⟨s, rfl, ⟨rfl, fun j p hj => ?_, fun _ _ => rfl, fun _ _ => rfl⟩, h⟩
      simp at hj
  | succ n ih =>
    rw [State.copyOut]
    split
    · next hempty =>
      rw [List.isEmpty_iff.mp hempty]
      exact ⟨s, rfl, ⟨rfl, fun j p hj => absurd hj (by simp), fun _ _ => rfl, fun _ _ => rfl⟩, h⟩
    next hne =>
    have hpos : 0 < left.length := List.length_pos_iff.mpr (by simpa using hne)
    obtain ⟨p, hp⟩ := Option.isSome_iff_exists.mp (hall 0 hpos)
    rw [Nat.add_zero] at hp
    rw [hp]
    dsimp only
    obtain ⟨r, hr, -, hpr⟩ := h.of_resolve hsp hp
    have hpage := ((h.spaces id sp hsp).pages.record r hr).page
    have hdir := hdirect r hr
    have hoff := Nat.mod_lt (destination + i) (show 0 < pageSize by decide)
    have hpd : s.direct p = true := decide_eq_true (by omega)
    rw [hpd, Bool.not_true, if_neg Bool.false_ne_true]
    -- the chunk lies in the page of the record
    generalize hc : min (pageSize - p % pageSize) left.length = c
    have hmod : p % pageSize = (destination + i) % pageSize := by
      rw [hpr, Nat.add_mod, hpage, Nat.zero_add, Nat.mod_mod, Nat.mod_mod]
    have hcle : c ≤ pageSize - p % pageSize := by omega
    have hcpos : 0 < c := by omega
    have htake : (left.take c).length = c := by
      rw [List.length_take]
      omega
    have hlow : r.physicalAddress ≤ p := by omega
    have hhigh : p + (left.take c).length ≤ r.physicalAddress + pageSize := by omega
    obtain ⟨hwalls, hsame⟩ := h.storeBytes hsp hr hlow hhigh
    have hdrop : (left.drop c).length = left.length - c := List.length_drop
    have hlater : ∀ j < (left.drop c).length, ((s.storeBytes p (left.take c)).resolve sp
        (destination + (i + c) + j) (pteRead ||| pteWrite)).isSome = true := by
      intro j hj
      rw [hsame id sp hsp, ← Nat.add_assoc, Nat.add_assoc (destination + i)]
      exact hall (c + j) (by omega)
    obtain ⟨s', hout, hcopied, hw'⟩ := ih hwalls hdirect hlater (by omega)
    refine ⟨s', hout, ⟨?_, fun j x hj hx => ?_, fun x hx => ?_, fun va flags => ?_⟩, hw'⟩
    · have hrest := hcopied.rest
      rw [hrest]
      rfl
    · by_cases hjc : j < c
      · -- a byte of this chunk, which no later chunk overwrites
        have hxp := h.resolve_chunk hsp hp hcle hjc
        rw [hx, Option.some.injEq] at hxp
        rw [hcopied.others x fun k hk hres => ?_]
        · simp only [State.storeBytes, Ram.bytes_storeBytes]
          rw [hxp, eq_getElem_of_bytesAt (bytesAt_storeBytes _ _ _) (by omega), List.getElem_take]
        · rw [hsame id sp hsp] at hres
          have heq := h.resolve_injective hsp hx hres
          omega
      · have hbyte := hcopied.bytes (j - c) x (by omega)
        rw [hsame id sp hsp, show destination + (i + c) + (j - c) = destination + i + j by omega]
          at hbyte
        rw [hbyte hx, List.getElem_drop]
        congr 1
        omega
    · rw [hcopied.others x fun k hk hres => ?_]
      · simp only [State.storeBytes, Ram.bytes_storeBytes]
        apply storeBytes_of_not
        intro hin
        have hxp := h.resolve_chunk hsp hp hcle (show x - p < c by omega)
        rw [show p + (x - p) = x by omega] at hxp
        exact hx (x - p) (by omega) hxp
      · rw [hsame id sp hsp, show destination + (i + c) + k = destination + i + (c + k) by omega]
          at hres
        exact hx (c + k) (by omega) hres
    · rw [hcopied.lookups, hsame id sp hsp]

/-- What `kernel_copy_from_user` has done to the buffer: `size` bytes from offset `i` on are those
    at the addresses from `va` on, and nothing else has changed. -/
structure CopiedIn (s : State) (sp : AddressSpace) (va i size : Nat) (buffer buffer' : ByteMemory) :
    Prop where
  bytes : ∀ j p, j < size → s.resolve sp (va + j) pteRead = some p →
    buffer' (i + j) = s.ram.bytes p
  others : ∀ x, ¬ (i ≤ x ∧ x < i + size) → buffer' x = buffer x

theorem copyIn_spec {n i left source : Nat} {buffer : ByteMemory} (h : Walls s space k1 L1 L0)
    (hsp : space id = some sp) (hdirect : DirectPages s sp)
    (hall : ∀ j < left, (s.resolve sp (source + i + j) pteRead).isSome = true) (hn : left ≤ n) :
    ∃ buffer', s.copyIn sp source n i left buffer = (true, buffer') ∧
      CopiedIn s sp (source + i) i left buffer buffer' := by
  induction n generalizing i left buffer with
  | zero =>
    obtain rfl : left = 0 := by omega
    exact ⟨buffer, rfl, fun j p hj => absurd hj (Nat.not_lt_zero j), fun _ _ => rfl⟩
  | succ n ih =>
    rw [State.copyIn]
    split
    · next hzero =>
      subst hzero
      exact ⟨buffer, rfl, fun j p hj => absurd hj (Nat.not_lt_zero j), fun _ _ => rfl⟩
    next hne =>
    obtain ⟨p, hp⟩ := Option.isSome_iff_exists.mp (hall 0 (Nat.pos_of_ne_zero hne))
    rw [Nat.add_zero] at hp
    rw [hp]
    dsimp only
    obtain ⟨r, hr, -, hpr⟩ := h.of_resolve hsp hp
    have hdir := hdirect r hr
    have hoff := Nat.mod_lt (source + i) (show 0 < pageSize by decide)
    have hpd : s.direct p = true := decide_eq_true (by omega)
    rw [hpd, Bool.not_true, if_neg Bool.false_ne_true]
    generalize hc : min (pageSize - p % pageSize) left = c
    have hpmod := Nat.mod_lt p (show 0 < pageSize by decide)
    have hcle : c ≤ pageSize - p % pageSize := by omega
    have hlater : ∀ j < left - c, (s.resolve sp (source + (i + c) + j) pteRead).isSome = true := by
      intro j hj
      rw [← Nat.add_assoc, Nat.add_assoc (source + i)]
      exact hall (c + j) (by omega)
    obtain ⟨buffer', hin, hcopied⟩ := ih hlater (by omega)
    refine ⟨buffer', hin, fun j x hj hx => ?_, fun x hx => ?_⟩
    · by_cases hjc : j < c
      · have hxp := h.resolve_chunk hsp hp hcle hjc
        rw [hx, Option.some.injEq] at hxp
        rw [hcopied.others (i + j) (by omega),
          eq_getElem_of_bytesAt (bytesAt_storeBytes _ _ _) (by rw [bytesAt_length]; omega), hxp]
        simp [bytesAt]
      · have hbyte := hcopied.bytes (j - c) x (by omega)
        rw [show source + (i + c) + (j - c) = source + i + j by omega,
          show i + c + (j - c) = i + j by omega] at hbyte
        exact hbyte hx
    · rw [hcopied.others x (by omega)]
      exact storeBytes_of_not (by rw [bytesAt_length]; omega)

/-! ## All or nothing -/

section

variable (h : Walls s space k1 L1 L0) (hsp : space id = some sp)
include h hsp

/-- Reading and writing is resolved where user mode may do both. -/
theorem Walls.resolve_readWrite :
    s.resolve sp va (pteRead ||| pteWrite) = some p ↔
      translate s.ram sp.root true va .read = .ok p ∧
        translate s.ram sp.root true va .write = .ok p := by
  rw [h.resolve_iff hsp]
  constructor
  · rintro ⟨-, -, hperm⟩
    exact ⟨hperm .read (by decide), hperm .write (by decide)⟩
  · rintro ⟨hread, hwrite⟩
    refine ⟨by decide, ⟨.read, hread⟩, fun access hacc => ?_⟩
    cases access with
    | read => exact hread
    | write => exact hwrite
    | execute => cases hacc
    | atomic =>
      -- what grants reading and writing grants both at once
      obtain ⟨r, hr, hva⟩ := h.record_of_translate hsp hread
      have hrecord := h.translate_record hsp hr hva
      rw [hrecord] at hread hwrite ⊢
      split at hread
      · next hpr =>
        split at hwrite
        · next hpw =>
          rw [if_pos]
          · exact hread
          · simp only [permissionGranted] at hpr hpw ⊢
            split at hpr
            · cases hpr
            · next huser =>
              rw [if_neg huser] at hpw ⊢
              simp [hpr, hpw]
        · cases hwrite
      · cases hread

/-- Reading is resolved where user mode may read. -/
theorem Walls.resolve_read :
    s.resolve sp va pteRead = some p ↔ translate s.ram sp.root true va .read = .ok p := by
  rw [h.resolve_iff hsp]
  constructor
  · rintro ⟨-, -, hperm⟩
    exact hperm .read (by decide)
  · intro hread
    refine ⟨by decide, ⟨.read, hread⟩, fun access hacc => ?_⟩
    cases access with
    | read => exact hread
    | write | execute | atomic => cases hacc

/-- `kernel_copy_to_user` in terms of the look-ups. -/
theorem copyToUser_cases (hdirect : DirectPages s sp) (destination : Nat) (source : List UInt8) :
    (∃ s', s.copyToUser sp destination source = (true, s') ∧
      (∀ i < source.length,
        (s.resolve sp (destination + i) (pteRead ||| pteWrite)).isSome = true) ∧
      CopiedOut s sp destination source s' ∧ Walls s' space k1 L1 L0) ∨
    (s.copyToUser sp destination source = (false, s) ∧
      ¬∀ i < source.length,
        (s.resolve sp (destination + i) (pteRead ||| pteWrite)).isSome = true) := by
  rw [State.copyToUser]
  split
  · next hinvalid =>
    refine .inr ⟨rfl, ?_⟩
    rw [← userRangeValid_iff]
    simpa using hinvalid
  · next hvalid =>
    have hall := (userRangeValid_iff s sp destination source.length _).mp (by simpa using hvalid)
    obtain ⟨s', hout, hcopied, hw⟩ := copyOut_spec (i := 0) h hsp hdirect hall (Nat.le_refl _)
    exact .inl ⟨s', hout, hall, hcopied, hw⟩

end

/-! ## Memory as user mode sees it -/

/-- What user mode reads at each address. -/
def userBytes (s : State) (sp : AddressSpace) : ByteMemory := fun va =>
  match translate s.ram sp.root true va .read with
  | .ok p => s.ram.bytes p
  | _ => 0

/-- User mode may read and write every address of a range. -/
def UserWritable (s : State) (sp : AddressSpace) (va size : Nat) : Prop :=
  ∀ i < size, ∃ p, translate s.ram sp.root true (va + i) .read = .ok p ∧
    translate s.ram sp.root true (va + i) .write = .ok p

section

variable (h : Walls s space k1 L1 L0) (hsp : space id = some sp)
include h hsp

theorem Walls.userWritable_iff (va size : Nat) : UserWritable s sp va size ↔
      ∀ i < size, (s.resolve sp (va + i) (pteRead ||| pteWrite)).isSome = true := by
  simp only [UserWritable, Option.isSome_iff_exists, h.resolve_readWrite hsp]

theorem Walls.userBytes_of_resolve (hres : s.resolve sp va pteRead = some p) :
    userBytes s sp va = s.ram.bytes p := by
  rw [userBytes, (h.resolve_read hsp).mp hres]

theorem Walls.userBytes_of_none (hres : s.resolve sp va pteRead = none) :
    userBytes s sp va = 0 := by
  rw [userBytes]
  split
  · next p hp =>
    rw [(h.resolve_read hsp).mpr hp] at hres
    cases hres
  · rfl

end

/-- A successful copy stores its bytes in the memory of user mode, and nothing else. -/
theorem CopiedOut.userBytes {bs : List UInt8} (hc : CopiedOut s sp va bs s')
    (h : Walls s space k1 L1 L0) (h' : Walls s' space k1 L1 L0) (hsp : space id = some sp)
    (hall : ∀ i < bs.length, (s.resolve sp (va + i) (pteRead ||| pteWrite)).isSome = true) :
    userBytes s' sp = storeBytes (userBytes s sp) va bs := by
  have hwritten : ∀ i < bs.length, ∃ p, s.resolve sp (va + i) (pteRead ||| pteWrite) = some p ∧
      s.resolve sp (va + i) pteRead = some p := by
    intro i hi
    obtain ⟨p, hp⟩ := Option.isSome_iff_exists.mp (hall i hi)
    exact ⟨p, hp, (h.resolve_read hsp).mpr ((h.resolve_readWrite hsp).mp hp).1⟩
  funext x
  by_cases hx : va ≤ x ∧ x < va + bs.length
  · obtain ⟨i, rfl⟩ := Nat.exists_eq_add_of_le hx.1
    have hi : i < bs.length := by omega
    obtain ⟨p, hp, hread⟩ := hwritten i hi
    rw [h'.userBytes_of_resolve hsp (by rw [hc.lookups]; exact hread), hc.bytes i p hi hp,
      eq_getElem_of_bytesAt (bytesAt_storeBytes _ _ _) hi]
  · rw [storeBytes_of_not hx]
    cases hres : s.resolve sp x pteRead with
    | none =>
      rw [h'.userBytes_of_none hsp (by rw [hc.lookups]; exact hres), h.userBytes_of_none hsp hres]
    | some p =>
      rw [h'.userBytes_of_resolve hsp (by rw [hc.lookups]; exact hres),
        h.userBytes_of_resolve hsp hres]
      refine hc.others p fun i hi hi' => hx ?_
      have heq := h.resolve_injective hsp hres hi'
      omega

/-- `kernel_copy_to_user` into memory that user mode may write. -/
theorem copyToUser_writable {bs : List UInt8} (h : Walls s space k1 L1 L0)
    (hsp : space id = some sp) (hdirect : DirectPages s sp)
    (hwritable : UserWritable s sp va bs.length) :
    ∃ s', s.copyToUser sp va bs = (true, s') ∧ Walls s' space k1 L1 L0 ∧
      s'.directMapSize = s.directMapSize ∧
      userBytes s' sp = storeBytes (userBytes s sp) va bs ∧
      ∀ a n, UserWritable s' sp a n ↔ UserWritable s sp a n := by
  have hall := (h.userWritable_iff hsp va bs.length).mp hwritable
  obtain ⟨s', hres, -, hcopied, hw⟩ | ⟨-, hnot⟩ := copyToUser_cases h hsp hdirect va bs
  · refine ⟨s', hres, hw, ?_, hcopied.userBytes h hw hsp hall, fun a n => ?_⟩
    · rw [hcopied.rest]
    · simp only [hw.userWritable_iff hsp, h.userWritable_iff hsp, hcopied.lookups]
  · exact absurd hall hnot

/-- `kernel_copy_from_user` in terms of the look-ups. -/
theorem copyFromUser_cases (h : Walls s space k1 L1 L0) (hsp : space id = some sp)
    (hdirect : DirectPages s sp) (source size : Nat) (buffer : ByteMemory) :
    (∃ buffer', s.copyFromUser sp buffer source size = (true, buffer') ∧
      (∀ i < size, (s.resolve sp (source + i) pteRead).isSome = true) ∧
      CopiedIn s sp source 0 size buffer buffer') ∨
    (s.copyFromUser sp buffer source size = (false, buffer) ∧
      ¬∀ i < size, (s.resolve sp (source + i) pteRead).isSome = true) := by
  rw [State.copyFromUser]
  split
  · next hinvalid =>
    refine .inr ⟨rfl, ?_⟩
    rw [← userRangeValid_iff]
    simpa using hinvalid
  · next hvalid =>
    have hall := (userRangeValid_iff s sp source size _).mp (by simpa using hvalid)
    obtain ⟨buffer', hin, hcopied⟩ := copyIn_spec (i := 0) h hsp hdirect hall (Nat.le_refl _)
    exact .inl ⟨buffer', hin, hall, hcopied⟩

/-- In an address space whose user pages are its own and lie inside the direct map, both copies
    succeed if and only if user mode may access every byte of the range; then they have copied just
    these bytes, and otherwise they have changed nothing.  (A range that wraps around has addresses
    that user mode cannot reach.) -/
theorem userCopy_exact (h : Walls s s.space k1 L1 L0) (hsp : s.space id = some sp)
    (hdirect : DirectPages s sp) (va : Nat) :
    (∀ source : List UInt8,
      ((s.copyToUser sp va source).1 = true ↔ ∀ i < source.length, ∃ p,
        translate s.ram sp.root true (va + i) .read = .ok p ∧
          translate s.ram sp.root true (va + i) .write = .ok p) ∧
      ((s.copyToUser sp va source).1 = true →
        (∀ i p (hi : i < source.length), translate s.ram sp.root true (va + i) .read = .ok p →
          (s.copyToUser sp va source).2.ram.bytes p = source[i]) ∧
        (∀ x, (∀ i < source.length, translate s.ram sp.root true (va + i) .read ≠ .ok x) →
          (s.copyToUser sp va source).2.ram.bytes x = s.ram.bytes x) ∧
        (s.copyToUser sp va source).2 = { s with ram :=
          { s.ram with word := (s.copyToUser sp va source).2.ram.word } }) ∧
      ((s.copyToUser sp va source).1 = false → (s.copyToUser sp va source).2 = s)) ∧
    (∀ (buffer : ByteMemory) (size : Nat),
      ((s.copyFromUser sp buffer va size).1 = true ↔ ∀ i < size, ∃ p,
        translate s.ram sp.root true (va + i) .read = .ok p) ∧
      ((s.copyFromUser sp buffer va size).1 = true →
        (∀ i p, i < size → translate s.ram sp.root true (va + i) .read = .ok p →
          (s.copyFromUser sp buffer va size).2 i = s.ram.bytes p) ∧
        (∀ x, size ≤ x → (s.copyFromUser sp buffer va size).2 x = buffer x)) ∧
      ((s.copyFromUser sp buffer va size).1 = false →
        (s.copyFromUser sp buffer va size).2 = buffer)) := by
  constructor
  · intro source
    have hiff : (∀ i < source.length,
        (s.resolve sp (va + i) (pteRead ||| pteWrite)).isSome = true) ↔
        ∀ i < source.length, ∃ p, translate s.ram sp.root true (va + i) .read = .ok p ∧
          translate s.ram sp.root true (va + i) .write = .ok p := by
      simp only [Option.isSome_iff_exists, h.resolve_readWrite hsp]
    obtain ⟨s', hres, hall, hcopied, -⟩ | ⟨hres, hnot⟩ :=
      copyToUser_cases h hsp hdirect va source
    · have hread : ∀ i p, i < source.length → translate s.ram sp.root true (va + i) .read = .ok p →
          s.resolve sp (va + i) (pteRead ||| pteWrite) = some p := by
        intro i p hi hp
        obtain ⟨x, hx⟩ := Option.isSome_iff_exists.mp (hall i hi)
        have hx' := ((h.resolve_readWrite hsp).mp hx).1
        rw [hp] at hx'
        cases hx'
        exact hx
      rw [hres]
      refine ⟨iff_of_true rfl (hiff.mp hall), fun _ => ⟨fun i p hi hp => ?_, fun x hx => ?_,
        hcopied.rest⟩, Bool.noConfusion⟩
      · exact hcopied.bytes i p hi (hread i p hi hp)
      · exact hcopied.others x fun i hi hr => hx i hi ((h.resolve_readWrite hsp).mp hr).1
    · rw [hres]
      exact ⟨iff_of_false Bool.false_ne_true (hiff.not.mp hnot), Bool.noConfusion, fun _ => rfl⟩
  · intro buffer size
    have hiff : (∀ i < size, (s.resolve sp (va + i) pteRead).isSome = true) ↔
        ∀ i < size, ∃ p, translate s.ram sp.root true (va + i) .read = .ok p := by
      simp only [Option.isSome_iff_exists, h.resolve_read hsp]
    obtain ⟨buffer', hres, hall, hcopied⟩ | ⟨hres, hnot⟩ :=
      copyFromUser_cases h hsp hdirect va size buffer
    · rw [hres]
      refine ⟨iff_of_true rfl (hiff.mp hall), fun _ => ⟨fun i p hi hp => ?_, fun x hx => ?_⟩,
        Bool.noConfusion⟩
      · have hbyte := hcopied.bytes i p hi ((h.resolve_read hsp).mpr hp)
        rwa [Nat.zero_add] at hbyte
      · exact hcopied.others x (by omega)
    · rw [hres]
      exact ⟨iff_of_false Bool.false_ne_true (hiff.not.mp hnot), Bool.noConfusion, fun _ => rfl⟩

/-- Four bytes are copied to the end of a page and the start of the next one. -/
theorem userCopy_exact_pages : ∃ (s : State) (sp : AddressSpace) (k1 : Nat) (L1 L0 : Set Nat),
    Walls s s.space k1 L1 L0 ∧ s.space 0 = some sp ∧ DirectPages s sp ∧
      (s.copyToUser sp 0x1000FFE [1, 2, 3, 4]).1 = true ∧
      translate s.ram sp.root true 0x1001001 .read = .ok 0x11001 ∧
      (s.copyToUser sp 0x1000FFE [1, 2, 3, 4]).2.ram.bytes 0x11001 = 4 := by
  have h₁ := oneTraced_reached MapsUnclaimed trivial
  have hrest : (tracedStep oneTraced
      (.mapAnonymous 0 0x1000000 6 true true)).any (fun t₂ =>
        (tracedStep t₂ (.mapAnonymous 0 0x1001000 6 true true)).any fun t =>
          (t.state.space 0).any fun sp =>
            sp.records.all (fun r => r.physicalAddress + pageSize ≤ t.state.directMapSize) &&
              (t.state.copyToUser sp 0x1000FFE [1, 2, 3, 4]).1 &&
                translate t.state.ram sp.root true 0x1001001 .read == .ok 0x11001) = true := by
    decide +kernel
  simp only [Option.any_eq_true, Bool.and_eq_true, beq_iff_eq, List.all_eq_true,
    decide_eq_true_eq] at hrest
  obtain ⟨t₂, hst₂, t, hst, sp, hsp, ⟨hdirect, hok⟩, hread⟩ := hrest
  have hrun := (h₁.tail (a := Op.mapAnonymous 0 0x1000000 6 true true) trivial hst₂).tail
    (a := Op.mapAnonymous 0 0x1001000 6 true true) trivial hst
  obtain ⟨⟨k1, L1, L0, hw⟩, -⟩ := bootState_walled.apart_of_run hrun
  have hcopy := ((userCopy_exact hw hsp hdirect 0x1000FFE).1 [1, 2, 3, 4]).2.1 hok
  exact ⟨t.state, sp, k1, L1, L0, hw, hsp, hdirect, hok, hread,
    hcopy.1 3 0x11001 (by decide) hread⟩

/-- With one page mapped twice, at addresses next to each other, the first byte of the range does
    not hold the first byte of the buffer in the end. -/
theorem copyToUser_shared : ∃ t sp, Walled bootState ∧
    Run tracedStep MapsNoOthers ⟨bootState, fun _ _ => false⟩ t ∧ t.state.space 0 = some sp ∧
      DirectPages t.state sp ∧
      (t.state.copyToUser sp 0x1000000 (List.replicate 4096 0 ++ [1])).1 = true ∧
      translate t.state.ram sp.root true 0x1000000 .read = .ok 0x10000 ∧
      (t.state.copyToUser sp 0x1000000 (List.replicate 4096 0 ++ [1])).2.ram.bytes 0x10000 = 1 := by
  have hrest : (mappedTwice 6).any (fun t => (t.state.space 0).any fun sp =>
      sp.records.all (fun r => r.physicalAddress + pageSize ≤ t.state.directMapSize) &&
        (t.state.copyToUser sp 0x1000000 (List.replicate 4096 0 ++ [1])).1 &&
          translate t.state.ram sp.root true 0x1000000 .read == .ok 0x10000 &&
            (t.state.copyToUser sp 0x1000000 (List.replicate 4096 0 ++ [1])).2.ram.bytes
              0x10000 == 1) = true := by
    decide +kernel
  simp only [Option.any_eq_true, Bool.and_eq_true, beq_iff_eq, List.all_eq_true,
    decide_eq_true_eq] at hrest
  obtain ⟨t, ht, sp, hsp, ⟨⟨hdirect, hok⟩, hread⟩, hbyte⟩ := hrest
  exact ⟨t, sp, bootState_walled, mappedTwice_reached ht, hsp, hdirect, hok, hread, hbyte⟩

end RiscMv.Paging
