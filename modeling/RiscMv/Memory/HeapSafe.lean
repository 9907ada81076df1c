import RiscMv.Memory.HeapOps

/-!
# The heap stays well formed

`kernelMalloc_ok`, `kernelCalloc_ok` and `kernelFree_ok` say what the calls do to the blocks in
use, and that they return.  The run lemma puts them together: `kernel_heap_validate` finds nothing
wrong, and the blocks that were handed out lie in the heap, apart from each other.
-/

namespace RiscMv.Memory

variable {h h' : Heap} {bs bs' pre post : List Block} {b c : Block}
  {x n pages a k q size directMapBase directMapSize : Nat} {op : HeapOp} {byte : ByteMemory}
  {ok : Bool} {al : Allocation}

/-! ## The search and `kernel_malloc` -/

/-- Each block takes at least its header. -/
theorem length_le_extent (bs : List Block) : headerSize * bs.length ≤ extent bs := by
  induction bs with
  | nil => simp
  | cons b bs ih =>
    rw [List.length_cons, extent_cons, Nat.mul_succ]
    omega

/-- The search finds the first free block that is large enough, or there is none. -/
theorem findBlock_ok {fuel : Nat} (hok : HeapOk h (pre ++ post)) (hfuel : post.length < fuel) :
    ∃ found, findBlock h n fuel (following (h.base + extent pre) 0 post) = some found ∧
      ((found = none ∧ ∀ b ∈ post, b.free = true → b.size < n) ∨
        ∃ xs b ys, pre ++ post = xs ++ b :: ys ∧ found = some (h.base + extent xs) ∧
          b.free = true ∧ n ≤ b.size) := by
  induction post generalizing pre fuel with
  | nil =>
    obtain ⟨fuel, rfl⟩ := Nat.exists_eq_succ_of_ne_zero (Nat.ne_of_gt hfuel)
    exact ⟨none, rfl, .inl ⟨rfl, by simp⟩⟩
  | cons b post ih =>
    obtain ⟨fuel, rfl⟩ := Nat.exists_eq_succ_of_ne_zero (Nat.ne_of_gt (Nat.zero_lt_of_lt hfuel))
    obtain ⟨hsize, hnext, -, hfree⟩ := hok.field rfl
    have hmagic : h.field (h.base + extent pre) .magic = heapMagic := by
      rw [(hok.rep.split rfl).2.1]
      rfl
    have hne := (hok.fits rfl).1.ne'
    rw [following, findBlock, if_neg hne, hsize, hnext, hfree, hmagic]
    split
    · next hfound => exact ⟨_, rfl, .inr ⟨pre, b, post, rfl, rfl, hfound.2.1, hfound.2.2⟩⟩
    · next hskip =>
      have hadvance : h.base + extent pre + headerSize + b.size =
          h.base + extent (pre ++ [b]) := by simp [Nat.add_assoc]
      rw [hadvance]
      have hok' : HeapOk h ((pre ++ [b]) ++ post) := by simpa using hok
      obtain ⟨found, heq, hfound⟩ := ih hok' (Nat.lt_of_succ_lt_succ hfuel)
      refine ⟨found, heq, hfound.imp (fun hnone => ⟨hnone.1, ?_⟩) (by simp)⟩
      rintro c (_ | ⟨_, hc⟩) hcf
      · by_contra hle
        exact hskip ⟨rfl, hcf, by omega⟩
      · exact hnone.2 c hc hcf

/-- What a call that returns `q` for `n` bytes does: all blocks in use stay, and if `q` is not
    `NULL` it is a new one. -/
structure Grants (h : Heap) (bs : List Block) (n q : Nat) (h' : Heap) (bs' : List Block) :
    Prop where
  ok : HeapOk h' bs'
  coalesced : Coalesced bs'
  keeps : Keeps (fun _ => False) h bs h' bs'
  used : q ≠ 0 → ∃ k, n ≤ k ∧ Used h.base bs' q k
  fresh : q ≠ 0 → ∀ k, ¬ Used h.base bs q k

/-- A free block is not in use. -/
theorem not_used_of_free (hb : b.free = true) :
    ¬ Used a (pre ++ b :: post) (a + extent pre + headerSize) k := by
  have hheader : headerSize = 48 := rfl
  rw [Used.append_iff]
  rintro (hu | ⟨rfl, -⟩ | hu)
  · have := hu.bounds
    omega
  · cases hb
  · have := hu.bounds
    omega

/-- The search of `kernel_malloc`, and what happens to the block it finds. -/
theorem firstFit_ok (hok : HeapOk h bs) (hco : Coalesced bs) (hal : n % heapAlignment = 0) :
    ∃ found, findBlock h n (h.mappedSize / headerSize + 1) h.first = some found ∧
      ((found = none ∧ ∀ b ∈ bs, b.free = true → b.size < n) ∨
        ∃ x bs', found = some x ∧ Grants h bs n (x + headerSize) (takeBlock x n h) bs') := by
  have hfuel : bs.length < h.mappedSize / headerSize + 1 := by
    rw [hok.mapped, Nat.lt_succ_iff, Nat.le_div_iff_mul_le (by decide), Nat.mul_comm]
    exact length_le_extent bs
  have hfirst : h.first = following (h.base + extent []) 0 bs := hok.growing.first
  rw [hfirst]
  obtain ⟨found, heq, hnone | ⟨xs, b, ys, hbs, hfound, hfree, hsize⟩⟩ :=
    findBlock_ok (n := n) (show HeapOk h ([] ++ bs) from hok) hfuel
  · exact ⟨found, heq, .inl hnone⟩
  · rw [List.nil_append] at hbs
    subst hbs
    obtain ⟨bs', hok', hco', hkeeps, hused⟩ :=
      takeBlock_ok (X := fun _ => False) hok hco rfl hfree hsize hal
    exact ⟨found, heq, .inr ⟨_, bs', hfound, hok', hco', hkeeps, fun _ => hused,
      fun _ k => not_used_of_free hfree⟩⟩

/-- The loop of `kernel_malloc` returns: once there are enough pages the search succeeds. -/
theorem mallocLoop_ok (pages : Nat) (hok : HeapOk h bs) (hco : Coalesced bs)
    (hal : n % heapAlignment = 0) :
    ∃ q h' bs', mallocLoop n (pages + 1) pages h = some (q, h') ∧ Grants h bs n q h' bs' := by
  obtain ⟨found, hfind, ⟨rfl, -⟩ | ⟨x, bs', rfl, hgrants⟩⟩ := firstFit_ok hok hco hal
  · rw [mallocLoop, hfind]
    dsimp only
    obtain ⟨ok, pages', h', happend, ⟨rfl, rfl⟩ | ⟨hpages, pre, size, hsize, hco', hok', hkeeps⟩⟩ :=
      heapAppendPages_ok (X := fun _ => False) (n := n) pages hok.growing hco
    · rw [happend]
      exact ⟨0, h', bs, rfl, hok, hco, Keeps.refl _ _ _, fun hq => absurd rfl hq,
        fun hq => absurd rfl hq⟩
    · rw [happend]
      cases ok with
      | false =>
        exact ⟨0, h', _, rfl, hok', hco', hkeeps, fun hq => absurd rfl hq, fun hq => absurd rfl hq⟩
      | true =>
        -- the last block is free and large enough, so the second search finds a block
        obtain ⟨fuel, rfl⟩ := Nat.exists_eq_succ_of_ne_zero (Nat.ne_of_gt hpages)
        dsimp only
        obtain ⟨found, hfind', ⟨-, hnone⟩ | ⟨x, bs', rfl, hgrants⟩⟩ := firstFit_ok hok' hco' hal
        · have := hnone ⟨size, true⟩ (by simp) rfl
          exact absurd (hsize rfl) (Nat.not_le.mpr this)
        · rw [mallocLoop, hfind']
          refine ⟨_, _, bs', rfl, hgrants.ok, hgrants.coalesced, hkeeps.trans hgrants.keeps,
            fun hq => hkeeps.base ▸ hgrants.used hq, fun hq k hu => ?_⟩
          exact hgrants.fresh hq k (hkeeps.base ▸ hkeeps.used _ k id hu)
  · rw [mallocLoop, hfind]
    exact ⟨_, _, bs', rfl, hgrants⟩

/-! ## `kernel_heap_validate` -/

theorem validateLoop_ok {blocks : Nat} (hok : HeapOk h (pre ++ post))
    (hco : Coalesced (pre ++ post)) (hblocks : post.length ≤ blocks) :
    validateLoop h blocks (following (h.base + extent pre) 0 post) (h.base + extent pre)
      (lastBlock 0 h.base pre) = 0 := by
  induction post generalizing pre blocks with
  | nil =>
    rw [List.append_nil] at hok
    rw [following, validateLoop.eq_def]
    dsimp only
    rw [if_pos rfl, if_neg (by simp [hok.last, hok.mapped])]
  | cons b post ih =>
    obtain ⟨blocks, rfl⟩ := Nat.exists_eq_succ_of_ne_zero
      (Nat.ne_of_gt (Nat.lt_of_lt_of_le (Nat.zero_lt_succ _) hblocks))
    obtain ⟨hsize, hnext, hprevious, hfree⟩ := hok.field rfl
    have hfield := (hok.rep.split rfl).2.1
    have hmagic : h.field (h.base + extent pre) .magic = heapMagic := by rw [hfield]; rfl
    have hreserved : h.field (h.base + extent pre) .reserved = 0 := by rw [hfield]; rfl
    have hmapped := hok.mapped
    simp only [extent_append, extent_cons] at hmapped
    have hneighbour : ¬ (following (h.base + extent pre + headerSize + b.size) 0 post ≠ 0 ∧
        b.free = true ∧ heapBlockFree h
          (following (h.base + extent pre + headerSize + b.size) 0 post) = true) := by
      rintro ⟨hne, hb, hc⟩
      cases post with
      | nil => exact hne rfl
      | cons c post =>
        have hcused := (((coalesced_iff.mp hco).2.2 hb).2 c rfl)
        rw [following, heapBlockFree_of_field (hok.rep.split rfl).2.2.1, hcused] at hc
        cases hc
    have hadvance : h.base + extent pre + headerSize + b.size =
        h.base + extent (pre ++ [b]) := by simp [Nat.add_assoc]
    have hlast : h.base + extent pre = lastBlock 0 h.base (pre ++ [b]) := by
      rw [lastBlock_append]
      rfl
    rw [following, validateLoop, if_neg (hok.fits rfl).1.ne']
    dsimp only
    rw [hsize, hnext, hprevious, hfree, hmagic, hreserved, if_neg ?_, hadvance]
    · rw [hlast]
      exact ih (by simpa using hok) (by simpa using hco) (Nat.le_of_succ_le_succ hblocks)
    · rintro (hbad | hbad | hbad | hbad | hbad | hbad | hbad | hbad)
      · exact hbad rfl
      · exact hbad rfl
      · exact hbad rfl
      · exact hbad rfl
      · exact hbad (hok.sizes b (by simp))
      · omega
      · omega
      · exact hneighbour hbad

theorem kernelHeapValidate_ok (hok : HeapOk h bs) (hco : Coalesced bs) :
    kernelHeapValidate h = 0 := by
  have hpos := headerSize_le_extent hok.nonempty
  have hheader : 0 < headerSize := by decide
  have hlast := (lastBlock_bounds (p := 0) (a := h.base) hok.nonempty).1
  have hbase := hok.base.1
  have hne : ¬ (h.first = 0 ∨ h.last = 0 ∨ h.mappedSize = 0) := by
    rw [hok.first, hok.last, hok.mapped]
    omega
  have hblocks : bs.length ≤ h.mappedSize / headerSize := by
    rw [hok.mapped, Nat.le_div_iff_mul_le hheader, Nat.mul_comm]
    exact length_le_extent bs
  have hfirst : h.first = following (h.base + extent []) 0 bs := hok.growing.first
  rw [kernelHeapValidate, if_neg hne, hfirst]
  exact validateLoop_ok (show HeapOk h ([] ++ bs) from hok) hco hblocks

/-! ## Payloads -/

/-- Stores to the payload of a block do not touch the headers. -/
theorem Rep.payload {p next : Nat} (hr : Rep h p a bs next) (hu : Used a bs q k)
    (hbyte : ∀ z, ¬ (q ≤ z ∧ z < q + k) → h'.byte z = h.byte z) : Rep h' p a bs next := by
  induction bs generalizing p a with
  | nil => trivial
  | cons b bs ih =>
    obtain ⟨hb, hbs⟩ := hr
    have hheader : h'.field a = h.field a := by
      have := hu.bounds
      exact field_congr fun z hle hlt => hbyte z (by omega)
    refine ⟨hheader.trans hb, ?_⟩
    rcases hu with ⟨rfl, rfl⟩ | hu
    · exact hbs.congr fun z hle _ => hbyte z (by simp only at hle; omega)
    · exact ih hbs hu

theorem HeapOk.payload (hok : HeapOk h bs) (hu : Used h.base bs q k)
    (hbyte : ∀ z, ¬ (q ≤ z ∧ z < q + k) → h'.byte z = h.byte z)
    (hvariables : h'.variables = h.variables) (hlast : h'.last = h.last) : HeapOk h' bs := by
  obtain ⟨hbase, hlimit, hmapped, hfirst, -⟩ := Heap.variables_eq hvariables
  refine ⟨?_, hok.nonempty, ?_, ?_, ?_, hok.sizes, ?_, ?_, ?_⟩
  · rw [hbase]
    exact hok.rep.payload hu hbyte
  · rw [hfirst, hbase, hok.first]
  · rw [hlast, hbase, hok.last]
  · rw [hmapped, hok.mapped]
  · rw [hbase]
    exact hok.base
  · rw [hbase, hlimit, hmapped]
    exact hok.bound
  · rw [hmapped]
    exact hok.pages

/-! ## Runs -/

/-- The blocks that were handed out are in use, at least as large as was asked. -/
structure LiveOk (h : Heap) (bs : List Block) : Prop where
  used : ∀ al ∈ h.live, ∃ k, al.size ≤ k ∧ Used h.base bs al.pointer k
  nodup : (h.live.map (·.pointer)).Nodup

/-- What holds between the calls. -/
structure HeapSafe (h : Heap) (bs : List Block) : Prop where
  ok : HeapOk h bs
  coalesced : Coalesced bs
  live : LiveOk h bs

/-- The heap with another history. -/
def Heap.withLive (h : Heap) (live : List Allocation) : Heap := { h with live }

theorem HeapOk.withLive {live : List Allocation} (hok : HeapOk h bs) :
    HeapOk (h.withLive live) bs :=
  ⟨hok.rep.congr fun _ _ _ => rfl, hok.nonempty, hok.first, hok.last, hok.mapped, hok.sizes,
    hok.base, hok.bound, hok.pages⟩

/-- The history after a call that returns `q` for `size` bytes. -/
def granted (q size : Nat) (h : Heap) : Heap :=
  if q = 0 then h else h.withLive (⟨q, size⟩ :: h.live)

theorem heapAlignSize_eq {aligned : Nat} (h : heapAlignSize size = some aligned) :
    size ≤ aligned ∧ aligned % heapAlignment = 0 := by
  unfold heapAlignSize at h
  split at h
  · cases h
  · cases h
    refine ⟨?_, Nat.mul_mod_left _ _⟩
    simp only [heapAlignment]
    omega

/-- A call that returns a new block for `size` bytes, with the history it leaves. -/
theorem Grants.safe (hsafe : HeapSafe h bs) (hgrants : Grants h bs n q h' bs') (hsize : size ≤ n) :
    HeapSafe (granted q size h') bs' := by
  have hold : ∀ al ∈ h'.live, ∃ k, al.size ≤ k ∧ Used h'.base bs' al.pointer k := by
    rw [hgrants.keeps.live, hgrants.keeps.base]
    intro al hal
    obtain ⟨k, hk, hu⟩ := hsafe.live.used al hal
    exact ⟨k, hk, hgrants.keeps.used _ k id hu⟩
  have hnodup : (h'.live.map (·.pointer)).Nodup := hgrants.keeps.live ▸ hsafe.live.nodup
  unfold granted
  split
  · exact ⟨hgrants.ok, hgrants.coalesced, hold, hnodup⟩
  · next hq =>
    refine ⟨hgrants.ok.withLive, hgrants.coalesced, fun al hal => ?_,
      List.nodup_cons.mpr ⟨?_, hnodup⟩⟩
    · rcases List.mem_cons.mp hal with rfl | hal
      · obtain ⟨k, hk, hu⟩ := hgrants.used hq
        exact ⟨k, hsize.trans hk, hgrants.keeps.base ▸ hu⟩
      · exact hold al hal
    · intro hmem
      obtain ⟨al, hal, hpointer⟩ := List.mem_map.mp hmem
      rw [hgrants.keeps.live] at hal
      obtain ⟨k, -, hu⟩ := hsafe.live.used al hal
      rw [show al.pointer = q from hpointer] at hu
      exact hgrants.fresh hq k hu

/-- `NULL` is returned. -/
theorem Grants.null (hok : HeapOk h bs) (hco : Coalesced bs) : Grants h bs n 0 h bs :=
  ⟨hok, hco, Keeps.refl _ _ _, fun hq => absurd rfl hq, fun hq => absurd rfl hq⟩

theorem Grants.mono {m : Nat} (hgrants : Grants h bs n q h' bs') (hle : m ≤ n) :
    Grants h bs m q h' bs' := by
  refine ⟨hgrants.ok, hgrants.coalesced, hgrants.keeps, fun hq => ?_, hgrants.fresh⟩
  obtain ⟨k, hk, hu⟩ := hgrants.used hq
  exact ⟨k, hle.trans hk, hu⟩

theorem kernelMalloc_ok (size pages : Nat) (hok : HeapOk h bs) (hco : Coalesced bs) :
    ∃ q h' bs', kernelMalloc size pages h = some (q, granted q size h') ∧
      Grants h bs size q h' bs' := by
  unfold kernelMalloc
  split
  · exact ⟨0, h, bs, rfl, Grants.null hok hco⟩
  next aligned haligned =>
  obtain ⟨hle, hal⟩ := heapAlignSize_eq haligned
  split
  · exact ⟨0, h, bs, rfl, Grants.null hok hco⟩
  obtain ⟨q, h', bs', heq, hgrants⟩ := mallocLoop_ok pages hok hco hal
  exact ⟨q, h', bs', by rw [heq]; rfl, hgrants.mono hle⟩

/-- The new block is cleared. -/
theorem Grants.zero (hgrants : Grants h bs n q h' bs') (hq : q ≠ 0) :
    Grants h bs n q (heapZero q n h') bs' := by
  obtain ⟨k, hk, hu⟩ := hgrants.used hq
  have hbyte : ∀ z, ¬ (q ≤ z ∧ z < q + k) → (heapZero q n h').byte z = h'.byte z :=
    fun z hz => if_neg (by omega)
  have hu' : Used h'.base bs' q k := hgrants.keeps.base ▸ hu
  refine ⟨hgrants.ok.payload hu' hbyte rfl rfl, hgrants.coalesced,
    ⟨hgrants.keeps.used, fun r j hX hr z hle hlt => ?_, hgrants.keeps.base, hgrants.keeps.live⟩,
    hgrants.used, hgrants.fresh⟩
  -- a block that was in use before is not the new one, so it lies apart
  have hne : r ≠ q := fun heq => hgrants.fresh hq j (heq ▸ hr)
  have hdisjoint := (hgrants.keeps.used r j hX hr).disjoint hu hne
  rw [hbyte z (by omega)]
  exact hgrants.keeps.bytes r j hX hr z hle hlt

theorem kernelCalloc_ok (count size pages : Nat) (hok : HeapOk h bs) (hco : Coalesced bs) :
    ∃ q h' bs', kernelCalloc count size pages h = some (q, granted q (count * size) h') ∧
      Grants h bs (count * size) q h' bs' := by
  unfold kernelCalloc
  split
  · exact ⟨0, h, bs, rfl, Grants.null hok hco⟩
  obtain ⟨q, h', bs', heq, hgrants⟩ := kernelMalloc_ok (count * size) pages hok hco
  dsimp only
  rw [heq]
  by_cases hq : q = 0
  · subst hq
    exact ⟨0, h', bs', rfl, hgrants⟩
  · refine ⟨q, heapZero q (count * size) h', bs', ?_, hgrants.zero hq⟩
    simp only [Option.map_some, granted, ne_eq, hq, not_false_eq_true, if_true]
    rfl

theorem granted_byte (q size : Nat) : (granted q size h).byte = h.byte := by
  unfold granted
  split <;> rfl

/-- What one call does: it returns, the heap stays safe, and the blocks in use keep their bytes,
    except the one that is freed or stored to. -/
structure StepOk (h : Heap) (bs : List Block) (op : HeapOp) (h' : Heap) (bs' : List Block) :
    Prop where
  step : heapStep h op = some h'
  safe : HeapSafe h' bs'
  bytes : ∀ q k, op ≠ .free q → (∀ a v, op ≠ .store a v) → Used h.base bs q k →
    ∀ z, q ≤ z → z < q + k → h'.byte z = h.byte z

theorem Grants.step (hsafe : HeapSafe h bs) (hgrants : Grants h bs size q h' bs')
    (hstep : heapStep h op = some (granted q size h')) :
    StepOk h bs op (granted q size h') bs' := by
  refine ⟨hstep, hgrants.safe hsafe le_rfl, fun r k _ _ hu z hle hlt => ?_⟩
  rw [granted_byte]
  exact hgrants.keeps.bytes r k id hu z hle hlt

/-- `kernel_free` returns early, or gives the block back. -/
theorem kernelFree_cases (q : Nat) : kernelFree q h = h ∨
    q ≠ 0 ∧ ∃ r, r = releaseBlock (q - headerSize) h ∧
      kernelFree q h = r.withLive (r.live.filter (·.pointer ≠ q)) := by
  unfold kernelFree
  split
  · exact .inl rfl
  next hnull =>
  split
  · exact .inl rfl
  dsimp only
  split
  · exact .inl rfl
  · exact .inr ⟨fun hq => hnull (.inl hq), _, rfl, rfl⟩

/-- A live block is freed: the others stay. -/
theorem kernelFree_ok (hsafe : HeapSafe h bs) (hlive : q = 0 ∨ ∃ al ∈ h.live, al.pointer = q) :
    ∃ bs', StepOk h bs (.free q) (kernelFree q h) bs' := by
  rcases kernelFree_cases (h := h) q with hsame | ⟨hq, r, hr, heq⟩
  · rw [hsame]
    exact ⟨bs, by rw [heapStep, hsame], hsafe, fun _ _ _ _ _ _ _ _ => rfl⟩
  obtain ⟨al, hal, rfl⟩ := hlive.resolve_left hq
  obtain ⟨k, -, hu⟩ := hsafe.live.used al hal
  obtain ⟨pre, post, rfl, hpointer⟩ := hu.split
  have hblock : al.pointer - headerSize = h.base + extent pre := by omega
  obtain ⟨bs', hok, hco, hkeeps⟩ := releaseBlock_ok hsafe.ok hsafe.coalesced rfl
  rw [← hblock, ← hr] at hok
  rw [← hblock, ← hr, Nat.sub_add_cancel (by omega)] at hkeeps
  have hnodup : ((r.live.filter (·.pointer ≠ al.pointer)).map (·.pointer)).Nodup := by
    rw [hkeeps.live]
    exact hsafe.live.nodup.sublist (List.filter_sublist.map _)
  rw [heq]
  refine ⟨bs', by rw [heapStep, heq], ⟨hok.withLive, hco, fun al' hal' => ?_, hnodup⟩,
    fun q j hq _ hu' => hkeeps.bytes q j (fun hX => hq (hX ▸ rfl)) hu'⟩
  obtain ⟨hmem, hne⟩ := List.mem_filter.mp hal'
  rw [hkeeps.live] at hmem
  obtain ⟨j, hj, hu'⟩ := hsafe.live.used al' hmem
  exact ⟨j, hj, hkeeps.base ▸ hkeeps.used _ j (by simpa using hne) hu'⟩

/-- The owner of a block stores to it. -/
theorem store_ok {v : UInt8} (hsafe : HeapSafe h bs)
    (hlive : ∃ al ∈ h.live, al.pointer ≤ a ∧ a < al.pointer + al.size) :
    StepOk h bs (.store a v) { h with byte := Function.update h.byte a v } bs := by
  obtain ⟨al, hal, hle, hlt⟩ := hlive
  obtain ⟨k, hk, hu⟩ := hsafe.live.used al hal
  have hok : HeapOk { h with byte := Function.update h.byte a v } bs :=
    hsafe.ok.payload hu (fun z hz => Function.update_of_ne (by omega) _ _) rfl rfl
  exact ⟨rfl, ⟨hok, hsafe.coalesced, hsafe.live.used, hsafe.live.nodup⟩,
    fun q k _ hop => absurd rfl (hop a v)⟩

theorem heapStep_ok (hsafe : HeapSafe h bs) (hlive : FreesLive h op) :
    ∃ h' bs', StepOk h bs op h' bs' := by
  cases op with
  | malloc size pages =>
    obtain ⟨q, h', bs', heq, hgrants⟩ := kernelMalloc_ok size pages hsafe.ok hsafe.coalesced
    exact ⟨_, bs', hgrants.step hsafe (by rw [heapStep, heq]; rfl)⟩
  | calloc count size pages =>
    obtain ⟨q, h', bs', heq, hgrants⟩ := kernelCalloc_ok count size pages hsafe.ok hsafe.coalesced
    exact ⟨_, bs', hgrants.step hsafe (by rw [heapStep, heq]; rfl)⟩
  | free pointer => exact ⟨_, kernelFree_ok hsafe hlive⟩
  | store address value => exact ⟨_, bs, store_ok hsafe hlive⟩

/-- The heap `kernel_heap_init` starts from. -/
theorem growing_nil {selected : Nat} (hpos : 0 < selected) (hpage : selected % pageSize = 0)
    (hlimit : selected + heapMaxSize < 2 ^ 64) :
    Growing ⟨selected, selected + heapMaxSize, 0, 0, 0, byte, []⟩ [] 0 where
  rep := trivial
  first := rfl
  last := rfl
  mapped := rfl
  sizes := by simp
  base := by
    simp only [pageSize] at hpage
    simp only [heapAlignment]
    omega
  bound := ⟨Nat.le_add_right _ _, hlimit⟩
  pages := Nat.zero_mod _

theorem heapSelected_pos (x : Nat) : 0 < heapSelected x := by
  simp only [heapSelected, alignDown, heapGuardSize, pageSize]
  omega

theorem heapSelected_mod (x : Nat) : heapSelected x % pageSize = 0 := Nat.mul_mod_left _ _

/-- `kernel_heap_init` fails, or it maps the first pages somewhere above the direct map. -/
theorem kernelHeapInit_eq
    (hinit : kernelHeapInit directMapBase directMapSize pages byte = some (ok, h)) :
    ∃ selected pages', 0 < selected ∧ selected % pageSize = 0 ∧
      selected + heapMaxSize < 2 ^ 64 ∧ heapAppendPages pageSize pages
        ⟨selected, selected + heapMaxSize, 0, 0, 0, byte, []⟩ = (ok, pages', h) := by
  unfold kernelHeapInit at hinit
  split at hinit
  · cases hinit
  split at hinit
  · cases hinit
  split at hinit
  · cases hinit
  next hselected =>
  have hpos := heapSelected_pos (directMapBase + directMapSize)
  have hpage := heapSelected_mod (directMapBase + directMapSize)
  generalize heapSelected (directMapBase + directMapSize) = selected at hselected hpos hpage hinit
  obtain ⟨r, hr⟩ : ∃ r, heapAppendPages pageSize pages
    ⟨selected, selected + heapMaxSize, 0, 0, 0, byte, []⟩ = r := ⟨_, rfl⟩
  rw [hr] at hinit
  obtain ⟨ok', pages', h'⟩ := r
  cases hinit
  refine ⟨selected, pages', hpos, hpage, ?_, hr⟩
  simp only [demandTestAddress, heapMaxSize] at hselected ⊢
  omega

/-- `kernel_heap_init` leaves one free block, unless it got no page. -/
theorem kernelHeapInit_ok
    (hinit : kernelHeapInit directMapBase directMapSize pages byte = some (ok, h))
    (hmapped : ok = true ∨ h.first ≠ 0) : ∃ bs, HeapSafe h bs := by
  obtain ⟨selected, pages', hpos, hpage, hlimit, happend⟩ := kernelHeapInit_eq hinit
  have hgrow : Growing ⟨selected, selected + heapMaxSize, 0, 0, 0, byte, []⟩ [] 0 :=
    growing_nil hpos hpage hlimit
  obtain ⟨ok', pages'', h', heq, hcases⟩ :=
    heapAppendPages_ok (X := fun _ => False) (n := pageSize) pages hgrow List.isChain_nil
  rw [happend] at heq
  obtain ⟨rfl, rfl, rfl⟩ : ok = ok' ∧ pages' = pages'' ∧ h = h' := by simpa using heq
  rcases hcases with ⟨rfl, rfl⟩ | ⟨-, pre, size, -, hco, hok, hkeeps⟩
  · simp at hmapped
  · refine ⟨_, hok, hco, ?_, ?_⟩
    · rw [hkeeps.live]
      simp
    · rw [hkeeps.live]
      exact List.nodup_nil

/-- The size in the header of a live block. -/
def Heap.payload (h : Heap) (al : Allocation) : Nat := h.field (al.pointer - headerSize) .size

theorem Used.payload (hok : HeapOk h bs) (hu : Used h.base bs al.pointer k) : h.payload al = k := by
  obtain ⟨pre, post, rfl, hpointer⟩ := hu.split
  exact (hok.field (by omega)).1

/-- Whole blocks keep the alignment. -/
theorem extent_mod (hsizes : ∀ b ∈ bs, b.size % heapAlignment = 0) :
    extent bs % heapAlignment = 0 := by
  induction bs with
  | nil => rfl
  | cons b bs ih =>
    have hb := hsizes b (by simp)
    have hbs := ih fun c hc => hsizes c (by simp [hc])
    rw [extent_cons]
    simp only [heapAlignment, headerSize] at hb hbs ⊢
    omega

/-- The live blocks lie apart. -/
theorem HeapSafe.disjoint (hsafe : HeapSafe h bs) : h.live.Pairwise fun al al' =>
    al.pointer + h.payload al ≤ al'.pointer ∨ al'.pointer + h.payload al' ≤ al.pointer := by
  refine (List.pairwise_map.mp hsafe.live.nodup).imp_of_mem fun {al al'} hal hal' hne => ?_
  obtain ⟨k, -, hu⟩ := hsafe.live.used al hal
  obtain ⟨k', -, hu'⟩ := hsafe.live.used al' hal'
  rw [hu.payload hsafe.ok, hu'.payload hsafe.ok]
  exact hu.disjoint hu' hne

/-- A live block is aligned, large enough and inside the mapped heap. -/
theorem HeapSafe.inside (hsafe : HeapSafe h bs) (hal : al ∈ h.live) :
    al.pointer % heapAlignment = 0 ∧ al.size ≤ h.payload al ∧ h.base ≤ al.pointer ∧
      al.pointer + h.payload al ≤ h.base + h.mappedSize := by
  obtain ⟨k, hk, hu⟩ := hsafe.live.used al hal
  have hbounds := hu.bounds
  rw [hu.payload hsafe.ok, hsafe.ok.mapped]
  refine ⟨?_, hk, by omega, by omega⟩
  obtain ⟨pre, post, rfl, hpointer⟩ := hu.split
  have hpre : extent pre % heapAlignment = 0 :=
    extent_mod fun b hb => hsafe.ok.sizes b (by simp [hb])
  have hbase := hsafe.ok.base.2
  rw [hpointer]
  simp only [heapAlignment, headerSize] at hpre hbase ⊢
  omega

/-- The heap is well formed in every run, whatever pages can be had. -/
theorem heap_safe {directMapBase directMapSize : Nat} {byte : ByteMemory} {ok : Bool} {h₀ : Heap}
    (hinit : kernelHeapInit directMapBase directMapSize pages byte = some (ok, h₀))
    (hmapped : ok = true ∨ h₀.first ≠ 0) (hrun : Run heapStep FreesLive h₀ h) :
    kernelHeapValidate h = 0 ∧
      (∀ al ∈ h.live, al.pointer % heapAlignment = 0 ∧ al.size ≤ h.payload al ∧
        h.base ≤ al.pointer ∧ al.pointer + h.payload al ≤ h.base + h.mappedSize) ∧
      (h.live.Pairwise fun al al' =>
        al.pointer + h.payload al ≤ al'.pointer ∨ al'.pointer + h.payload al' ≤ al.pointer) ∧
      ∀ op, FreesLive h op → ∃ h', heapStep h op = some h' ∧
        ∀ al ∈ h.live, op ≠ .free al.pointer → (∀ a v, op ≠ .store a v) →
          ∀ z, al.pointer ≤ z → z < al.pointer + h.payload al → h'.byte z = h.byte z := by
  have hsafe : ∃ bs, HeapSafe h bs := by
    refine hrun.invariant (I := fun h => ∃ bs, HeapSafe h bs) (kernelHeapInit_ok hinit hmapped) ?_
    rintro u op v ⟨bs, hsafe⟩ hlive hstep
    obtain ⟨h', bs', hok⟩ := heapStep_ok hsafe hlive
    cases hstep.symm.trans hok.step
    exact ⟨bs', hok.safe⟩
  obtain ⟨bs, hsafe⟩ := hsafe
  refine ⟨kernelHeapValidate_ok hsafe.ok hsafe.coalesced, fun al hal => hsafe.inside hal,
    hsafe.disjoint, fun op hlive => ?_⟩
  obtain ⟨h', bs', hok⟩ := heapStep_ok hsafe hlive
  refine ⟨h', hok.step, fun al hal hfree hstore => ?_⟩
  obtain ⟨k, -, hu⟩ := hsafe.live.used al hal
  rw [hu.payload hsafe.ok]
  exact hok.bytes _ k hfree hstore hu

/-- A block is freed while another stays; the next request is served from new pages, as the first
    attempt could get none. -/
theorem heap_safe_grown : ∃ h₀ h, kernelHeapInit 0 0 2 (fun _ => 9) = some (true, h₀) ∧
    Run heapStep FreesLive h₀ h ∧ h.live = [⟨0x200120, 9000⟩, ⟨0x200080, 100⟩] ∧
    kernelHeapValidate h = 0 := by
  obtain ⟨⟨ok, h₀⟩, hinit, hcheck⟩ := (Option.any_eq_true _ _).mp
    (show (kernelHeapInit 0 0 2 fun _ => 9).any (fun r => r.1 && (runList
        (fun u a => if decide (FreesLive u a) then heapStep u a else none) r.2
        [.malloc 24 0, .malloc 100 0, .store 0x200030 7, .free 0x200030, .malloc 9000 0,
          .malloc 9000 5]).any
        (fun h => h.live = [⟨0x200120, 9000⟩, ⟨0x200080, 100⟩])) = true by decide +kernel)
  obtain ⟨hok, hsteps⟩ := (Bool.and_eq_true _ _).mp hcheck
  cases hok
  obtain ⟨h, hr, hlive⟩ := Run.exists_of_guarded heapStep (fun u a => decide (FreesLive u a)) h₀ _
    _ hsteps
  have hrun : Run heapStep FreesLive h₀ h :=
    hr.mono_of_invariant (I := fun _ => True) trivial (fun _ _ _ _ _ _ => trivial)
      fun _ _ _ => of_decide_eq_true
  exact ⟨h₀, h, hinit, hrun, of_decide_eq_true hlive, (heap_safe hinit (.inl rfl) hrun).1⟩

end RiscMv.Memory
