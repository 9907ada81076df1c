import RiscMv.Memory.HeapBlocks

/-!
# What the functions of the heap do to the blocks

Each of the static functions of `heap.c` is related to what it does to the list of blocks:
`heapSplit_ok`, `heapMergeNext_ok` and `heapAppendPages_ok`, and `takeBlock_ok` and
`releaseBlock_ok` for the two ways they are put together.
-/

namespace RiscMv.Memory

variable {h h' : Heap} {bs bs' pre post : List Block} {b c : Block} {x n pages : Nat}
  {X : Nat → Prop}

/-! ## One block changes -/

/-- The flag of a block is stored. -/
theorem setFlags_ok (free : Bool) (hok : HeapOk h (pre ++ b :: post))
    (hx : x = h.base + extent pre) (hX : b.free = true ∨ X (x + headerSize)) :
    HeapOk (h.setField x .flags (if free then 1 else 0)) (pre ++ ⟨b.size, free⟩ :: post) ∧
      Keeps X h (pre ++ b :: post) (h.setField x .flags (if free then 1 else 0))
        (pre ++ ⟨b.size, free⟩ :: post) := by
  obtain ⟨-, hb, hpost⟩ := hok.rep.split hx
  have hflag : (if free then 1 else 0) < 2 ^ 64 := by split <;> decide
  have hlast : h.last = if post = [] then x else h.last := by
    split
    · next hnil =>
      rw [hok.last, lastBlock_append, ← hx, hnil]
      rfl
    · rfl
  constructor
  · refine hok.replace (m := [b]) (l := [⟨b.size, free⟩]) hx (by simp) (by simp) rfl ?_
      (fun z hz => ?_) ⟨?_, trivial⟩ ?_ hlast rfl
    · simpa using hok.sizes b (by simp)
    · exact setField_byte (by omega)
    · rw [setField_field_self hflag, hb]
      funext g
      cases g <;> simp [headerOf, following, Nat.add_assoc]
    · simp only [extent_cons, extent_nil, lastBlock, Nat.add_zero, ← Nat.add_assoc]
      exact hpost.congr fun z hle _ => setField_byte (by omega)
  · refine Keeps.replace (m := [b]) (l := [⟨b.size, free⟩]) hx ?_ rfl (fun z hz => ?_) rfl
    · rintro q k hq (⟨rfl, rfl⟩ | hu)
      · rcases hX with hX | hX
        · cases hX
        · exact hq hX
      · exact hu
    · simp only [extent_cons, extent_nil] at hz
      exact setField_byte (by omega)

section

variable (hok : HeapOk h (pre ++ b :: post)) (hx : x = h.base + extent pre)
include hok hx

/-- The words a header gives for the next block and the size. -/
theorem HeapOk.field :
    h.field x .size = b.size ∧ h.field x .next = following (x + headerSize + b.size) 0 post ∧
      h.field x .previous = lastBlock 0 h.base pre ∧ heapBlockFree h x = b.free := by
  obtain ⟨-, hb, -⟩ := hok.rep.split hx
  exact ⟨by rw [hb]; rfl, by rw [hb]; rfl, by rw [hb]; rfl, heapBlockFree_of_field hb⟩

/-- The addresses at a block: they are not `NULL`, and they fit a word. -/
theorem HeapOk.fits :
    0 < x ∧ x + headerSize + b.size < 2 ^ 64 ∧
      following (x + headerSize + b.size) 0 post < 2 ^ 64 := by
  have hend : x + headerSize + b.size < 2 ^ 64 := by
    refine hok.lt ?_
    simp only [extent_append, extent_cons]
    omega
  refine ⟨?_, hend, ?_⟩
  · have := hok.base.1
    omega
  · cases post with
    | nil => exact Nat.two_pow_pos 64
    | cons c post => exact hend

/-- A free block is cut in two. -/
theorem heapSplit_ok (hfree : b.free = true) (hn : n + headerSize + heapAlignment ≤ b.size)
    (hal : n % heapAlignment = 0) :
    HeapOk (heapSplit x n h) (pre ++ ⟨n, true⟩ :: ⟨b.size - n - headerSize, true⟩ :: post) ∧
      Keeps X h (pre ++ b :: post) (heapSplit x n h)
        (pre ++ ⟨n, true⟩ :: ⟨b.size - n - headerSize, true⟩ :: post) := by
  obtain ⟨-, hb, hpost⟩ := hok.rep.split hx
  obtain ⟨hsize, hnext, -, -⟩ := hok.field hx
  obtain ⟨hx0, hend, hnextlt⟩ := hok.fits hx
  have hheader : headerSize = 48 := rfl
  -- the four heaps of the source, one after the other
  obtain ⟨h₁, hh₁⟩ : ∃ h₁, h₁ = h.writeHeader (x + headerSize + n) (b.size - n - headerSize) x
    (following (x + headerSize + b.size) 0 post) := ⟨_, rfl⟩
  have htail : h₁.field (x + headerSize + n) = headerOf ⟨b.size - n - headerSize, true⟩ x
      (following (x + headerSize + b.size) 0 post) := by
    rw [hh₁]
    exact writeHeader_field_self (by omega) (by omega) hnextlt
  obtain ⟨h₂, hh₂⟩ : ∃ h₂, h₂ = h₁.relink (following (x + headerSize + b.size) 0 post)
    (x + headerSize + n) := ⟨_, rfl⟩
  have hsplit : heapSplit x n h =
      (h₂.setField x .next (x + headerSize + n)).setField x .size n := by
    rw [heapSplit, if_neg (by omega)]
    simp only [hsize, hnext, ← hh₁, htail, headerOf, ← hh₂]
  have hbyte₁ : ∀ z, ¬ (x + headerSize + n ≤ z ∧ z < x + headerSize + n + headerSize) →
      h₁.byte z = h.byte z := fun z hz => hh₁ ▸ writeHeader_byte hz
  have hbyte₂ : ∀ z, ¬ (x + headerSize + b.size ≤ z ∧ z < x + headerSize + b.size + headerSize) →
      h₂.byte z = h₁.byte z := fun z hz => hh₂ ▸ relink_byte hz
  have hbyte : ∀ z, ¬ (x ≤ z ∧ z < x + headerSize) → (heapSplit x n h).byte z = h₂.byte z := by
    intro z hz
    rw [hsplit, setField_byte hz, setField_byte hz]
  have hx2 : h₂.field x = headerOf b (lastBlock 0 h.base pre)
      (following (x + headerSize + b.size) 0 post) := by
    rw [← hb]
    refine field_congr fun z hle hlt => ?_
    rw [hbyte₂ z (by omega), hbyte₁ z (by omega)]
  have hvariables : (heapSplit x n h).variables = h.variables := by
    rw [hsplit, hh₂, hh₁]
    simp only [setField_variables, relink_variables, writeHeader_variables]
  have hall : ∀ z, z < x ∨ x + headerSize + b.size + headerSize ≤ z →
      (heapSplit x n h).byte z = h.byte z := by
    intro z hz
    rw [hbyte z (by omega), hbyte₂ z (by omega), hbyte₁ z (by omega)]
  have hext : extent [⟨n, true⟩, ⟨b.size - n - headerSize, true⟩] = extent [b] := by
    simp only [extent_cons, extent_nil]
    omega
  have hone : x + extent [b] = x + headerSize + b.size := by simp [Nat.add_assoc]
  constructor
  · refine hok.replace (m := [b]) (l := [_, _]) hx (by simp) (by simp) hext ?_
      (fun z hz => hall z (.inl hz)) ⟨?_, ?_, trivial⟩ ?_ ?_ hvariables
    · have hb16 := hok.sizes b (by simp)
      simp only [heapAlignment] at hal hb16 hn
      simp only [List.mem_cons, List.not_mem_nil, or_false, heapAlignment]
      rintro c (rfl | rfl)
      · exact hal
      · simp only [headerSize]
        omega
    · rw [hsplit, setField_field_self (by omega), setField_field_self (by omega), hx2]
      funext g
      cases g <;> simp [headerOf, following, hfree]
    · rw [hone]
      show (heapSplit x n h).field (x + headerSize + n) = _
      refine (field_congr fun z hle hlt => ?_).trans htail
      rw [hbyte z (by omega), hbyte₂ z (by omega)]
    · rw [hone]
      have hpost₁ : Rep h₁ x (x + headerSize + b.size) post 0 :=
        hpost.congr fun z hle _ => hbyte₁ z (by omega)
      refine (hh₂ ▸ relink_rep hpost₁ (by omega) (by omega)).congr fun z hle _ => ?_
      exact hbyte z (by omega)
    · rw [hsplit, setField_last, setField_last, hh₂, relink_last (by omega), hh₁,
        writeHeader_last]
      rfl
  · refine Keeps.replace (m := [b]) (l := [_, _]) hx ?_ hext ?_ hvariables
    · rintro q k - (⟨rfl, rfl⟩ | hu)
      · cases hfree
      · exact hu
    · rw [hone]
      exact hall

end

/-- A block takes in the free block after it. -/
theorem heapMergeNext_ok (hok : HeapOk h (pre ++ b :: c :: post)) (hx : x = h.base + extent pre)
    (hb : b.free = true) (hc : c.free = true) :
    HeapOk (heapMergeNext x h) (pre ++ ⟨b.size + (headerSize + c.size), true⟩ :: post) ∧
      Keeps X h (pre ++ b :: c :: post) (heapMergeNext x h)
        (pre ++ ⟨b.size + (headerSize + c.size), true⟩ :: post) := by
  obtain ⟨-, hbf, hcf, hpost⟩ := hok.rep.split hx
  obtain ⟨hsize, hnext, -, -⟩ := hok.field hx
  obtain ⟨hx0, -, -⟩ := hok.fits hx
  have hok' : HeapOk h ((pre ++ [b]) ++ c :: post) := by simpa using hok
  obtain ⟨-, hend, hlt⟩ := hok'.fits (x := x + headerSize + b.size) (by simp [hx, Nat.add_assoc])
  obtain ⟨y, hy⟩ : ∃ y, y = x + headerSize + b.size := ⟨_, rfl⟩
  rw [← hy] at hcf hpost hnext hend hlt
  have hheader : headerSize = 48 := rfl
  obtain ⟨h₁, hh₁⟩ : ∃ h₁, h₁ = (h.setField x .size (b.size + (headerSize + c.size))).setField x
    .next (following (y + headerSize + c.size) 0 post) := ⟨_, rfl⟩
  obtain ⟨h₂, hh₂⟩ : ∃ h₂, h₂ = h₁.relink (following (y + headerSize + c.size) 0 post) x :=
    ⟨_, rfl⟩
  have hx1 : h₁.field x = headerOf ⟨b.size + (headerSize + c.size), true⟩ (lastBlock 0 h.base pre)
      (following (y + headerSize + c.size) 0 post) := by
    rw [hh₁, setField_field_self hlt, setField_field_self (by omega), hbf]
    funext g
    cases g <;> simp [headerOf, hb]
  have hmerge : heapMergeNext x h = h₂.setField y .magic 0 := by
    have hyfree : heapBlockFree h y = true := (heapBlockFree_of_field hcf).trans hc
    have hy1 : (h.setField x .size (b.size + (headerSize + c.size))).field y = h.field y :=
      setField_field_apart (by omega)
    have hcsize : h.field y .size = c.size := by rw [hcf]; rfl
    have hcnext : h.field y .next = following (y + headerSize + c.size) 0 post := by
      rw [hcf]; rfl
    rw [following] at hnext
    rw [heapMergeNext, hnext, if_neg (by simp only [hyfree]; simp; omega)]
    simp only [hsize, hcsize, hy1, hcnext, ← hh₁, hx1, headerOf, ← hh₂]
  have hbyte₁ : ∀ z, ¬ (x ≤ z ∧ z < x + headerSize) → h₁.byte z = h.byte z := by
    intro z hz
    rw [hh₁, setField_byte hz, setField_byte hz]
  have hbyte₂ : ∀ z, ¬ (y + headerSize + c.size ≤ z ∧ z < y + headerSize + c.size + headerSize) →
      h₂.byte z = h₁.byte z := fun z hz => hh₂ ▸ relink_byte hz
  have hbyte : ∀ z, ¬ (y ≤ z ∧ z < y + headerSize) → (heapMergeNext x h).byte z = h₂.byte z := by
    intro z hz
    rw [hmerge, setField_byte hz]
  have hall : ∀ z, z < x ∨ y + headerSize + c.size + headerSize ≤ z →
      (heapMergeNext x h).byte z = h.byte z := by
    intro z hz
    rw [hbyte z (by omega), hbyte₂ z (by omega), hbyte₁ z (by omega)]
  have hvariables : (heapMergeNext x h).variables = h.variables := by
    rw [hmerge, hh₂, hh₁]
    simp only [setField_variables, relink_variables]
  have hext : extent [⟨b.size + (headerSize + c.size), true⟩] = extent [b, c] := by
    simp only [extent_cons, extent_nil]
    omega
  have htwo : x + extent [b, c] = y + headerSize + c.size := by
    simp only [extent_cons, extent_nil]
    omega
  constructor
  · refine hok.replace (m := [b, c]) (l := [_]) hx (by simp) (by simp) hext ?_
      (fun z hz => hall z (.inl hz)) ⟨?_, trivial⟩ ?_ ?_ hvariables
    · have hb16 := hok.sizes b (by simp)
      have hc16 := hok.sizes c (by simp)
      simp only [heapAlignment] at hb16 hc16
      simp only [List.mem_singleton, forall_eq, heapAlignment, headerSize]
      omega
    · rw [htwo]
      refine (field_congr fun z hle hlt => ?_).trans hx1
      rw [hbyte z (by omega), hbyte₂ z (by omega)]
    · rw [htwo]
      have hpost₁ : Rep h₁ y (y + headerSize + c.size) post 0 :=
        hpost.congr fun z hle _ => hbyte₁ z (by omega)
      refine (hh₂ ▸ relink_rep hpost₁ (by omega) (by omega)).congr fun z hle _ => ?_
      exact hbyte z (by omega)
    · rw [hmerge, setField_last, hh₂, relink_last (by omega), hh₁, setField_last, setField_last]
      rfl
  · refine Keeps.replace (m := [b, c]) (l := [_]) hx ?_ hext ?_ hvariables
    · rintro q k - (⟨rfl, rfl⟩ | ⟨rfl, rfl⟩ | hu)
      · cases hb
      · cases hc
      · exact hu
    · rw [htwo]
      exact hall

/-- A block whose next block is in use, or that is the last one, stays. -/
theorem heapMergeNext_of_used (hok : HeapOk h (pre ++ b :: post)) (hx : x = h.base + extent pre)
    (hpost : ∀ c ∈ post.head?, c.free = false) : heapMergeNext x h = h := by
  obtain ⟨-, hnext, -, -⟩ := hok.field hx
  cases post with
  | nil =>
    rw [following] at hnext
    rw [heapMergeNext, hnext, if_pos (.inl rfl)]
  | cons c post =>
    obtain ⟨-, -, hc, -⟩ := hok.rep.split hx
    rw [following] at hnext
    have hfree : heapBlockFree h (x + headerSize + b.size) = false :=
      (heapBlockFree_of_field hc).trans (hpost c rfl)
    rw [heapMergeNext, hnext, if_pos (.inr (by simp [hfree]))]

/-! ## Blocks are taken and given back -/

/-- A free block has no free neighbour. -/
theorem coalesced_iff : Coalesced (pre ++ b :: post) ↔ Coalesced pre ∧ Coalesced post ∧
    (b.free = true → (∀ c ∈ pre.getLast?, c.free = false) ∧ ∀ c ∈ post.head?, c.free = false) := by
  unfold Coalesced
  simp only [List.isChain_append, List.isChain_cons, List.head?_cons, Option.mem_def,
    Option.some.injEq, forall_eq']
  constructor
  · rintro ⟨hpre, ⟨hhead, hpost⟩, hlast⟩
    refine ⟨hpre, hpost, fun hb => ⟨fun c hc => ?_, fun c hc => ?_⟩⟩
    · simpa [hb] using hlast c hc
    · simpa [hb] using hhead c hc
  · rintro ⟨hpre, hpost, hb⟩
    refine ⟨hpre, ⟨fun c hc hbc => ?_, hpost⟩, fun c hc hcb => ?_⟩
    · simp [(hb hbc.1).2 c hc] at hbc
    · simp [(hb hcb.2).1 c hc] at hcb

theorem coalesced_cons_iff : Coalesced (b :: post) ↔
    Coalesced post ∧ (b.free = true → ∀ c ∈ post.head?, c.free = false) := by
  rw [← List.nil_append (b :: post), coalesced_iff]
  simp [Coalesced]

theorem takeBlock_ok (hok : HeapOk h (pre ++ b :: post)) (hco : Coalesced (pre ++ b :: post))
    (hx : x = h.base + extent pre) (hfree : b.free = true) (hn : n ≤ b.size)
    (hal : n % heapAlignment = 0) :
    ∃ bs', HeapOk (takeBlock x n h) bs' ∧ Coalesced bs' ∧
      Keeps X h (pre ++ b :: post) (takeBlock x n h) bs' ∧
      ∃ k, n ≤ k ∧ Used h.base bs' (x + headerSize) k := by
  obtain ⟨hpre, hpost, hb⟩ := coalesced_iff.mp hco
  -- the block may be cut; its first part is the one that is taken
  have hcut : ∃ k post', n ≤ k ∧ HeapOk (heapSplit x n h) (pre ++ ⟨k, true⟩ :: post') ∧
      Coalesced post' ∧
      Keeps X h (pre ++ b :: post) (heapSplit x n h) (pre ++ ⟨k, true⟩ :: post') := by
    by_cases hroom : b.size < n + headerSize + heapAlignment
    · have hsame : heapSplit x n h = h := by
        rw [heapSplit, (hok.field hx).1, if_pos hroom]
      rw [hsame]
      cases b with
      | mk size free =>
        cases hfree
        exact ⟨size, post, hn, hok, hpost, Keeps.refl X h _⟩
    · obtain ⟨hok', hkeeps⟩ := heapSplit_ok (X := X) hok hx hfree (by omega) hal
      refine ⟨n, _, le_rfl, hok', ?_, hkeeps⟩
      exact coalesced_cons_iff.mpr ⟨hpost, fun _ => (hb hfree).2⟩
  obtain ⟨k, post', hk, hok', hpost', hkeeps⟩ := hcut
  have hx' : x = (heapSplit x n h).base + extent pre := by rw [hkeeps.base, hx]
  have hflags : (heapSplit x n h).field x .flags &&& (uint64Max - heapFree) =
      if (false : Bool) then 1 else 0 := by
    rw [(hok'.rep.split hx').2.1]
    simp only [headerOf]
    decide
  obtain ⟨hok'', hkeeps'⟩ := setFlags_ok (X := X) false hok' hx' (.inl rfl)
  rw [← hflags] at hok'' hkeeps'
  refine ⟨_, hok'', coalesced_iff.mpr ⟨hpre, hpost', by simp⟩, hkeeps.trans hkeeps', k, hk, ?_⟩
  rw [Used.append_iff, ← hx]
  exact .inr (.inl ⟨rfl, rfl⟩)

theorem releaseBlock_ok (hok : HeapOk h (pre ++ ⟨n, false⟩ :: post))
    (hco : Coalesced (pre ++ ⟨n, false⟩ :: post)) (hx : x = h.base + extent pre) :
    ∃ bs', HeapOk (releaseBlock x h) bs' ∧ Coalesced bs' ∧
      Keeps (· = x + headerSize) h (pre ++ ⟨n, false⟩ :: post) (releaseBlock x h) bs' := by
  obtain ⟨hpre, hpost, -⟩ := coalesced_iff.mp hco
  have hflags : h.field x .flags ||| heapFree = if (true : Bool) then 1 else 0 := by
    rw [(hok.rep.split hx).2.1]
    simp [headerOf, heapFree]
  obtain ⟨hok₁, hkeeps₁⟩ := setFlags_ok (X := (· = x + headerSize)) true hok hx (.inr rfl)
  rw [← hflags] at hok₁ hkeeps₁
  obtain ⟨h₁, hh₁⟩ : ∃ h₁, h₁ = h.setField x .flags (h.field x .flags ||| heapFree) := ⟨_, rfl⟩
  rw [← hh₁] at hok₁ hkeeps₁
  have hx₁ : x = h₁.base + extent pre := by rw [hkeeps₁.base, hx]
  -- the block after it
  have hnext : ∃ k post', HeapOk (heapMergeNext x h₁) (pre ++ ⟨k, true⟩ :: post') ∧
      Coalesced post' ∧ (∀ c ∈ post'.head?, c.free = false) ∧
      Keeps (· = x + headerSize) h₁ (pre ++ ⟨n, true⟩ :: post) (heapMergeNext x h₁)
        (pre ++ ⟨k, true⟩ :: post') := by
    by_cases hhead : ∀ c ∈ post.head?, c.free = false
    · rw [heapMergeNext_of_used hok₁ hx₁ hhead]
      exact ⟨n, post, hok₁, hpost, hhead, Keeps.refl _ _ _⟩
    · obtain ⟨c, post', rfl, hc⟩ : ∃ c post', post = c :: post' ∧ c.free = true := by
        cases post with
        | nil => simp at hhead
        | cons c post' => exact ⟨c, post', rfl, by simpa using hhead⟩
      obtain ⟨hpost', hafter⟩ := coalesced_cons_iff.mp hpost
      obtain ⟨hok₂, hkeeps₂⟩ := heapMergeNext_ok (X := (· = x + headerSize)) hok₁ hx₁ rfl hc
      exact ⟨_, post', hok₂, hpost', hafter hc, hkeeps₂⟩
  obtain ⟨k, post', hok₂, hpost', hhead, hkeeps₂⟩ := hnext
  obtain ⟨h₂, hh₂⟩ : ∃ h₂, h₂ = heapMergeNext x h₁ := ⟨_, rfl⟩
  rw [← hh₂] at hok₂ hkeeps₂
  have hx₂ : x = h₂.base + extent pre := by rw [hkeeps₂.base, hx₁]
  have hprevious := (hok₂.field hx₂).2.2.1
  have hrelease : releaseBlock x h = if lastBlock 0 h₂.base pre ≠ 0 ∧
      heapBlockFree h₂ (lastBlock 0 h₂.base pre) then heapMergeNext (lastBlock 0 h₂.base pre) h₂
      else h₂ := by
    simp only [releaseBlock, ← hh₁, ← hh₂, hprevious]
  have hkeeps := hkeeps₁.trans hkeeps₂
  rw [hrelease]
  -- the block before it
  rcases List.eq_nil_or_concat' pre with rfl | ⟨pre', c, rfl⟩
  · rw [if_neg (by simp [lastBlock])]
    exact ⟨_, hok₂, coalesced_iff.mpr ⟨hpre, hpost', fun _ => ⟨by simp, hhead⟩⟩, hkeeps⟩
  · have hok₃ : HeapOk h₂ (pre' ++ c :: ⟨k, true⟩ :: post') := by simpa using hok₂
    have hlast : lastBlock 0 h₂.base (pre' ++ [c]) = h₂.base + extent pre' := by
      rw [lastBlock_append]
      rfl
    obtain ⟨hpre', -, hbefore⟩ := coalesced_iff.mp hpre
    rw [hlast, (hok₃.field rfl).2.2.2]
    split
    · next hc =>
      obtain ⟨hok₄, hkeeps₄⟩ := heapMergeNext_ok (X := (· = x + headerSize)) hok₃ rfl hc.2 rfl
      refine ⟨_, hok₄, coalesced_iff.mpr ⟨hpre', hpost', fun _ => ⟨(hbefore hc.2).1, hhead⟩⟩, ?_⟩
      refine hkeeps.trans ?_
      simpa using hkeeps₄
    · next hc =>
      have hcf : c.free = false := by
        have hne := (hok₃.fits rfl).1.ne'
        simpa only [ne_eq, hne, not_false_eq_true, true_and, Bool.not_eq_true] using hc
      refine ⟨_, hok₂, coalesced_iff.mpr ⟨hpre, hpost', fun _ => ⟨by simp [hcf], hhead⟩⟩, hkeeps⟩

/-! ## The heap grows -/

/-- The heap while pages are mapped: the last `added` bytes are in no block yet. -/
structure Growing (h : Heap) (bs : List Block) (added : Nat) : Prop where
  rep : Rep h 0 h.base bs 0
  first : h.first = following h.base 0 bs
  last : h.last = lastBlock 0 h.base bs
  mapped : h.mappedSize = extent bs + added
  sizes : ∀ b ∈ bs, b.size % heapAlignment = 0
  base : 0 < h.base ∧ h.base % heapAlignment = 0
  bound : h.base + h.mappedSize ≤ h.limit ∧ h.limit < 2 ^ 64
  pages : h.mappedSize % pageSize = 0

theorem HeapOk.growing (hok : HeapOk h bs) : Growing h bs 0 where
  rep := hok.rep
  first := by
    have hne := hok.nonempty
    cases bs with
    | nil => exact absurd rfl hne
    | cons b bs => exact hok.first
  last := hok.last
  mapped := hok.mapped
  sizes := hok.sizes
  base := hok.base
  bound := hok.bound
  pages := hok.pages

/-- The heap with one more page. -/
def Heap.withPage (h : Heap) (page size : Nat) : Heap :=
  { h with
    byte := fun a => if page ≤ a ∧ a < page + pageSize then 0 else h.byte a
    mappedSize := size }

theorem withPage_byte {page size z : Nat} (hz : z < page) :
    (h.withPage page size).byte z = h.byte z := if_neg (by omega)

variable {added needed : Nat}

theorem Growing.withPage (hg : Growing h bs added)
    (hroom : h.base + (h.mappedSize + pageSize) ≤ h.limit) :
    Growing (h.withPage (h.base + extent bs + added) (extent bs + (added + pageSize))) bs
      (added + pageSize) where
  rep := hg.rep.congr fun z _ hlt => withPage_byte (by omega)
  first := hg.first
  last := hg.last
  mapped := rfl
  sizes := hg.sizes
  base := hg.base
  bound := by
    have hmapped := hg.mapped
    refine ⟨?_, hg.bound.2⟩
    show h.base + (extent bs + (added + pageSize)) ≤ h.limit
    omega
  pages := by
    have hmapped := hg.mapped
    have hpages := hg.pages
    show (extent bs + (added + pageSize)) % pageSize = 0
    rw [← Nat.add_assoc, ← hmapped, Nat.add_mod_right]
    exact hpages

/-- What mapping pages does: some are added, up to the number needed, above the blocks. -/
theorem mapPages_ok (pages : Nat) (hg : Growing h bs added) (hle : added ≤ needed)
    (hadded : added % pageSize = 0) (hneeded : needed % pageSize = 0)
    (hroom : h.base + (extent bs + needed) ≤ h.limit) :
    ∃ added' pages' h', mapPages (extent bs) needed pages added h = (added', pages', h') ∧
      Growing h' bs added' ∧ added' % pageSize = 0 ∧ added ≤ added' ∧
      (added' = added → h' = h) ∧ (pages = 0 → added' = added) ∧
      (∀ z, z < h.base + extent bs → h'.byte z = h.byte z) ∧
      h'.base = h.base ∧ h'.live = h.live := by
  induction pages generalizing added h with
  | zero =>
    exact ⟨added, 0, h, rfl, hg, hadded, le_rfl, fun _ => rfl, fun _ => rfl, fun _ _ => rfl, rfl,
      rfl⟩
  | succ pages ih =>
    by_cases hlt : added < needed
    · -- both are multiples of the page size, so a whole page is missing
      have hpage : added + pageSize ≤ needed := by
        simp only [pageSize] at hadded hneeded ⊢
        omega
      have hg' := hg.withPage (by rw [hg.mapped]; omega)
      have hpos : 0 < pageSize := Nat.zero_lt_succ _
      obtain ⟨added', pages', h', heq, hgrow, hmod, hmore, -, -, hbyte, hbase, hlive⟩ :=
        ih hg' hpage (by rw [Nat.add_mod_right]; exact hadded) hroom
      refine ⟨added', pages', h', ?_, hgrow, hmod, by omega, fun heq => ?_, by simp, fun z hz => ?_,
        hbase, hlive⟩
      · rw [← heq, mapPages, if_pos hlt]
        rfl
      · omega
      · rw [hbyte z hz, withPage_byte (by omega)]
    · exact ⟨added, pages + 1, h, by rw [mapPages, if_neg hlt], hg, hadded, le_rfl, fun _ => rfl,
        fun _ => rfl, fun _ _ => rfl, rfl, rfl⟩

/-- The last block, if it is free, takes in the new pages. -/
theorem Growing.extend (hg : Growing h (pre ++ [c]) added) (hc : c.free = true)
    (hadded : added % pageSize = 0) :
    HeapOk (h.setField (h.base + extent pre) .size (c.size + added))
      (pre ++ [⟨c.size + added, true⟩]) := by
  obtain ⟨hpre, hcf, -⟩ := hg.rep.split rfl
  have hmapped := hg.mapped
  have hbound := hg.bound
  simp only [extent_append, extent_cons, extent_nil] at hmapped
  refine ⟨Rep.join (hpre.congr fun z _ hlt => setField_byte (by omega)) rfl ?_ trivial, by simp,
    ?_, ?_, ?_, ?_, hg.base, hg.bound, hg.pages⟩
  · rw [setField_field_self (by omega), hcf]
    funext g
    cases g <;> simp [headerOf, following, hc]
  · show h.first = h.base
    rw [hg.first]
    cases pre <;> rfl
  · show h.last = _
    rw [hg.last, lastBlock_append, lastBlock_append]
    rfl
  · show h.mappedSize = _
    simp only [extent_append, extent_cons, extent_nil]
    omega
  · intro b hb
    rw [List.mem_append, List.mem_singleton] at hb
    rcases hb with hb | rfl
    · exact hg.sizes b (by simp [hb])
    · have hc16 := hg.sizes c (by simp)
      simp only [heapAlignment, pageSize] at hc16 hadded ⊢
      omega

/-- A new block is made of the new pages; it is told where the last one is. -/
theorem Growing.newBlock (hg : Growing h bs added) (hadded : added % pageSize = 0)
    (hpos : 0 < added)
    (hbyte : ∀ z, h.base + extent bs ≤ z → h'.byte z =
      (h.writeHeader (h.base + extent bs) (added - headerSize) h.last 0).byte z)
    (hrep : Rep h' 0 h.base bs (h.base + extent bs))
    (hlast : h'.last = h.base + extent bs) (hfirst : h'.first = h.base)
    (hsame : h'.base = h.base ∧ h'.limit = h.limit ∧ h'.mappedSize = h.mappedSize) :
    HeapOk h' (bs ++ [⟨added - headerSize, true⟩]) := by
  obtain ⟨hbase, hlimit, hmapped⟩ := hsame
  have hbound := hg.bound
  have hsize := hg.mapped
  have hpage : headerSize ≤ added := by
    simp only [headerSize, pageSize] at hadded ⊢
    omega
  have hlastlt : h.last < 2 ^ 64 := by
    rw [hg.last]
    cases bs with
    | nil => exact Nat.two_pow_pos 64
    | cons b bs =>
      have := (lastBlock_bounds (p := 0) (a := h.base) (List.cons_ne_nil b bs)).2
      omega
  refine ⟨?_, by simp, by rw [hfirst, hbase], ?_, ?_, ?_, by rw [hbase]; exact hg.base,
    by rw [hbase, hlimit, hmapped]; exact hg.bound, by rw [hmapped]; exact hg.pages⟩
  · rw [hbase]
    refine Rep.join hrep rfl ?_ trivial
    rw [← hg.last]
    refine (field_congr fun z hle _ => hbyte z hle).trans ?_
    exact writeHeader_field_self (by omega) hlastlt (Nat.two_pow_pos 64)
  · rw [hlast, hbase, lastBlock_append]
    rfl
  · rw [hmapped, hsize]
    simp only [extent_append, extent_cons, extent_nil]
    omega
  · intro b hb
    rw [List.mem_append, List.mem_singleton] at hb
    rcases hb with hb | rfl
    · exact hg.sizes b hb
    · simp only [headerSize, heapAlignment, pageSize] at hadded hpage ⊢
      omega

/-- The heap had no block. -/
theorem appendBlock_nil_ok (hg : Growing h [] added) (hadded : added % pageSize = 0)
    (hpos : 0 < added) :
    HeapOk (appendBlock (extent []) added h) [⟨added - headerSize, true⟩] ∧
      Keeps X h [] (appendBlock (extent []) added h) [⟨added - headerSize, true⟩] := by
  have hlast : h.last = 0 := hg.last
  have happend : appendBlock (extent []) added h =
      { h.writeHeader (h.base + extent []) (added - headerSize) h.last 0 with
        first := h.base + extent []
        last := h.base + extent [] } := by
    rw [appendBlock, if_neg (by simp [hlast])]
    simp only [writeHeader_last, hlast, ne_eq, not_true_eq_false, if_false]
  have hvariables : (h.writeHeader (h.base + extent []) (added - headerSize) h.last 0).variables =
    h.variables := writeHeader_variables
  obtain ⟨hbase, hlimit, hmapped, -, hlive⟩ := Heap.variables_eq hvariables
  rw [happend]
  exact ⟨hg.newBlock hadded hpos (fun _ _ => rfl) trivial rfl rfl ⟨hbase, hlimit, hmapped⟩,
    fun q n _ hu => hu.elim, fun q n _ hu => hu.elim, hbase, hlive⟩

theorem Growing.last_field (hg : Growing h (pre ++ [c]) added) :
    h.last = h.base + extent pre ∧ h.last ≠ 0 ∧ h.field h.last .size = c.size ∧
      heapBlockFree h h.last = c.free := by
  obtain ⟨-, hcf, -⟩ := hg.rep.split rfl
  have hlast : h.last = h.base + extent pre := by
    rw [hg.last, lastBlock_append]
    rfl
  have hpos := hg.base.1
  rw [hlast]
  exact ⟨rfl, by omega, by rw [hcf]; rfl, heapBlockFree_of_field hcf⟩

theorem appendBlock_free_ok (hg : Growing h (pre ++ [c]) added) (hadded : added % pageSize = 0)
    (hc : c.free = true) :
    HeapOk (appendBlock (extent (pre ++ [c])) added h) (pre ++ [⟨c.size + added, true⟩]) ∧
      Keeps X h (pre ++ [c]) (appendBlock (extent (pre ++ [c])) added h)
        (pre ++ [⟨c.size + added, true⟩]) := by
  obtain ⟨hlast, hlast0, hsize, hfree⟩ := hg.last_field
  have happend : appendBlock (extent (pre ++ [c])) added h =
      h.setField (h.base + extent pre) .size (c.size + added) := by
    rw [appendBlock, if_pos ⟨hlast0, hfree.trans hc⟩, hsize, hlast]
  have hpre : ∀ q n, Used h.base (pre ++ [c]) q n → Used h.base pre q n := by
    intro q n hu
    rw [Used.append_iff] at hu
    rcases hu with hu | ⟨rfl, -⟩ | hu
    · exact hu
    · cases hc
    · exact hu.elim
  rw [happend]
  refine ⟨hg.extend hc hadded, fun q n _ hu => ?_, fun q n _ hu z hle hlt => ?_, rfl, rfl⟩
  · exact Used.append_iff.mpr (.inl (hpre q n hu))
  · have := (hpre q n hu).bounds
    exact setField_byte (by omega)

theorem appendBlock_used_ok (hg : Growing h (pre ++ [c]) added) (hadded : added % pageSize = 0)
    (hpos : 0 < added) (hc : c.free = false) :
    HeapOk (appendBlock (extent (pre ++ [c])) added h)
        (pre ++ [c] ++ [⟨added - headerSize, true⟩]) ∧
      Keeps X h (pre ++ [c]) (appendBlock (extent (pre ++ [c])) added h)
        (pre ++ [c] ++ [⟨added - headerSize, true⟩]) := by
  obtain ⟨hlast, hlast0, -, hfree⟩ := hg.last_field
  obtain ⟨w, hw⟩ : ∃ w, w = h.writeHeader (h.base + extent (pre ++ [c])) (added - headerSize)
    h.last 0 := ⟨_, rfl⟩
  have hwlast : w.last = h.last := by rw [hw, writeHeader_last]
  have hwv : w.variables = h.variables := by rw [hw, writeHeader_variables]
  obtain ⟨hbase, hlimit, hmapped, hfirst, hlive⟩ := Heap.variables_eq hwv
  have happend : appendBlock (extent (pre ++ [c])) added h =
      { w.setField h.last .next (h.base + extent (pre ++ [c])) with
        last := h.base + extent (pre ++ [c]) } := by
    rw [appendBlock, if_neg (by simp [hfree, hc])]
    simp only [← hw, hwlast, if_pos hlast0]
  have hend : extent (pre ++ [c]) = extent pre + headerSize + c.size := by
    simp [Nat.add_assoc]
  have hwbyte : ∀ z, z < h.base + extent (pre ++ [c]) → w.byte z = h.byte z :=
    fun z hz => hw ▸ writeHeader_byte (by omega)
  have hlt : h.base + extent (pre ++ [c]) < 2 ^ 64 := by
    have hsize := hg.mapped
    have hbound := hg.bound
    omega
  have hrep : Rep (w.setField h.last .next (h.base + extent (pre ++ [c]))) 0 h.base (pre ++ [c])
      (h.base + extent (pre ++ [c])) := by
    rw [hlast]
    exact (hg.rep.congr fun z _ hz => hwbyte z hz).setNext hlt
  have hfirst' : h.first = h.base := by
    rw [hg.first]
    cases pre <;> rfl
  rw [happend]
  refine ⟨hg.newBlock hadded hpos (fun z hle => ?_) (hrep.congr fun _ _ _ => rfl) rfl
      (hfirst.trans hfirst') ⟨hbase, hlimit, hmapped⟩,
    fun q n _ hu => Used.append_iff.mpr (.inl hu), fun q n _ hu z hle hz => ?_, hbase, hlive⟩
  · rw [← hw]
    exact setField_byte (by omega)
  · -- the payload of a block in use is no header: neither the last block's nor the new one's
    have hapart : ¬ (h.last ≤ z ∧ z < h.last + headerSize) := by
      rw [Used.append_iff] at hu
      rcases hu with hu | ⟨rfl, rfl⟩ | hu
      · have := hu.bounds
        omega
      · omega
      · exact hu.elim
    refine Eq.trans (setField_byte hapart) (hwbyte z ?_)
    have := hu.bounds
    omega

/-- What `heap_append_pages` does with the pages it got: the last block is free and holds them. -/
theorem appendBlock_ok (hg : Growing h bs added) (hco : Coalesced bs)
    (hadded : added % pageSize = 0) (hpos : 0 < added) :
    ∃ pre size, added - headerSize ≤ size ∧ Coalesced (pre ++ [⟨size, true⟩]) ∧
      HeapOk (appendBlock (extent bs) added h) (pre ++ [⟨size, true⟩]) ∧
      Keeps X h bs (appendBlock (extent bs) added h) (pre ++ [⟨size, true⟩]) := by
  rcases List.eq_nil_or_concat' bs with rfl | ⟨pre, c, rfl⟩
  · obtain ⟨hok, hkeeps⟩ := appendBlock_nil_ok (X := X) hg hadded hpos
    exact ⟨[], added - headerSize, le_rfl, List.isChain_singleton _, hok, hkeeps⟩
  · obtain ⟨hpre, -, hbefore⟩ := coalesced_iff.mp hco
    cases hc : c.free with
    | true =>
      obtain ⟨hok, hkeeps⟩ := appendBlock_free_ok (X := X) hg hadded hc
      exact ⟨pre, c.size + added, by omega,
        coalesced_iff.mpr ⟨hpre, List.isChain_nil, fun _ => ⟨(hbefore hc).1, by simp⟩⟩, hok, hkeeps⟩
    | false =>
      obtain ⟨hok, hkeeps⟩ := appendBlock_used_ok (X := X) hg hadded hpos hc
      exact ⟨pre ++ [c], added - headerSize, le_rfl,
        coalesced_iff.mpr ⟨hco, List.isChain_nil, fun _ => ⟨by simp [hc], by simp⟩⟩, hok, hkeeps⟩

/-- Mapping pages keeps the blocks in use. -/
theorem Growing.keeps (hbyte : ∀ z, z < h.base + extent bs → h'.byte z = h.byte z)
    (hbase : h'.base = h.base) (hlive : h'.live = h.live) : Keeps X h bs h' bs := by
  refine ⟨fun _ _ _ hu => hu, fun q n _ hu z hle hlt => hbyte z ?_, hbase, hlive⟩
  have := hu.bounds
  omega

/-- `heap_append_pages` leaves the heap alone, or its last block is free; it is large enough when
    the function says so. -/
theorem heapAppendPages_ok (pages : Nat) (hg : Growing h bs 0) (hco : Coalesced bs) :
    ∃ ok pages' h', heapAppendPages n pages h = (ok, pages', h') ∧
      ((ok = false ∧ h' = h) ∨
        0 < pages ∧ ∃ pre size, (ok = true → n ≤ size) ∧ Coalesced (pre ++ [⟨size, true⟩]) ∧
          HeapOk h' (pre ++ [⟨size, true⟩]) ∧ Keeps X h bs h' (pre ++ [⟨size, true⟩])) := by
  unfold heapAppendPages
  split
  · exact ⟨false, pages, h, rfl, .inl ⟨rfl, rfl⟩⟩
  dsimp only
  split
  · exact ⟨false, pages, h, rfl, .inl ⟨rfl, rfl⟩⟩
  obtain ⟨needed, hneeded⟩ : ∃ needed,
    needed = (n + headerSize + (pageSize - 1)) / pageSize * pageSize := ⟨_, rfl⟩
  have hmod : needed % pageSize = 0 := hneeded ▸ Nat.mul_mod_left _ _
  have hle : n + headerSize ≤ needed := by
    simp only [pageSize] at hneeded
    omega
  rw [← hneeded]
  split
  · exact ⟨false, pages, h, rfl, .inl ⟨rfl, rfl⟩⟩
  next hroom =>
  have hmapped : h.mappedSize = extent bs := hg.mapped
  rw [hmapped] at hroom ⊢
  obtain ⟨added, pages', h', heq, hgrow, hadded, -, hzero, hnone, hbyte, hbase, hlive⟩ :=
    mapPages_ok pages hg (Nat.zero_le needed) (Nat.zero_mod _) hmod (by omega)
  rw [heq]
  dsimp only
  split
  · next hadd => exact ⟨false, pages', h', rfl, .inl ⟨rfl, hzero hadd⟩⟩
  next hadd =>
  obtain ⟨pre, size, hsize, hco', hok, hkeeps⟩ :=
    appendBlock_ok (X := X) hgrow hco hadded (Nat.pos_of_ne_zero hadd)
  refine ⟨_, _, _, rfl, .inr ⟨Nat.pos_of_ne_zero fun hp => hadd (hnone hp), pre, size, fun h => ?_,
    hco', hok, (Growing.keeps hbyte hbase hlive).trans hkeeps⟩⟩
  have := of_decide_eq_true h
  omega

end RiscMv.Memory
