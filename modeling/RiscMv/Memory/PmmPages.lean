import Mathlib.Data.List.Nodup
import RiscMv.Memory.Pmm

/-!
# The pages of the allocator

The recycled pages, the pages of the memory map that were not handed out yet and the pages handed
out are distinct, and their numbers add up.

## Key results
- `kernelPmmAllocPage_ok`, `kernelPmmAllocContiguous_ok`, `kernelPmmFreePage_ok`: the invariant is
  kept, and what is returned
- `pages_distinct`: what holds after every sequence of calls
-/

namespace RiscMv.Memory

variable {info : BootInfo} {s s' s₁ : Pmm} {recycled recycled' pages recycled₁ : List Nat}
  {page first n m a b p q fuel : Nat} {entries : List MemoryMapEntry} {found : Bool} {r : Nat × Pmm}

/-! ## Runs of pages -/

@[simp] theorem length_pageRun (first n : Nat) : (pageRun first n).length = n := by
  simp [pageRun]

theorem mem_pageRun : page ∈ pageRun first n ↔ ∃ i < n, first + i * pageSize = page := by
  simp [pageRun]

theorem pageRun_nodup (first n : Nat) : (pageRun first n).Nodup := by
  refine List.nodup_range.map fun i j hij => ?_
  simp only [pageSize] at hij
  omega

theorem pageRun_add (first n m : Nat) :
    pageRun first (n + m) = pageRun first n ++ pageRun (first + n * pageSize) m := by
  simp only [pageRun, List.range_add, List.map_append, List.map_map]
  congr 1
  refine List.map_congr_left fun i _ => ?_
  simp only [Function.comp_apply, Nat.add_mul]
  omega

theorem pageRun_succ (first n : Nat) :
    pageRun first (n + 1) = first :: pageRun (first + pageSize) n := by
  rw [Nat.add_comm, pageRun_add]
  simp [pageRun]

/-- Both ends of a range are page addresses. -/
def Aligned (a : Nat) : Prop := a % pageSize = 0

theorem Aligned.add_pages (h : Aligned a) (n : Nat) : Aligned (a + n * pageSize) := by
  rw [Aligned, Nat.add_mul_mod_self_right]
  exact h

theorem Aligned.add_page (h : Aligned a) : Aligned (a + pageSize) := by
  simpa using h.add_pages 1

/-- The next page of a range that is not empty. -/
theorem pagesIn_cons (ha : Aligned a) (hb : Aligned b) (hab : a < b) :
    pagesIn a b = a :: pagesIn (a + pageSize) b := by
  have hlen : (b - a) / pageSize = (b - (a + pageSize)) / pageSize + 1 := by
    simp only [Aligned, pageSize] at *
    omega
  rw [pagesIn, hlen, pageRun_succ, pagesIn]

theorem pagesIn_eq_nil (hab : b ≤ a) : pagesIn a b = [] := by
  simp [pagesIn, pageRun, Nat.sub_eq_zero_of_le hab]

/-- The first pages of a range that is large enough. -/
theorem pagesIn_append (h : n * pageSize ≤ b - a) :
    pagesIn a b = pageRun a n ++ pagesIn (a + n * pageSize) b := by
  have hlen : (b - a) / pageSize = n + (b - (a + n * pageSize)) / pageSize := by
    simp only [pageSize] at *
    omega
  rw [pagesIn, hlen, pageRun_add, pagesIn]

theorem mem_pagesIn (ha : Aligned a) (hb : Aligned b) :
    page ∈ pagesIn a b ↔ Aligned page ∧ a ≤ page ∧ page + pageSize ≤ b := by
  simp only [pagesIn, mem_pageRun, Aligned, pageSize] at *
  constructor
  · rintro ⟨i, hi, rfl⟩
    omega
  · rintro ⟨hp, hle, hlt⟩
    exact ⟨(page - a) / 4096, by omega, by omega⟩

theorem aligned_alignDown (a : Nat) : Aligned (alignDown a) := by
  simp [Aligned, alignDown]

/-! ## Entries of the memory map -/

/-- What `usable_range_bounds` returns. -/
theorem usableRangeBounds_some {base length : Nat}
    (h : usableRangeBounds base length = some (a, b)) :
    Aligned a ∧ Aligned b ∧ a ≠ 0 ∧ base ≤ a ∧ b ≤ base + length := by
  unfold usableRangeBounds at h
  split at h
  · cases h
  · simp only [Option.some.injEq, Prod.mk.injEq] at h
    obtain ⟨rfl, rfl⟩ := h
    have hdown : alignDown (base + length) ≤ base + length := Nat.div_mul_le_self _ _
    have hup : base ≤ alignDown (base + (pageSize - 1)) := by
      simp only [alignDown, pageSize]
      omega
    split
    · next hzero =>
      rw [hzero] at hup
      exact ⟨by simp [Aligned], aligned_alignDown _, by simp [pageSize], by omega, hdown⟩
    · next hne => exact ⟨aligned_alignDown _, aligned_alignDown _, hne, hup, hdown⟩

/-- The pages of an entry lie in its range. -/
theorem mem_entryPages {entry : MemoryMapEntry} (h : page ∈ entryPages entry) :
    entry.type = memoryUsable ∧ Aligned page ∧ page ≠ 0 ∧ entry.base ≤ page ∧
      page + pageSize ≤ entry.base + entry.length := by
  unfold entryPages at h
  split at h
  · next htype =>
    split at h
    · cases h
    · next a b hbounds =>
      obtain ⟨ha, hb, hne, hbase, hlen⟩ := usableRangeBounds_some hbounds
      obtain ⟨hp, hle, hlt⟩ := (mem_pagesIn ha hb).mp h
      exact ⟨htype, hp, by omega, by omega, by omega⟩
  · cases h

theorem entryPages_nodup (entry : MemoryMapEntry) : (entryPages entry).Nodup := by
  unfold entryPages
  split
  · split
    · exact List.nodup_nil
    · exact pageRun_nodup _ _
  · exact List.nodup_nil

/-- The usable ranges of the memory map do not overlap. -/
def DisjointUsable (entries : List MemoryMapEntry) : Prop :=
  entries.Pairwise fun e e' => e.type = memoryUsable → e'.type = memoryUsable →
    e.base + e.length ≤ e'.base ∨ e'.base + e'.length ≤ e.base

theorem flatMap_entryPages_nodup (h : DisjointUsable entries) :
    (entries.flatMap entryPages).Nodup := by
  refine List.nodup_flatMap.mpr ⟨fun e _ => entryPages_nodup e, h.imp fun hdisj page hp hp' => ?_⟩
  obtain ⟨htype, _, _, hlo, hhi⟩ := mem_entryPages hp
  obtain ⟨htype', _, _, hlo', hhi'⟩ := mem_entryPages hp'
  have hpos : 0 < pageSize := by simp [pageSize]
  rcases hdisj htype htype' with hle | hle <;> omega

/-- Every usable entry has bounds. -/
def Bounded (entries : List MemoryMapEntry) : Prop :=
  ∀ e ∈ entries, e.type = memoryUsable → (usableRangeBounds e.base e.length).isSome

/-- What counting the pages establishes. -/
theorem countPages_some {ramSize : Nat} {count total : Nat}
    (h : countPages ramSize entries count = some total) :
    Bounded entries ∧ total = count + (entries.flatMap entryPages).length ∧
      ∀ p ∈ entries.flatMap entryPages, p + pageSize ≤ ramSize := by
  induction entries generalizing count with
  | nil =>
    simp only [countPages, Option.some.injEq] at h
    simp [Bounded, h]
  | cons e rest ih =>
    unfold countPages at h
    split at h
    · next htype =>
      split at h
      · cases h
      · next a b hbounds =>
        split at h
        · cases h
        · next hram =>
          dsimp only at h
          generalize hpages : (if a < b then (b - a) / pageSize else 0) = pages at h
          split at h
          · cases h
          · obtain ⟨hbounded, htotal, hfit⟩ := ih h
            obtain ⟨ha, hb, _, _, _⟩ := usableRangeBounds_some hbounds
            have hentry : entryPages e = pagesIn a b := by simp [entryPages, htype, hbounds]
            have hcount : pages = (pagesIn a b).length := by
              rw [← hpages, pagesIn, length_pageRun]
              split
              · rfl
              · next hab => simp [Nat.sub_eq_zero_of_le (Nat.not_lt.mp hab)]
            refine ⟨fun e' he' htype' => ?_, ?_, fun p hp => ?_⟩
            · rcases List.mem_cons.mp he' with rfl | he'
              · simp [hbounds]
              · exact hbounded e' he' htype'
            · rw [htotal, List.flatMap_cons, List.length_append, hentry, hcount]
              omega
            · rw [List.flatMap_cons, hentry, List.mem_append] at hp
              rcases hp with hp | hp
              · have := ((mem_pagesIn ha hb).mp hp).2.2
                omega
              · exact hfit p hp
    · next htype =>
      obtain ⟨hbounded, htotal, hfit⟩ := ih h
      have hentry : entryPages e = [] := by simp [entryPages, htype]
      refine ⟨fun e' he' htype' => ?_, ?_, fun p hp => ?_⟩
      · rcases List.mem_cons.mp he' with rfl | he'
        · exact absurd htype' htype
        · exact hbounded e' he' htype'
      · simp [htotal, hentry]
      · rw [List.flatMap_cons, hentry, List.nil_append] at hp
        exact hfit p hp

/-! ## The invariant -/

/-- A page of the allocator. -/
structure PageOk (s : Pmm) (page : Nat) : Prop where
  aligned : Aligned page
  nonzero : page ≠ 0
  inRam : page + pageSize ≤ s.bootInfo.ramSize
  direct : s.direct page = true
  origin : InUsable s.bootInfo page ∨ page ∈ s.donated

/-- The recycled pages are linked, the free pages are counted, and no page is there twice. -/
structure PmmOk (info : BootInfo) (s : Pmm) (recycled : List Nat) : Prop where
  info : s.bootInfo = info
  chain : Chain s.word (· = 0) s.recycledHead recycled
  count : s.freeCount = (recycled ++ freshPages s).length
  nodup : (recycled ++ freshPages s ++ s.handedOut).Nodup
  page : ∀ p ∈ recycled ++ freshPages s ++ s.handedOut, PageOk s p
  range : Aligned s.rangeNext ∧ Aligned s.rangeEnd
  bounded : Bounded s.memoryMap

/-- Pages move within the free pages or out of them. -/
theorem PmmOk.take (h : PmmOk info s recycled) (pages : List Nat) (hinfo : s'.bootInfo = s.bootInfo)
    (hdirect : s'.directMapSize = s.directMapSize) (hdonated : s'.donated = s.donated)
    (hcount : s'.freeCount = s.freeCount - pages.length)
    (hout : s'.handedOut = pages ++ s.handedOut)
    (hchain : Chain s'.word (· = 0) s'.recycledHead recycled')
    (hperm : (recycled ++ freshPages s).Perm (pages ++ (recycled' ++ freshPages s')))
    (hrange : Aligned s'.rangeNext ∧ Aligned s'.rangeEnd) (hbounded : Bounded s'.memoryMap) :
    PmmOk info s' recycled' := by
  have hall : (recycled' ++ freshPages s' ++ s'.handedOut).Perm
      (recycled ++ freshPages s ++ s.handedOut) := by
    rw [hout]
    refine List.Perm.trans ?_ (hperm.append_right s.handedOut).symm
    rw [← List.append_assoc]
    exact List.perm_append_comm.append_right s.handedOut
  have hlen := hperm.length_eq
  refine ⟨hinfo.trans h.info, hchain, ?_, hall.nodup_iff.mpr h.nodup, fun p hp => ?_, hrange,
    hbounded⟩
  · rw [hcount, h.count, hlen, List.length_append]
    omega
  · obtain ⟨ha, hne, hram, hdir, horigin⟩ := h.page p (hall.mem_iff.mp hp)
    exact ⟨ha, hne, hinfo ▸ hram, by simpa [Pmm.direct, hdirect] using hdir,
      by rw [hinfo, hdonated]; exact horigin⟩

/-- What an allocation of `n` pages returns and leaves. -/
structure Allocates (info : BootInfo) (s : Pmm) (recycled : List Nat) (n : Nat) (r : Nat × Pmm)
    (recycled' : List Nat) : Prop where
  ok : PmmOk info r.2 recycled'
  failed : r.1 = 0 → (recycled ++ freshPages s).Perm (recycled' ++ freshPages r.2) ∧
    r.2.handedOut = s.handedOut
  pages : r.1 ≠ 0 → (recycled ++ freshPages s).Perm
      (pageRun r.1 n ++ (recycled' ++ freshPages r.2)) ∧
    r.2.handedOut = pageRun r.1 n ++ s.handedOut ∧
    ∀ p ∈ pageRun r.1 n, ∀ a, p ≤ a → a < p + pageSize → r.2.word a = 0

/-! ## The memory map -/

/-- What selecting from the entries leaves: the entries after the range from `a` to `b`. -/
structure Selects (s : Pmm) (entries : List MemoryMapEntry) (found : Bool) (s' : Pmm)
    (rest : List MemoryMapEntry) (a b : Nat) : Prop where
  eq : s' = { s with memoryMap := rest, rangeNext := a, rangeEnd := b }
  range : Aligned a ∧ Aligned b
  bounded : Bounded rest
  pages : entries.flatMap entryPages = pagesIn a b ++ rest.flatMap entryPages
  found : found = true → a < b ∧ rest.length < entries.length

theorem selectFrom_ok (hb : Bounded entries) (h : selectFrom s entries = (found, s')) :
    ∃ rest a b, Selects s entries found s' rest a b := by
  induction entries with
  | nil =>
    cases h
    exact ⟨[], 0, 0, rfl, ⟨rfl, rfl⟩, nofun, by simp [pagesIn_eq_nil], nofun⟩
  | cons e rest ih =>
    have hrest : Bounded rest := fun e' he' => hb e' (List.mem_cons_of_mem e he')
    -- an entry without pages is skipped
    have hskip : entryPages e = [] → selectFrom s rest = (found, s') →
        ∃ rest' a b, Selects s (e :: rest) found s' rest' a b := by
      intro hentry h
      obtain ⟨rest', a, b, hsel⟩ := ih hrest h
      refine ⟨rest', a, b, hsel.eq, hsel.range, hsel.bounded, ?_,
        fun hf => (hsel.found hf).imp_right Nat.lt_succ_of_lt⟩
      rw [List.flatMap_cons, hentry, hsel.pages, List.nil_append]
    unfold selectFrom at h
    split at h
    · next htype => exact hskip (by simp [entryPages, htype]) h
    · next htype =>
      rw [not_not] at htype
      split at h
      · next hnone =>
        have := hb e List.mem_cons_self htype
        simp [hnone] at this
      · next a b hbounds =>
        obtain ⟨ha, hb', _⟩ := usableRangeBounds_some hbounds
        have hentry : entryPages e = pagesIn a b := by simp [entryPages, htype, hbounds]
        split at h
        · next hab =>
          cases h
          exact ⟨rest, a, b, rfl, ⟨ha, hb'⟩, hrest, by rw [List.flatMap_cons, hentry],
            fun _ => ⟨hab, Nat.lt_succ_self _⟩⟩
        · next hab => exact hskip (hentry.trans (pagesIn_eq_nil (Nat.not_lt.mp hab))) h

/-- What the choice of pages leaves alone. -/
structure SameBooks (s s' : Pmm) : Prop where
  info : s'.bootInfo = s.bootInfo
  direct : s'.directMapSize = s.directMapSize
  donated : s'.donated = s.donated
  count : s'.freeCount = s.freeCount
  out : s'.handedOut = s.handedOut

/-- Selecting the next range keeps the free pages. -/
theorem PmmOk.select (h : PmmOk info s recycled) (hempty : s.rangeEnd ≤ s.rangeNext)
    (hsel : selectNextUsableRange s = (found, s')) :
    PmmOk info s' recycled ∧ freshPages s' = freshPages s ∧ SameBooks s s' ∧
      (found = true → s'.rangeNext < s'.rangeEnd ∧ s'.memoryMap.length < s.memoryMap.length) := by
  obtain ⟨rest, a, b, rfl, hrange, hbounded, hpages, hfound⟩ := selectFrom_ok h.bounded hsel
  have hsame : freshPages { s with memoryMap := rest, rangeNext := a, rangeEnd := b } =
      freshPages s := by
    rw [freshPages, freshPages, pagesIn_eq_nil hempty, hpages, List.nil_append]
  refine ⟨h.take [] rfl rfl rfl rfl rfl h.chain ?_ hrange hbounded, hsame,
    ⟨rfl, rfl, rfl, rfl, rfl⟩, hfound⟩
  rw [hsame]
  exact .refl _

/-! ## One page -/

/-- The pages about to be cleared are free pages that are no longer linked. -/
structure Chosen (s : Pmm) (recycled pages : List Nat) (s' : Pmm) (recycled' : List Nat) :
    Prop where
  chain : Chain s'.word (· = 0) s'.recycledHead recycled'
  perm : (recycled ++ freshPages s).Perm (pages ++ (recycled' ++ freshPages s'))
  range : Aligned s'.rangeNext ∧ Aligned s'.rangeEnd
  bounded : Bounded s'.memoryMap
  books : SameBooks s s'

/-- They are pages of the allocator. -/
theorem Chosen.pageOk (hc : Chosen s recycled pages s' recycled') (h : PmmOk info s recycled)
    (hp : p ∈ pages ++ (recycled' ++ freshPages s')) : PageOk s p :=
  h.page p (List.mem_append_left _ (hc.perm.mem_iff.mpr hp))

/-- They are not among the pages that are left. -/
theorem Chosen.nodup (hc : Chosen s recycled pages s' recycled') (h : PmmOk info s recycled) :
    (pages ++ (recycled' ++ freshPages s')).Nodup :=
  hc.perm.nodup_iff.mp (List.Nodup.of_append_left h.nodup)

theorem advance_snd (s : Pmm) :
    s.advance.2 = { s with rangeNext := s.rangeNext + pageSize } := rfl

/-- The next page of a range that is not empty. -/
theorem PmmOk.advance (h : PmmOk info s recycled) (hrange : s.rangeNext < s.rangeEnd) :
    Chosen s recycled [s.advance.1] s.advance.2 recycled := by
  have hpages : freshPages s = s.rangeNext :: freshPages s.advance.2 := by
    rw [advance_snd, freshPages, freshPages, pagesIn_cons h.range.1 h.range.2 hrange,
      List.cons_append]
  refine ⟨h.chain, ?_, ⟨h.range.1.add_page, h.range.2⟩, h.bounded, rfl, rfl, rfl, rfl, rfl⟩
  rw [hpages]
  exact List.perm_middle

/-- A page is chosen, or there is no free page and only the range may have changed. -/
theorem choosePage_ok (h : PmmOk info s recycled) :
    (∃ recycled', Chosen s recycled [(choosePage s).1] (choosePage s).2 recycled') ∨
      (choosePage s).1 = 0 ∧ PmmOk info (choosePage s).2 recycled ∧
        freshPages (choosePage s).2 = freshPages s ∧
        (choosePage s).2.handedOut = s.handedOut := by
  unfold choosePage
  split
  · next hhead =>
    -- the head of the recycled list
    cases recycled with
    | nil => exact absurd (Chain.nil_iff.mp h.chain) hhead
    | cons p rest =>
      obtain ⟨hp, _, hrest⟩ := Chain.cons_iff.mp h.chain
      have hdirect : s.direct s.recycledHead = true := by
        rw [hp]
        exact (h.page p (by simp)).direct
      rw [if_pos hdirect]
      refine .inl ⟨rest, hrest, ?_, h.range, h.bounded, rfl, rfl, rfl, rfl, rfl⟩
      dsimp only
      rw [hp]
      exact .refl _
  · unfold takeFreshPage
    split
    · next hempty =>
      cases hsel : selectNextUsableRange s with
      | mk found s' =>
        obtain ⟨hok, hfresh, hbooks, hfound⟩ := h.select hempty hsel
        cases found with
        | false => exact .inr ⟨rfl, hok, hfresh, hbooks.out⟩
        | true =>
          have hadv := hok.advance (hfound rfl).1
          exact .inl ⟨recycled, hadv.chain, hfresh ▸ hadv.perm, hadv.range, hadv.bounded,
            hbooks.info, hbooks.direct, hbooks.donated, hbooks.count, hbooks.out⟩
    · next hrange => exact .inl ⟨recycled, h.advance (Nat.not_le.mp hrange)⟩

theorem pageRun_one (first : Nat) : pageRun first 1 = [first] := by simp [pageRun]

/-! ## Consecutive pages -/

theorem clearPages_eq (hdirect : ∀ p ∈ pageRun first n, s.direct p = true) :
    clearPages n first s = (true, { s with
      word := fun a => if first ≤ a ∧ a < first + n * pageSize then 0 else s.word a }) := by
  induction n generalizing first s with
  | zero =>
    have hword : (fun a => if first ≤ a ∧ a < first + 0 * pageSize then 0 else s.word a) =
        s.word := by
      funext a
      exact if_neg (by omega)
    rw [clearPages, hword]
  | succ n ih =>
    rw [pageRun_succ] at hdirect
    have hrest : ∀ p ∈ pageRun (first + pageSize) n, (s.clearPage first).direct p = true :=
      fun p hp => hdirect p (List.mem_cons_of_mem first hp)
    rw [clearPages, if_pos (hdirect first List.mem_cons_self), ih hrest]
    -- the first page and the others
    have hword : ∀ a, (if first + pageSize ≤ a ∧ a < first + pageSize + n * pageSize then 0
        else (s.clearPage first).word a) =
        if first ≤ a ∧ a < first + (n + 1) * pageSize then 0 else s.word a := by
      intro a
      have hmul : (n + 1) * pageSize = n * pageSize + pageSize := Nat.succ_mul n pageSize
      by_cases hrun : first + pageSize ≤ a ∧ a < first + pageSize + n * pageSize
      · rw [if_pos hrun, if_pos (by omega)]
      · rw [if_neg hrun]
        by_cases hpage : first ≤ a ∧ a < first + pageSize
        · rw [if_pos (by omega)]
          exact if_pos hpage
        · rw [if_neg (by omega)]
          exact if_neg hpage
    simp only [hword]
    rfl

/-- The pages are taken out of the free pages before they are cleared. -/
theorem handOutRun_ok (h : PmmOk info s recycled) (hn : 0 < n)
    (hc : Chosen s recycled (pageRun first n) s₁ recycled₁) :
    Allocates info s recycled n (handOutRun s₁ first n) recycled₁ := by
  have hpage : ∀ p ∈ pageRun first n, PageOk s p :=
    fun p hp => hc.pageOk h (List.mem_append_left _ hp)
  have hfirst := hpage first (mem_pageRun.mpr ⟨0, hn, by simp⟩)
  have hdirect : ∀ p ∈ pageRun first n,
      { s₁ with freeCount := s₁.freeCount - n }.direct p = true := by
    intro p hp
    simpa [Pmm.direct, hc.books.direct] using (hpage p hp).direct
  rw [handOutRun, clearPages_eq hdirect]
  dsimp only
  have hdisj := (List.nodup_append.mp (hc.nodup h)).2.2
  refine ⟨h.take (pageRun first n) hc.books.info hc.books.direct hc.books.donated ?_ ?_ ?_ hc.perm
    hc.range hc.bounded, fun hz => absurd hz hfirst.nonzero,
    fun _ => ⟨hc.perm, ?_, fun p hp a hle hlt => ?_⟩⟩
  · simp [hc.books.count]
  · simp [hc.books.out]
  · -- a link in one of the pages would be in one of the run
    refine hc.chain.congr fun q hq => if_neg fun hin => ?_
    have hq' := List.mem_append_left (freshPages s₁) hq
    have hqa := (hc.pageOk h (List.mem_append_right _ hq')).aligned
    have hfa := hfirst.aligned
    refine hdisj q (mem_pageRun.mpr ⟨(q - first) / pageSize, ?_, ?_⟩) q hq' rfl
    · simp only [Aligned, pageSize] at *
      omega
    · simp only [Aligned, pageSize] at *
      omega
  · simp [hc.books.out]
  · obtain ⟨i, hi, rfl⟩ := mem_pageRun.mp hp
    refine if_pos ⟨by omega, ?_⟩
    have hmul : (i + 1) * pageSize ≤ n * pageSize := Nat.mul_le_mul_right pageSize hi
    rw [Nat.succ_mul] at hmul
    omega

/-- `kernel_pmm_alloc_page` clears its page as `kernel_pmm_alloc_contiguous` clears a run of one. -/
theorem kernelPmmAllocPage_ok (h : PmmOk info s recycled) :
    ∃ recycled', Allocates info s recycled 1 (kernelPmmAllocPage s) recycled' := by
  unfold kernelPmmAllocPage
  rcases choosePage_ok h with ⟨recycled', hc⟩ | ⟨hzero, hok, hfresh, hout⟩
  · generalize choosePage s = r at hc ⊢
    obtain ⟨page, s'⟩ := r
    dsimp only at *
    have hpage : PageOk s page := hc.pageOk h (List.mem_append_left _ List.mem_cons_self)
    have hdirect : s'.direct page = true := by
      simpa [Pmm.direct, hc.books.direct] using hpage.direct
    have hdirect' : { s' with freeCount := s'.freeCount - 1 }.direct page = true := hdirect
    rw [if_neg (by simp [hpage.nonzero, hdirect])]
    have hall := handOutRun_ok h Nat.one_pos (pageRun_one page ▸ hc)
    rw [handOutRun, clearPages, if_pos hdirect', clearPages] at hall
    exact ⟨recycled', hall⟩
  · generalize choosePage s = r at hzero hok hfresh hout ⊢
    obtain ⟨page, s'⟩ := r
    dsimp only at *
    rw [if_pos (.inl hzero)]
    exact ⟨recycled, hok, fun _ => ⟨hfresh ▸ .refl _, hout⟩, fun hne => absurd rfl hne⟩

/-- What the search in the recycled list finds. -/
def SearchOk (s : Pmm) (recycled : List Nat) (n : Nat) : Search → Prop
  | .found before current next => ∃ pre post,
      recycled = pre ++ (pageRun current n).reverse ++ post ∧
      before = pre.getLast?.getD 0 ∧ Chain s.word (· = 0) next post
  | .exhausted => True
  | .unmapped => False

/-- The search passes the recycled list: `pre` was given up, `length` pages of a descending chain
    end with `current`, and `post` is to come. -/
theorem searchRecycled_ok (hpage : ∀ p ∈ recycled, PageOk s p) {pre post : List Nat}
    {before current length : Nat}
    (hsplit : recycled = pre ++ (pageRun current length).reverse ++ post) (hlength : 0 < length)
    (hchain : Chain s.word (· = 0) (s.word current) post) (hbefore : before = pre.getLast?.getD 0)
    (hfuel : post.length + 2 ≤ fuel) :
    ∃ r, searchRecycled s n fuel before current length = some r ∧ SearchOk s recycled n r := by
  induction post generalizing pre fuel before current length with
  | nil =>
    obtain ⟨fuel, rfl⟩ : ∃ f, fuel = f + 2 := ⟨fuel - 2, by omega⟩
    have hcur : PageOk s current := hpage current (by
      rw [hsplit]
      simp only [List.mem_append, List.mem_reverse]
      exact .inl (.inr (mem_pageRun.mpr ⟨0, hlength, by simp⟩)))
    have hnext : s.word current = 0 := by simpa [Chain.nil_iff] using hchain
    rw [searchRecycled, if_neg hcur.nonzero, if_neg (by simp [hcur.direct])]
    dsimp only
    split
    · next hn =>
      subst hn
      exact ⟨_, rfl, pre, [], hsplit, hbefore, hchain⟩
    · rw [if_neg (by simp [hnext]), hnext]
      exact ⟨.exhausted, by simp [searchRecycled], trivial⟩
  | cons q post ih =>
    obtain ⟨fuel, rfl⟩ : ∃ f, fuel = f + 1 := ⟨fuel - 1, by omega⟩
    simp only [List.length_cons] at hfuel
    have hcur : PageOk s current := hpage current (by
      rw [hsplit]
      simp only [List.mem_append, List.mem_reverse]
      exact .inl (.inr (mem_pageRun.mpr ⟨0, hlength, by simp⟩)))
    obtain ⟨hq, hqne, hrest⟩ := Chain.cons_iff.mp hchain
    rw [searchRecycled, if_neg hcur.nonzero, if_neg (by simp [hcur.direct])]
    dsimp only
    split
    · next hn =>
      subst hn
      exact ⟨_, rfl, pre, q :: post, hsplit, hbefore, hchain⟩
    · split
      · next hnext =>
        -- the chain goes on
        obtain ⟨_, hle, heq⟩ := hnext
        have hrun : pageRun (s.word current) (length + 1) =
            s.word current :: pageRun current length := by
          rw [pageRun_succ, heq, Nat.sub_add_cancel hle]
        refine ih ?_ (Nat.succ_pos length) hrest hbefore (by omega)
        rw [hsplit, hrun, List.reverse_cons, hq]
        simp
      · -- a new chain starts
        obtain ⟨k, rfl⟩ : ∃ k, length = k + 1 := ⟨length - 1, by omega⟩
        have hsplit' : recycled = pre ++ (pageRun current (k + 1)).reverse ++
            (pageRun (s.word current) 1).reverse ++ post := by
          rw [hsplit, pageRun_one, hq]
          simp
        refine ih hsplit' Nat.one_pos hrest ?_ (by omega)
        rw [pageRun_succ]
        simp

theorem pagesIn_length_pos (ha : Aligned a) (hb : Aligned b) (hab : a < b) :
    0 < (pagesIn a b).length := by
  rw [pagesIn_cons ha hb hab, List.length_cons]
  exact Nat.succ_pos _

/-- A page is linked in front of the recycled ones. -/
theorem chain_recycle (h : Chain s.word (· = 0) s.recycledHead recycled) (hpage : page ≠ 0)
    (hnot : page ∉ recycled) :
    Chain (s.recycle page).word (· = 0) (s.recycle page).recycledHead (page :: recycled) := by
  refine Chain.cons_iff.mpr ⟨rfl, hpage, ?_⟩
  have hword : (s.recycle page).word (s.recycle page).recycledHead = s.recycledHead :=
    Function.update_self ..
  rw [hword]
  refine h.congr fun q hq => Function.update_of_ne ?_ _ _
  rintro rfl
  exact hnot hq

/-- A fresh page that was chosen is recycled instead. -/
theorem Chosen.recycle (h : PmmOk info s recycled) (hc : Chosen s recycled [page] s₁ recycled₁) :
    PmmOk info (s₁.recycle page) (page :: recycled₁) := by
  have hpage : PageOk s page := hc.pageOk h (List.mem_append_left _ List.mem_cons_self)
  have hnot : page ∉ recycled₁ := fun hmem =>
    (List.nodup_cons.mp (hc.nodup h)).1 (List.mem_append_right [] (List.mem_append_left _ hmem))
  exact h.take [] hc.books.info hc.books.direct hc.books.donated hc.books.count hc.books.out
    (chain_recycle hc.chain hpage.nonzero hnot) hc.perm hc.range hc.bounded

/-- The rest of the range moves to the recycled list. -/
theorem recycleTail_ok (h : PmmOk info s recycled)
    (hfuel : (pagesIn s.rangeNext s.rangeEnd).length ≤ fuel) :
    ∃ s' recycled', recycleTail fuel s = (true, s') ∧ PmmOk info s' recycled' ∧
      (recycled ++ freshPages s).Perm (recycled' ++ freshPages s') ∧
      s'.rangeEnd ≤ s'.rangeNext ∧ s'.memoryMap = s.memoryMap ∧ s'.handedOut = s.handedOut := by
  induction fuel generalizing s recycled with
  | zero =>
    refine ⟨s, recycled, rfl, h, .refl _, ?_, rfl, rfl⟩
    by_contra hlt
    have := pagesIn_length_pos h.range.1 h.range.2 (Nat.not_le.mp hlt)
    omega
  | succ fuel ih =>
    rw [recycleTail]
    split
    · next hlt =>
      have hc := h.advance hlt
      have hpages : pagesIn s.rangeNext s.rangeEnd =
          s.rangeNext :: pagesIn s.advance.2.rangeNext s.advance.2.rangeEnd := by
        rw [advance_snd]
        exact pagesIn_cons h.range.1 h.range.2 hlt
      have hpage := hc.pageOk h (List.mem_append_left _ List.mem_cons_self)
      have hmap : s.advance.2.memoryMap = s.memoryMap := rfl
      have hdirect : s.advance.2.direct s.advance.1 = true := hpage.direct
      generalize s.advance = r at *
      obtain ⟨page, s₁⟩ := r
      dsimp only at *
      obtain ⟨s', recycled', hrun, hok', hperm', hrange, hmap', hout⟩ := ih (hc.recycle h) (by
        rw [hpages, List.length_cons] at hfuel
        exact Nat.le_of_succ_le_succ hfuel)
      rw [if_pos hdirect]
      exact ⟨s', recycled', hrun, hok', hc.perm.trans hperm', hrange, hmap'.trans hmap,
        hout.trans hc.books.out⟩
    · next hlt => exact ⟨s, recycled, rfl, h, .refl _, Nat.not_lt.mp hlt, rfl, rfl⟩

/-- An allocation after the free pages were regrouped. -/
theorem Allocates.after (h : Allocates info s₁ recycled₁ n r recycled')
    (hperm : (recycled ++ freshPages s).Perm (recycled₁ ++ freshPages s₁))
    (hout : s₁.handedOut = s.handedOut) : Allocates info s recycled n r recycled' where
  ok := h.ok
  failed hz := ⟨hperm.trans (h.failed hz).1, (h.failed hz).2.trans hout⟩
  pages hne := by
    obtain ⟨hpages, hhanded, hzero⟩ := h.pages hne
    exact ⟨hperm.trans hpages, hhanded.trans (by rw [hout]), hzero⟩

/-- A failed allocation. -/
theorem PmmOk.fails (h : PmmOk info s' recycled) {recycled₀ : List Nat}
    (hperm : (recycled₀ ++ freshPages s).Perm (recycled ++ freshPages s'))
    (hout : s'.handedOut = s.handedOut) : Allocates info s recycled₀ n (0, s') recycled :=
  ⟨h, fun _ => ⟨hperm, hout⟩, fun hne => absurd rfl hne⟩

theorem allocFresh_ok (hn : 0 < n) (h : PmmOk info s recycled) (hfuel : s.memoryMap.length < fuel) :
    ∃ r recycled', allocFresh n fuel s = some r ∧ Allocates info s recycled n r recycled' := by
  induction fuel generalizing s recycled with
  | zero => exact absurd hfuel (Nat.not_lt_zero _)
  | succ fuel ih =>
    rw [allocFresh]
    split
    · next hfits =>
      refine ⟨_, recycled, rfl, handOutRun_ok h hn ⟨h.chain, ?_, ⟨h.range.1.add_pages n, h.range.2⟩,
        h.bounded, rfl, rfl, rfl, rfl, rfl⟩⟩
      have hfresh : freshPages s = pageRun s.rangeNext n ++
          freshPages { s with rangeNext := s.rangeNext + n * pageSize } := by
        rw [freshPages, freshPages, pagesIn_append hfits.2, List.append_assoc]
      rw [hfresh, ← List.append_assoc, ← List.append_assoc]
      exact List.perm_append_comm.append_right _
    · have hlen : (pagesIn s.rangeNext s.rangeEnd).length ≤ s.rangeEnd - s.rangeNext := by
        rw [pagesIn, length_pageRun]
        exact Nat.div_le_self _ _
      obtain ⟨s₁, recycled₁, hrun, hok₁, hperm₁, hempty, hmap, hout₁⟩ := recycleTail_ok h hlen
      rw [hrun]
      dsimp only
      cases hsel : selectNextUsableRange s₁ with
      | mk found s₂ =>
        obtain ⟨hok₂, hfresh, hbooks, hfound⟩ := hok₁.select hempty hsel
        have hperm₂ : (recycled ++ freshPages s).Perm (recycled₁ ++ freshPages s₂) := by
          rw [hfresh]
          exact hperm₁
        cases found with
        | false => exact ⟨_, recycled₁, rfl, hok₂.fails hperm₂ (hbooks.out.trans hout₁)⟩
        | true =>
          have hless := (hfound rfl).2
          rw [hmap] at hless
          obtain ⟨r, recycled', hr, hall⟩ := ih hok₂ (by omega)
          exact ⟨r, recycled', hr, hall.after hperm₂ (hbooks.out.trans hout₁)⟩

/-- A chain found in the recycled list is unlinked. -/
theorem found_ok (h : PmmOk info s recycled) (hn : 0 < n) {before current next : Nat}
    (hfound : SearchOk s recycled n (.found before current next)) :
    ∃ recycled', Allocates info s recycled n
      (if before = 0 then handOutRun { s with recycledHead := next } current n
        else if !s.direct before then (0, s)
        else handOutRun (s.setLink before next) current n) recycled' := by
  obtain ⟨pre, post, hsplit, hbefore, hpost⟩ := hfound
  have hperm : ∀ fresh : List Nat, (recycled ++ fresh).Perm
      (pageRun current n ++ ((pre ++ post) ++ fresh)) := by
    intro fresh
    rw [hsplit, ← List.append_assoc (pageRun current n), ← List.append_assoc (pageRun current n)]
    refine List.Perm.append_right fresh ?_
    refine List.Perm.append_right post (List.perm_append_comm.trans ?_)
    exact (List.reverse_perm _).append_right pre
  rcases List.eq_nil_or_concat' pre with rfl | ⟨pre', last, rfl⟩
  · -- the chain starts at the head
    rw [if_pos (by simpa using hbefore)]
    exact ⟨post, handOutRun_ok h hn ⟨hpost, hperm _, h.range, h.bounded, rfl, rfl, rfl, rfl, rfl⟩⟩
  · have hlast : before = last := by simpa using hbefore
    subst hlast
    have hmem : before ∈ recycled := by simp [hsplit]
    have hpage : PageOk s before := h.page before (by simp [hmem])
    rw [if_neg hpage.nonzero, if_neg (by simp [hpage.direct])]
    -- the page before the chain is linked to the page after it
    have hnodup : recycled.Nodup := List.Nodup.of_append_left (List.Nodup.of_append_left h.nodup)
    have hchain := h.chain
    rw [hsplit] at hnodup hchain
    obtain ⟨b, hpath, _⟩ := Chain.append_iff.mp (List.append_assoc _ _ post ▸ hchain)
    rw [List.append_assoc] at hnodup
    obtain ⟨hpre, _, hdisj⟩ := List.nodup_append.mp hnodup
    have hnotpre : before ∉ pre' := by
      intro hm
      exact (List.nodup_append.mp hpre).2.2 before hm before (by simp) rfl
    have hnotpost : before ∉ post := by
      intro hm
      exact hdisj before (by simp) before (by simp [hm]) rfl
    refine ⟨pre' ++ [before] ++ post, handOutRun_ok h hn ⟨?_, hperm _, h.range, h.bounded,
      rfl, rfl, rfl, rfl, rfl⟩⟩
    refine Chain.append_iff.mpr ⟨next, hpath.retarget hnotpre, hpost.congr fun q hq => ?_⟩
    refine Function.update_of_ne ?_ _ _
    rintro rfl
    exact hnotpost hq

/-- `kernel_pmm_alloc_contiguous` returns. -/
theorem kernelPmmAllocContiguous_ok (h : PmmOk info s recycled) (n : Nat) :
    ∃ r recycled', kernelPmmAllocContiguous n s = some r ∧
      Allocates info s recycled n r recycled' := by
  unfold kernelPmmAllocContiguous
  split
  · exact ⟨_, recycled, rfl, h.fails (.refl _) rfl⟩
  · next hcheck =>
    have hn : 0 < n := by omega
    have hcount : recycled.length ≤ s.freeCount := by
      rw [h.count, List.length_append]
      omega
    have hsearch : ∃ r, searchRecycled s n (s.freeCount + 1) 0 s.recycledHead
        (if s.recycledHead ≠ 0 then 1 else 0) = some r ∧ SearchOk s recycled n r := by
      cases recycled with
      | nil =>
        have hhead : s.recycledHead = 0 := by simpa [Chain.nil_iff] using h.chain
        exact ⟨.exhausted, by simp [searchRecycled, hhead], trivial⟩
      | cons p rest =>
        obtain ⟨hp, hne, hrest⟩ := Chain.cons_iff.mp h.chain
        rw [if_pos hne]
        have hsplit : p :: rest = [] ++ (pageRun s.recycledHead 1).reverse ++ rest := by
          rw [pageRun_one, hp]
          rfl
        refine searchRecycled_ok (fun q hq => h.page q (List.mem_append_left _
          (List.mem_append_left _ hq))) hsplit
          Nat.one_pos hrest rfl ?_
        simp only [List.length_cons] at hcount
        omega
    obtain ⟨r, hr, hok⟩ := hsearch
    rw [hr]
    cases r with
    | found before current next =>
      obtain ⟨recycled', hall⟩ := found_ok h hn hok
      refine ⟨_, recycled', ?_, hall⟩
      dsimp only
      split
      · rfl
      · split <;> rfl
    | exhausted =>
      obtain ⟨r, recycled', hrun, hall⟩ := allocFresh_ok hn h (Nat.lt_succ_self s.memoryMap.length)
      exact ⟨r, recycled', hrun, hall⟩
    | unmapped => exact hok.elim

/-! ## Freeing -/

theorem accepts_iff : s.accepts page = true ↔ page ≠ 0 ∧ Aligned page ∧
    page + pageSize ≤ s.bootInfo.ramSize ∧ s.direct page = true := by
  simp only [Pmm.accepts, Aligned, Bool.and_eq_true, decide_eq_true_eq]
  constructor
  · rintro ⟨⟨⟨⟨hne, ha⟩, hsize⟩, hle⟩, hdir⟩
    exact ⟨hne, ha, by omega, hdir⟩
  · rintro ⟨hne, ha, hle, hdir⟩
    exact ⟨⟨⟨⟨hne, ha⟩, by omega⟩, by omega⟩, hdir⟩

theorem kernelPmmFreePage_ok (h : PmmOk info s recycled) (hf : Freeable s page) :
    ∃ recycled', PmmOk info (kernelPmmFreePage page s) recycled' := by
  unfold kernelPmmFreePage
  split
  · next hacc =>
    obtain ⟨hne, ha, hram, hdir⟩ := accepts_iff.mp hacc
    have hcount : s.freeCount + 1 = (page :: recycled ++ freshPages s).length := by
      rw [h.count, List.cons_append, List.length_cons]
    by_cases hmem : page ∈ s.handedOut
    · -- the page goes from its owner to the recycled list
      have hperm : ((page :: recycled) ++ freshPages s ++ s.handedOut.erase page).Perm
          (recycled ++ freshPages s ++ s.handedOut) := by
        rw [List.cons_append, List.cons_append]
        refine List.perm_middle.symm.trans ?_
        exact (List.perm_cons_erase hmem).symm.append_left _
      have hnot : page ∉ recycled := by
        have hnodup := hperm.nodup_iff.mpr h.nodup
        rw [List.cons_append, List.cons_append] at hnodup
        intro hm
        exact (List.nodup_cons.mp hnodup).1 (by simp [hm])
      refine ⟨page :: recycled, h.info, chain_recycle h.chain hne hnot, hcount,
        hperm.nodup_iff.mpr h.nodup, fun p hp => ?_, h.range, h.bounded⟩
      obtain ⟨hpa, hpne, hpram, hpdir, horigin⟩ := h.page p (hperm.mem_iff.mp hp)
      exact ⟨hpa, hpne, hpram, hpdir, horigin.imp id fun hd => by simpa [hmem] using hd⟩
    · -- reserved memory that no list holds
      obtain ⟨hreserved, hdonated⟩ := hf.resolve_left hmem
      have hnot : page ∉ recycled ++ freshPages s ++ s.handedOut := by
        intro hm
        rcases (h.page page hm).origin with hu | hd
        · exact hreserved hu
        · exact hdonated hd
      refine ⟨page :: recycled, h.info, chain_recycle h.chain hne fun hm => hnot (by simp [hm]),
        hcount, ?_, fun p hp => ?_, h.range, h.bounded⟩
      · dsimp only
        rw [List.erase_of_not_mem hmem]
        exact List.nodup_cons.mpr ⟨hnot, h.nodup⟩
      · dsimp only at hp ⊢
        rw [List.erase_of_not_mem hmem] at hp
        rcases List.mem_cons.mp hp with rfl | hp
        · exact ⟨ha, hne, hram, hdir, .inr (by simp [hmem])⟩
        · obtain ⟨hpa, hpne, hpram, hpdir, horigin⟩ := h.page p hp
          refine ⟨hpa, hpne, hpram, hpdir, horigin.imp id fun hd => ?_⟩
          simp [hmem, hd]
  · exact ⟨recycled, h⟩

/-- Freeing one page leaves the others freeable. -/
theorem Freeable.freePage (h : Freeable s q) (hne : q ≠ page) :
    Freeable (kernelPmmFreePage page s) q := by
  unfold kernelPmmFreePage
  split
  · refine h.imp (fun hmem => ?_) fun hres => ⟨hres.1, ?_⟩
    · exact (List.mem_erase_of_ne hne).mpr hmem
    · dsimp only
      split
      · exact hres.2
      · simp [hne, hres.2]
  · exact h

theorem freePages_ok (pages : List Nat) (hnodup : pages.Nodup) (h : PmmOk info s recycled)
    (hf : ∀ p ∈ pages, Freeable s p) :
    ∃ recycled', PmmOk info (pages.foldl (fun s page => kernelPmmFreePage page s) s) recycled' := by
  induction pages generalizing s recycled with
  | nil => exact ⟨recycled, h⟩
  | cons p pages ih =>
    obtain ⟨hp, hnodup⟩ := List.nodup_cons.mp hnodup
    obtain ⟨recycled₁, h₁⟩ := kernelPmmFreePage_ok h (hf p List.mem_cons_self)
    refine ih hnodup h₁ fun q hq => (hf q (List.mem_cons_of_mem p hq)).freePage ?_
    rintro rfl
    exact hp hq

/-! ## Runs -/

/-- Every call keeps the pages of the allocator apart. -/
theorem step_ok {op : Op} (h : PmmOk info s recycled) (hop : FreesOwned s op)
    (hstep : step s op = some s') : ∃ recycled', PmmOk info s' recycled' := by
  cases op with
  | allocPage =>
    cases hstep
    obtain ⟨recycled', hall⟩ := kernelPmmAllocPage_ok h
    exact ⟨recycled', hall.ok⟩
  | allocContiguous n =>
    obtain ⟨r, recycled', hr, hall⟩ := kernelPmmAllocContiguous_ok h n
    simp only [step, hr, Option.map_some, Option.some.injEq] at hstep
    exact ⟨recycled', hstep ▸ hall.ok⟩
  | freePage page =>
    cases hstep
    exact kernelPmmFreePage_ok h hop
  | releaseRange base size =>
    cases hstep
    unfold kernelPmmReleaseRange
    split
    · exact ⟨recycled, h⟩
    · exact freePages_ok _ (pageRun_nodup _ _) h hop
  | store address value =>
    cases hstep
    refine ⟨recycled, h.info, h.chain.congr fun q hq => Function.update_of_ne ?_ _ _, h.count,
      h.nodup, fun p hp => ?_, h.range, h.bounded⟩
    · rintro rfl
      refine hop _ ⟨recycled, h.chain, rfl⟩ q (List.mem_append_left _ hq) ⟨Nat.le_refl q, ?_⟩
      exact Nat.lt_add_of_pos_right (by simp [pageSize])
    · obtain ⟨hpa, hpne, hpram, hpdir, horigin⟩ := h.page p hp
      exact ⟨hpa, hpne, hpram, hpdir, horigin⟩

/-- What `kernel_pmm_init` establishes. -/
theorem kernelPmmInit_ok {directMapSize : Nat} {word : Nat → Nat}
    (hdisj : DisjointUsable info.memoryMap)
    (hdirect : ∀ e ∈ info.memoryMap, e.type = memoryUsable → e.base + e.length ≤ directMapSize)
    (hinit : kernelPmmInit info directMapSize word = some s) : PmmOk info s [] := by
  unfold kernelPmmInit at hinit
  split at hinit
  · cases hinit
  · next count hcount =>
    split at hinit
    · cases hinit
    · cases hinit
      obtain ⟨hbounded, htotal, hfit⟩ := countPages_some hcount
      have hfresh : ∀ s : Pmm, s.rangeNext = 0 → s.rangeEnd = 0 → s.memoryMap = info.memoryMap →
          freshPages s = info.memoryMap.flatMap entryPages := by
        intro s hnext hend hmap
        rw [freshPages, hnext, hend, hmap, pagesIn_eq_nil (Nat.le_refl 0), List.nil_append]
      refine ⟨rfl, Chain.nil_iff.mpr rfl, ?_, ?_, fun p hp => ?_, ⟨rfl, rfl⟩, hbounded⟩
      · rw [hfresh _ rfl rfl rfl, htotal, List.nil_append, Nat.zero_add]
      · rw [hfresh _ rfl rfl rfl, List.nil_append, List.append_nil]
        exact flatMap_entryPages_nodup hdisj
      · rw [hfresh _ rfl rfl rfl, List.nil_append, List.append_nil] at hp
        obtain ⟨e, he, hpe⟩ := List.mem_flatMap.mp hp
        obtain ⟨htype, hpa, hpne, hlo, hhi⟩ := mem_entryPages hpe
        have hlt : p < directMapSize := by
          have := hdirect e he htype
          have hpos : 0 < pageSize := by simp [pageSize]
          omega
        exact ⟨hpa, hpne, hfit p hp, by simpa [Pmm.direct] using hlt, .inl ⟨e, he, htype, hlo, hhi⟩⟩

/-- What a call that allocates `n` pages returns: `pages` are the free pages before. -/
def ReturnsFree (s : Pmm) (pages : List Nat) (n : Nat) (first : Nat) (s' : Pmm) : Prop :=
  (first = 0 → s'.handedOut = s.handedOut ∧
    ∃ pages', FreePages s' pages' ∧ ∀ p, p ∈ pages' ↔ p ∈ pages) ∧
  (first ≠ 0 → s'.handedOut = pageRun first n ++ s.handedOut ∧
    (∀ i < n, first + i * pageSize ∈ pages ∧
      ∀ a, first + i * pageSize ≤ a → a < first + i * pageSize + pageSize → s'.word a = 0) ∧
    ∃ pages', FreePages s' pages' ∧ ∀ p, p ∈ pages' ↔ p ∈ pages ∧ p ∉ pageRun first n)

theorem Allocates.returnsFree (h : PmmOk info s recycled)
    (hall : Allocates info s recycled n r recycled') :
    ReturnsFree s (recycled ++ freshPages s) n r.1 r.2 := by
  have hfree : FreePages r.2 (recycled' ++ freshPages r.2) := ⟨recycled', hall.ok.chain, rfl⟩
  refine ⟨fun hz => ?_, fun hne => ?_⟩
  · obtain ⟨hperm, hout⟩ := hall.failed hz
    exact ⟨hout, _, hfree, fun p => hperm.mem_iff.symm⟩
  · obtain ⟨hperm, hout, hzero⟩ := hall.pages hne
    refine ⟨hout, fun i hi => ?_, _, hfree, fun p => ?_⟩
    · have hmem : r.1 + i * pageSize ∈ pageRun r.1 n := mem_pageRun.mpr ⟨i, hi, rfl⟩
      exact ⟨hperm.mem_iff.mpr (List.mem_append_left _ hmem), hzero _ hmem⟩
    · have hnodup := hperm.nodup_iff.mp (List.Nodup.of_append_left h.nodup)
      have hdisj := (List.nodup_append.mp hnodup).2.2
      constructor
      · exact fun hp => ⟨hperm.mem_iff.mpr (List.mem_append_right _ hp),
          fun hrun => hdisj p hrun p hp rfl⟩
      · rintro ⟨hp, hnot⟩
        exact (List.mem_append.mp (hperm.mem_iff.mp hp)).resolve_left hnot

/-- For every memory map whose usable ranges are disjoint and in the direct map, after every
    sequence of calls that frees only pages handed out, or reserved memory once: the pages handed
    out are distinct, page-aligned, not 0 and in usable or donated memory; none of them is free;
    the number of free pages is the count; and both ways of allocating return free pages, cleared
    and consecutive, or leave the set of free pages as it was. -/
theorem pages_distinct {directMapSize : Nat} {word : Nat → Nat} {s₀ : Pmm}
    (hdisj : DisjointUsable info.memoryMap)
    (hdirect : ∀ e ∈ info.memoryMap, e.type = memoryUsable → e.base + e.length ≤ directMapSize)
    (hinit : kernelPmmInit info directMapSize word = some s₀) (hr : Run step FreesOwned s₀ s) :
    s.handedOut.Nodup ∧
    (∀ p ∈ s.handedOut, p % pageSize = 0 ∧ p ≠ 0 ∧ p + pageSize ≤ info.ramSize ∧
      (InUsable info p ∨ p ∈ s.donated)) ∧
    ∃ pages, FreePages s pages ∧ pages.Nodup ∧ (∀ p ∈ s.handedOut, p ∉ pages) ∧
      s.freeCount = pages.length ∧
      ReturnsFree s pages 1 (kernelPmmAllocPage s).1 (kernelPmmAllocPage s).2 ∧
      ∀ n, ∃ r, kernelPmmAllocContiguous n s = some r ∧ ReturnsFree s pages n r.1 r.2 := by
  obtain ⟨recycled, h⟩ := hr.invariant (I := fun s => ∃ recycled, PmmOk info s recycled)
    ⟨[], kernelPmmInit_ok hdisj hdirect hinit⟩ fun _ _ _ ⟨_, h⟩ hop hstep => step_ok h hop hstep
  obtain ⟨hfree, hhanded, hapart⟩ := List.nodup_append.mp h.nodup
  refine ⟨hhanded, fun p hp => ?_, recycled ++ freshPages s, ⟨recycled, h.chain, rfl⟩, hfree,
    fun p hp hmem => hapart p hmem p hp rfl, h.count, ?_, fun n => ?_⟩
  · obtain ⟨ha, hne, hram, _, horigin⟩ := h.page p (List.mem_append_right _ hp)
    rw [h.info] at hram horigin
    exact ⟨ha, hne, hram, horigin⟩
  · obtain ⟨_, hall⟩ := kernelPmmAllocPage_ok h
    exact hall.returnsFree h
  · obtain ⟨r, _, hrun, hall⟩ := kernelPmmAllocContiguous_ok h n
    exact ⟨r, hrun, hall.returnsFree h⟩

/-- Eight pages of memory, of which the second to the fifth are usable. -/
def eightPages : BootInfo := ⟨0x8000, [⟨0, 0x1000, 2⟩, ⟨0x1000, 0x4000, memoryUsable⟩]⟩

/-- Decides `FreesOwned` for calls of the allocator. -/
def freesOwned (s : Pmm) : Op → Bool
  | .freePage page => decide (Freeable s page)
  | .releaseRange base size => decide (∀ page ∈ pageRun base (size / pageSize), Freeable s page)
  | .store _ _ => false
  | _ => true

theorem freesOwned_sound {op : Op} (h : freesOwned s op = true) : FreesOwned s op := by
  cases op with
  | freePage page | releaseRange base size =>
    simp only [freesOwned, decide_eq_true_eq] at h
    exact h
  | store address value => cases h
  | _ => trivial

/-- A page is handed out, the last two pages are donated and handed out together. -/
theorem pages_distinct_donated : ∃ s₀ s, kernelPmmInit eightPages 0x8000 (fun _ => 7) = some s₀ ∧
    Run step FreesOwned s₀ s ∧ s.handedOut = [0x6000, 0x7000, 0x1000] ∧ s.freeCount = 3 ∧
    s.handedOut.Nodup ∧ ∃ pages, FreePages s pages ∧ s.freeCount = pages.length := by
  obtain ⟨s, hr, hs⟩ := Run.exists_of_guarded step freesOwned
    ⟨eightPages, 0x8000, eightPages.memoryMap, 0, 0, 0, 4, fun _ => 7, [], []⟩
    [.allocPage, .releaseRange 0x6000 0x2000, .allocContiguous 2]
    (fun s => s.handedOut == [0x6000, 0x7000, 0x1000] && s.freeCount == 3) (by decide +kernel)
  have hrun := hr.mono_of_invariant (I := fun _ => True) trivial (fun _ _ _ _ _ _ => trivial)
    fun _ _ _ => freesOwned_sound
  simp only [Bool.and_eq_true, beq_iff_eq] at hs
  have hinit : kernelPmmInit eightPages 0x8000 (fun _ => 7) =
      some ⟨eightPages, 0x8000, eightPages.memoryMap, 0, 0, 0, 4, fun _ => 7, [], []⟩ := rfl
  obtain ⟨hnodup, _, pages, hfree, _, _, hcount, _⟩ := pages_distinct
    (by simp [eightPages, DisjointUsable, memoryUsable]) (by simp [eightPages, memoryUsable])
    hinit hrun
  exact ⟨_, s, hinit, hrun, hs.1, hs.2, hnodup, pages, hfree, hcount⟩

end RiscMv.Memory
