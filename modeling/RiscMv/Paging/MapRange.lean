import RiscMv.Paging.Coherence
import RiscMv.Paging.UserPages

/-!
# Mapping ranges with pages of several sizes (`map_range`)

`map_range` takes a giant page, a large page or a small page at each turn, whichever fits.  The
tables below a root are a tree: a store to one entry is seen by the addresses of that entry and by
no others, and a new table, which is empty, is seen by none.

The additions of the code are those of 64-bit words.

## Key results
- `Tree.addTable`, `Tree.store`: the tree after a store
- `Tree.walk_addTable`, `Tree.walk_store`: what the walks see of it
- `kernelMapLeaf_spec`: one leaf
- `mapRange_exact`: the whole range
-/

namespace RiscMv.Paging

/-! ## The code -/

/-- A sum of 64-bit words. -/
def add64 (a b : Nat) : Nat := (a + b) % 2 ^ 64

namespace State

variable (s : State)

/-- The size of the page that `map_range` takes next. -/
def leafShift (va pa remaining : Nat) : Nat :=
  if (va ||| pa) % 2 ^ 30 = 0 ∧ remaining ≥ 2 ^ 30 then 30
  else if (va ||| pa) % 2 ^ 21 = 0 ∧ remaining ≥ 2 ^ 21 then 21
  else 12

/-- The loop of `map_range`; without turns left there is no result. -/
def mapRangeLoop (root virtualPage physicalPage mappedSize flags : Nat) :
    Nat → Nat → State → Option (Bool × State)
  | 0, _, _ => none
  | n + 1, offset, s =>
    if offset ≥ mappedSize then some (true, s)
    else
      let va := add64 virtualPage offset
      let pa := add64 physicalPage offset
      let shift := leafShift va pa (mappedSize - offset)
      match s.kernelMapLeaf root va pa flags shift with
      | (false, s) => some (false, s)
      | (true, s) =>
        mapRangeLoop root virtualPage physicalPage mappedSize flags n (add64 offset (2 ^ shift)) s

/-- `map_range`: whether it returns 0. -/
def mapRange (root virtualStart physicalStart size flags : Nat) : Option (Bool × State) :=
  if virtualStart % pageSize ≠ physicalStart % pageSize ∨ virtualStart > 2 ^ 64 - 1 - size ∨
      physicalStart > 2 ^ 64 - 1 - size then some (false, s)
  else
    let leading := virtualStart - addressOf virtualStart
    if size > 2 ^ 64 - 1 - leading - (pageSize - 1) then some (false, s)
    else
      let mappedSize := addressOf (add64 (add64 size leading) (pageSize - 1))
      mapRangeLoop root (addressOf virtualStart) (addressOf physicalStart) mappedSize flags
        (mappedSize / pageSize + 1) 0 s

/-- The table that an entry refers to. -/
def link (table index : Nat) : Option Nat :=
  if isValid (s.entry table index) && !isLeaf (s.entry table index) then
    some (addressOf (s.entry table index))
  else none

end State

/-! ## Trees of tables -/

variable {s s' : State} {root v p q t i j table index shift pte va : Nat} {T1 T0 : Set Nat}
  {user : Bool} {access : Access} {rest : List Nat}

/-- The tables below a root are a tree, inside RAM, and the free pages are apart from it. -/
structure Rooted (s : State) (root : Nat) (T1 T0 : Set Nat) : Prop where
  root_valid : rootValid s.ram root = true
  table_valid : ∀ t, t ∈ T1 ∨ t ∈ T0 → rootValid s.ram t = true
  level2 : ∀ i < 512, ∀ q, s.link root i = some q →
    q ∈ T1 ∧ isReserved (s.entry root i) = false ∧ isUser (s.entry root i) = false
  level1 : ∀ t ∈ T1, ∀ i < 512, ∀ q, s.link t i = some q →
    q ∈ T0 ∧ isReserved (s.entry t i) = false ∧ isUser (s.entry t i) = false
  level2_injective : ∀ i < 512, ∀ j < 512, ∀ q, s.link root i = some q → s.link root j = some q →
    i = j
  level1_injective : ∀ t ∈ T1, ∀ t' ∈ T1, ∀ i < 512, ∀ j < 512, ∀ q, s.link t i = some q →
    s.link t' j = some q → t = t' ∧ i = j
  root_apart : root ∉ T1 ∧ root ∉ T0
  level1_apart : ∀ t ∈ T1, t ∉ T0
  free_nodup : s.free.Nodup
  free_page : ∀ q ∈ s.free, Page s q
  free_apart : ∀ q ∈ s.free, q ≠ root ∧ q ∉ T1 ∧ q ∉ T0

/-- A root that the kernel may map in. -/
def WellFormed (s : State) (root : Nat) : Prop := ∃ T1 T0, Rooted s root T1 T0

theorem State.link_eq_some : s.link table index = some q ↔
    isValid (s.entry table index) = true ∧ isLeaf (s.entry table index) = false ∧
      addressOf (s.entry table index) = q := by
  simp only [State.link, Bool.and_eq_true, Bool.not_eq_true', Option.ite_none_right_eq_some,
    Option.some.injEq, and_assoc]

theorem State.link_eq_none
    (h : isValid (s.entry table index) = false ∨ isLeaf (s.entry table index) = true) :
    s.link table index = none := by
  rw [State.link, if_neg]
  obtain h | h := h <;> simp [h]

theorem link_congr (h : s'.entry table index = s.entry table index) :
    s'.link table index = s.link table index := by
  rw [State.link, State.link, h]

/-- What the unit makes of the entry at which its walk ends. -/
def entryResult (size : Nat) (user : Bool) (v : Nat) (access : Access) (shift pte : Nat) :
    MmuResult :=
  if !isValid pte then .notPresent
  else if isReserved pte || isWritable pte && !isReadable pte || !isLeaf pte then .malformedEntry
  else if addressOf pte % 2 ^ shift ≠ 0 then .malformedEntry
  else if !permissionGranted pte user access then .permissionDenied
  else if addressOf pte < size ∧ ¬ addressOf pte + 2 ^ shift ≤ size then .malformedEntry
  else .ok (addressOf pte ||| v % 2 ^ shift)

/-- A walk that goes no further than one entry. -/
theorem walk_ends (ht : rootValid s.ram t = true)
    (hend : rest = [] ∨ s.link t (tableIndex v shift) = none) :
    walk s.ram user v access (shift :: rest) t =
      entryResult s.ram.size user v access shift (s.entry t (tableIndex v shift)) := by
  have hword : s.ram.word (t + tableIndex v shift * 8) = s.entry t (tableIndex v shift) := rfl
  simp only [walk, physicalRangeValid_entry ht, hword]
  generalize hpte : s.entry t (tableIndex v shift) = pte
  have hpos : 0 < 2 ^ shift := Nat.two_pow_pos shift
  have hrange : physicalRangeValid s.ram (addressOf pte) (2 ^ shift) =
      decide (addressOf pte + 2 ^ shift ≤ s.ram.size) := by
    rw [Bool.eq_iff_iff, physicalRangeValid_iff hpos, decide_eq_true_iff]
  have hlast : isValid pte = true → isLeaf pte = false → rest = [] := by
    intro hv hl
    refine hend.resolve_right fun hnone => ?_
    rw [State.link, hpte, hv, hl] at hnone
    cases hnone
  unfold entryResult
  cases hv : isValid pte with
  | false => simp
  | true =>
    cases hl : isLeaf pte with
    | false => simp [hlast hv hl]
    | true => simp [hrange]

/-- A walk that goes on in the table an entry refers to. -/
theorem walk_goes_on (ht : rootValid s.ram t = true) (hrest : rest.isEmpty = false)
    (hlink : s.link t (tableIndex v shift) = some q) (hq : rootValid s.ram q = true)
    (hreserved : isReserved (s.entry t (tableIndex v shift)) = false)
    (huser : isUser (s.entry t (tableIndex v shift)) = false) :
    walk s.ram user v access (shift :: rest) t = walk s.ram user v access rest q := by
  obtain ⟨hvalid, hleaf, rfl⟩ := State.link_eq_some.mp hlink
  rw [walk_table ht hvalid hleaf]
  simp only [State.entry] at hreserved huser hq ⊢
  simp [hreserved, huser, hq, hrest]

/-! ## Levels -/

/-- The tables of a tree by their levels: the root has level 2, and what an entry refers to has the
    next lower one. -/
structure Tree (s : State) (root : Nat) (level : Nat → Option Nat) : Prop where
  root_level : level root = some 2
  valid : ∀ t k, level t = some k → rootValid s.ram t = true
  link : ∀ t k, level t = some (k + 1) → ∀ i < 512, ∀ q, s.link t i = some q →
    level q = some k ∧ isReserved (s.entry t i) = false ∧ isUser (s.entry t i) = false
  injective : ∀ t t' k, level t = some (k + 1) → level t' = some (k + 1) → ∀ i < 512, ∀ j < 512,
    ∀ q, s.link t i = some q → s.link t' j = some q → t = t' ∧ i = j
  free_nodup : s.free.Nodup
  free_page : ∀ q ∈ s.free, Page s q
  free_level : ∀ q ∈ s.free, level q = none

variable {level : Nat → Option Nat} {k m : Nat}

open Classical in
theorem Rooted.tree (h : Rooted s root T1 T0) : ∃ level, Tree s root level := by
  let level t := if t = root then some 2 else if t ∈ T1 then some 1 else if t ∈ T0 then some 0
    else none
  have hlevel : ∀ t k, level t = some k → t = root ∧ k = 2 ∨ t ∈ T1 ∧ k = 1 ∨ t ∈ T0 ∧ k = 0 := by
    grind
  have hroot : level root = some 2 := if_pos rfl
  have hlevel1 : ∀ t ∈ T1, level t = some 1 := by grind [h.root_apart]
  have hlevel0 : ∀ t ∈ T0, level t = some 0 := by grind [h.root_apart, h.level1_apart]
  refine ⟨level, hroot, fun t k hk => ?_, fun t k hk i hi q hq => ?_,
    fun t t' k hk hk' i hi j hj q hq hq' => ?_, h.free_nodup, h.free_page, fun q hq => ?_⟩
  · obtain ⟨rfl, -⟩ | ⟨ht, -⟩ | ⟨ht, -⟩ := hlevel t k hk
    · exact h.root_valid
    · exact h.table_valid t (.inl ht)
    · exact h.table_valid t (.inr ht)
  · obtain ⟨rfl, ⟨⟩⟩ | ⟨ht, ⟨⟩⟩ | ⟨-, ⟨⟩⟩ := hlevel t (k + 1) hk
    · exact (h.level2 i hi q hq).imp_left (hlevel1 q)
    · exact (h.level1 t ht i hi q hq).imp_left (hlevel0 q)
  · obtain ⟨rfl, ⟨⟩⟩ | ⟨ht, ⟨⟩⟩ | ⟨-, ⟨⟩⟩ := hlevel t (k + 1) hk
    · have ht' : t' = t := by simpa using hlevel t' 2 hk'
      subst ht'
      exact ⟨rfl, h.level2_injective i hi j hj q hq hq'⟩
    · have ht' : t' ∈ T1 := by simpa using hlevel t' 1 hk'
      exact h.level1_injective t ht t' ht' i hi j hj q hq hq'
  · grind [h.free_apart q hq]

theorem Tree.wellFormed (h : Tree s root level) : WellFormed s root := by
  refine ⟨{t | level t = some 1}, {t | level t = some 0}, h.valid _ _ h.root_level,
    fun t ht => ht.elim (h.valid t 1) (h.valid t 0), h.link root 1 h.root_level,
    fun t ht => h.link t 0 ht, fun i hi j hj q hq hq' =>
      (h.injective root root 1 h.root_level h.root_level i hi j hj q hq hq').2,
    fun t ht t' ht' => h.injective t t' 0 ht ht', by simp [h.root_level], fun t ht ht' => ?_,
    h.free_nodup, h.free_page, fun q hq => ?_⟩
  · cases ht.symm.trans ht'
  · have hnone := h.free_level q hq
    refine ⟨?_, by simp [hnone], by simp [hnone]⟩
    rintro rfl
    cases h.root_level.symm.trans hnone

/-- The shifts of a level and of the levels below it. -/
def shifts : Nat → List Nat
  | 0 => [12]
  | k + 1 => (12 + 9 * (k + 1)) :: shifts k

/-- The index of an address in the tables of a level. -/
def indexAt (v k : Nat) : Nat := tableIndex v (12 + 9 * k)

theorem indexAt_lt (v k : Nat) : indexAt v k < 512 := tableIndex_lt v _

theorem Tree.aligned (h : Tree s root level) (ht : level t = some k) : t % pageSize = 0 :=
  (rootValid_iff.mp (h.valid t k ht)).1

/-- A walk ends in a table of the last level, or where an entry refers to no table. -/
theorem Tree.walk_ends (h : Tree s root level) (ht : level t = some k)
    (hend : k = 0 ∨ s.link t (indexAt v k) = none) :
    walk s.ram user v access (shifts k) t =
      entryResult s.ram.size user v access (12 + 9 * k) (s.entry t (indexAt v k)) := by
  cases k with
  | zero => exact Paging.walk_ends (h.valid t 0 ht) (.inl rfl)
  | succ k =>
    exact Paging.walk_ends (h.valid t _ ht) (.inr (hend.resolve_left (Nat.succ_ne_zero k)))

theorem Tree.walk_goes_on (h : Tree s root level) (ht : level t = some (k + 1))
    (hlink : s.link t (indexAt v (k + 1)) = some q) : level q = some k ∧ ∀ user access,
      walk s.ram user v access (shifts (k + 1)) t = walk s.ram user v access (shifts k) q := by
  obtain ⟨hq, hreserved, huser⟩ := h.link t k ht _ (indexAt_lt v _) q hlink
  exact ⟨hq, fun _ _ => Paging.walk_goes_on (h.valid t _ ht) (by cases k <;> rfl) hlink
    (h.valid q k hq) hreserved huser⟩

theorem Tree.translate_eq (h : Tree s root level) :
    translate s.ram root user v access = if v ≥ virtualAddressLimit then .invalidVirtualAddress
      else walk s.ram user v access (shifts 2) root := by
  rw [translate, h.valid _ _ h.root_level]
  rfl

/-! ## New tables -/

section

variable {s₁ : State} (h : Tree s root level) (ht : level t = some (k + 1))
  (hal : Allocated s p s₁) (hi : i < 512)
include h hal

/-- The page of a new table was in no level. -/
theorem Tree.ne_new (hq : level q = some m) : q ≠ p := by
  rintro rfl
  cases hq.symm.trans (h.free_level q hal.mem)

include ht hi

theorem Tree.new_entry (hq : q % pageSize = 0) (hj : j < 512) :
    (s₁.setEntry t i (p ||| pteValid)).entry q j =
      if q = t ∧ j = i then p ||| pteValid else if q = p then 0 else s.entry q j := by
  rw [State.entry_setEntry _ hq (h.aligned ht) hj hi, hal.entry q j hq hj]

/-- The other entries of the tables stay. -/
theorem Tree.keeps (hq : level q = some m) (hj : j < 512) (hne : ¬ (q = t ∧ j = i)) :
    (s₁.setEntry t i (p ||| pteValid)).entry q j = s.entry q j := by
  rw [h.new_entry ht hal hi (h.aligned hq) hj, if_neg hne, if_neg (h.ne_new hal hq)]

/-- The new table is empty. -/
theorem Tree.new_empty (hj : j < 512) : (s₁.setEntry t i (p ||| pteValid)).entry p j = 0 := by
  have hp := (h.free_page p hal.mem).aligned
  rw [h.new_entry ht hal hi hp hj, if_neg fun heq => h.ne_new hal ht heq.1.symm, if_pos rfl]

/-- The entry refers to the new table. -/
theorem Tree.new_link : (s₁.setEntry t i (p ||| pteValid)).link t i = some p ∧
    isReserved ((s₁.setEntry t i (p ||| pteValid)).entry t i) = false ∧
    isUser ((s₁.setEntry t i (p ||| pteValid)).entry t i) = false := by
  have hp := (h.free_page p hal.mem).aligned
  rw [State.link_eq_some, h.new_entry ht hal hi (h.aligned ht) hi, if_pos ⟨rfl, rfl⟩, isUser,
    testBit_entry hp (by decide)]
  exact ⟨⟨isValid_table hp, isLeaf_table hp, addressOf_entry hp (by decide)⟩,
    isReserved_entry hp (by decide), rfl⟩

/-- The links of the tables are the old ones and the new one. -/
theorem Tree.link_cases (hq : Function.update level p (some k) q = some (m + 1)) (hj : j < 512)
    {r : Nat} (hlink : (s₁.setEntry t i (p ||| pteValid)).link q j = some r) :
    q = t ∧ j = i ∧ r = p ∧ m = k ∨ level q = some (m + 1) ∧ s.link q j = some r ∧
      (s₁.setEntry t i (p ||| pteValid)).entry q j = s.entry q j := by
  by_cases hqp : q = p
  · -- the new table has no links
    subst hqp
    rw [State.link_eq_none (.inl (by rw [h.new_empty ht hal hi hj]; rfl))] at hlink
    cases hlink
  rw [Function.update_of_ne hqp] at hq
  by_cases hnew : q = t ∧ j = i
  · obtain ⟨rfl, rfl⟩ := hnew
    rw [(h.new_link ht hal hi).1] at hlink
    rw [hq] at ht
    exact .inl ⟨rfl, rfl, (Option.some.inj hlink).symm, Nat.succ.inj (Option.some.inj ht)⟩
  · have he := h.keeps ht hal hi hq hj hnew
    exact .inr ⟨hq, (link_congr he).symm.trans hlink, he⟩

/-- A new table belongs to the next lower level. -/
theorem Tree.addTable :
    Tree (s₁.setEntry t i (p ||| pteValid)) root (Function.update level p (some k)) := by
  have hpage := h.free_page p hal.mem
  have hnone := h.free_level p hal.mem
  obtain ⟨hp, hnodup⟩ := List.nodup_cons.mp (hal.free ▸ h.free_nodup)
  have hfree : ∀ q ∈ s₁.free, q ∈ s.free := fun q hq => hal.free ▸ List.mem_cons_of_mem p hq
  have hold : ∀ q m, level q = some m → Function.update level p (some k) q = some m :=
    fun q m hq => by rw [Function.update_of_ne (h.ne_new hal hq), hq]
  have hvalid : ∀ q, rootValid s₁.ram q = rootValid s.ram q := fun q => by
    rw [Bool.eq_iff_iff, rootValid_iff, rootValid_iff, hal.same.size]
  refine ⟨hold _ _ h.root_level, fun q m hq => ?_, fun q m hq j hj r hr => ?_,
    fun q q' m hq hq' j hj j' hj' r hr hr' => ?_, hnodup, fun q hq => ?_, fun q hq => ?_⟩
  · refine (hvalid q).trans ?_
    by_cases hqp : q = p
    · exact hqp ▸ rootValid_iff.mpr ⟨hpage.aligned, hpage.inside⟩
    · rw [Function.update_of_ne hqp] at hq
      exact h.valid q m hq
  · obtain ⟨rfl, rfl, rfl, rfl⟩ | ⟨hq, hr, he⟩ := h.link_cases ht hal hi hq hj hr
    · exact ⟨Function.update_self .., (h.new_link ht hal hi).2⟩
    · rw [he]
      exact (h.link q m hq j hj r hr).imp_left (hold r m)
  · -- no old link refers to the new table
    have hnew : ∀ {q j m}, level q = some (m + 1) → j < 512 → s.link q j ≠ some p :=
      fun hq hj hr => by cases hnone.symm.trans (h.link _ _ hq _ hj p hr).1
    obtain ⟨rfl, rfl, rfl, rfl⟩ | ⟨hlevel, hlink, -⟩ := h.link_cases ht hal hi hq hj hr
    · obtain ⟨rfl, rfl, -⟩ | ⟨hlevel', hlink', -⟩ := h.link_cases ht hal hi hq' hj' hr'
      · exact ⟨rfl, rfl⟩
      · exact absurd hlink' (hnew hlevel' hj')
    · obtain ⟨-, -, rfl, -⟩ | ⟨hlevel', hlink', -⟩ := h.link_cases ht hal hi hq' hj' hr'
      · exact absurd hlink (hnew hlevel hj)
      · exact h.injective q q' m hlevel hlevel' j hj j' hj' r hlink hlink'
  · exact (h.free_page q (hfree q hq)).same (hal.same.trans ⟨rfl, rfl, rfl, rfl⟩)
  · rw [Function.update_of_ne (ne_of_mem_of_not_mem hq hp)]
    exact h.free_level q (hfree q hq)

/-- A new table, which is empty, is not seen. -/
theorem Tree.walk_addTable (hunused : isValid (s.entry t i) = false) {u n : Nat}
    (hu : level u = some n) :
    walk (s₁.setEntry t i (p ||| pteValid)).ram user v access (shifts n) u =
      walk s.ram user v access (shifts n) u := by
  have h' := h.addTable ht hal hi
  have hlevel : ∀ {q m}, level q = some m → Function.update level p (some k) q = some m :=
    fun hq => by rw [Function.update_of_ne (h.ne_new hal hq), hq]
  have hsize : (s₁.setEntry t i (p ||| pteValid)).ram.size = s.ram.size := hal.same.size
  induction n generalizing u with
  | zero =>
    have hne : ¬ (u = t ∧ indexAt v 0 = i) := by
      rintro ⟨rfl, -⟩
      cases hu.symm.trans ht
    rw [h.walk_ends hu (.inl rfl), h'.walk_ends (hlevel hu) (.inl rfl), hsize,
      h.keeps ht hal hi hu (indexAt_lt v 0) hne]
  | succ n ih =>
    by_cases hnew : u = t ∧ indexAt v (n + 1) = i
    · -- nothing was there
      obtain ⟨rfl, rfl⟩ := hnew
      cases hu.symm.trans ht
      obtain ⟨hp, hgo⟩ := h'.walk_goes_on (hlevel hu) (h.new_link ht hal hi).1
      have hempty := h.new_empty ht hal hi (indexAt_lt v k)
      rw [hgo, h'.walk_ends hp (.inr (State.link_eq_none (.inl (by rw [hempty]; rfl)))), hempty,
        h.walk_ends hu (.inr (State.link_eq_none (.inl hunused))), entryResult, entryResult,
        hunused]
      rfl
    · have he := h.keeps ht hal hi hu (indexAt_lt v _) hnew
      cases hlink : s.link u (indexAt v (n + 1)) with
      | none =>
        rw [h.walk_ends hu (.inr hlink), h'.walk_ends (hlevel hu)
          (.inr ((link_congr he).trans hlink)), hsize, he]
      | some q =>
        obtain ⟨hq, hgo⟩ := h.walk_goes_on hu hlink
        rw [hgo, (h'.walk_goes_on (hlevel hu) ((link_congr he).trans hlink)).2]
        exact ih hq

end

/-- The table that `allocate_next_table` finds or makes. -/
theorem allocateNextTable_spec (h : Tree s root level) (ht : level t = some (k + 1)) (hi : i < 512)
    (ha : s.allocateNextTable t i = (true, s')) :
    ∃ level', Tree s' root level' ∧ s'.ram.size = s.ram.size ∧
      s'.link t i = some (addressOf (s'.entry t i)) ∧
      (∀ q m, level q = some m → level' q = some m ∧
        ∀ j < 512, ∀ r, s.link q j = some r → s'.link q j = some r) ∧
      ∀ user v access,
        translate s'.ram root user v access = translate s.ram root user v access := by
  obtain ⟨rfl, hv, hl⟩ | ⟨-, ⟨⟩, -⟩ | ⟨hunused, -, p, s₁, hal, rfl⟩ :=
    allocateNextTable_cases h.free_page ha
  · exact ⟨level, h, rfl, State.link_eq_some.mpr ⟨hv, hl rfl, rfl⟩,
      fun q m hq => ⟨hq, fun _ _ _ => id⟩, fun _ _ _ => rfl⟩
  · have hself := (h.new_link ht hal hi).1
    refine ⟨_, h.addTable ht hal hi, hal.same.size, ?_, fun q m hq => ⟨?_, fun j hj r hr => ?_⟩,
      fun user v access => ?_⟩
    · rw [hself, (State.link_eq_some.mp hself).2.2]
    · rw [Function.update_of_ne (h.ne_new hal hq), hq]
    · rw [link_congr (h.keeps ht hal hi hq hj ?_), hr]
      rintro ⟨rfl, rfl⟩
      rw [State.link_eq_none (.inl hunused)] at hr
      cases hr
    · rw [h.translate_eq, (h.addTable ht hal hi).translate_eq,
        h.walk_addTable ht hal hi hunused h.root_level]

/-! ## Leaves -/

/-- The addresses of one page. -/
def InLeaf (va shift v : Nat) : Prop := va ≤ v ∧ v < va + 2 ^ shift

instance (va shift v : Nat) : Decidable (InLeaf va shift v) :=
  inferInstanceAs (Decidable (_ ∧ _))

theorem inLeaf_iff (hva : va < virtualAddressLimit) (hv : v < virtualAddressLimit) :
    (va % 2 ^ 30 = 0 → (InLeaf va 30 v ↔ indexAt v 2 = indexAt va 2)) ∧
    (va % 2 ^ 21 = 0 → (InLeaf va 21 v ↔
      indexAt v 2 = indexAt va 2 ∧ indexAt v 1 = indexAt va 1)) ∧
    (va % 2 ^ 12 = 0 → (InLeaf va 12 v ↔
      indexAt v 2 = indexAt va 2 ∧ indexAt v 1 = indexAt va 1 ∧ indexAt v 0 = indexAt va 0)) := by
  simp only [InLeaf, indexAt, tableIndex, virtualAddressLimit] at *
  refine ⟨fun h => ?_, fun h => ?_, fun h => ?_⟩ <;> omega

/-- A leaf is stored in a table of the tree, or anything in one of the last level. -/
theorem Tree.store (h : Tree s root level) (ht : level t = some k) (hi : i < 512)
    (hleaf : k = 0 ∨ isLeaf pte = true) : Tree (s.setEntry t i pte) root level := by
  have hlink : ∀ q m, level q = some (m + 1) → ∀ j < 512, ∀ r,
      (s.setEntry t i pte).link q j = some r →
      s.link q j = some r ∧ (s.setEntry t i pte).entry q j = s.entry q j := by
    intro q m hq j hj r hr
    have he := State.entry_setEntry (s := s) pte (h.aligned hq) (h.aligned ht) hj hi
    split at he
    · next heq =>
      -- the new entry refers to no table
      obtain ⟨rfl, rfl⟩ := heq
      obtain rfl | hleaf := hleaf
      · cases hq.symm.trans ht
      · rw [State.link_eq_none (.inr (by rw [he]; exact hleaf))] at hr
        cases hr
    · exact ⟨(link_congr he).symm.trans hr, he⟩
  refine ⟨h.root_level, h.valid, fun q m hq j hj r hr => ?_,
    fun q q' m hq hq' j hj j' hj' r hr hr' => ?_, h.free_nodup,
    fun q hq => (h.free_page q hq).same ⟨rfl, rfl, rfl, rfl⟩, h.free_level⟩
  · obtain ⟨hr, he⟩ := hlink q m hq j hj r hr
    rw [he]
    exact h.link q m hq j hj r hr
  · exact h.injective q q' m hq hq' j hj j' hj' r (hlink q m hq j hj r hr).1
      (hlink q' m hq' j' hj' r hr').1

/-- The walk for an address, from a table on, looks at an entry. -/
def State.Visits (s : State) (v table index : Nat) : Nat → Nat → Prop
  | 0, t => t = table ∧ indexAt v 0 = index
  | k + 1, t => t = table ∧ indexAt v (k + 1) = index ∨
      ∃ q, s.link t (indexAt v (k + 1)) = some q ∧ s.Visits v table index k q

section

variable (h : Tree s root level)
include h

open Classical in
/-- A stored leaf is what the walks that come to it see, and no others do. -/
theorem Tree.walk_store (htable : level table = some m) (hindex : index < 512)
    (hleaf : m = 0 ∨ isLeaf pte = true) (ht : level t = some k) :
    walk (s.setEntry table index pte).ram user v access (shifts k) t =
      if s.Visits v table index k t then entryResult s.ram.size user v access (12 + 9 * m) pte
      else walk s.ram user v access (shifts k) t := by
  have h' := h.store htable hindex hleaf
  have hentry : ∀ {q k}, level q = some k → ∀ {j}, j < 512 →
      (s.setEntry table index pte).entry q j =
        if q = table ∧ j = index then pte else s.entry q j :=
    fun hq _ hj => State.entry_setEntry pte (h.aligned hq) (h.aligned htable) hj hindex
  have hhere : ∀ {t k}, level t = some k → t = table ∧ indexAt v k = index →
      walk (s.setEntry table index pte).ram user v access (shifts k) t =
        entryResult s.ram.size user v access (12 + 9 * m) pte := by
    rintro t k ht ⟨rfl, rfl⟩
    cases ht.symm.trans htable
    have he := (hentry ht hindex).trans (if_pos ⟨rfl, rfl⟩)
    rw [h'.walk_ends ht (hleaf.imp_right fun hl => State.link_eq_none
      (.inr (by rw [he]; exact hl))), he]
    rfl
  induction k generalizing t with
  | zero =>
    split
    · next hv => exact hhere ht hv
    · next hv =>
      have he := (hentry ht (indexAt_lt v 0)).trans (if_neg hv)
      rw [h.walk_ends ht (.inl rfl), h'.walk_ends ht (.inl rfl), he]
      rfl
  | succ k ih =>
    by_cases hnew : t = table ∧ indexAt v (k + 1) = index
    · rw [if_pos (.inl hnew), hhere ht hnew]
    have he := (hentry ht (indexAt_lt v _)).trans (if_neg hnew)
    cases hlink : s.link t (indexAt v (k + 1)) with
    | none =>
      rw [h.walk_ends ht (.inr hlink), h'.walk_ends ht (.inr ((link_congr he).trans hlink)), he,
        if_neg]
      · rfl
      · simp [State.Visits, hnew, hlink]
    | some q =>
      obtain ⟨hq, hgo⟩ := h.walk_goes_on ht hlink
      rw [hgo, (h'.walk_goes_on ht ((link_congr he).trans hlink)).2, ih hq]
      simp [State.Visits, hnew, hlink]

omit h in
theorem visits_below (htable : level table = some m) (ht : level t = some (k + 1))
    (hne : m ≠ k + 1) : s.Visits v table i (k + 1) t ↔
      ∃ q, s.link t (indexAt v (k + 1)) = some q ∧ s.Visits v table i k q := by
  refine or_iff_right ?_
  rintro ⟨rfl, -⟩
  exact hne (Option.some.inj (htable.symm.trans ht))

/-- A walk does not come to a table of a higher level. -/
theorem Tree.not_visits (htable : level table = some m) (ht : level t = some k) (hlt : k < m) :
    ¬ s.Visits v table i k t := by
  induction k generalizing t with
  | zero =>
    rintro ⟨rfl, -⟩
    cases ht.symm.trans htable
    exact Nat.lt_irrefl _ hlt
  | succ k ih =>
    rw [visits_below htable ht (by omega)]
    rintro ⟨q, hq, hv⟩
    exact ih (h.link t k ht _ (indexAt_lt v _) q hq).1 (by omega) hv

theorem Tree.visits_same (htable : level table = some k) (ht : level t = some k) :
    s.Visits v table i k t ↔ t = table ∧ indexAt v k = i := by
  cases k with
  | zero => rfl
  | succ k =>
    refine or_iff_left ?_
    rintro ⟨q, hq, hv⟩
    exact h.not_visits htable (h.link t k ht _ (indexAt_lt v _) q hq).1 (Nat.lt_succ_self k) hv

/-- The walks that come to a table are those that come to the entry that refers to it. -/
theorem Tree.visits_link {r : Nat} (hr : level r = some k) (hlt : m < k)
    (htable : level table = some (m + 1)) (hj : j < 512) (hlink : s.link table j = some t) :
    s.Visits v t i k r ↔ s.Visits v table j k r ∧ indexAt v m = i := by
  have ht := (h.link table m htable j hj t hlink).1
  induction k generalizing r with
  | zero => exact absurd hlt (Nat.not_lt_zero m)
  | succ k ih =>
    have hnext : ∀ {q}, s.link r (indexAt v (k + 1)) = some q → level q = some k :=
      fun hq => (h.link r k hr _ (indexAt_lt v _) _ hq).1
    rw [visits_below ht hr (by omega)]
    by_cases hmk : m = k
    · -- the entry is one of this table
      subst hmk
      rw [h.visits_same htable hr]
      constructor
      · rintro ⟨q, hq, hv⟩
        obtain ⟨rfl, hi⟩ := (h.visits_same ht (hnext hq)).mp hv
        exact ⟨h.injective r table m hr htable _ (indexAt_lt v _) j hj q hq hlink, hi⟩
      · rintro ⟨⟨rfl, rfl⟩, hi⟩
        exact ⟨t, hlink, (h.visits_same ht ht).mpr ⟨rfl, hi⟩⟩
    · rw [visits_below htable hr (by omega), ← exists_and_right]
      refine exists_congr fun q => ?_
      rw [and_assoc]
      exact and_congr_right fun hq => ih (hnext hq) (by omega)

end

/-! ## `kernel_map_leaf` -/

/-- A root after a leaf was mapped. -/
structure LeafMapped (s : State) (root va pa flags shift : Nat) (s' : State) : Prop where
  wellFormed : WellFormed s' root
  size : s'.ram.size = s.ram.size
  translate : ∀ user v access, v < virtualAddressLimit →
    Paging.translate s'.ram root user v access =
      if InLeaf va shift v then entryResult s.ram.size user v access shift (pa ||| flags)
      else Paging.translate s.ram root user v access

/-- A leaf is stored, in a state with the translations of `s₀`. -/
theorem Tree.leafMapped {s₀ : State} {pa flags : Nat} (h : Tree s root level)
    (htable : level table = some m) (hleaf : m = 0 ∨ isLeaf (pa ||| flags) = true)
    (hvisits : ∀ v < virtualAddressLimit,
      s.Visits v table (indexAt va m) 2 root ↔ InLeaf va (12 + 9 * m) v)
    (hsize : s.ram.size = s₀.ram.size)
    (hsame : ∀ user v access,
      translate s.ram root user v access = translate s₀.ram root user v access) :
    LeafMapped s₀ root va pa flags (12 + 9 * m)
      (s.setEntry table (indexAt va m) (pa ||| flags)) := by
  have h' := h.store htable (indexAt_lt va m) hleaf
  refine ⟨h'.wellFormed, hsize, fun user v access hv => ?_⟩
  rw [← hsame, ← hsize, h'.translate_eq, h.translate_eq, if_neg (Nat.not_le.mpr hv),
    if_neg (Nat.not_le.mpr hv), h.walk_store htable (indexAt_lt va m) hleaf h.root_level]
  classical exact if_congr (hvisits v hv) rfl rfl

theorem kernelMapLeaf_spec {pa flags : Nat} (h : WellFormed s root) (hva : va < virtualAddressLimit)
    (hshift : shift = 30 ∨ shift = 21 ∨ shift = 12)
    (hmap : s.kernelMapLeaf root va pa flags shift = (true, s')) :
    State.leafArguments va pa flags shift = true ∧ LeafMapped s root va pa flags shift s' := by
  obtain ⟨T1, T0, h⟩ := h
  obtain ⟨level, h⟩ := h.tree
  unfold State.kernelMapLeaf at hmap
  split at hmap
  · cases hmap
  next hargs =>
  simp only [not_or, Bool.not_eq_true', Bool.not_eq_false] at hargs
  have hleafArgs := hargs.1
  simp only [State.leafArguments, decide_eq_true_eq] at hargs
  obtain ⟨⟨hvaligned, hpaligned, hvalid, hleafFlags, hsmall, hwrite⟩, -⟩ := hargs
  have hpage : pa % pageSize = 0 := by
    obtain rfl | rfl | rfl := hshift <;> simp only [pageSize] at * <;> omega
  have hleaf : isLeaf (pa ||| flags) = true := by
    rw [isLeaf_entry hpage]
    exact hleafFlags
  have hroot : ∀ {s : State} {level i v}, Tree s root level →
      (s.Visits v root i 2 root ↔ indexAt v 2 = i) := fun h => by
    rw [h.visits_same h.root_level h.root_level, and_iff_right rfl]
  refine ⟨hleafArgs, ?_⟩
  split at hmap
  · next hgiant =>
    subst hgiant
    split at hmap
    · cases hmap
    · cases hmap
      refine h.leafMapped h.root_level (.inr hleaf) (fun v hv => ?_) rfl fun _ _ _ => rfl
      rw [hroot h, (inLeaf_iff hva hv).1 hvaligned]
  split at hmap
  · cases hmap
  next s₁ ha₁ =>
  obtain ⟨level₁, h₁, hsize₁, hlink₁, -, hsame₁⟩ :=
    allocateNextTable_spec h h.root_level (tableIndex_lt va 30) ha₁
  have ht₁ := (h₁.link root 1 h₁.root_level _ (tableIndex_lt va 30) _ hlink₁).1
  dsimp only at hmap
  split at hmap
  · cases hmap
  split at hmap
  · next hlarge =>
    subst hlarge
    split at hmap
    · cases hmap
    · cases hmap
      refine h₁.leafMapped ht₁ (.inr hleaf) (fun v hv => ?_) hsize₁ hsame₁
      rw [h₁.visits_link h₁.root_level (by decide) h₁.root_level (tableIndex_lt va 30) hlink₁,
        hroot h₁, (inLeaf_iff hva hv).2.1 hvaligned]
      rfl
  obtain rfl : shift = 12 := by omega
  split at hmap
  · cases hmap
  next s₂ ha₂ =>
  obtain ⟨level₂, h₂, hsize₂, hlink₂, hkept, hsame₂⟩ :=
    allocateNextTable_spec h₁ ht₁ (tableIndex_lt va 21) ha₂
  have hlink := (hkept root 2 h₁.root_level).2 _ (tableIndex_lt va 30) _ hlink₁
  have ht := (h₂.link _ 0 (hkept _ 1 ht₁).1 _ (tableIndex_lt va 21) _ hlink₂).1
  split at hmap
  · cases hmap
  · cases hmap
    rw [addressOf_of_aligned hpage]
    refine h₂.leafMapped ht (.inl rfl) (fun v hv => ?_) (hsize₂.trans hsize₁)
      fun user v access => (hsame₂ user v access).trans (hsame₁ user v access)
    rw [h₂.visits_link h₂.root_level (by decide) (hkept _ 1 ht₁).1 (tableIndex_lt va 21) hlink₂,
      h₂.visits_link h₂.root_level (by decide) h₂.root_level (tableIndex_lt va 30) hlink, hroot h₂,
      (inLeaf_iff hva hv).2.2 hvaligned, and_assoc]
    rfl

/-- What the unit makes of a new leaf. -/
theorem entryResult_leaf {size pa flags : Nat} (hshift : shift = 30 ∨ shift = 21 ∨ shift = 12)
    (hargs : State.leafArguments va pa flags shift = true)
    (hram : pa + 2 ^ shift ≤ size ∨ size ≤ pa) (hv : InLeaf va shift v) :
    entryResult size user v access shift (pa ||| flags) =
      if permissionGranted flags user access then .ok (pa + (v - va)) else .permissionDenied := by
  simp only [State.leafArguments, decide_eq_true_eq] at hargs
  obtain ⟨hvaligned, hpaligned, hvalid, hleaf, hsmall, hwrite⟩ := hargs
  have hpage : pa % pageSize = 0 := by
    obtain rfl | rfl | rfl := hshift <;> simp only [pageSize] at * <;> omega
  have hflagsLt : flags < pageSize := by
    simp only [pageSize]
    omega
  have haddress : addressOf (pa ||| flags) = pa := addressOf_entry hpage hflagsLt
  have hreserved : isReserved (pa ||| flags) = false := isReserved_entry hpage hsmall
  have hgranted : permissionGranted (pa ||| flags) user access =
      permissionGranted flags user access := by
    simp (disch := decide) only [permissionGranted, isUser, isReadable, isWritable, isExecutable,
      testBit_entry hpage]
    cases access <;> rfl
  have hoffset : v % 2 ^ shift = v - va := by
    obtain ⟨k, hk⟩ := Nat.dvd_of_mod_eq_zero hvaligned
    have hlt : v - va < 2 ^ shift := by
      have := hv.2
      omega
    rw [show v = 2 ^ shift * k + (v - va) by have := hv.1; omega, Nat.mul_add_mod,
      Nat.mod_eq_of_lt hlt, ← hk]
    omega
  have hor : pa ||| v % 2 ^ shift = pa + v % 2 ^ shift := by
    obtain ⟨k, hk⟩ := Nat.dvd_of_mod_eq_zero hpaligned
    rw [hk]
    exact (Nat.two_pow_add_eq_or_of_lt (Nat.mod_lt _ (Nat.two_pow_pos shift)) k).symm
  have hfits : ¬ (pa < size ∧ ¬ pa + 2 ^ shift ≤ size) := by omega
  have hv' : isValid (pa ||| flags) = true := by
    rw [isValid, testBit_entry hpage (by decide)]
    exact hvalid
  have hl' : isLeaf (pa ||| flags) = true := by
    rw [isLeaf_entry hpage]
    exact hleaf
  have hw' : (isWritable (pa ||| flags) && !isReadable (pa ||| flags)) = false := by
    simp (disch := decide) only [isWritable, isReadable, testBit_entry hpage] at hwrite ⊢
    cases hr : flags.testBit 2 with
    | false => rfl
    | true => simp [hwrite hr]
  rw [entryResult, hv', hreserved, hw', hl', haddress, hgranted, if_neg hfits, hor, hoffset]
  simp only [hpaligned]
  cases permissionGranted flags user access <;> simp

/-! ## `map_range` -/

theorem leafShift_spec (va pa : Nat) {remaining : Nat} (hremaining : pageSize ≤ remaining) :
    (State.leafShift va pa remaining = 30 ∨ State.leafShift va pa remaining = 21 ∨
      State.leafShift va pa remaining = 12) ∧
    2 ^ State.leafShift va pa remaining ≤ remaining ∧
    2 ^ State.leafShift va pa remaining % pageSize = 0 := by
  unfold State.leafShift
  split
  · next h => exact ⟨.inl rfl, h.2, by decide⟩
  · split
    · next h => exact ⟨.inr (.inl rfl), h.2, by decide⟩
    · exact ⟨.inr (.inr rfl), hremaining, by decide⟩

theorem add64_of_lt {a b : Nat} (h : a + b < 2 ^ 64) : add64 a b = a + b := Nat.mod_eq_of_lt h

section Range

variable {virtualPage physicalPage mappedSize flags n offset : Nat}

/-- A root after the rest of a range, from `offset` on, was mapped. -/
structure RangeMapped (s : State) (root virtualPage physicalPage mappedSize flags offset : Nat)
    (s' : State) : Prop where
  wellFormed : WellFormed s' root
  size : s'.ram.size = s.ram.size
  translate : ∀ user v access, v < virtualAddressLimit →
    Paging.translate s'.ram root user v access =
      if virtualPage + offset ≤ v ∧ v < virtualPage + mappedSize then
        if permissionGranted flags user access then .ok (physicalPage + (v - virtualPage))
        else .permissionDenied
      else Paging.translate s.ram root user v access

theorem mapRangeLoop_spec (h : WellFormed s root) (hvp : virtualPage % pageSize = 0)
    (hpp : physicalPage % pageSize = 0) (hm : mappedSize % pageSize = 0)
    (ho : offset % pageSize = 0) (hle : offset ≤ mappedSize)
    (hvirtual : virtualPage + mappedSize ≤ virtualAddressLimit)
    (hphysical : physicalPage + mappedSize ≤ 2 ^ 64)
    (hram : physicalPage + mappedSize ≤ s.ram.size ∨ s.ram.size ≤ physicalPage)
    (hn : (mappedSize - offset) / pageSize < n) :
    ∃ ok s', State.mapRangeLoop root virtualPage physicalPage mappedSize flags n offset s =
        some (ok, s') ∧
      (ok = true → RangeMapped s root virtualPage physicalPage mappedSize flags offset s') := by
  induction n generalizing s offset with
  | zero => exact absurd hn (Nat.not_lt_zero _)
  | succ n ih =>
    rw [State.mapRangeLoop]
    split
    · next hdone =>
      refine ⟨true, s, rfl, fun _ => ⟨h, rfl, fun user v access hv => ?_⟩⟩
      rw [if_neg (by omega)]
    next hmore =>
    have hva : add64 virtualPage offset = virtualPage + offset := by
      apply add64_of_lt
      simp only [virtualAddressLimit] at hvirtual
      omega
    have hpa : add64 physicalPage offset = physicalPage + offset := add64_of_lt (by omega)
    dsimp only
    rw [hva, hpa]
    have hremaining : pageSize ≤ mappedSize - offset := by
      simp only [pageSize] at *
      omega
    have hvaligned : (virtualPage + offset) % pageSize = 0 := by
      simp only [pageSize] at *
      omega
    have hpaligned : (physicalPage + offset) % pageSize = 0 := by
      simp only [pageSize] at *
      omega
    obtain ⟨hshift, hsizeLe, hsizeMod⟩ := leafShift_spec (virtualPage + offset)
      (physicalPage + offset) hremaining
    generalize State.leafShift (virtualPage + offset) (physicalPage + offset)
      (mappedSize - offset) = shift at *
    have hnext : add64 offset (2 ^ shift) = offset + 2 ^ shift := by
      apply add64_of_lt
      simp only [virtualAddressLimit] at hvirtual
      omega
    split
    · exact ⟨false, _, rfl, Bool.noConfusion⟩
    · next s₁ hleaf =>
      obtain ⟨hargs, hmapped⟩ := kernelMapLeaf_spec h (by omega) hshift hleaf
      have hpos := Nat.two_pow_pos shift
      rw [hnext]
      have ho' : (offset + 2 ^ shift) % pageSize = 0 := by
        simp only [pageSize] at *
        omega
      have hn' : (mappedSize - (offset + 2 ^ shift)) / pageSize < n := by
        simp only [pageSize] at *
        omega
      obtain ⟨ok, s', hloop, hrest⟩ := ih hmapped.wellFormed ho' (by omega)
        (by rw [hmapped.size]; exact hram) hn'
      refine ⟨ok, s', hloop, fun hok => ?_⟩
      have hr := hrest hok
      refine ⟨hr.wellFormed, hr.size.trans hmapped.size, fun user v access hv => ?_⟩
      rw [hr.translate user v access hv, hmapped.translate user v access hv]
      by_cases hin : InLeaf (virtualPage + offset) shift v
      · have hram' : physicalPage + offset + 2 ^ shift ≤ s.ram.size ∨
            s.ram.size ≤ physicalPage + offset := by omega
        rw [if_pos hin, entryResult_leaf hshift hargs hram' hin]
        obtain ⟨hlow, hhigh⟩ := hin
        have hdone : ¬ (virtualPage + (offset + 2 ^ shift) ≤ v ∧ v < virtualPage + mappedSize) := by
          omega
        have hnow : virtualPage + offset ≤ v ∧ v < virtualPage + mappedSize := by omega
        rw [if_neg hdone, if_pos hnow,
          show physicalPage + offset + (v - (virtualPage + offset)) =
            physicalPage + (v - virtualPage) by omega]
      · rw [if_neg hin]
        rw [InLeaf] at hin
        simp only [show virtualPage + (offset + 2 ^ shift) ≤ v ∧ v < virtualPage + mappedSize ↔
          virtualPage + offset ≤ v ∧ v < virtualPage + mappedSize by omega]

end Range

/-- The page of an address, for arithmetic. -/
theorem addressOf_spec (a : Nat) :
    addressOf a ≤ a ∧ a < addressOf a + 4096 ∧ addressOf a % 4096 = 0 := by
  simp only [addressOf, pageSize]
  omega

/-- If `map_range` returns 0, whatever sizes of pages it took, every address of the page-rounded
    range translates to the corresponding physical address, with the requested permissions, and no
    other translation has changed; it always returns, and its sums do not wrap around.  (Leaves that
    the tables had in the range before do not matter.) -/
theorem mapRange_exact (virtualStart physicalStart size flags : Nat) (h : WellFormed s root)
    (hvirtual : virtualStart + size ≤ virtualAddressLimit) (hphysical : physicalStart < 2 ^ 64)
    (hram : addressOf (physicalStart + size + (pageSize - 1)) ≤ s.ram.size ∨
      s.ram.size ≤ addressOf physicalStart) :
    ∃ ok s', s.mapRange root virtualStart physicalStart size flags = some (ok, s') ∧
      (ok = true →
        (∀ user access v, translate s'.ram root user v access =
          if addressOf virtualStart ≤ v ∧ v < addressOf (virtualStart + size + (pageSize - 1)) then
            if permissionGranted flags user access then .ok (physicalStart + v - virtualStart)
            else .permissionDenied
          else translate s.ram root user v access) ∧
        addressOf (virtualStart + size + (pageSize - 1)) ≤ virtualAddressLimit ∧
        addressOf (physicalStart + size + (pageSize - 1)) ≤ 2 ^ 64) := by
  rw [State.mapRange]
  split
  · exact ⟨false, s, rfl, Bool.noConfusion⟩
  next hargs =>
  simp only [not_or, ne_eq, Decidable.not_not, Nat.not_lt, gt_iff_lt] at hargs
  obtain ⟨hoffsets, hvwrap, hpwrap⟩ := hargs
  have hlimit : virtualAddressLimit = 2 ^ 39 := rfl
  have hpageSize : pageSize = 4096 := rfl
  rw [hpageSize] at hoffsets
  have hvpage := addressOf_spec virtualStart
  have hppage := addressOf_spec physicalStart
  dsimp only
  rw [if_neg (by omega), add64_of_lt (a := size) (by omega), add64_of_lt (by omega)]
  have hvlast := addressOf_spec (virtualStart + size + (pageSize - 1))
  have hplast := addressOf_spec (physicalStart + size + (pageSize - 1))
  have hlast := addressOf_spec (size + (virtualStart - addressOf virtualStart) + (pageSize - 1))
  generalize addressOf (size + (virtualStart - addressOf virtualStart) + (pageSize - 1)) = mapped
    at *
  have hvend : addressOf virtualStart + mapped =
      addressOf (virtualStart + size + (pageSize - 1)) := by
    omega
  have hpend : addressOf physicalStart + mapped =
      addressOf (physicalStart + size + (pageSize - 1)) := by
    omega
  have hvlimit : addressOf (virtualStart + size + (pageSize - 1)) ≤ virtualAddressLimit := by omega
  have hplimit : addressOf (physicalStart + size + (pageSize - 1)) ≤ 2 ^ 64 := by omega
  have hpages : (mapped - 0) / pageSize < mapped / pageSize + 1 := Nat.lt_succ_self _
  obtain ⟨ok, s', hloop, hrange⟩ := mapRangeLoop_spec h (addressOf_aligned virtualStart)
    (addressOf_aligned physicalStart) hlast.2.2 (Nat.zero_mod _) (Nat.zero_le _)
    (by rw [hvend]; exact hvlimit) (by rw [hpend]; exact hplimit) (by rw [hpend]; exact hram) hpages
  refine ⟨ok, s', hloop, fun hok => ⟨fun user access v => ?_, hvlimit, hplimit⟩⟩
  by_cases hv : v < virtualAddressLimit
  · rw [(hrange hok).translate user v access hv, Nat.add_zero, hvend]
    split
    · next hin =>
      have hphys : addressOf physicalStart + (v - addressOf virtualStart) =
          physicalStart + v - virtualStart := by omega
      rw [hphys]
    · rfl
  · have hout : ¬ (addressOf virtualStart ≤ v ∧
        v < addressOf (virtualStart + size + (pageSize - 1))) := by omega
    rw [if_neg hout, translate, translate, if_pos (Nat.le_of_not_lt hv),
      if_pos (Nat.le_of_not_lt hv)]

/-- A root without entries, at 0x1000. -/
def emptyRoot : State where
  ram := ⟨2 ^ 32, fun _ => 0⟩
  directMapSize := 2 ^ 32
  recycled := []
  fresh := [0x2000, 0x3000]
  root := 0x1000
  heapBase := 0
  heapMappedSize := 0
  space := fun _ => none

theorem emptyRoot_wellFormed : WellFormed emptyRoot 0x1000 := by
  have hlink : ∀ t i q, emptyRoot.link t i ≠ some q := by
    intro t i q
    have hzero : isValid (emptyRoot.entry t i) = false := show isValid 0 = false by decide
    rw [State.link_eq_none (.inl hzero)]
    exact (Option.some_ne_none q).symm
  have hpage : ∀ q ∈ emptyRoot.free, q % pageSize = 0 ∧ q ≠ 0 ∧ q + pageSize ≤ emptyRoot.ram.size ∧
      emptyRoot.direct q = true ∧ q ≠ 0x1000 := by decide
  have htree : Tree emptyRoot 0x1000 fun t => if t = 0x1000 then some 2 else none := by
    refine ⟨rfl, fun t k ht => ?_, fun t k _ i _ q hq => absurd hq (hlink t i q),
      fun t _ k _ _ i _ j _ q hq _ => absurd hq (hlink t i q), by decide, fun q hq => ?_,
      fun q hq => if_neg (hpage q hq).2.2.2.2⟩
    · split at ht
      · next heq => exact heq ▸ (by decide)
      · cases ht
    · obtain ⟨ha, hz, hin, hd, -⟩ := hpage q hq
      exact ⟨ha, hz, hin, hd⟩
  exact htree.wellFormed

/-- A small page, a large page and a giant page, mapped to themselves for reading. -/
theorem mapRange_exact_mixed : ∃ s', WellFormed emptyRoot 0x1000 ∧
    emptyRoot.mapRange 0x1000 0x3FDFF000 0x3FDFF000 (2 ^ 12 + 2 ^ 21 + 2 ^ 30) 3 = some (true, s') ∧
    translate s'.ram 0x1000 false 0x3FDFF123 .read = .ok 0x3FDFF123 ∧
    translate s'.ram 0x1000 false 0x40000123 .write = .permissionDenied ∧
    translate s'.ram 0x1000 false 0x80000000 .read = .notPresent := by
  obtain ⟨ok, s', hmap, h⟩ := mapRange_exact 0x3FDFF000 0x3FDFF000 (2 ^ 12 + 2 ^ 21 + 2 ^ 30) 3
    emptyRoot_wellFormed (by decide) (by decide) (.inl (by decide))
  have hok : (emptyRoot.mapRange 0x1000 0x3FDFF000 0x3FDFF000 (2 ^ 12 + 2 ^ 21 + 2 ^ 30) 3).any
      (·.1) = true := by decide +kernel
  rw [hmap] at hok
  obtain rfl : ok = true := hok
  obtain ⟨htranslate, -⟩ := h rfl
  refine ⟨s', emptyRoot_wellFormed, hmap, ?_, ?_, ?_⟩
  · rw [htranslate]
    decide
  · rw [htranslate]
    decide
  · rw [htranslate]
    decide

end RiscMv.Paging
