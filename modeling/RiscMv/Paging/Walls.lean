import RiscMv.Paging.Guard

/-!
# Address spaces are kept apart

`Walls` is the invariant of the page tables as far as user mode is concerned: every page is free,
or in one of the kernel's tables, or in one record of one address space.  In contrast to `Layout`
it does not say that address spaces see what the kernel maps, so the kernel may map what it likes:
its new tables come from the allocator, so no address space has them, and it makes no entry for user
mode.

## Key results
- `KernelTables.enter`, `KernelTables.leaf`: mappings of the kernel
- `walled`: the operations keep the invariant
-/

namespace RiscMv.Paging

variable {s s' : State} {k1 : Nat} {L1 L0 L1' L0' : Set Nat}
  {space : Nat → Option AddressSpace} {id : Nat} {sp sp' : AddressSpace} {p q t j v va : Nat}
  {r : AddressPage} {ps : List Nat}

/-! ## The invariant -/

/-- A table refers to another. -/
def LinksTo (s : State) (t q : Nat) : Prop :=
  ∃ i < 512, isValid (s.entry t i) = true ∧ isLeaf (s.entry t i) = false ∧
    addressOf (s.entry t i) = q

/-- The page tables that belong to a root. -/
def TablePage (s : State) (root q : Nat) : Prop :=
  q = root ∨ LinksTo s root q ∨ ∃ t, LinksTo s root t ∧ LinksTo s t q

/-- The kernel's tables: none but those of its root, and no large page in the user range. -/
structure KernelTables (s : State) (k1 : Nat) (L1 L0 : Set Nat) : Prop where
  tables : Tables s k1 L1 L0
  flat : ∀ j, 8 ≤ j → j < 504 → isValid (s.entry k1 j) = true → isLeaf (s.entry k1 j) = false
  reach1 : ∀ q ∈ L1, LinksTo s s.root q
  reach0 : ∀ q ∈ L0, ∃ t, (t = k1 ∨ t ∈ L1) ∧ LinksTo s t q
  apart : ∀ q ∈ L1, q ∉ L0

/-- The address spaces, with external pages as their own. -/
def claims (space : Nat → Option AddressSpace) (id : Nat) : Option AddressSpace :=
  (space id).map AddressSpace.claimed

/-- The invariant of the page tables for user mode. -/
structure Walls (s : State) (space : Nat → Option AddressSpace) (k1 : Nat) (L1 L0 : Set Nat) :
    Prop where
  kernel : KernelTables s k1 L1 L0
  owns : Owns s (claims space) (kernelPages s.root k1 L1 L0)
  spaces : ∀ id sp, space id = some sp → SpaceOk s L1 L0 sp

/-! ## The kernel's tables -/

namespace KernelTables

variable (h : KernelTables s k1 L1 L0)
include h

/-- What is to show when the kernel's tables change: no link is lost, and new tables are linked. -/
theorem update (htables : Tables s' k1 L1' L0') (hroot : s'.root = s.root) (hL1 : L1 ⊆ L1')
    (hkeep : ∀ q, q = s.root ∨ q = k1 ∨ q ∈ L1 → ∀ i < 512, s'.entry q i = s.entry q i ∨
      isValid (s.entry q i) = false ∧ isLeaf (s'.entry q i) = false)
    (hreach1 : ∀ q ∈ L1', q ∈ L1 ∨ LinksTo s' s.root q)
    (hreach0 : ∀ q ∈ L0', q ∈ L0 ∨ ∃ t, (t = k1 ∨ t ∈ L1') ∧ LinksTo s' t q)
    (hapart : ∀ q ∈ L1', q ∉ L0') : KernelTables s' k1 L1' L0' := by
  have hlink : ∀ t, t = s.root ∨ t = k1 ∨ t ∈ L1 → ∀ q, LinksTo s t q → LinksTo s' t q := by
    rintro t ht q ⟨i, hi, hv, hl, ha⟩
    rcases hkeep t ht i hi with he | ⟨hinvalid, -⟩
    · exact ⟨i, hi, by rw [he]; exact hv, by rw [he]; exact hl, by rw [he]; exact ha⟩
    · cases hv.symm.trans hinvalid
  refine ⟨htables, fun j h8 h504 hv => ?_, fun q hq => ?_, fun q hq => ?_, hapart⟩
  · rcases hkeep k1 (.inr (.inl rfl)) j (by omega) with he | ⟨-, hl⟩
    · rw [he] at hv ⊢
      exact h.flat j h8 h504 hv
    · exact hl
  · rw [hroot]
    exact (hreach1 q hq).elim (fun hq => hlink _ (.inl rfl) q (h.reach1 q hq)) fun hnew => hnew
  · rcases hreach0 q hq with hq | hnew
    · obtain ⟨t, ht, hold⟩ := h.reach0 q hq
      exact ⟨t, ht.imp_right fun hl => hL1 hl, hlink t (.inr ht) q hold⟩
    · exact hnew

theorem frame (hs : Same s s')
    (hentry : ∀ q ∈ kernelPages s.root k1 L1 L0, ∀ i < 512, s'.entry q i = s.entry q i) :
    KernelTables s' k1 L1 L0 :=
  h.update (h.tables.frame hs hentry) hs.root subset_rfl
    (fun q hq i hi => .inl (hentry q (hq.imp_right (Or.imp_right .inl)) i hi)) (fun _ => .inl)
    (fun _ => .inl) h.apart

/-- A new table is linked. -/
theorem enter (ha : Allocated s p s') (hp : Page s p ∧ p ∉ kernelPages s.root k1 L1 L0)
    (he : Enters s.root k1 L1 L0 p t j L1' L0') (hj : j < 512)
    (hinvalid : isValid (s.entry t j) = false) :
    KernelTables (s'.setEntry t j (p ||| pteValid)) k1 L1' L0' := by
  have hpa := hp.1.aligned
  have hentry := fun {q i} => ha.entry_enter (q := q) (i := i) (v := p ||| pteValid) hp.2
    h.tables.aligned he.mem hj
  have hnew : LinksTo (s'.setEntry t j (p ||| pteValid)) t p := by
    refine ⟨j, hj, ?_, ?_, ?_⟩ <;> rw [hentry he.mem hj, if_pos ⟨rfl, rfl⟩]
    · exact isValid_table hpa
    · exact isLeaf_table hpa
    · exact addressOf_entry hpa (by decide)
  refine h.update (h.tables.enter ha hp he hj) ha.same.root he.subset.1 (fun q hq i hi => ?_) ?_
    ?_ ?_
  · rw [hentry (hq.imp_right (Or.imp_right .inl)) hi]
    split
    · next heq =>
      rw [heq.1, heq.2]
      exact .inr ⟨hinvalid, isLeaf_table hpa⟩
    · exact .inl rfl
  · cases he with
    | level1 => exact fun q hq => hq.symm.imp_right fun (hqp : q = p) => hqp ▸ hnew
    | level0 => exact fun q hq => .inl hq
  · cases he with
    | level1 => exact fun q hq => .inl hq
    | level0 ht => exact fun q hq => hq.symm.imp_right fun (hqp : q = p) => ⟨t, ht, hqp ▸ hnew⟩
  · cases he with
    | level1 =>
      rintro q (rfl | hq)
      · exact fun hmem => hp.2 (.inr (.inr (.inr hmem)))
      · exact h.apart q hq
    | level0 =>
      rintro q hq (rfl | hmem)
      · exact hp.2 (.inr (.inr (.inl hq)))
      · exact h.apart q hq hmem

/-- A store of a small page of the kernel's. -/
theorem leaf (hq : q ∈ L0) (hj : j < 512) (huser : isUser v = false) (hleaf : isLeaf v = true) :
    KernelTables (s.setEntry q j v) k1 L1 L0 := by
  refine h.update (h.tables.leaf hq hj huser hleaf) rfl subset_rfl (fun t ht i hi => .inl ?_)
    (fun _ => .inl) (fun _ => .inl) h.apart
  rw [State.entry_setEntry _ (h.tables.aligned t (ht.imp_right (Or.imp_right .inl)))
    (h.tables.aligned q (.inr (.inr (.inr hq)))) hi hj, if_neg]
  rintro ⟨rfl, -⟩
  rcases ht with he | he | he
  · exact h.tables.root_apart.2.2 (he ▸ hq)
  · exact h.tables.k1_apart.2 (he ▸ hq)
  · exact h.apart t he hq

end KernelTables

/-! ## The operations -/

/-- The invariant for user mode, as one that the operations keep. -/
def walled : Guard where
  Kernel := KernelTables
  Space s _ := SpaceOk s
  shared := false
  tables h := h.tables
  kernel_frame h := h.frame
  enter h := h.enter
  leaf h := h.leaf
  linked h := h.linked
  frame h hL1 hL0 hentry _ := h.frame hL1 hL0 hentry
  fresh h hl hne := by
    obtain ⟨-, -, hlevel1⟩ := entry_copyTables_new h.tables hl hne
    refine ⟨linked_fresh h.tables hl hne, fun j h8 h504 _ => ?_, nofun, nofun, nofun, ?_⟩
    · rw [AddressSpace.fresh_level1, hlevel1 j (by omega)]
      exact h.flat j h8 h504
    · simp [AddressSpace.records, AddressSpace.fresh]
  addTable h := h.addTable
  own h _ ht := h.own ht
  map h _ hv hp hflags hkind hst := h.map hst hv.aligned hv.invalid (hp rfl) hflags hkind
  unmap h _ hr hst := h.unmap hr hst
  pages _ _ _ _ _ _ h := h.pages

theorem Guarded.walls (h : Guarded walled s space ps k1 L1 L0) : Walls s space k1 L1 L0 :=
  ⟨h.kernel, h.owns, h.spaces⟩

namespace Walls

variable (h : Walls s space k1 L1 L0)
include h

theorem guarded : Guarded walled s space [] k1 L1 L0 := ⟨h.kernel, h.owns, .nil, h.spaces⟩

/-- Nothing changes but what is not in a table. -/
theorem frame (hs : Same s s') (hfree : s'.free = s.free)
    (hentry : ∀ q, Watched s space k1 L1 L0 q → ∀ i < 512, s'.entry q i = s.entry q i) :
    Walls s' space k1 L1 L0 := by
  have hmove : (s'.free ++ []).Subperm (s.free ++ []) := hfree ▸ List.Subperm.refl _
  exact (h.guarded.keep hs hmove hentry).walls

theorem table_page (hsp : space id = some sp) (hq : q ∈ sp.tables) :
    Page s q ∧ q ∉ kernelPages s.root k1 L1 L0 ∧ q ∉ s.free := h.guarded.table hsp hq

/-- A page with a record belongs to that address space. -/
theorem page (hsp : space id = some sp) (hr : r ∈ sp.pages) : Page s r.physicalAddress ∧
      r.physicalAddress ∉ kernelPages s.root k1 L1 L0 ∧ r.physicalAddress ∉ s.free :=
  h.owns.held id _ (walled.claims_some hsp) _ (walled.mem_held hr rfl)

/-- Two records of one page are the same record. -/
theorem page_injective {id' : Nat} (hsp : space id = some sp) (hsp' : space id' = some sp')
    {r r' : AddressPage} (hr : r ∈ sp.pages) (hr' : r' ∈ sp'.pages)
    (hp : r.physicalAddress = r'.physicalAddress) : id = id' ∧ r = r' := by
  by_cases hid : id = id'
  · subst hid
    rw [hsp] at hsp'
    cases hsp'
    have hn := h.owns.held_nodup id _ (walled.claims_some hsp)
    rw [show walled.view sp = sp.claimed from rfl, AddressSpace.claimed_held] at hn
    exact ⟨rfl, List.inj_on_of_nodup_map hn hr hr' hp⟩
  · refine absurd ?_ (h.owns.apart id id' _ _ (walled.claims_some hsp) (walled.claims_some hsp') hid
      r.physicalAddress (walled.mem_held hr rfl))
    rw [hp]
    exact walled.mem_held hr' rfl

/-- A table of the address space for the page. -/
theorem userTable (hsp : space id = some sp) (ho : sp.ownedLevel0 (tableIndex va 21) = true) :
    addressOf (s.entry sp.level1 (tableIndex va 21)) ∈ sp.tables :=
  ((h.spaces id sp hsp).linked.level1_table (tableIndex_lt va 21) ho).1.mem

end Walls

end RiscMv.Paging
