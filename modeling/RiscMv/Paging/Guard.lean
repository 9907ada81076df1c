import RiscMv.Paging.KernelMap
import RiscMv.Paging.SpaceRules

/-!
# Invariants of the page tables

Two invariants of the page tables are kept by all operations: one is about what address spaces share
with the kernel, the other about what user mode can reach.  Both say something of the kernel's
tables and of each address space that depends on the entries of their tables only, and both say who
owns which page.  A `Guard` has what is different; `Guarded` is the invariant.

## Key results
- `Guarded.keep`, `Guarded.change`: what is to show when no address space changes, or one
- `Guard.tableRules`, `Guard.spaceRules`: the steps of the operations keep the invariant
- `Guarded.step`: so does every operation
-/

namespace RiscMv.Paging

variable {s s' : State} {k1 p q t j v va flags id : Nat} {L1 L0 L1' L0' : Set Nat}
  {space : Nat → Option AddressSpace} {sp sp' : AddressSpace} {r : AddressPage} {ps ps' : List Nat}

/-! ## Guards -/

/-- What an invariant says of the kernel's tables and of an address space, and why stores keep
    it. -/
structure Guard where
  Kernel : State → Nat → Set Nat → Set Nat → Prop
  Space : State → Nat → Set Nat → Set Nat → AddressSpace → Prop
  /-- Whether address spaces have to have the kernel's entries.  If not, pages that are mapped by
      their address count as pages of the address space, and the entries for user mode are those of
      the records. -/
  shared : Bool
  tables : ∀ {s k1 L1 L0}, Kernel s k1 L1 L0 → Tables s k1 L1 L0
  kernel_frame : ∀ {s s' k1 L1 L0}, Kernel s k1 L1 L0 → Same s s' →
    (∀ q ∈ kernelPages s.root k1 L1 L0, ∀ i < 512, s'.entry q i = s.entry q i) →
    Kernel s' k1 L1 L0
  enter : ∀ {s s' k1 L1 L0 L1' L0' p t j}, Kernel s k1 L1 L0 → Allocated s p s' →
    Page s p ∧ p ∉ kernelPages s.root k1 L1 L0 → Enters s.root k1 L1 L0 p t j L1' L0' → j < 512 →
    isValid (s.entry t j) = false → Kernel (s'.setEntry t j (p ||| pteValid)) k1 L1' L0'
  leaf : ∀ {s k1 L1 L0 q j v}, Kernel s k1 L1 L0 → q ∈ L0 → j < 512 → isUser v = false →
    isLeaf v = true → Kernel (s.setEntry q j v) k1 L1 L0
  linked : ∀ {s k1 L1 L0 sp}, Space s k1 L1 L0 sp → Linked s L1 L0 sp
  frame : ∀ {s s' k1 L1 L0 L1' L0' sp}, Space s k1 L1 L0 sp → L1 ⊆ L1' → L0 ⊆ L0' →
    (∀ q ∈ sp.tables, ∀ i < 512, s'.entry q i = s.entry q i) →
    (shared = true → SameRoots s s' k1) → Space s' k1 L1' L0' sp
  fresh : ∀ {s k1 L1 L0 r l}, Kernel s k1 L1 L0 →
    (∀ q ∈ [r, l], Page s q ∧ q ∉ kernelPages s.root k1 L1 L0 ∧ q ∉ s.free) → r ≠ l →
    Space (s.copyTables r l k1) k1 L1 L0 (.fresh r l)
  addTable : ∀ {s k1 L1 L0 sp p}, Space s k1 L1 L0 sp →
    Space s k1 L1 L0 { sp with pages := sp.pages ++ [⟨p, 0, .table⟩] }
  own : ∀ {s s' k1 L1 L0 sp p j}, Space s k1 L1 L0 sp → SameRoots s s' k1 →
    TableAdded s sp p j s' →
    Space s' k1 L1 L0 { sp with ownedLevel0 := Function.update sp.ownedLevel0 j true }
  map : ∀ {s s' k1 L1 L0 sp p va flags kind}, Space s k1 L1 L0 sp → SameRoots s s' k1 →
    Vacant s sp va → (shared = false → p % pageSize = 0) → State.userFlags flags = true →
    kind ≠ .table → EntryStored s sp va (p ||| (pteValid ||| pteUser ||| flags)) s' →
    Space s' k1 L1 L0 { sp with pages := sp.pages ++ [⟨p, va, kind⟩] }
  unmap : ∀ {s s' k1 L1 L0 sp r}, Space s k1 L1 L0 sp → SameRoots s s' k1 → r ∈ sp.records →
    EntryStored s sp r.virtualAddress 0 s' → Space s' k1 L1 L0 (sp.erase r)
  pages : shared = false → ∀ {s k1 L1 L0 sp}, Space s k1 L1 L0 sp → UserPages s sp

/-- An address space that holds all the pages it has records of. -/
def AddressSpace.claimed (sp : AddressSpace) : AddressSpace :=
  { sp with pages := sp.pages.map fun r => { r with kind := .user } }

theorem AddressSpace.claimed_held (sp : AddressSpace) :
    sp.claimed.held = sp.pages.map (·.physicalAddress) := by
  simp only [AddressSpace.held, AddressSpace.claimed]
  rw [List.filter_eq_self.mpr (by simp), List.map_map]
  rfl

namespace Guard

variable (g : Guard)

/-- The kinds of pages that count as pages of an address space. -/
def keeps (kind : PageKind) : Bool := !g.shared || kind ≠ .external

/-- An address space with the pages that count as its own. -/
def view (sp : AddressSpace) : AddressSpace := if g.shared then sp else sp.claimed

/-- The address spaces with the pages that count as their own. -/
def claims (space : Nat → Option AddressSpace) (id : Nat) : Option AddressSpace :=
  (space id).map g.view

/-- Of the pages that are to be mapped, those that have to be no one's. -/
def lent (ps : List Nat) : List Nat := if g.shared then [] else ps

theorem lent_nil : g.lent [] = [] := by
  rw [lent, ite_self]

theorem held_view (sp : AddressSpace) :
    (g.view sp).held = (sp.pages.filter (g.keeps ·.kind)).map (·.physicalAddress) := by
  cases hg : g.shared
  · simp [view, keeps, hg, AddressSpace.claimed_held]
  · simp [view, keeps, hg, AddressSpace.held]

theorem held_append (sp : AddressSpace) (r : AddressPage) (hk : g.keeps r.kind = true) :
    (g.view { sp with pages := sp.pages ++ [r] }).held =
      (g.view sp).held ++ [r.physicalAddress] := by
  simp [held_view, hk]

theorem held_erase (sp : AddressSpace) (r : AddressPage) : (g.view (sp.erase r)).held =
    ((sp.pages.filter (g.keeps ·.kind)).erase r).map (·.physicalAddress) := by
  rw [held_view, List.erase_filter]
  rfl

theorem keeps_of_ne {kind : PageKind} (hk : kind ≠ .external) : g.keeps kind = true := by
  simp [keeps, hk]

theorem mem_held (hr : r ∈ sp.pages) (hk : g.keeps r.kind = true) :
    r.physicalAddress ∈ (g.view sp).held := by
  rw [held_view]
  exact List.mem_map_of_mem (List.mem_filter.mpr ⟨hr, hk⟩)

theorem mem_held_of_tables (hq : q ∈ sp.tables) : q ∈ (g.view sp).held := by
  obtain ⟨r, hr, hk, rfl⟩ := AddressSpace.mem_tables.mp hq
  exact g.mem_held hr (g.keeps_of_ne (by rw [hk]; nofun))

theorem claims_some (hsp : space id = some sp) : g.claims space id = some (g.view sp) := by
  rw [claims, hsp]
  rfl

theorem claims_update (space : Nat → Option AddressSpace) (id : Nat) (o : Option AddressSpace) :
    g.claims (Function.update space id o) =
      Function.update (g.claims space) id (o.map g.view) := by
  funext k
  simp only [claims, Function.update_apply]
  split <;> rfl

end Guard

/-- The invariant of the page tables that a guard stands for, with pages `ps` that are no one's. -/
structure Guarded (g : Guard) (s : State) (space : Nat → Option AddressSpace) (ps : List Nat)
    (k1 : Nat) (L1 L0 : Set Nat) : Prop where
  kernel : g.Kernel s k1 L1 L0
  owns : Owns s (g.claims space) (kernelPages s.root k1 L1 L0)
  limbo : Limbo s (g.claims space) (kernelPages s.root k1 L1 L0) ps
  spaces : ∀ id sp, space id = some sp → g.Space s k1 L1 L0 sp

/-- A page whose entries the invariant is about. -/
def Watched (s : State) (space : Nat → Option AddressSpace) (k1 : Nat) (L1 L0 : Set Nat)
    (q : Nat) : Prop :=
  q ∈ kernelPages s.root k1 L1 L0 ∨ ∃ id sp, space id = some sp ∧ q ∈ sp.tables

theorem SameRoots.of_watched (hs : Same s s')
    (hentry : ∀ q, Watched s space k1 L1 L0 q → ∀ i < 512, s'.entry q i = s.entry q i) :
    SameRoots s s' k1 :=
  ⟨hs.root, fun q hq => hentry q (.inl (hq.imp_right .inl))⟩

namespace Guarded

variable {g : Guard} (h : Guarded g s space ps k1 L1 L0)

include h

/-! ## Owners -/

/-- The tables of an address space are its own pages. -/
theorem table (hsp : space id = some sp) (hq : q ∈ sp.tables) :
    Page s q ∧ q ∉ kernelPages s.root k1 L1 L0 ∧ q ∉ s.free :=
  h.owns.held id _ (g.claims_some hsp) q (g.mem_held_of_tables hq)

theorem watched (hq : Watched s space k1 L1 L0 q) :
    q % pageSize = 0 ∧ q ∉ s.free ∧ q ∉ ps := by
  rcases hq with hK | ⟨id, sp, hsp, hq⟩
  · exact ⟨(g.tables h.kernel).aligned q hK, fun hf => (h.owns.free q hf).2 hK,
      fun hp => (h.limbo.page q hp).2.1 hK⟩
  · obtain ⟨hpage, -, hf⟩ := h.table hsp hq
    exact ⟨hpage.aligned, hf, fun hp => h.limbo.apart q hp id _ (g.claims_some hsp)
      (g.mem_held_of_tables hq)⟩

/-- What is to show when no address space changes: pages move between the allocator and no one, and
    the stores are to pages that are not watched. -/
theorem keep (hs : Same s s') (hmove : (s'.free ++ ps').Subperm (s.free ++ ps))
    (hentry : ∀ q, Watched s space k1 L1 L0 q → ∀ i < 512, s'.entry q i = s.entry q i) :
    Guarded g s' space ps' k1 L1 L0 := by
  obtain ⟨howns, hlimbo⟩ := h.owns.exchange h.limbo hs hmove
  rw [← hs.root] at howns hlimbo
  refine ⟨g.kernel_frame h.kernel hs fun q hq => hentry q (.inl hq), howns, hlimbo,
    fun id sp hsp => g.frame (h.spaces id sp hsp) subset_rfl subset_rfl (fun q hq => ?_)
      fun _ => .of_watched hs hentry⟩
  exact hentry q (.inr ⟨id, sp, hsp, hq⟩)

/-- The list of the address spaces does not matter for what is in RAM. -/
theorem with_space (f : Nat → Option AddressSpace) :
    Guarded g { s with space := f } space ps k1 L1 L0 :=
  h.keep ⟨rfl, rfl, rfl, rfl⟩ (List.Subperm.refl _) fun _ _ _ _ => rfl

/-- An address space is taken away; its pages are no one's. -/
theorem remove (hsp : space id = some sp) :
    Guarded g s (Function.update space id none) ((g.view sp).held ++ ps) k1 L1 L0 := by
  obtain ⟨howns, hlimbo⟩ := h.owns.remove h.limbo (g.claims_some hsp)
  have hclaims := g.claims_update space id none
  rw [Option.map_none] at hclaims
  rw [← hclaims] at howns hlimbo
  refine ⟨h.kernel, howns, hlimbo, fun j sp₂ hj => ?_⟩
  rw [Function.update_apply] at hj
  split at hj
  · cases hj
  · exact h.spaces j sp₂ hj

omit h in
/-- A finished address space takes its pages. -/
theorem adopt (h : Guarded g s space ((g.view sp).held ++ ps) k1 L1 L0)
    (hok : g.Space s k1 L1 L0 sp) (id : Nat) :
    Guarded g s (Function.update space id (some sp)) ps k1 L1 L0 := by
  obtain ⟨howns, hlimbo⟩ := h.owns.adopt h.limbo id
  have hclaims := g.claims_update space id (some sp)
  rw [Option.map_some] at hclaims
  rw [← hclaims] at howns hlimbo
  refine ⟨h.kernel, howns, hlimbo, fun j sp₂ hj => ?_⟩
  rw [Function.update_apply] at hj
  split at hj
  · cases hj
    exact hok
  · exact h.spaces j sp₂ hj

/-- What is to show when one address space changes: the stores are to its pages and to free
    pages. -/
theorem change (hsp : space id = some sp) (hs : Same s s')
    (hmove : (s'.free ++ ((g.view sp').held ++ ps')).Subperm (s.free ++ ((g.view sp).held ++ ps)))
    (hentry : ∀ q, q % pageSize = 0 → q ∉ s.free → q ∉ (g.view sp).held → ∀ i < 512,
      s'.entry q i = s.entry q i)
    (hok : SameRoots s s' k1 → g.Space s' k1 L1 L0 sp') :
    Guarded g s' (Function.update space id (some sp')) ps' k1 L1 L0 := by
  have h₁ := h.remove hsp
  have hwatched : ∀ q, Watched s (Function.update space id none) k1 L1 L0 q → ∀ i < 512,
      s'.entry q i = s.entry q i := by
    intro q hq
    obtain ⟨ha, hf, hnot⟩ := h₁.watched hq
    exact hentry q ha hf fun hheld => hnot (List.mem_append_left _ hheld)
  have h₂ := (h₁.keep hs hmove hwatched).adopt (hok (.of_watched hs hwatched)) id
  rwa [Function.update_idem] at h₂

/-! ## The kernel's tables -/

/-- A new table is entered.  Address spaces have copies of the root and of the first-gigabyte table,
    so if they have to have the entries, those are only changed while there is none. -/
theorem enter (ha : Allocated s p s') (he : Enters s.root k1 L1 L0 p t j L1' L0') (hj : j < 512)
    (hv : isValid (s.entry t j) = false)
    (hmay : t = s.root ∨ t = k1 → g.shared = true → ∀ id, space id = none) :
    Guarded g (s'.setEntry t j (p ||| pteValid)) space ps k1 L1' L0' := by
  have hp := h.owns.free p ha.mem
  have hta := (h.watched (.inl he.mem)).1
  have hother : ∀ q, q % pageSize = 0 → q ∉ s.free → q ≠ t → ∀ i < 512,
      (s'.setEntry t j (p ||| pteValid)).entry q i = s.entry q i := by
    intro q hq hf hne i hi
    rw [State.entry_setEntry _ hq hta hi hj, if_neg (fun he => hne he.1),
      ha.entry_of_not_free hq hf i hi]
  obtain ⟨howns, hlimbo⟩ := h.owns.allocate_kernel h.limbo ha
  have hstored : Same s' (s'.setEntry t j (p ||| pteValid)) := ⟨rfl, rfl, rfl, rfl⟩
  obtain ⟨howns, hlimbo⟩ := howns.exchange hlimbo hstored (List.Subperm.refl _)
  have hK : kernelPages (s'.setEntry t j (p ||| pteValid)).root k1 L1' L0' =
      insert p (kernelPages s.root k1 L1 L0) := by
    rw [← he.kernelPages]
    exact congrArg (kernelPages · k1 L1' L0') ha.same.root
  rw [← hK] at howns hlimbo
  refine ⟨g.enter h.kernel ha hp he hj hv, howns, hlimbo, fun id sp hsp =>
    g.frame (h.spaces id sp hsp) he.subset.1 he.subset.2 (fun q hq => ?_)
      fun hs => ⟨ha.same.root, fun q hq => ?_⟩⟩
  · obtain ⟨hpage, hnot, hf⟩ := h.table hsp hq
    exact hother q hpage.aligned hf fun hqt => hnot (hqt ▸ he.mem)
  · obtain ⟨hqa, hf, -⟩ := h.watched (.inl (hq.imp_right .inl))
    refine hother q hqa hf ?_
    -- there is an address space, so the table is one that all roots share
    rintro rfl
    cases hsp.symm.trans (hmay hq hs id)

/-- A small page is entered in a table that all roots share. -/
theorem leaf (hq : q ∈ L0) (hj : j < 512) (huser : isUser v = false) (hleaf : isLeaf v = true) :
    Guarded g (s.setEntry q j v) space ps k1 L1 L0 := by
  have htables := g.tables h.kernel
  have hqK : q ∈ kernelPages s.root k1 L1 L0 := .inr (.inr (.inr hq))
  have hother : ∀ t, Watched s space k1 L1 L0 t → t ≠ q → ∀ i < 512,
      (s.setEntry q j v).entry t i = s.entry t i := by
    intro t ht hne i hi
    rw [State.entry_setEntry _ (h.watched ht).1 (htables.aligned q hqK) hi hj,
      if_neg (fun he => hne he.1)]
  have hstored : Same s (s.setEntry q j v) := ⟨rfl, rfl, rfl, rfl⟩
  obtain ⟨howns, hlimbo⟩ := h.owns.exchange h.limbo hstored (List.Subperm.refl _)
  refine ⟨g.leaf h.kernel hq hj huser hleaf, howns, hlimbo, fun id sp hsp =>
    g.frame (h.spaces id sp hsp) subset_rfl subset_rfl (fun t ht => ?_)
      fun _ => ⟨rfl, fun t ht => ?_⟩⟩
  · exact hother t (.inr ⟨id, sp, hsp, ht⟩) fun he => (h.table hsp ht).2.1 (he ▸ hqK)
  · refine hother t (.inl (ht.imp_right .inl)) ?_
    rintro rfl
    exact ht.elim (fun he => htables.root_apart.2.2 (he ▸ hq))
      fun he => htables.k1_apart.2 (he ▸ hq)

/-! ## One address space -/

/-- A page is allocated for a table. -/
theorem addTable (hsp : space id = some sp) (ha : Allocated s p s') :
    Guarded g s' (Function.update space id
      (some { sp with pages := sp.pages ++ [⟨p, 0, .table⟩] })) ps k1 L1 L0 := by
  refine h.change hsp ha.same ?_ (fun q hq hf _ => ha.entry_of_not_free hq hf) fun hk => ?_
  · rw [g.held_append _ _ (g.keeps_of_ne (by nofun))]
    exact ha.subperm _ _
  · refine g.addTable (g.frame (h.spaces id sp hsp) subset_rfl subset_rfl (fun q hq => ?_)
      fun _ => hk)
    obtain ⟨hpage, -, hf⟩ := h.table hsp hq
    exact ha.entry_of_not_free hpage.aligned hf

/-- A new table of an address space takes over the entries of the kernel's table. -/
theorem own (hsp : space id = some sp) (ha : Allocated s p s') (hj : 8 ≤ j ∧ j < 504)
    (ho : sp.ownedLevel0 j = false)
    (hleaf : isValid (s.entry sp.level1 j) = true → isLeaf (s.entry sp.level1 j) = false) :
    Guarded g ((if isValid (s.entry sp.level1 j) then
        s'.copyEntries p (addressOf (s.entry sp.level1 j)) 0 else s').setEntry sp.level1 j
          (p ||| pteValid))
      (Function.update space id (some { sp with
        pages := sp.pages ++ [⟨p, 0, .table⟩]
        ownedLevel0 := Function.update sp.ownedLevel0 j true })) ps k1 L1 L0 := by
  have hl := g.linked (h.spaces id sp hsp)
  have hla := (h.table hsp hl.level1_mem).1.aligned
  have hpa := (h.owns.free p ha.mem).1.aligned
  have hj' : j < 512 := by omega
  -- the new page is none of the tables that the space had
  have hnew : ∀ q ∈ sp.tables, q ≠ p := fun q hq he => (h.table hsp hq).2.2 (he ▸ ha.mem)
  generalize hold : s.entry sp.level1 j = old at hleaf ⊢
  generalize hs₁ : (if isValid old then s'.copyEntries p (addressOf old) 0 else s') = s₁
  have hsame : Same s' s₁ ∧ s₁.free = s'.free := by
    rw [← hs₁]
    split <;> exact ⟨⟨rfl, rfl, rfl, rfl⟩, rfl⟩
  have hcopy : ∀ q, q % pageSize = 0 → ∀ i < 512, s₁.entry q i =
      if q = p then if isValid old then s'.entry (addressOf old) i else 0 else s.entry q i := by
    intro q hq i hi
    have he := ha.entry q i hq hi
    rw [← hs₁]
    split
    · rw [State.entry_copyEntries hq hpa hi]
      split_ifs with h₁ h₂ h₂
      · rfl
      · exact absurd h₁.1 h₂
      · exact absurd ⟨h₂, Nat.zero_le i⟩ h₁
      · rw [he, if_neg h₂]
    · exact he
  have hentry : ∀ q, q % pageSize = 0 → q ≠ p → ∀ i < 512,
      (s₁.setEntry sp.level1 j (p ||| pteValid)).entry q i =
        if q = sp.level1 ∧ i = j then p ||| pteValid else s.entry q i := by
    intro q hq hqp i hi
    rw [State.entry_setEntry _ hq hla hi hj', hcopy q hq i hi, if_neg hqp]
  refine h.change hsp ((ha.same.trans hsame.1).trans ⟨rfl, rfl, rfl, rfl⟩) ?_
    (fun q hq hf hnot i hi => ?_) fun hk => g.own (g.addTable (h.spaces id sp hsp)) hk
      ⟨?_, hpa, hj, ho, fun k hk hok => ?_, fun q hq hqp => ?_, fun i hi hv => ?_⟩
  · have hheld := g.held_append sp ⟨p, 0, .table⟩ (g.keeps_of_ne (by nofun))
    have hview : (g.view { sp with
        pages := sp.pages ++ [⟨p, 0, .table⟩]
        ownedLevel0 := Function.update sp.ownedLevel0 j true }).held =
        (g.view sp).held ++ [p] := by rw [← hheld, g.held_view, g.held_view]
    rw [hview]
    exact hsame.2 ▸ ha.subperm _ _
  · rw [hentry q hq (fun he => hf (he ▸ ha.mem)) i hi, if_neg]
    rintro ⟨rfl, -⟩
    exact hnot (g.mem_held_of_tables hl.level1_mem)
  · exact ⟨AddressSpace.mem_tables.mpr ⟨⟨p, 0, .table⟩, by simp, rfl, rfl⟩,
      (hnew _ hl.root_mem).symm, (hnew _ hl.level1_mem).symm⟩
  · exact hnew _ (hl.level1_table hk hok).1.mem
  · obtain ⟨r, hr, hk, rfl⟩ := AddressSpace.mem_tables.mp hq
    rcases List.mem_append.mp hr with hr | hr
    · exact hentry _ (h.table hsp (AddressSpace.mem_tables.mpr ⟨r, hr, hk, rfl⟩)).1.aligned hqp
    · exact absurd (congrArg AddressPage.physicalAddress (List.mem_singleton.mp hr)) hqp
  · rw [State.entry_setEntry _ hpa hla hi hj',
      if_neg (fun he => hnew _ hl.level1_mem he.1.symm), hcopy p hpa i hi, if_pos rfl] at hv ⊢
    split at hv
    · next hvalid =>
      -- the old table is one of the kernel's
      have hlink := hl.level1_links j hj' ho
      rw [hold] at hlink
      have hL0 := (hlink hvalid).2 (hleaf hvalid)
      obtain ⟨hqa, hf, -⟩ := h.watched (.inl (.inr (.inr (.inr hL0))))
      rw [if_pos hvalid, ha.entry_of_not_free hqa hf i hi] at *
      exact (g.tables h.kernel).level0 _ hL0 i hi hv
    · simp [isValid] at hv

/-- A store to a private table, as the address space sees it. -/
theorem entryStored (hsp : space id = some sp) (hva : InUser va)
    (ho : sp.ownedLevel0 (tableIndex va 21) = true)
    (hentry : ∀ q, q % pageSize = 0 → q ∉ s.free → ∀ i < 512, s'.entry q i = s.entry q i) :
    EntryStored s sp va v (s'.setEntry (addressOf (s.entry sp.level1 (tableIndex va 21)))
      (tableIndex va 12) v) ∧
    ∀ q, q % pageSize = 0 → q ∉ s.free → q ∉ (g.view sp).held → ∀ i < 512,
      (s'.setEntry (addressOf (s.entry sp.level1 (tableIndex va 21))) (tableIndex va 12) v).entry
        q i = s.entry q i := by
  obtain ⟨ht, hta⟩ := (g.linked (h.spaces id sp hsp)).level1_table (tableIndex_lt va 21) ho
  refine ⟨⟨hva, ho, fun q hq i hi => ?_⟩, fun q hq hf hnot i hi => ?_⟩
  · obtain ⟨hpage, -, hf⟩ := h.table hsp hq
    rw [State.entry_setEntry _ hpage.aligned hta hi (tableIndex_lt va 12),
      hentry q hpage.aligned hf i hi]
  · rw [State.entry_setEntry _ hq hta hi (tableIndex_lt va 12), hentry q hq hf i hi, if_neg]
    rintro ⟨rfl, -⟩
    exact hnot (g.mem_held_of_tables ht.mem)

/-- A new page is mapped. -/
theorem mapUser (hsp : space id = some sp) (ha : Allocated s p s') (hv : Vacant s sp va)
    (hflags : State.userFlags flags = true) :
    Guarded g (s'.setEntry (addressOf (s.entry sp.level1 (tableIndex va 21))) (tableIndex va 12)
        (p ||| (pteValid ||| pteUser ||| flags)))
      (Function.update space id (some { sp with pages := sp.pages ++ [⟨p, va, .user⟩] })) ps k1 L1
      L0 := by
  obtain ⟨hst, hother⟩ := h.entryStored (v := p ||| (pteValid ||| pteUser ||| flags)) hsp hv.range
    hv.owned fun q hq hf => ha.entry_of_not_free hq hf
  refine h.change hsp (ha.same.trans ⟨rfl, rfl, rfl, rfl⟩) ?_ hother fun hk =>
    g.map (h.spaces id sp hsp) hk hv (fun _ => (h.owns.free p ha.mem).1.aligned) hflags (by nofun)
      hst
  rw [g.held_append _ _ (g.keeps_of_ne (by nofun))]
  exact ha.subperm _ _

omit h in
/-- A page is mapped by its address. -/
theorem mapExternal (h : Guarded g s space (g.lent (p :: ps)) k1 L1 L0) (hsp : space id = some sp)
    (hv : Vacant s sp va) (hflags : State.userFlags flags = true) :
    Guarded g (s.setEntry (addressOf (s.entry sp.level1 (tableIndex va 21))) (tableIndex va 12)
        (p ||| (pteValid ||| pteUser ||| flags)))
      (Function.update space id (some { sp with pages := sp.pages ++ [⟨p, va, .external⟩] }))
      (g.lent ps) k1 L1 L0 := by
  obtain ⟨hst, hother⟩ := h.entryStored (v := p ||| (pteValid ||| pteUser ||| flags)) hsp hv.range
    hv.owned fun _ _ _ _ _ => rfl
  refine h.change hsp ⟨rfl, rfl, rfl, rfl⟩ ?_ hother fun hk =>
    g.map (h.spaces id sp hsp) hk hv (fun hg => ?_) hflags (by nofun) hst
  · -- the page counts as one of the space's, or it does not matter whose it is
    have heq : (g.view { sp with pages := sp.pages ++ [⟨p, va, .external⟩] }).held ++ g.lent ps =
        (g.view sp).held ++ g.lent (p :: ps) := by
      cases hg : g.shared <;> simp [g.held_view, Guard.lent, Guard.keeps, hg]
    rw [heq]
    exact List.Subperm.refl _
  · exact (h.limbo.page p (by simp [Guard.lent, hg])).1.aligned

/-- A page is unmapped; it is no one's then. -/
theorem unmap (hsp : space id = some sp) (hr : r ∈ sp.records) (hva : InUser r.virtualAddress)
    (ho : sp.ownedLevel0 (tableIndex r.virtualAddress 21) = true) :
    Guarded g (s.setEntry (addressOf (s.entry sp.level1 (tableIndex r.virtualAddress 21)))
        (tableIndex r.virtualAddress 12) 0)
      (Function.update space id (some (sp.erase r)))
      (if g.keeps r.kind then [r.physicalAddress] else []) k1 L1 L0 := by
  obtain ⟨hst, hother⟩ := h.entryStored (v := 0) hsp hva ho fun _ _ _ _ _ => rfl
  refine h.change hsp ⟨rfl, rfl, rfl, rfl⟩ ?_ hother fun hk =>
    g.unmap (h.spaces id sp hsp) hk hr hst
  refine (List.subperm_append_left _).mpr
    (List.Subperm.trans ?_ (List.sublist_append_left _ _).subperm)
  rw [g.held_erase, g.held_view]
  split
  · next hk =>
    have hmem : r ∈ sp.pages.filter (g.keeps ·.kind) :=
      List.mem_filter.mpr ⟨(AddressSpace.mem_records.mp hr).1, hk⟩
    have hperm := (List.perm_cons_erase hmem).map (·.physicalAddress)
    exact ((List.perm_append_singleton _ _).trans hperm.symm).subperm
  · rw [List.append_nil]
    exact (List.erase_sublist.map _).subperm

/-- The table that `address_lookup_level0` finds for a page with a private table. -/
theorem lookup (hsp : space id = some sp) (hva : InUser va)
    (ho : sp.ownedLevel0 (tableIndex va 21) = true) :
    s.addressLookupLevel0 sp va = some (addressOf (s.entry sp.level1 (tableIndex va 21))) := by
  have hl := g.linked (h.spaces id sp hsp)
  obtain ⟨t, he, hta, htp⟩ := hl.level1_private _ (tableIndex_lt va 21) ho
  have hroot := (h.table hsp hl.root_mem).1
  have hlevel1 := (h.table hsp hl.level1_mem).1
  have ht := (h.table hsp htp.mem).1
  unfold State.addressLookupLevel0
  dsimp only
  rw [hva.index.1, hl.entry0, addressOf_entry hlevel1.aligned (by decide), he,
    addressOf_entry hta (by decide)]
  simp [hroot.direct, hlevel1.direct, ht.direct, isValid_table hlevel1.aligned,
    isLeaf_table hlevel1.aligned, isValid_table hta, isLeaf_table hta]

/-- A user page that can be unmapped has a private table: the kernel's tables have no pages for
    user mode. -/
theorem owned_of_unmappable (hsp : space id = some sp) (hva : InUser va)
    (hu : s.unmappable sp va = true) : sp.ownedLevel0 (tableIndex va 21) = true := by
  have hl := g.linked (h.spaces id sp hsp)
  have hal := (h.table hsp hl.level1_mem).1.aligned
  by_contra ho
  have hlinks := hl.level1_links _ (tableIndex_lt va 21) (by simpa using ho)
  unfold State.unmappable State.addressLookupLevel0 at hu
  dsimp only at hu
  rw [hva.index.1, hl.entry0, addressOf_entry hal (by decide)] at hu
  split at hu
  · cases hu
  next t ht =>
  split at ht
  · cases ht
  split at ht
  · cases ht
  next hentry =>
  cases ht
  simp only [not_or, Bool.not_eq_true, Bool.not_eq_false'] at hentry
  simp only [Bool.and_eq_true] at hu
  have hL0 := (hlinks hentry.1).2 hentry.2.1
  rw [(g.tables h.kernel).level0 _ hL0 _ (tableIndex_lt va 12) hu.1.1] at hu
  exact absurd hu.1.2 nofun

end Guarded

/-! ## The operations -/

theorem Guard.may_or (g : Guard) {none path : Prop} (h : g.shared = true → none ∨ path) :
    (g.shared = true → none) ∨ path := by
  cases hg : g.shared with
  | true => exact (h hg).imp_left fun hn _ => hn
  | false => exact .inl nofun

/-- The steps of the operations on the kernel's tables and on pages of no one keep the invariant. -/
theorem Guard.tableRules (g : Guard) (space : Nat → Option AddressSpace) (k1 : Nat) :
    TableRules k1 (g.shared = true → ∀ id, space id = none) fun s L1 L0 ps =>
      Guarded g s space ps k1 L1 L0 where
  tables h := g.tables h.kernel
  page h := h.owns.free
  limbo h := h.limbo.page
  newLevel1 h ha h0 hj hv hmay := h.enter ha (.level1 h0) hj hv fun _ => hmay
  newLevel0 h ha hq hj hv hmay := by
    refine h.enter ha (.level0 hq) hj hv fun ht => ht.elim (fun he => ?_) hmay
    have hroot := (g.tables h.kernel).root_apart
    exact absurd (he ▸ hq) (not_or.mpr ⟨hroot.1, hroot.2.1⟩)
  leaf h hq hj huser hleaf := h.leaf hq hj huser hleaf
  allocate h ha := by
    refine h.keep ha.same ?_ fun q hq => ha.entry_of_not_free (h.watched hq).1 (h.watched hq).2.1
    simpa using ha.subperm _ []
  free {_ _ _ _ p} h := by
    have hpage := (h.limbo.page p List.mem_cons_self).1
    refine h.keep (pmmFreePage_same hpage) ?_ fun q hq i hi => ?_
    · rw [pmmFreePage_free hpage]
      exact List.perm_middle.symm.subperm
    · refine pmmFreePage_entry hpage (h.watched hq).1 hi fun he => (h.watched hq).2.2 ?_
      exact he ▸ List.mem_cons_self
  forget h := by
    refine h.keep (Same.refl _) ?_ fun _ _ _ _ => rfl
    rw [List.append_nil]
    exact (List.sublist_append_left _ _).subperm
  write h hs hfree hentry := h.keep hs (hfree ▸ List.Subperm.refl _) fun q hq =>
    hentry q (h.watched hq).1 (h.watched hq).2.2

/-- The steps of the operations on one address space keep the invariant. -/
theorem Guard.spaceRules (g : Guard) (space : Nat → Option AddressSpace) (id k1 : Nat)
    (L1 L0 : Set Nat) : SpaceRules (g.shared = false) fun s sp ps =>
      Guarded g s (Function.update space id (some sp)) (g.lent ps) k1 L1 L0 where
  page h q hq := (h.owns.free q hq).1
  level1 h := (h.table (Function.update_self ..)
    (g.linked (h.spaces id _ (Function.update_self ..))).level1_mem).1.aligned
  forget h := by
    rw [g.lent_nil]
    exact (g.tableRules _ k1).forget h
  addTable h ha := by
    rw [← Function.update_idem]
    exact h.addTable (Function.update_self ..) ha
  own h ha hj ho hleaf := by
    rw [← Function.update_idem]
    exact h.own (Function.update_self ..) ha hj ho hleaf
  mapUser h ha hv hflags := by
    rw [← Function.update_idem]
    exact h.mapUser (Function.update_self ..) ha hv hflags
  mapExternal h hv hflags := by
    rw [← Function.update_idem]
    exact h.mapExternal (Function.update_self ..) hv hflags
  unmap h hp hfind := by
    obtain ⟨hr, rfl⟩ := addressFindUserPage_records hfind
    have hun := h.unmap (Function.update_self ..) hr hp.range hp.owned
    rw [Function.update_idem] at hun
    rw [State.clearPage, h.lookup (Function.update_self ..) hp.range hp.owned, g.lent_nil]
    refine ⟨(g.tableRules _ k1).forget hun, fun hk => ?_⟩
    rw [if_pos (g.keeps_of_ne hk)] at hun
    exact (g.tableRules _ k1).free hun
  owned h hva hu := h.owned_of_unmappable (Function.update_self ..) hva hu
  pages hg _ _ _ h := g.pages hg (h.spaces id _ (Function.update_self ..))
  lookup h hp := by
    rw [h.lookup (Function.update_self ..) hp.range hp.owned]
    exact Option.some_ne_none _

/-- A mapping of the kernel that needs no new table of which there are copies. -/
def TablesInPlace (s : State) : Op → Prop
  | .heapAppendPage =>
    (∀ id, s.space id = none) ∨ pathExists s (s.heapBase + s.heapMappedSize) = true
  | .mapMmio va _ => (∀ id, s.space id = none) ∨ pathExists s va = true
  | _ => True

/-- The records of an address space are those of pages that were mapped, and not unmapped since. -/
def Remembers (space : Nat → Option AddressSpace) (mapped : Nat → Nat → Bool) : Prop :=
  ∀ id sp, space id = some sp → ∀ v, sp.Maps v → mapped id v = true

section

variable {mapped : Nat → Nat → Bool}

theorem Remembers.update {f : Nat → Bool} (h : Remembers space mapped)
    (hf : ∀ v, sp.Maps v → f v = true) :
    Remembers (Function.update space id (some sp)) (Function.update mapped id f) := by
  intro k sp₂ hk v hv
  by_cases hid : k = id
  · subst hid
    rw [Function.update_self] at hk ⊢
    cases hk
    exact hf v hv
  · rw [Function.update_of_ne hid] at hk ⊢
    exact h k sp₂ hk v hv

theorem Remembers.update_same (h : Remembers space mapped)
    (hf : ∀ v, sp.Maps v → mapped id v = true) :
    Remembers (Function.update space id (some sp)) mapped := by
  have hupdate : Remembers (Function.update space id (some sp))
      (Function.update mapped id (mapped id)) := h.update hf
  rwa [Function.update_eq_self] at hupdate

end

namespace Guarded

variable {g : Guard} (h : Guarded g s s.space [] k1 L1 L0)

include h

/-- `kernel_address_space_create` keeps the invariant, and a new address space maps nothing. -/
theorem create (id : Nat) (calloc mallocRoot mallocLevel1 : Bool) :
    Guarded g (s.create id calloc mallocRoot mallocLevel1)
        (s.create id calloc mallocRoot mallocLevel1).space [] k1 L1 L0 ∧
      ((s.create id calloc mallocRoot mallocLevel1).space = s.space ∨
        ∃ sp, (s.create id calloc mallocRoot mallocLevel1).space =
          Function.update s.space id (some sp) ∧ sp.records = []) := by
  obtain ⟨hc, hq⟩ | ⟨r, l, s₂, h₂, h₃, heq⟩ :=
    (g.tableRules s.space k1).create h id calloc mallocRoot mallocLevel1
  · exact ⟨hq.spaces.symm ▸ hc, .inl hq.spaces⟩
  · have hheld : (g.view (.fresh r l)).held ++ [] = [r, l] := by
      simp [g.held_view, AddressSpace.fresh, Guard.keeps]
    have hne : r ≠ l := by
      have hn := h₂.limbo.nodup
      rintro rfl
      simp at hn
    rw [heq]
    rw [← hheld] at h₃
    refine ⟨(h₃.adopt (g.fresh h₂.kernel h₂.limbo.page hne) _).with_space _, .inr ⟨_, rfl, ?_⟩⟩
    simp [AddressSpace.records, AddressSpace.fresh]

omit h in
theorem store {result : State × AddressSpace} (h : Guarded g result.1
      (Function.update s.space id (some result.2)) (g.lent []) k1 L1 L0)
    (hk : Kept s sp result.1 result.2) :
    Guarded g (State.store id result) (State.store id result).space [] k1 L1 L0 ∧
      (State.store id result).space = Function.update s.space id (some result.2) := by
  rw [← hk.spaces] at h ⊢
  exact ⟨g.lent_nil ▸ h.with_space _, rfl⟩

theorem at_space (hsp : s.space id = some sp) :
    Guarded g s (Function.update s.space id (some sp)) (g.lent []) k1 L1 L0 := by
  rw [← hsp, Function.update_eq_self, g.lent_nil]
  exact h

/-- Every operation keeps the invariant.  If address spaces have to have the kernel's entries, the
    tables have to be in place; if not, memory that is mapped by its address has to be no one's. -/
theorem step {op : Op} (hmay : g.shared = true → TablesInPlace s op)
    (hlimbo : g.shared = false → ∀ id va pa size flags malloc,
      op = .mapPhysical id va pa size flags malloc → pa % pageSize = 0 →
      s.direct (pa + size - 1) = true → Limbo s (g.claims s.space) (kernelPages s.root k1 L1 L0)
        (pageRange pa 0 (size / pageSize)))
    (hst : Paging.step s op = some s') :
    ∃ L1' L0', Guarded g s' s'.space [] k1 L1' L0' ∧ (g.shared = false → ∀ mapped,
      Remembers s.space mapped → Remembers s'.space (note s mapped op)) := by
  cases op with
  | create id calloc mallocRoot mallocLevel1 =>
    simp only [Paging.step, Option.ite_none_left_eq_some, Option.some.injEq] at hst
    obtain ⟨hnone, rfl⟩ := hst
    obtain ⟨h', hspace⟩ := h.create id calloc mallocRoot mallocLevel1
    refine ⟨L1, L0, h', fun _ mapped hmem => ?_⟩
    have hother : ∀ k sp, s.space k = some sp → k ≠ id := by
      rintro k sp hk rfl
      simp [hk] at hnone
    rcases hspace with hspace | ⟨sp, hspace, hrecords⟩
    · intro k sp hk v hv
      dsimp only [note]
      rw [hspace] at hk
      rw [Function.update_of_ne (hother k sp hk)]
      exact hmem k sp hk v hv
    · dsimp only [note]
      rw [hspace]
      refine hmem.update fun v hv => ?_
      obtain ⟨r, hr, -⟩ := hv
      rw [hrecords] at hr
      cases hr
  | mapAnonymous id va flags mallocTable mallocPage =>
    obtain ⟨sp, hsp, rfl⟩ := Option.map_eq_some_iff.mp hst
    generalize hres : s.mapAnonymous sp va flags mallocTable mallocPage = result
    obtain ⟨h', hk, hmaps⟩ := (g.spaceRules _ id k1 L1 L0).mapAnonymous (h.at_space hsp) hres
    obtain ⟨h', hspace⟩ := h'.store hk
    refine ⟨L1, L0, h', fun _ mapped hmem => ?_⟩
    dsimp only [note]
    rw [hspace, hsp, Option.any_some]
    split
    · refine hmem.update fun v hv => ?_
      rcases hmaps v hv with hold | ⟨-, rfl⟩
      · rw [hmem id sp hsp v hold, Bool.true_or]
      · rw [decide_eq_true rfl, Bool.or_true]
    · next hfail =>
      refine hmem.update_same fun v hv => ?_
      exact hmem id sp hsp v ((hmaps v hv).resolve_right fun hok => hfail hok.1)
  | mapPhysical id va pa size flags malloc =>
    obtain ⟨sp, hsp, rfl⟩ := Option.map_eq_some_iff.mp hst
    generalize hres : s.mapPhysical sp va pa size flags malloc = result
    have hself : Function.update s.space id (some sp) = s.space := by
      rw [← hsp, Function.update_eq_self]
    obtain ⟨h', hk, hmaps⟩ := (g.spaceRules _ id k1 L1 L0).mapPhysical (h.at_space hsp)
      (fun hpa hdirect => by
        rw [hself]
        refine ⟨h.kernel, h.owns, ?_, h.spaces⟩
        rw [Guard.lent]
        split
        · exact .nil
        · next hg => exact hlimbo (by simpa using hg) _ _ _ _ _ _ rfl hpa hdirect) hres
    obtain ⟨h', hspace⟩ := h'.store hk
    refine ⟨L1, L0, h', fun hg mapped hmem => ?_⟩
    have hmaps := hmaps hg
    dsimp only [note]
    rw [hspace, hsp, Option.any_some]
    split
    · refine hmem.update fun v hv => ?_
      rcases hmaps v hv with hold | ⟨-, hle, hlt, hv⟩
      · rw [hmem id sp hsp v hold, Bool.true_or]
      · simp [hle, hlt, hv]
    · next hfail =>
      refine hmem.update_same fun v hv => ?_
      exact hmem id sp hsp v ((hmaps v hv).resolve_right fun hok => hfail hok.1)
  | unmapRange id va size =>
    obtain ⟨sp, hsp, rfl⟩ := Option.map_eq_some_iff.mp hst
    generalize hres : s.unmapRange sp va size = result
    obtain ⟨h', hk, hmaps⟩ := (g.spaceRules _ id k1 L1 L0).unmapRange (h.at_space hsp) hres
    obtain ⟨h', hspace⟩ := h'.store hk
    refine ⟨L1, L0, h', fun hg mapped hmem => ?_⟩
    have hmaps := hmaps hg
    dsimp only [note]
    rw [hspace, hsp, Option.any_some]
    split
    · next hok =>
      refine hmem.update fun v hv => ?_
      obtain ⟨hold, hout⟩ := hmaps v hv
      have hout := hout hok
      rw [hmem id sp hsp v hold, Bool.true_and, Bool.not_eq_true', Bool.and_eq_false_iff]
      simp only [decide_eq_false_iff_not]
      omega
    · exact hmem.update_same fun v hv => hmem id sp hsp v (hmaps v hv).1
  | destroy id =>
    obtain ⟨sp, hsp, rfl⟩ := Option.map_eq_some_iff.mp hst
    have hheld : (heldPages sp.pages).Sublist ((g.view sp).held ++ []) := by
      rw [List.append_nil, g.held_view]
      refine List.Sublist.map _ (List.monotone_filter_right _ ?_)
      intro r hr
      simpa using g.keeps_of_ne (by simpa using hr)
    have hrest := (h.remove hsp).with_space (Function.update s.space id none)
    obtain ⟨h', hquiet⟩ := (g.tableRules _ k1).freePages (hrest.keep (Same.refl _)
      (hheld.append_left _).subperm fun _ _ _ _ => rfl)
    refine ⟨L1, L0, hquiet.spaces.symm ▸ h', fun _ mapped hmem k sp₂ hk v hv => ?_⟩
    dsimp only [note]
    rw [hquiet.spaces] at hk
    dsimp only at hk
    rw [Function.update_apply] at hk
    split at hk
    · cases hk
    · next hne =>
      rw [Function.update_of_ne hne]
      exact hmem k sp₂ hk v hv
  | heapAppendPage =>
    simp only [Paging.step, Option.ite_none_right_eq_some, Option.some.injEq] at hst
    obtain ⟨-, rfl⟩ := hst
    obtain ⟨L1', L0', h', hspace⟩ := (g.tableRules _ k1).heapAppendPage h (g.may_or hmay)
    exact ⟨L1', L0', hspace.symm ▸ h', fun _ mapped hmem => hspace.symm ▸ hmem⟩
  | mapMmio va physical =>
    simp only [Paging.step, Option.ite_none_right_eq_some, Option.some.injEq] at hst
    obtain ⟨-, rfl⟩ := hst
    obtain ⟨L1', L0', h', hquiet⟩ := (g.tableRules _ k1).kernelMapPage h isUser_kernelFlags
      (g.may_or hmay) rfl
    exact ⟨L1', L0', hquiet.spaces.symm ▸ h', fun _ mapped hmem => hquiet.spaces.symm ▸ hmem⟩

end Guarded

end RiscMv.Paging
