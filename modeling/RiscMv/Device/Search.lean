import RiscMv.Device.Manager
import RiscMv.ForStd.Align

/-!
# Allocation of interrupt lines and BARs

The lines that `attach_module_locked` allocates were free, and releasing them restores the table.
The search of `allocate_bars` ends, finds the lowest position that is free, and gives up only
when there is none.

## Key results
- `allocateIrqs_spec`, `releaseIrqs_allocated`
- `searchBar_ends`, `searchBar_round`
- `allocateBars_spec`, `allocateBars_none`
-/

namespace RiscMv.Device

open Interrupt (externalLineCount)

/-! ## Interrupt lines -/

variable {irqUsed irqUsed' : Nat → Bool}

theorem allocateIrq_spec {line : Nat} (h : allocateIrq irqUsed = some line) :
    irqUsed line = false ∧ line < externalLineCount := by
  have hfree := List.find?_some h
  have hmem := List.mem_of_find?_eq_some h
  rw [List.mem_range'_1] at hmem
  exact ⟨by simpa using hfree, by unfold externalLineCount at *; omega⟩

/-- The allocated lines: they were free, they are distinct, and now they are used. -/
structure AllocatedIrqs (irqUsed irqUsed' : Nat → Bool) (lines : List Nat) : Prop where
  nodup : lines.Nodup
  free : ∀ line ∈ lines, irqUsed line = false
  external : ∀ line ∈ lines, line < externalLineCount
  used : ∀ line, irqUsed' line = (irqUsed line || decide (line ∈ lines))

theorem allocateIrqs_spec {n : Nat} {irqs irqs' : List Nat} {allocated : Bool}
    (h : allocateIrqs n irqs irqUsed = (allocated, irqs', irqUsed')) :
    ∃ lines, irqs' = irqs ++ lines ∧ AllocatedIrqs irqUsed irqUsed' lines := by
  induction n generalizing irqs irqUsed with
  | zero =>
    cases h
    exact ⟨[], (List.append_nil _).symm, List.nodup_nil, nofun, nofun, fun line => by simp⟩
  | succ n ih =>
    rw [allocateIrqs] at h
    split at h
    · cases h
      exact ⟨[], (List.append_nil _).symm, List.nodup_nil, nofun, nofun, fun line => by simp⟩
    · next line hline =>
      obtain ⟨hfree, hexternal⟩ := allocateIrq_spec hline
      obtain ⟨lines, rfl, hall⟩ := ih h
      have hold : ∀ l ∈ lines, l ≠ line ∧ irqUsed l = false := by
        intro l hl
        have hl' := hall.free l hl
        by_cases heq : l = line
        · subst heq
          rw [Function.update_self] at hl'
          cases hl'
        · rw [Function.update_of_ne heq] at hl'
          exact ⟨heq, hl'⟩
      refine ⟨line :: lines, by simp, ?_, ?_, ?_, ?_⟩
      · exact List.nodup_cons.mpr ⟨fun hmem => (hold line hmem).1 rfl, hall.nodup⟩
      · intro l hl
        rcases List.mem_cons.mp hl with rfl | hl
        · exact hfree
        · exact (hold l hl).2
      · intro l hl
        rcases List.mem_cons.mp hl with rfl | hl
        · exact hexternal
        · exact hall.external l hl
      · intro l
        rw [hall.used l]
        by_cases heq : l = line
        · subst heq
          simp
        · simp [heq]

theorem releaseIrqs_apply (irqUsed : Nat → Bool) (irqs : List Nat) (line : Nat) :
    releaseIrqs irqUsed irqs line =
      (irqUsed line && !decide (line ∈ irqs ∧ line < externalLineCount)) := by
  induction irqs generalizing irqUsed with
  | nil => simp [releaseIrqs]
  | cons irq irqs ih =>
    have hstep : releaseIrqs irqUsed (irq :: irqs) =
        releaseIrqs (releaseIrq irqUsed irq) irqs := rfl
    rw [hstep, ih, releaseIrq]
    split
    · next hge =>
      have hiff : (line ∈ irq :: irqs ∧ line < externalLineCount) ↔
          (line ∈ irqs ∧ line < externalLineCount) := by
        rw [List.mem_cons]
        constructor
        · rintro ⟨rfl | hmem, hlt⟩
          · omega
          · exact ⟨hmem, hlt⟩
        · exact fun ⟨hmem, hlt⟩ => ⟨.inr hmem, hlt⟩
      simp only [hiff]
    · next hlt =>
      by_cases heq : line = irq
      · subst heq
        have hlt' : line < externalLineCount := by omega
        simp [hlt']
      · rw [Function.update_of_ne heq]
        simp [heq]

/-- Releasing the allocated lines restores the table. -/
theorem releaseIrqs_allocated {lines : List Nat} (h : AllocatedIrqs irqUsed irqUsed' lines) :
    releaseIrqs irqUsed' lines = irqUsed := by
  funext line
  rw [releaseIrqs_apply, h.used]
  by_cases hmem : line ∈ lines
  · simp [hmem, h.free line hmem, h.external line hmem]
  · simp [hmem]

/-! ## The search for a BAR -/

/-- Two BARs share no address. -/
def Bar.Apart (a b : Bar) : Prop := rangesOverlap a.base a.size b.base b.size = false

/-- A BAR that does not wrap around. -/
def Bar.Valid (b : Bar) : Prop := rangeValid b.base b.size = true

variable {b : Bar}

theorem Bar.toNat_last (h : b.Valid) :
    b.last.toNat = b.base.toNat + (b.size.toNat - 1) := Device.toNat_last h

theorem Bar.Apart.symm {a : Bar} (h : a.Apart b) : b.Apart a := by
  unfold Bar.Apart rangesOverlap at h ⊢
  rw [Bool.and_comm]
  exact h

variable {bars present pending : List Bar} {base size candidate p : UInt64} {request : BarRequest}
  {fuel : Nat} {requests : List BarRequest}

/-- One round of the loop in `conflicting_bar_end`. -/
private theorem conflictingBarEnd_loop (bars : List Bar) (base size : UInt64)
    (start : Option UInt64) :
    let result := bars.foldl (fun greatestEnd bar =>
      if rangesOverlap base size bar.base bar.size then
        match greatestEnd with
        | none => some bar.last
        | some greatest => if bar.last > greatest then some bar.last else some greatest
      else greatestEnd) start
    (result = none → start = none ∧ ∀ b ∈ bars, rangesOverlap base size b.base b.size = false) ∧
      ∀ e, result = some e → start = some e ∨
        ∃ b ∈ bars, rangesOverlap base size b.base b.size = true ∧ b.last = e := by
  induction bars generalizing start with
  | nil => exact ⟨fun h => ⟨h, nofun⟩, fun e h => .inl h⟩
  | cons b bars ih =>
    rw [List.foldl_cons]
    by_cases hover : rangesOverlap base size b.base b.size = true
    · rw [if_pos hover]
      obtain ⟨hnone, hsome⟩ := ih (match start with
        | none => some b.last
        | some greatest => if b.last > greatest then some b.last else some greatest)
      refine ⟨fun h => ?_, fun e h => ?_⟩
      · have hstart := (hnone h).1
        cases start with
        | none => cases hstart
        | some greatest =>
          dsimp only at hstart
          split at hstart <;> cases hstart
      · rcases hsome e h with hstart | ⟨b', hb', hover', hlast⟩
        · cases start with
          | none => exact .inr ⟨b, List.mem_cons_self, hover, Option.some.inj hstart⟩
          | some greatest =>
            dsimp only at hstart
            split at hstart
            · exact .inr ⟨b, List.mem_cons_self, hover, Option.some.inj hstart⟩
            · exact .inl hstart
        · exact .inr ⟨b', List.mem_cons_of_mem b hb', hover', hlast⟩
    · rw [if_neg hover]
      obtain ⟨hnone, hsome⟩ := ih start
      refine ⟨fun h => ?_, fun e h => ?_⟩
      · obtain ⟨hstart, hall⟩ := hnone h
        refine ⟨hstart, fun b' hb' => ?_⟩
        rcases List.mem_cons.mp hb' with rfl | hb'
        · simpa using hover
        · exact hall b' hb'
      · rcases hsome e h with hstart | ⟨b', hb', hover', hlast⟩
        · exact .inl hstart
        · exact .inr ⟨b', List.mem_cons_of_mem b hb', hover', hlast⟩

theorem conflictingBarEnd_none (h : conflictingBarEnd bars base size = none) :
    ∀ b ∈ bars, rangesOverlap base size b.base b.size = false :=
  ((conflictingBarEnd_loop bars base size none).1 h).2

theorem conflictingBarEnd_some {e : UInt64} (h : conflictingBarEnd bars base size = some e) :
    ∃ b ∈ bars, rangesOverlap base size b.base b.size = true ∧ b.last = e := by
  rcases (conflictingBarEnd_loop bars base size none).2 e h with hnone | hsome
  · cases hnone
  · exact hsome

theorem BarRequest.alignment_pos (h : request.valid = true) : 0 < request.alignment.toNat := by
  simp only [BarRequest.valid, Bool.not_eq_true', decide_eq_false_iff_not, not_or] at h
  have hne : request.alignment.toNat ≠ 0 := fun hzero => h.2.1 (UInt64.toNat_inj.mp hzero)
  omega

theorem BarRequest.alignment_pow (h : request.valid = true) :
    request.alignment.toNat.isPowerOfTwo := by
  have hpos := alignment_pos h
  simp only [BarRequest.valid, Bool.not_eq_true', decide_eq_false_iff_not, not_or, not_not] at h
  have hone : (1 : UInt64) ≤ request.alignment := by
    rw [UInt64.le_iff_toNat_le]
    exact hpos
  have hand := congrArg UInt64.toNat h.2.2
  rw [UInt64.toNat_and, UInt64.toNat_sub_of_le _ _ hone] at hand
  exact isPowerOfTwo_of_and_pred (by omega) hand

theorem alignment_log_le {k : Nat} (hk : request.alignment.toNat = 2 ^ k) : k ≤ 64 := by
  by_contra hlt
  have hpow := Nat.pow_le_pow_right (n := 2) (by decide) (show 64 ≤ k by omega)
  have halign := request.alignment.toNat_lt
  omega

theorem toNat_mask (h : request.valid = true) :
    (request.alignment - 1).toNat = request.alignment.toNat - 1 := by
  have hpos := BarRequest.alignment_pos h
  apply UInt64.toNat_sub_of_le
  rw [UInt64.le_iff_toNat_le]
  exact hpos

theorem alignAddress_gt (h : request.valid = true) :
    candidate.toNat > uint64Max - (request.alignment - 1).toNat ↔
      2 ^ 64 ≤ candidate.toNat + (request.alignment.toNat - 1) := by
  have halign := request.alignment.toNat_lt
  rw [toNat_mask h, uint64Max]
  omega

/-- `align_address` rounds up. -/
theorem alignAddress_some (h : request.valid = true)
    (hsome : alignAddress candidate request.alignment = some base) :
    IsAlignUp request.alignment.toNat candidate.toNat base.toNat := by
  unfold alignAddress at hsome
  dsimp only at hsome
  split at hsome
  · cases hsome
  · next hgt =>
    rw [alignAddress_gt h] at hgt
    have hpos := BarRequest.alignment_pos h
    have halign := request.alignment.toNat_lt
    obtain ⟨k, hk⟩ := BarRequest.alignment_pow h
    have hk64 := alignment_log_le hk
    cases hsome
    have hsum : (candidate + (request.alignment - 1)).toNat =
        candidate.toNat + (request.alignment.toNat - 1) := by
      rw [UInt64.toNat_add, toNat_mask h, Nat.mod_eq_of_lt (by omega)]
    have hnot : (~~~(request.alignment - 1)).toNat = 2 ^ 64 - 1 - (2 ^ k - 1) := by
      have hsize : UInt64.size = 2 ^ 64 := rfl
      rw [UInt64.toNat_not, toNat_mask h, hk, hsize]
    rw [UInt64.toNat_and, hsum, hnot, and_not_mask (by omega) hk64, ← hk]
    exact isAlignUp_mod hpos

/-- The next multiple of a power of two is at most `2 ^ 64`. -/
theorem add_le_of_dvd {k p : Nat} (hk : k ≤ 64) (hp : p < 2 ^ 64) (hdvd : 2 ^ k ∣ p) :
    p + 2 ^ k ≤ 2 ^ 64 := by
  have htop : 2 ^ k ∣ 2 ^ 64 := Nat.pow_dvd_pow 2 hk
  have hgap : 2 ^ k ≤ 2 ^ 64 - p :=
    Nat.le_of_dvd (Nat.sub_pos_of_lt hp) (Nat.dvd_sub htop hdvd)
  clear htop hdvd
  omega

/-- `align_address` fails if there is no aligned address left. -/
theorem alignAddress_none (h : request.valid = true)
    (hnone : alignAddress candidate request.alignment = none)
    (hdvd : request.alignment.toNat ∣ p.toNat) : p < candidate := by
  unfold alignAddress at hnone
  dsimp only at hnone
  split at hnone
  · next hgt =>
    rw [alignAddress_gt h] at hgt
    have hpos := BarRequest.alignment_pos h
    obtain ⟨k, hk⟩ := BarRequest.alignment_pow h
    have hk64 := alignment_log_le hk
    rw [hk] at hdvd hgt
    have hgap := add_le_of_dvd hk64 p.toNat_lt hdvd
    rw [UInt64.lt_iff_toNat_lt]
    clear hdvd
    omega
  · cases hnone

/-- A place for a BAR in the window. -/
structure Fits (request : BarRequest) (base : UInt64) : Prop where
  aligned : request.alignment.toNat ∣ base.toNat
  valid : rangeValid base request.size = true
  above : dynamicMmioBase ≤ base
  below : base + request.size - 1 ≤ dynamicMmioLimit

/-- A BAR stands in the way. -/
def Conflicts (bars : List Bar) (request : BarRequest) (base : UInt64) : Prop :=
  ∃ b ∈ bars, rangesOverlap base request.size b.base b.size = true

/-- What one round of the search finds out. -/
inductive Round (bars : List Bar) (request : BarRequest) (candidate : UInt64) :
    Search ⊕ UInt64 → Prop
  | exhausted (hnone : ∀ p, candidate ≤ p → Fits request p → Conflicts bars request p) :
      Round bars request candidate (.inl .exhausted)
  | found {base : UInt64} (hfits : Fits request base) (hfree : ¬ Conflicts bars request base) :
      Round bars request candidate (.inl (.found base))
  | next {b : Bar} {next : UInt64} (hb : b ∈ bars) (hle : candidate ≤ b.last)
      (hnext : next.toNat = b.last.toNat + 1)
      (hnone : ∀ p, candidate ≤ p → p < next → Fits request p → Conflicts bars request p) :
      Round bars request candidate (.inr next)

/-- From a position that overlaps a BAR, all positions up to its end do. -/
theorem overlap_up_to (hb : b.Valid) (hbase : rangeValid base request.size = true)
    (hp : rangeValid p request.size = true)
    (hover : rangesOverlap base request.size b.base b.size = true) (hle : base ≤ p)
    (hlast : p ≤ b.last) : rangesOverlap p request.size b.base b.size = true := by
  rw [rangesOverlap_iff hbase hb] at hover
  rw [UInt64.le_iff_toNat_le] at hle hlast
  rw [Bar.toNat_last hb] at hlast
  rw [rangesOverlap_iff hp hb]
  omega

section

variable (hr : request.valid = true) (hbars : ∀ b ∈ bars, b.Valid)
  (hwindow : dynamicMmioBase ≤ candidate)
include hr hbars hwindow

theorem searchRound_round : Round bars request candidate (searchRound bars request candidate) := by
  unfold searchRound
  split
  · next hnone =>
    refine .exhausted fun p hle hfits => ?_
    have hlt := alignAddress_none hr hnone hfits.aligned
    rw [UInt64.lt_iff_toNat_lt] at hlt
    rw [UInt64.le_iff_toNat_le] at hle
    omega
  · next base halign =>
    have hup := alignAddress_some hr halign
    -- the positions that remain are not below `base`
    have hleast : ∀ p, candidate ≤ p → Fits request p → base ≤ p := fun p hle hfits =>
      UInt64.le_iff_toNat_le.mpr
        (hup.least p.toNat hfits.aligned (UInt64.le_iff_toNat_le.mp hle))
    split
    · next hrange =>
      refine .exhausted fun p hle hfits => ?_
      have hbase := UInt64.le_iff_toNat_le.mp (hleast p hle hfits)
      obtain ⟨hsize, hend⟩ := rangeValid_iff.mp hfits.valid
      have hbelow := UInt64.le_iff_toNat_le.mp hfits.below
      rw [toNat_last hfits.valid] at hbelow
      have hvalid : rangeValid base request.size = true := rangeValid_iff.mpr ⟨hsize, by omega⟩
      rcases hrange with hinvalid | hgt
      · exact absurd hvalid hinvalid
      · rw [gt_iff_lt, UInt64.lt_iff_toNat_lt, toNat_last hvalid] at hgt
        omega
    · next hrange =>
      simp only [not_or, not_not, gt_iff_lt, UInt64.not_lt] at hrange
      split
      · next hnone =>
        refine .found ⟨hup.dvd, hrange.1, ?_, hrange.2⟩ ?_
        · exact UInt64.le_trans hwindow (UInt64.le_iff_toNat_le.mpr hup.le)
        · rintro ⟨b, hb, hover⟩
          rw [conflictingBarEnd_none hnone b hb] at hover
          cases hover
      · next e hsome =>
        obtain ⟨b, hb, hover, rfl⟩ := conflictingBarEnd_some hsome
        have hover' := hover
        rw [rangesOverlap_iff hrange.1 (hbars b hb), ← Bar.toNat_last (hbars b hb)] at hover'
        have hlast := b.last.toNat_lt
        have hconflict : ∀ p, candidate ≤ p → p ≤ b.last → Fits request p →
            Conflicts bars request p := fun p hle hp hfits =>
          ⟨b, hb, overlap_up_to (hbars b hb) hrange.1 hfits.valid hover (hleast p hle hfits) hp⟩
        split
        · next hmax =>
          refine .exhausted fun p hle hfits => hconflict p hle ?_ hfits
          have hp := p.toNat_lt
          rw [UInt64.le_iff_toNat_le, hmax, uint64Max]
          omega
        · next hmax =>
          have hnext : (b.last + 1).toNat = b.last.toNat + 1 := by
            rw [uint64Max] at hmax
            rw [UInt64.toNat_add]
            have hone : (1 : UInt64).toNat = 1 := rfl
            rw [hone, Nat.mod_eq_of_lt (by omega)]
          refine .next hb ?_ hnext fun p hle hlt hfits => hconflict p hle ?_ hfits
          · rw [UInt64.le_iff_toNat_le]
            have hle := hup.le
            omega
          · rw [UInt64.lt_iff_toNat_lt, hnext] at hlt
            rw [UInt64.le_iff_toNat_le]
            omega

/-- The search ends: each round leaves a BAR behind. -/
theorem searchBar_ends (hfuel : (bars.filter fun b => candidate ≤ b.last).length < fuel) :
    searchBar bars request fuel candidate ≠ .outOfFuel := by
  induction fuel generalizing candidate with
  | zero => omega
  | succ fuel ih =>
    have hround := searchRound_round hr hbars hwindow
    rw [searchBar]
    cases hstep : searchRound bars request candidate with
    | inl outcome =>
      rw [hstep] at hround
      cases hround <;> nofun
    | inr next =>
      rw [hstep] at hround
      cases hround with
      | @next b _ hb hle hnext hnone =>
        have hlt : candidate < next := by
          rw [UInt64.lt_iff_toNat_lt]
          rw [UInt64.le_iff_toNat_le] at hle
          omega
        apply ih (UInt64.le_trans hwindow (UInt64.le_of_lt hlt))
        -- `b` is not counted any more
        have hsub : (bars.filter fun b => next ≤ b.last).length <
            (bars.filter fun b => candidate ≤ b.last).length := by
          have hfilter : bars.filter (fun b => next ≤ b.last) =
              (bars.filter fun b => candidate ≤ b.last).filter fun b => next ≤ b.last := by
            rw [List.filter_filter]
            apply List.filter_congr
            intro b' _
            by_cases hb' : next ≤ b'.last
            · have hcand := UInt64.le_trans (UInt64.le_of_lt hlt) hb'
              simp [hb', hcand]
            · simp [hb']
          rw [hfilter, List.length_filter_lt_length_iff_exists]
          refine ⟨b, List.mem_filter.mpr ⟨hb, by simpa using hle⟩, ?_⟩
          simp only [decide_eq_true_eq, UInt64.not_le, UInt64.lt_iff_toNat_lt]
          omega
        omega

/-- The search finds out what a round that ends it does. -/
theorem searchBar_round (hends : searchBar bars request fuel candidate ≠ .outOfFuel) :
    Round bars request candidate (.inl (searchBar bars request fuel candidate)) := by
  induction fuel generalizing candidate with
  | zero => exact absurd rfl hends
  | succ fuel ih =>
    have hround := searchRound_round hr hbars hwindow
    rw [searchBar] at hends ⊢
    cases hstep : searchRound bars request candidate with
    | inl outcome =>
      rw [hstep] at hround
      exact hround
    | inr next =>
      rw [hstep] at hround hends
      cases hround with
      | next hb hlast hnext hnone =>
        have hle : candidate ≤ next := by
          rw [UInt64.le_iff_toNat_le] at hlast ⊢
          omega
        have hrest := ih (UInt64.le_trans hwindow hle) hends
        dsimp only
        generalize searchBar bars request fuel next = outcome at hrest ⊢
        cases hrest with
        | found hfits hfree => exact .found hfits hfree
        | exhausted hrest =>
          refine .exhausted fun p hp hfits => ?_
          by_cases hlt : p < next
          · exact hnone p hp hlt hfits
          · exact hrest p (UInt64.not_lt.mp hlt) hfits

theorem searchBar_found (h : searchBar bars request fuel candidate = .found base) :
    Fits request base ∧ ¬ Conflicts bars request base := by
  have hround := searchBar_round hr hbars hwindow (by rw [h]; exact Search.noConfusion)
  rw [h] at hround
  cases hround with
  | found hfits hfree => exact ⟨hfits, hfree⟩

end

/-! ## All BARs of a module -/

/-- BARs as they were requested, apart from each other and from others. -/
structure AllocatedBars (others : List Bar) (requests : List BarRequest) (bars : List Bar) :
    Prop where
  fits : List.Forall₂ (fun r b => b.size = r.size ∧ Fits r b.base) requests bars
  apart : bars.Pairwise Bar.Apart
  others : ∀ b ∈ bars, ∀ a ∈ others, b.Apart a

theorem apart_of_not_conflicts (h : ¬ Conflicts bars request base) (hb : b ∈ bars) :
    Bar.Apart ⟨base, request.size⟩ b := by
  by_contra hover
  exact h ⟨b, hb, by simpa [Bar.Apart] using hover⟩

theorem valid_append (hvalid : ∀ b ∈ present ++ pending, b.Valid) (hfits : Fits request base) :
    ∀ b ∈ present ++ (pending ++ [⟨base, request.size⟩]), b.Valid := by
  intro b hb
  rw [← List.append_assoc] at hb
  rcases List.mem_append.mp hb with hb | hb
  · exact hvalid b hb
  · rw [List.mem_singleton.mp hb]
    exact hfits.valid

theorem allocateBars_spec {result : List Bar} (hr : ∀ r ∈ requests, r.valid = true)
    (hvalid : ∀ b ∈ present ++ pending, b.Valid)
    (h : allocateBars present requests pending = some result) :
    ∃ bars, result = pending ++ bars ∧ AllocatedBars (present ++ pending) requests bars := by
  induction requests generalizing pending with
  | nil =>
    cases h
    exact ⟨[], (List.append_nil _).symm, .nil, .nil, nofun⟩
  | cons r requests ih =>
    rw [allocateBars] at h
    split at h
    · next base hfound =>
      obtain ⟨hfits, hfree⟩ := searchBar_found (hr r List.mem_cons_self) hvalid
        (UInt64.le_refl _) hfound
      obtain ⟨bars, rfl, hbars⟩ := ih (fun r' hr' => hr r' (List.mem_cons_of_mem r hr'))
        (valid_append hvalid hfits) h
      refine ⟨⟨base, r.size⟩ :: bars, by simp, .cons ⟨rfl, hfits⟩ hbars.fits, ?_, ?_⟩
      · refine List.pairwise_cons.mpr ⟨fun b hb => ?_, hbars.apart⟩
        exact (hbars.others b hb ⟨base, r.size⟩ (by simp)).symm
      · intro b hb a ha
        rcases List.mem_cons.mp hb with rfl | hb
        · exact apart_of_not_conflicts hfree ha
        · refine hbars.others b hb a ?_
          rw [← List.append_assoc]
          exact List.mem_append_left _ ha
    · cases h

/-- `allocate_bars` fails only if there is no place for one of the BARs, next to the slots that are
    present and to the BARs before it. -/
theorem allocateBars_none (hr : ∀ r ∈ requests, r.valid = true)
    (hvalid : ∀ b ∈ present ++ pending, b.Valid)
    (h : allocateBars present requests pending = none) :
    ∃ before r after earlier, requests = before ++ r :: after ∧
      allocateBars present before pending = some earlier ∧
      ∀ base, Fits r base → Conflicts (present ++ earlier) r base := by
  induction requests generalizing pending with
  | nil => cases h
  | cons r requests ih =>
    rw [allocateBars] at h
    split at h
    · next base hfound =>
      have hfits := (searchBar_found (hr r List.mem_cons_self) hvalid (UInt64.le_refl _) hfound).1
      obtain ⟨before, r', after, earlier, rfl, hearlier, hnone⟩ :=
        ih (fun r' hr' => hr r' (List.mem_cons_of_mem r hr'))
          (valid_append hvalid hfits) h
      refine ⟨r :: before, r', after, earlier, rfl, ?_, hnone⟩
      rw [allocateBars, hfound]
      exact hearlier
    · next hnot =>
      refine ⟨[], r, requests, pending, rfl, rfl, fun base hfits => ?_⟩
      have hends : searchBar (present ++ pending) r (searchFuel (present ++ pending))
          dynamicMmioBase ≠ .outOfFuel := by
        apply searchBar_ends (hr r List.mem_cons_self) hvalid (UInt64.le_refl _)
        exact Nat.lt_succ_of_le (List.length_filter_le _ _)
      have hround := searchBar_round (hr r List.mem_cons_self) hvalid (UInt64.le_refl _) hends
      cases hres : searchBar (present ++ pending) r (searchFuel (present ++ pending))
          dynamicMmioBase with
      | found base => exact absurd hres (hnot base)
      | outOfFuel => exact absurd hres hends
      | exhausted =>
        rw [hres] at hround
        cases hround with
        | exhausted hnone => exact hnone base hfits.above hfits

end RiscMv.Device
