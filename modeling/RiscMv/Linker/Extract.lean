import Mathlib.Data.Finset.Card
import RiscMv.ForStd.Run
import RiscMv.Object.Archive

/-!
# Archive members that the linker takes (`extract_archives` in `tools/linker/main.c`)

The linker goes over its archives again and again and takes from each the first member that the
objects chosen so far need, until a whole pass takes none.  The flags `extracted` of the archives
are one list of the members taken, in their order; memory allocation is assumed to succeed.
-/

namespace RiscMv.Linker

open Object

/-- `InputArchive`: an archive that `cvm_archive_read` has accepted. -/
structure InputArchive where
  archive : CvmArchive
  valid : archiveValid archive = true

def linkerMaxObjects : Nat := 4096

/-- `object_defines`. -/
def objectDefines (objects : List CvmObjectFile) (name : CString) : Bool :=
  objects.any fun object => object.symbols.any fun symbol =>
    symbol.flags &&& symbolGlobal != 0 &&
      symbol.flags &&& (symbolDefined ||| symbolCommon) != 0 && symbol.name == name

/-- `object_needs`. -/
def objectNeeds (objects : List CvmObjectFile) (name : CString) : Bool :=
  !objectDefines objects name &&
    objects.any fun object => object.symbols.any fun symbol =>
      symbol.flags &&& symbolDefined == 0 && symbol.flags &&& symbolCommon == 0 &&
        symbol.flags &&& symbolWeak == 0 && symbol.name == name

/-- `objects_have_entry`. -/
def objectsHaveEntry (objects : List CvmObjectFile) : Bool :=
  objects.any fun object => object.symbols.any fun symbol => symbol.flags &&& symbolEntry != 0

/-- The variable `needed` of `extract_archives`. -/
def needed (entryOption : Option CString) (objects : List CvmObjectFile)
    (symbol : CvmArchiveSymbol) : Bool :=
  objectNeeds objects symbol.name ||
    match entryOption with
    | some entry => entry == symbol.name && !objectDefines objects symbol.name
    | none => !objectsHaveEntry objects && symbol.flags &&& archiveSymbolEntry != 0

/-- A member taken from an archive, for a symbol of its index. -/
structure Extraction where
  archive : Nat
  symbol : CvmArchiveSymbol
  object : CvmObjectFile

def Extraction.member (e : Extraction) : Nat × UInt32 := (e.archive, e.symbol.memberIndex)

/-- The objects chosen and the members taken so far, by archive and index. -/
structure Selection where
  objects : List CvmObjectFile
  extracted : List (Nat × UInt32)
  deriving DecidableEq

/-- `append_object`, and the flag that is set after it. -/
def Selection.append (s : Selection) (e : Extraction) : Option Selection :=
  if s.objects.length = linkerMaxObjects then none
  else some ⟨s.objects ++ [e.object], s.extracted ++ [e.member]⟩

/-- The two ways in which `extract_archives` gives up. -/
inductive ExtractError
  | decode (archive : Nat) (member : CString) (error : String)
  | tooManyObjects
  deriving DecidableEq

variable (entryOption : Option CString)

/-- The symbol at which the loop over the index of an archive breaks. -/
def Selection.next (s : Selection) (i : Nat) (input : InputArchive) : Option CvmArchiveSymbol :=
  input.archive.symbols.find? fun symbol =>
    (i, symbol.memberIndex) ∉ s.extracted && needed entryOption s.objects symbol

/-- The loop over the index of an archive; the flag says whether there was progress. -/
def extractFrom (i : Nat) (input : InputArchive) (s : Selection) :
    Except ExtractError (Selection × Bool) :=
  match h : s.next entryOption i input with
  | none => .ok (s, false)
  | some symbol =>
    let member := input.archive.members.get
      ⟨symbol.memberIndex.toNat, memberIndex_lt input.valid (List.mem_of_find?_eq_some h)⟩
    match cvmObjectDecode member.data with
    | .error error => .error (.decode i member.name error)
    | .ok object =>
      match s.append ⟨i, symbol, object⟩ with
      | none => .error .tooManyObjects
      | some t => .ok (t, true)

/-- The loop over the archives. -/
def extractPass : List (InputArchive × Nat) → Selection → Except ExtractError (Selection × Bool)
  | [], s => .ok (s, false)
  | (input, i) :: rest, s =>
    match extractFrom entryOption i input s with
    | .error error => .error error
    | .ok (t, found) =>
      match extractPass rest t with
      | .error error => .error error
      | .ok (u, progress) => .ok (u, found || progress)

/-! ## What an extraction is -/

variable (archives : List InputArchive)

/-- One of the objects defines the name. -/
def Defined (objects : List CvmObjectFile) (name : CString) : Prop :=
  ∃ object ∈ objects, ∃ symbol ∈ object.symbols, symbol.flags &&& symbolGlobal ≠ 0 ∧
    symbol.flags &&& (symbolDefined ||| symbolCommon) ≠ 0 ∧ symbol.name = name

/-- The symbol of an index is needed: it is not yet defined, and one of the objects has it undefined
and not weak, or it is the entry that was asked for; or no entry was asked for, none of the objects
has one, and the symbol is one. -/
def Needed (objects : List CvmObjectFile) (symbol : CvmArchiveSymbol) : Prop :=
  ¬ Defined objects symbol.name ∧ ((∃ object ∈ objects, ∃ reference ∈ object.symbols,
      reference.flags &&& symbolDefined = 0 ∧ reference.flags &&& symbolCommon = 0 ∧
      reference.flags &&& symbolWeak = 0 ∧ reference.name = symbol.name) ∨
    entryOption = some symbol.name) ∨
  entryOption = none ∧
    (∀ object ∈ objects, ∀ entry ∈ object.symbols, entry.flags &&& symbolEntry = 0) ∧
    symbol.flags &&& archiveSymbolEntry ≠ 0

/-- A member is due when it is still in its archive, decodes, and one of its indexed symbols is
needed by the objects chosen so far. -/
def Due (s : Selection) (e : Extraction) : Prop :=
  ∃ input, archives[e.archive]? = some input ∧ e.symbol ∈ input.archive.symbols ∧
    e.member ∉ s.extracted ∧ Needed entryOption s.objects e.symbol ∧
    ∃ member, input.archive.members[e.symbol.memberIndex.toNat]? = some member ∧
      cvmObjectDecode member.data = .ok e.object

/-- Extractions one after the other, each of a member that is due at its moment. -/
abbrev Extracts : Selection → Selection → Prop :=
  Run Selection.append (Due entryOption archives)

/-- Nothing that is left in the archive is needed. -/
def Settled (s : Selection) (i : Nat) (input : InputArchive) : Prop :=
  ∀ symbol ∈ input.archive.symbols, (i, symbol.memberIndex) ∉ s.extracted →
    ¬ Needed entryOption s.objects symbol

/-- The reason of a failure: a member that does not decode, or the limit on objects. -/
def Fails (s : Selection) : ExtractError → Prop
  | .decode i name error => ∃ input, archives[i]? = some input ∧
      ∃ member ∈ input.archive.members,
        member.name = name ∧ cvmObjectDecode member.data = .error error
  | .tooManyObjects => s.objects.length = linkerMaxObjects

/-! ## Termination -/

/-- The members that an index names and that are still in their archive. -/
def remaining (s : Selection) : Finset (Nat × UInt32) :=
  (archives.zipIdx.flatMap fun (input, i) =>
      input.archive.symbols.map fun symbol => (i, symbol.memberIndex)).toFinset \
    s.extracted.toFinset

variable {entryOption archives} {s t : Selection} {e : Extraction}

theorem objectDefines_iff (objects : List CvmObjectFile) (name : CString) :
    objectDefines objects name = true ↔ Defined objects name := by
  simp [objectDefines, Defined, and_assoc]

theorem needed_iff (objects : List CvmObjectFile) (symbol : CvmArchiveSymbol) :
    needed entryOption objects symbol = true ↔ Needed entryOption objects symbol := by
  have hdefines : objectDefines objects symbol.name = false ↔ ¬ Defined objects symbol.name := by
    rw [← objectDefines_iff, Bool.not_eq_true]
  cases entryOption with
  | none => simp [needed, objectNeeds, objectsHaveEntry, Needed, hdefines, and_assoc]
  | some entry =>
    simp only [needed, objectNeeds, Needed, Bool.or_eq_true, Bool.and_eq_true, Bool.not_eq_true',
      beq_iff_eq, hdefines, and_comm (a := entry = symbol.name), ← and_or_left]
    simp [and_assoc]

theorem append_eq_some (h : s.append e = some t) :
    t = ⟨s.objects ++ [e.object], s.extracted ++ [e.member]⟩ := by
  rw [Selection.append] at h
  split at h
  · cases h
  · exact (Option.some.inj h).symm

/-- Each extraction leaves fewer members. -/
theorem card_remaining_append (hdue : Due entryOption archives s e) (h : s.append e = some t) :
    (remaining archives t).card < (remaining archives s).card := by
  obtain ⟨input, hin, hsym, hnew, -⟩ := hdue
  have herase : remaining archives t = (remaining archives s).erase e.member := by
    rw [append_eq_some h]
    ext key
    simp only [remaining, Finset.mem_sdiff, Finset.mem_erase, List.mem_toFinset, List.mem_append,
      List.mem_singleton]
    tauto
  rw [herase]
  apply Finset.card_erase_lt_of_mem
  refine Finset.mem_sdiff.mpr ⟨List.mem_toFinset.mpr (List.mem_flatMap.mpr
    ⟨(input, e.archive), ?_, List.mem_map_of_mem hsym⟩), by simpa using hnew⟩
  exact List.mk_mem_zipIdx_iff_getElem?.mpr hin

/-! ## One archive and one pass -/

theorem extractFrom_spec {i : Nat} {input : InputArchive} (hin : archives[i]? = some input) :
    match extractFrom entryOption i input s with
    | .ok (t, true) => ∃ e, Due entryOption archives s e ∧ s.append e = some t
    | .ok (t, false) => t = s ∧ Settled entryOption s i input
    | .error error => Fails archives s error := by
  generalize hr : extractFrom entryOption i input s = r
  rw [extractFrom] at hr
  split at hr
  · next hnone =>
    subst hr
    refine ⟨rfl, fun symbol hsym hnew => ?_⟩
    rw [← needed_iff]
    simpa [hnew] using List.find?_eq_none.mp hnone symbol hsym
  · next symbol hsome =>
    have hsym := List.mem_of_find?_eq_some hsome
    have hlt := memberIndex_lt input.valid hsym
    have hcond := List.find?_some hsome
    rw [Bool.and_eq_true, decide_eq_true_eq] at hcond
    cases hdec : cvmObjectDecode (input.archive.members.get ⟨_, hlt⟩).data with
    | error error =>
      simp only [hdec] at hr
      subst hr
      exact ⟨input, hin, _, List.get_mem _ _, rfl, hdec⟩
    | ok object =>
      simp only [hdec] at hr
      split at hr
      · next hfull =>
        subst hr
        rw [Selection.append] at hfull
        split at hfull
        · next h => exact h
        · cases hfull
      · next t happ =>
        subst hr
        exact ⟨⟨i, symbol, object⟩, ⟨input, hin, hsym, hcond.1, (needed_iff _ _).mp hcond.2, _,
          List.getElem?_eq_getElem hlt, hdec⟩, happ⟩

/-- A pass goes on with the run of extractions; one without progress changes nothing, and then
nothing that is left in an archive is needed. -/
theorem extractPass_spec {start : Selection} (hrun : Extracts entryOption archives start s)
    (l : List (InputArchive × Nat)) (hl : ∀ p ∈ l, archives[p.2]? = some p.1) :
    match extractPass entryOption l s with
    | .ok (t, progress) => Extracts entryOption archives start t ∧
        (remaining archives t).card + progress.toNat ≤ (remaining archives s).card ∧
        (progress = false → t = s ∧ ∀ p ∈ l, Settled entryOption s p.2 p.1)
    | .error error => ∃ t, Extracts entryOption archives start t ∧ Fails archives t error := by
  induction l generalizing s with
  | nil => exact ⟨hrun, le_rfl, fun _ => ⟨rfl, by simp⟩⟩
  | cons p rest ih =>
    have hfrom := @extractFrom_spec entryOption archives s _ _ (hl p List.mem_cons_self)
    have hrest := fun q hq => hl q (List.mem_cons_of_mem p hq)
    rw [extractPass]
    cases hx : extractFrom entryOption p.2 p.1 s with
    | error error =>
      rw [hx] at hfrom
      exact ⟨s, hrun, hfrom⟩
    | ok r =>
      obtain ⟨t, found⟩ := r
      rw [hx] at hfrom
      -- what the archive gave, in the form the rest of the pass goes on from
      have hstep : Extracts entryOption archives start t ∧
          (remaining archives t).card + found.toNat ≤ (remaining archives s).card ∧
          (found = false → t = s ∧ Settled entryOption s p.2 p.1) := by
        cases found with
        | false =>
          obtain ⟨rfl, hsettled⟩ := hfrom
          exact ⟨hrun, le_rfl, fun _ => ⟨rfl, hsettled⟩⟩
        | true =>
          obtain ⟨e, hdue, happ⟩ := hfrom
          exact ⟨hrun.tail hdue happ, card_remaining_append hdue happ, by simp⟩
      obtain ⟨hrun', hcard, hquiet⟩ := hstep
      have hpass := ih hrun' hrest
      dsimp only
      cases hy : extractPass entryOption rest t with
      | error error =>
        rw [hy] at hpass
        exact hpass
      | ok r =>
        obtain ⟨u, progress⟩ := r
        rw [hy] at hpass
        obtain ⟨hrun'', hcard', hquiet'⟩ := hpass
        refine ⟨hrun'', ?_, fun hno => ?_⟩
        · have : (found || progress).toNat ≤ found.toNat + progress.toNat := by
            cases found <;> simp
          omega
        · obtain ⟨hf, hp⟩ := Bool.or_eq_false_iff.mp hno
          obtain ⟨rfl, hset⟩ := hquiet hf
          obtain ⟨rfl, hset'⟩ := hquiet' hp
          exact ⟨rfl, List.forall_mem_cons.mpr ⟨hset, hset'⟩⟩

theorem getElem?_of_mem_zipIdx (p : InputArchive × Nat) (hp : p ∈ archives.zipIdx) :
    archives[p.2]? = some p.1 :=
  List.mk_mem_zipIdx_iff_getElem?.mp hp

/-- `extract_archives`. -/
def extractArchives (entryOption : Option CString) (archives : List InputArchive)
    (s : Selection) : Except ExtractError Selection :=
  match _h : extractPass entryOption archives.zipIdx s with
  | .error error => .error error
  | .ok (t, true) => extractArchives entryOption archives t
  | .ok (t, false) => .ok t
termination_by (remaining archives s).card
decreasing_by
  have hrun : Extracts entryOption archives s s := .refl
  have hspec := extractPass_spec hrun archives.zipIdx getElem?_of_mem_zipIdx
  rw [_h] at hspec
  exact hspec.2.1

/-! ## The fixed point -/

/-- A run of extractions takes no member twice. -/
theorem extracted_nodup {start : Selection} (h : Extracts entryOption archives start s)
    (hstart : start.extracted = []) : s.extracted.Nodup := by
  refine h.invariant (I := fun s => s.extracted.Nodup) (by simp [hstart])
    fun u e v hu hdue happ => ?_
  obtain ⟨-, -, -, hnew, -⟩ := hdue
  have hnodup := hu.concat hnew
  rw [List.concat_eq_append] at hnodup
  rw [append_eq_some happ]
  exact hnodup

theorem extractArchives_run {start : Selection} (hrun : Extracts entryOption archives start s) :
    match extractArchives entryOption archives s with
    | .ok t => Extracts entryOption archives start t ∧
        ∀ p ∈ archives.zipIdx, Settled entryOption t p.2 p.1
    | .error error => ∃ t, Extracts entryOption archives start t ∧ Fails archives t error := by
  fun_induction extractArchives entryOption archives s with
  | case1 s error h =>
    have hspec := extractPass_spec hrun archives.zipIdx getElem?_of_mem_zipIdx
    rw [h] at hspec
    exact hspec
  | case2 s t h ih =>
    have hspec := extractPass_spec hrun archives.zipIdx getElem?_of_mem_zipIdx
    rw [h] at hspec
    exact ih hspec.1
  | case3 s t h =>
    have hspec := extractPass_spec hrun archives.zipIdx getElem?_of_mem_zipIdx
    rw [h] at hspec
    obtain ⟨rfl, hset⟩ := hspec.2.2 rfl
    exact ⟨hspec.1, hset⟩

/-- Archive extraction ends.  Unless a member does not decode or the limit on objects is reached,
the members were taken one by one, none twice and each when it was due, and in the end nothing
that is left in an archive is needed. -/
theorem extractArchives_fixed_point (entryOption : Option CString) (archives : List InputArchive)
    (objects : List CvmObjectFile) :
    match extractArchives entryOption archives ⟨objects, []⟩ with
    | .ok t => Extracts entryOption archives ⟨objects, []⟩ t ∧ t.extracted.Nodup ∧
        ∀ i input, archives[i]? = some input → Settled entryOption t i input
    | .error error =>
        ∃ t, Extracts entryOption archives ⟨objects, []⟩ t ∧ Fails archives t error := by
  have hspec := @extractArchives_run entryOption archives _ _ (.refl (s := ⟨objects, []⟩))
  cases hx : extractArchives entryOption archives ⟨objects, []⟩ with
  | error error =>
    rw [hx] at hspec
    exact hspec
  | ok t =>
    rw [hx] at hspec
    refine ⟨hspec.1, extracted_nodup hspec.1 rfl, fun i input hin => ?_⟩
    exact hspec.2 (input, i) (List.mk_mem_zipIdx_iff_getElem?.mpr hin)

/-! ## Archives that depend on each other -/

/-- An object that defines one symbol and needs another. -/
def linkedObject (defines needs : CString) : CvmObjectFile where
  sections := [⟨defines, sectionAlloc, 1, [], 0⟩]
  symbols := [⟨defines, absoluteSection, symbolGlobal ||| symbolDefined, 0, 0⟩,
    ⟨needs, undefinedSection, symbolGlobal, 0, 0⟩]
  relocations := []

/-- A member with such an object. -/
def linkedMember (defines needs : CString) : CvmArchiveMember :=
  ⟨defines, (cvmObjectWrite (linkedObject defines needs)).toOption.getD []⟩

def nameA : CString := ⟨[0x41], by decide⟩
def nameB : CString := ⟨[0x42], by decide⟩
def nameC : CString := ⟨[0x43], by decide⟩
def nameD : CString := ⟨[0x44], by decide⟩

/-- Two archives: `B` of the first needs `C` of the second, which needs `D` of the first. -/
def cyclicArchives : List InputArchive :=
  [⟨⟨[linkedMember nameB nameC, linkedMember nameD nameB], [⟨nameB, 0, 0⟩, ⟨nameD, 1, 0⟩]⟩,
      by decide +kernel⟩,
    ⟨⟨[linkedMember nameC nameD], [⟨nameC, 0, 0⟩]⟩, by decide +kernel⟩]

/-- One pass more. -/
theorem extractArchives_eq (entryOption : Option CString) (archives : List InputArchive)
    (s : Selection) : extractArchives entryOption archives s =
      match extractPass entryOption archives.zipIdx s with
      | .error error => .error error
      | .ok (t, true) => extractArchives entryOption archives t
      | .ok (t, false) => .ok t := by
  rw [extractArchives]
  split <;> simp_all

/-- The first pass takes `B` and `C`, the second one `D`, the third nothing. -/
theorem extractArchives_fixed_point_cyclic : ∃ t,
    extractArchives none cyclicArchives ⟨[linkedObject nameA nameB], []⟩ = .ok t ∧
    t.extracted = [(0, 0), (1, 0), (0, 1)] ∧
    Extracts none cyclicArchives ⟨[linkedObject nameA nameB], []⟩ t ∧ t.extracted.Nodup ∧
    ∀ i input, cyclicArchives[i]? = some input → Settled none t i input := by
  let t₁ : Selection := ⟨[linkedObject nameA nameB, linkedObject nameB nameC,
    linkedObject nameC nameD], [(0, 0), (1, 0)]⟩
  let t₂ : Selection := ⟨t₁.objects ++ [linkedObject nameD nameB], t₁.extracted ++ [(0, 1)]⟩
  have h₁ : extractPass none cyclicArchives.zipIdx ⟨[linkedObject nameA nameB], []⟩ =
      .ok (t₁, true) := by decide +kernel
  have h₂ : extractPass none cyclicArchives.zipIdx t₁ = .ok (t₂, true) := by decide +kernel
  have h₃ : extractPass none cyclicArchives.zipIdx t₂ = .ok (t₂, false) := by decide +kernel
  have hrun : extractArchives none cyclicArchives ⟨[linkedObject nameA nameB], []⟩ = .ok t₂ := by
    simp only [extractArchives_eq, h₁, h₂, h₃]
  have hfixed := extractArchives_fixed_point none cyclicArchives [linkedObject nameA nameB]
  rw [hrun] at hfixed
  exact ⟨t₂, hrun, rfl, hfixed⟩

end RiscMv.Linker
