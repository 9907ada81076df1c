import RiscMv.Object.Format

/-!
# Archives (`tools/object/archive_format.c`)

The archive of object files and its symbol index, with `archive_valid`.  The data of a member is
given by its bytes, so its `size` is their number.
-/

namespace RiscMv.Object

/-- `CvmArchiveMember`. -/
structure CvmArchiveMember where
  name : CString
  data : List UInt8
  deriving DecidableEq

/-- `CvmArchiveSymbol`. -/
structure CvmArchiveSymbol where
  name : CString
  memberIndex : UInt32
  flags : UInt32
  deriving DecidableEq

/-- `CvmArchive`. -/
structure CvmArchive where
  members : List CvmArchiveMember
  symbols : List CvmArchiveSymbol
  deriving DecidableEq

def archiveMaxMembers : Nat := 4096
def archiveMaxSymbols : Nat := 1048576

/-- `CVM_ARCHIVE_SYMBOL_ENTRY`. -/
def archiveSymbolEntry : UInt32 := 1

/-- `archive_valid`.  Comparing each name with the earlier ones makes the names distinct. -/
def archiveValid (archive : CvmArchive) : Bool :=
  !decide (archive.members.length = 0 ∨ archive.members.length > archiveMaxMembers ∨
      archive.symbols.length > archiveMaxSymbols) &&
    archive.members.all (fun member => !decide (member.name.bytes = [] ∨
      member.data.length = 0 ∨ member.data.length > maxSize)) &&
    decide (archive.members.map (·.name)).Nodup &&
    archive.symbols.all (fun symbol => !decide (symbol.name.bytes = [] ∨
      symbol.memberIndex.toNat ≥ archive.members.length ∨
      symbol.flags &&& ~~~archiveSymbolEntry ≠ 0))

/-- The index of a valid archive names its members. -/
theorem memberIndex_lt {archive : CvmArchive} (h : archiveValid archive = true)
    {symbol : CvmArchiveSymbol} (hs : symbol ∈ archive.symbols) :
    symbol.memberIndex.toNat < archive.members.length := by
  rw [archiveValid, Bool.and_eq_true, List.all_eq_true] at h
  have := h.2 symbol hs
  rw [Bool.not_eq_true', decide_eq_false_iff_not] at this
  omega

end RiscMv.Object
