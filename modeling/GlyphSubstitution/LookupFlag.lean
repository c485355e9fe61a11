/-!
# Lookup flags

A lookup says in one 16-bit word which glyphs it does not see: base glyphs, ligatures, and marks,
the last wholesale, by attachment class, or by membership in a mark filtering set that comes beside
the word.  `LookupFlag.ignoredMarks` settles which of the three wins.
-/

namespace GlyphSubstitution

/-- The flag word of a lookup, with the number of its mark filtering set if it has one. -/
structure LookupFlag where
  /-- The word as it stands in the font. -/
  bits : UInt16 := 0
  /-- The mark filtering set that the lookup names. -/
  filteringSet : Option UInt16 := none
  deriving DecidableEq, Repr, Inhabited

/-- Which marks a lookup does not see. -/
inductive IgnoredMarks where
  /-- Every mark is seen. -/
  | none
  /-- No mark is seen. -/
  | all
  /-- Only marks of this attachment class are seen. -/
  | exceptClass (kept : UInt8)
  /-- Only marks in this mark filtering set are seen. -/
  | notInSet (set : UInt16)
  deriving DecidableEq, Repr

namespace LookupFlag

/-- The bit for lookups that run from right to left. -/
def rightToLeftBit : UInt16 := 0x0001

/-- The bit for lookups that do not see base glyphs. -/
def ignoreBasesBit : UInt16 := 0x0002

/-- The bit for lookups that do not see ligatures. -/
def ignoreLigaturesBit : UInt16 := 0x0004

/-- The bit for lookups that see no mark at all. -/
def ignoreMarksBit : UInt16 := 0x0008

/-- The bit that announces a mark filtering set. -/
def markFilteringBit : UInt16 := 0x0010

/-- The bits that hold the attachment class of the marks a lookup keeps. -/
def attachmentClassBits : UInt16 := 0xFF00

/-- The flag with these bits and no mark filtering set. -/
def ofBits (bits : UInt16) : LookupFlag := ⟨bits, .none⟩

/-- The flag with these bits and this mark filtering set, which the bits then announce. -/
def withMarkFilteringSet (bits set : UInt16) : LookupFlag := ⟨bits ||| markFilteringBit, some set⟩

/-- Whether one of the bits of `mask` is set. -/
def has (flag : LookupFlag) (mask : UInt16) : Bool := flag.bits &&& mask != 0

/-- Whether the lookup runs from right to left. -/
def rightToLeft (flag : LookupFlag) : Bool := flag.has rightToLeftBit

/-- Whether the lookup does not see base glyphs. -/
def ignoresBases (flag : LookupFlag) : Bool := flag.has ignoreBasesBit

/-- Whether the lookup does not see ligatures. -/
def ignoresLigatures (flag : LookupFlag) : Bool := flag.has ignoreLigaturesBit

/-- The attachment class in the high byte; zero asks for no filtering. -/
def attachmentClass (flag : LookupFlag) : UInt8 := (flag.bits >>> 8).toUInt8

/-- Which marks the lookup does not see.  Ignoring all of them comes before a filtering set, and a
filtering set before an attachment class. -/
def ignoredMarks (flag : LookupFlag) : IgnoredMarks :=
  if flag.has ignoreMarksBit then .all
  else
    match flag.filteringSet with
    | some set => .notInSet set
    | .none => if flag.has attachmentClassBits then .exceptClass flag.attachmentClass else .none

end LookupFlag

end GlyphSubstitution
