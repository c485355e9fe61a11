import Mathlib.Logic.ExistsUnique
import GlyphSubstitution.GlyphDefinitions.Skipping

/-!
# What lookups with a flag step over

The skip predicate of a font answers at once where the flag hides nothing, and otherwise goes by the
class of the glyph.  The quick answer is that of the classes too (`skips_eq`), so the predicate can
be told by three cases, one for each class that a flag speaks of.

`skips_iff_hidden` tells it without the definitions that it is computed by: the classes are those
that the class definitions assign (`ClassDef.Assigns`), the flag is a word of which bits are set or
not, and a mark filtering set is the list of glyphs that it was made from.
-/

namespace GlyphSubstitution

/-! ## Classes -/

namespace ClassDef

/-- What a class definition, if there is one, says about a glyph.  An array tells the classes of
consecutive glyphs; of ranges that hold the glyph, the first one counts.  A glyph that is not
mentioned has class zero. -/
inductive Assigns : Option ClassDef → GlyphId → UInt16 → Prop where
  | absent (g : GlyphId) : Assigns none g 0
  | listed {start g : GlyphId} {values : List UInt16} {n : Nat} {c : UInt16}
      (hplace : g.toNat = start.toNat + n) (hvalue : values[n]? = some c) :
      Assigns (some (.array start values)) g c
  | unlisted {start g : GlyphId} {values : List UInt16}
      (houtside : ∀ n < values.length, g.toNat ≠ start.toNat + n) :
      Assigns (some (.array start values)) g 0
  | ranged {before after : List ClassRange} {range : ClassRange} {g : GlyphId}
      (hholds : range.first ≤ g ∧ g ≤ range.last)
      (hbefore : ∀ r ∈ before, ¬ (r.first ≤ g ∧ g ≤ r.last)) :
      Assigns (some (.ranges (before ++ range :: after))) g range.value
  | unranged {rs : List ClassRange} {g : GlyphId}
      (houtside : ∀ r ∈ rs, ¬ (r.first ≤ g ∧ g ≤ r.last)) :
      Assigns (some (.ranges rs)) g 0

theorem holds_iff {range : ClassRange} {g : GlyphId} :
    range.holds g = true ↔ range.first ≤ g ∧ g ≤ range.last := by
  simp [ClassRange.holds]

/-- What is looked up in a class definition is what it assigns. -/
theorem assigns_classOf (given : Option ClassDef) (g : GlyphId) :
    Assigns given g ((given.map (·.classOf g)).getD 0) := by
  match given with
  | none => exact .absent g
  | some (.array start values) =>
    simp only [Option.map_some, Option.getD_some, classOf]
    split
    case isTrue hstart =>
      have hle : start.toNat ≤ g.toNat := UInt16.le_iff_toNat_le.1 hstart
      rw [List.getD_eq_getElem?_getD]
      cases hvalue : values[g.toNat - start.toNat]? with
      | some c => exact .listed (by omega) hvalue
      | none =>
        have hlength := List.getElem?_eq_none_iff.1 hvalue
        exact .unlisted fun n hn => by omega
    case isFalse hstart =>
      have hlt : ¬ start.toNat ≤ g.toNat := fun hle => hstart (UInt16.le_iff_toNat_le.2 hle)
      exact .unlisted fun n hn => by omega
  | some (.ranges rs) =>
    simp only [Option.map_some, Option.getD_some, classOf]
    cases hfind : rs.find? (·.holds g) with
    | none =>
      refine .unranged fun r hr hin => ?_
      exact List.find?_eq_none.1 hfind r hr (holds_iff.2 hin)
    | some range =>
      obtain ⟨hholds, before, after, rfl, hbefore⟩ := List.find?_eq_some_iff_append.1 hfind
      refine .ranged (holds_iff.1 hholds) fun r hr hin => ?_
      simpa [holds_iff.2 hin] using hbefore r hr

/-- A class definition assigns one class to each glyph. -/
theorem Assigns.eq_classOf {given : Option ClassDef} {g : GlyphId} {c : UInt16}
    (h : Assigns given g c) : c = (given.map (·.classOf g)).getD 0 := by
  cases h with
  | absent => rfl
  | @listed start g values n c hplace hvalue =>
    have hstart : start ≤ g := UInt16.le_iff_toNat_le.2 (by omega)
    have hn : g.toNat - start.toNat = n := by omega
    simp [classOf, hstart, hn, hvalue]
  | @unlisted start g values houtside =>
    simp only [Option.map_some, Option.getD_some, classOf]
    split
    case isTrue hstart =>
      have hle : start.toNat ≤ g.toNat := UInt16.le_iff_toNat_le.1 hstart
      have hlength : values.length ≤ g.toNat - start.toNat :=
        Nat.le_of_not_lt fun hlt => houtside _ hlt (by omega)
      rw [List.getD_eq_getElem?_getD, List.getElem?_eq_none hlength, Option.getD_none]
    case isFalse => rfl
  | @ranged before after range g hholds hbefore =>
    have hnone : before.find? (·.holds g) = none :=
      List.find?_eq_none.2 fun r hr hin => hbefore r hr (holds_iff.1 hin)
    have hfind : (before ++ range :: after).find? (·.holds g) = some range := by
      rw [List.find?_append, hnone, Option.none_or, List.find?_cons, holds_iff.2 hholds]
    simp [classOf, hfind]
  | @unranged rs g houtside =>
    have hnone : rs.find? (·.holds g) = none :=
      List.find?_eq_none.2 fun r hr hin => houtside r hr (holds_iff.1 hin)
    simp [classOf, hnone]

theorem existsUnique_assigns (given : Option ClassDef) (g : GlyphId) :
    ∃! c, Assigns given g c :=
  ⟨_, assigns_classOf given g, fun _ h => h.eq_classOf⟩

end ClassDef

/-! ## Flags -/

namespace LookupFlag

/-- The flag that a lookup is given by a word and, perhaps, a mark filtering set beside it. -/
def given (bits : UInt16) : Option UInt16 → LookupFlag
  | none => ofBits bits
  | some set => withMarkFilteringSet bits set

/-- To announce a mark filtering set changes no other bit of the word. -/
theorem has_given (mask : UInt16) (hmask : markFilteringBit &&& mask = 0) (bits : UInt16)
    (set : Option UInt16) : (given bits set).has mask = true ↔ bits &&& mask ≠ 0 := by
  have hannounced : (bits ||| markFilteringBit) &&& mask = bits &&& mask := by
    have hzero := congrArg UInt16.toNat hmask
    rw [UInt16.toNat_and] at hzero
    rw [← UInt16.toNat_inj, UInt16.toNat_and, UInt16.toNat_or, Nat.and_or_distrib_right, hzero,
      UInt16.toNat_and]
    exact Nat.or_zero _
  cases set with
  | none => exact bne_iff_ne
  | some set =>
    rw [given, withMarkFilteringSet, has, hannounced]
    exact bne_iff_ne

theorem filteringSet_given (bits : UInt16) (set : Option UInt16) :
    (given bits set).filteringSet = set := by
  cases set <;> rfl

/-- The bits of the attachment class are those of the high byte. -/
theorem toNat_and_attachmentClassBits (bits : UInt16) :
    (bits &&& attachmentClassBits).toNat = bits.toNat / 256 * 256 := by
  have hlt : bits.toNat / 2 ^ 8 < 2 ^ 8 := by
    have := bits.toNat_lt
    omega
  have hhigh : (bits.toNat &&& 0xFF00) / 2 ^ 8 = bits.toNat / 2 ^ 8 := by
    rw [Nat.and_div_two_pow, Nat.and_two_pow_sub_one_eq_mod _ 8, Nat.mod_eq_of_lt hlt]
  have hlow : (bits.toNat &&& 0xFF00) % 2 ^ 8 = 0 := by
    rw [Nat.and_mod_two_pow]
    exact Nat.and_zero _
  rw [UInt16.toNat_and]
  change bits.toNat &&& 0xFF00 = _
  omega

theorem has_attachmentClassBits (bits : UInt16) :
    (ofBits bits).has attachmentClassBits = true ↔ bits.toNat / 256 ≠ 0 := by
  have hzero : bits &&& attachmentClassBits = 0 ↔ bits.toNat / 256 * 256 = 0 := by
    rw [← UInt16.toNat_inj, toNat_and_attachmentClassBits]
    rfl
  rw [has, bne_iff_ne, Ne, ofBits, hzero]
  omega

theorem toNat_attachmentClass (bits : UInt16) :
    (ofBits bits).attachmentClass.toUInt16.toNat = bits.toNat / 256 := by
  have hlt := bits.toNat_lt
  rw [attachmentClass, ofBits, UInt8.toNat_toUInt16, UInt16.toNat_toUInt8,
    UInt16.toNat_shiftRight, Nat.shiftRight_eq_div_pow]
  change bits.toNat / 2 ^ 8 % 2 ^ 8 = _
  omega

/-- Which marks a lookup with the flag does not see, by the bits of its word. -/
theorem ignoredMarks_given (bits : UInt16) (set : Option UInt16) :
    (given bits set).ignoredMarks =
      if bits &&& 0x0008 ≠ 0 then .all
      else
        match set with
        | some s => .notInSet s
        | none =>
          if bits.toNat / 256 ≠ 0 then .exceptClass (ofBits bits).attachmentClass else .none := by
  unfold ignoredMarks
  simp only [has_given ignoreMarksBit rfl, filteringSet_given]
  congr 1
  cases set with
  | some s => rfl
  | none => simp only [given, has_attachmentClassBits]

end LookupFlag

/-! ## The predicate -/

namespace GlyphDefinitions

open LookupFlag

variable {defs : GlyphDefinitions} {g : GlyphId}

/-- Where the flag hides nothing the classes would say so too. -/
theorem skips_eq (defs : GlyphDefinitions) (g : GlyphId) (flag : LookupFlag) :
    defs.skips g flag =
      if defs.hasClass g .base then flag.ignoresBases
      else if defs.hasClass g .ligature then flag.ignoresLigatures
      else defs.isMark g && defs.hidesMark flag.ignoredMarks g := by
  unfold skips
  split
  case isFalse => rfl
  case isTrue hall =>
    simp only [seesAll, Bool.and_eq_true, Bool.not_eq_true', beq_iff_eq] at hall
    obtain ⟨⟨hbases, hligatures⟩, hmarks⟩ := hall
    rw [hbases, hligatures, hmarks]
    simp [hidesMark]

theorem hasClass_iff {c : GlyphClass} : defs.hasClass g c = true ↔ defs.classOf g = c.value := by
  simp [hasClass]

/-- No glyph has two of the classes, so the order in which they are asked for does not matter. -/
theorem skips_iff_classOf {flag : LookupFlag} :
    defs.skips g flag = true ↔
      defs.classOf g = 1 ∧ flag.ignoresBases = true ∨
        defs.classOf g = 2 ∧ flag.ignoresLigatures = true ∨
          defs.classOf g = 3 ∧ defs.hidesMark flag.ignoredMarks g = true := by
  have hbase : (GlyphClass.base).value = 1 := rfl
  have hligature : (GlyphClass.ligature).value = 2 := rfl
  have hmark : (GlyphClass.mark).value = 3 := rfl
  rw [skips_eq]
  split
  case isTrue h =>
    rw [hasClass_iff, hbase] at h
    simp [h]
  case isFalse h =>
    rw [hasClass_iff, hbase] at h
    split
    case isTrue h' =>
      rw [hasClass_iff, hligature] at h'
      simp [h']
    case isFalse h' =>
      rw [hasClass_iff, hligature] at h'
      rw [Bool.and_eq_true, isMark, hasClass_iff, hmark]
      simp [h, h']

/-- Which marks a flag hides, by the bits of its word. -/
theorem hidesMark_iff {bits : UInt16} {set : Option UInt16} :
    defs.hidesMark (given bits set).ignoredMarks g = true ↔
      bits &&& 0x0008 ≠ 0 ∨
      (bits &&& 0x0008 = 0 ∧ ∃ s, set = some s ∧ defs.isMarkInSet g s.toNat = false) ∨
      (bits &&& 0x0008 = 0 ∧ set = none ∧ bits.toNat / 256 ≠ 0 ∧
        (defs.attachmentClassOf g).toNat ≠ bits.toNat / 256) := by
  rw [ignoredMarks_given]
  split
  case isTrue hbit => simp [hidesMark, hbit]
  case isFalse hbit =>
    have hbit' : bits &&& 0x0008 = 0 := Decidable.not_not.1 hbit
    cases set with
    | some s => simp [hidesMark, hbit']
    | none =>
      dsimp only
      split
      case isTrue hhigh =>
        have hclass : (defs.attachmentClassOf g != (ofBits bits).attachmentClass.toUInt16) =
            true ↔ (defs.attachmentClassOf g).toNat ≠ bits.toNat / 256 := by
          rw [bne_iff_ne, Ne, ← UInt16.toNat_inj, toNat_attachmentClass]
        rw [hidesMark, hclass]
        exact ⟨fun h => Or.inr (Or.inr ⟨hbit', rfl, hhigh, h⟩), by simp [hbit']⟩
      case isFalse hhigh => simp [hidesMark, hbit', Decidable.not_not.1 hhigh]

/-- A mark is in a filtering set exactly if the font has the set and it was made from a list that
has the mark. -/
theorem isMarkInSet_eq_false_iff {classes attachment : Option ClassDef}
    {sets : List (List GlyphId)} {n : Nat}
    (hmark : (GlyphDefinitions.mk classes attachment (sets.map MarkSet.ofList)).isMark g = true) :
    (GlyphDefinitions.mk classes attachment (sets.map MarkSet.ofList)).isMarkInSet g n = false ↔
      sets[n]? = none ∨ ∃ glyphs, sets[n]? = some glyphs ∧ g ∉ glyphs := by
  rw [isMarkInSet, hmark, Bool.true_and, List.getElem?_map]
  cases hset : sets[n]? with
  | none => simp
  | some glyphs =>
    have hcontains : (MarkSet.ofList glyphs).contains g = false ↔ g ∉ glyphs := by
      rw [← MarkSet.contains_ofList, Bool.not_eq_true]
    simp [hcontains]

/-- What a lookup steps over.  Class definitions assign one class to each glyph.  A base glyph or a
ligature is stepped over if the flag says so for its class.  A mark is stepped over if the flag
ignores all marks; else, if there is a mark filtering set beside it, if the font does not have the
set or the mark is not in the list that the set was made from; else if the high byte of the flag is
not zero and differs from the attachment class of the mark.  No other glyph is stepped over. -/
theorem skips_iff_hidden (classes attachment : Option ClassDef) (sets : List (List GlyphId))
    (g : GlyphId) :
    (∃! c, ClassDef.Assigns classes g c) ∧ (∃! a, ClassDef.Assigns attachment g a) ∧
      ∀ c a, ClassDef.Assigns classes g c → ClassDef.Assigns attachment g a → ∀ bits set,
        ((GlyphDefinitions.mk classes attachment (sets.map MarkSet.ofList)).skips g
            (given bits set) = true ↔
          c = 1 ∧ bits &&& 0x0002 ≠ 0 ∨
          c = 2 ∧ bits &&& 0x0004 ≠ 0 ∨
          c = 3 ∧
            (bits &&& 0x0008 ≠ 0 ∨
            (bits &&& 0x0008 = 0 ∧ ∃ s, set = some s ∧
              (sets[s.toNat]? = none ∨ ∃ glyphs, sets[s.toNat]? = some glyphs ∧ g ∉ glyphs)) ∨
            (bits &&& 0x0008 = 0 ∧ set = none ∧ bits.toNat / 256 ≠ 0 ∧
              a.toNat ≠ bits.toNat / 256))) := by
  refine ⟨ClassDef.existsUnique_assigns classes g, ClassDef.existsUnique_assigns attachment g, ?_⟩
  intro c a hc ha bits set
  have hclass : (GlyphDefinitions.mk classes attachment (sets.map MarkSet.ofList)).classOf g = c :=
    hc.eq_classOf.symm
  have hattachment :
      (GlyphDefinitions.mk classes attachment (sets.map MarkSet.ofList)).attachmentClassOf g = a :=
    ha.eq_classOf.symm
  have hbases : (given bits set).ignoresBases = true ↔ bits &&& 0x0002 ≠ 0 :=
    has_given ignoreBasesBit rfl bits set
  have hligatures : (given bits set).ignoresLigatures = true ↔ bits &&& 0x0004 ≠ 0 :=
    has_given ignoreLigaturesBit rfl bits set
  rw [skips_iff_classOf, hclass, hbases, hligatures, hidesMark_iff, hattachment]
  refine or_congr_right (or_congr_right (and_congr_right fun hmark => ?_))
  have hisMark :
      (GlyphDefinitions.mk classes attachment (sets.map MarkSet.ofList)).isMark g = true :=
    hasClass_iff.2 (hclass.trans hmark)
  simp only [isMarkInSet_eq_false_iff hisMark]

/-- Ranges of which one is turned round and two overlap: 21 is a mark, for the range that says so
comes first. -/
def layeredClasses : ClassDef := .ranges [⟨30, 20, 1⟩, ⟨20, 29, 3⟩, ⟨5, 25, 1⟩]

/-- The definitions of a font with these classes, in which 21 has the attachment class 2 and is in
the only mark filtering set. -/
def layered : GlyphDefinitions :=
  ⟨some layeredClasses, some (.array 20 [1, 2]), [[25, 21, 25]].map MarkSet.ofList⟩

/-- The mark 21 is stepped over by a lookup that keeps the attachment class 1, but not if it keeps
the marks of the set instead; if it is to keep those of a set that the font does not have, it keeps
none. -/
theorem layered_hides_mark :
    ClassDef.Assigns (some layeredClasses) 21 3 ∧
      ClassDef.Assigns (some (.array 20 [1, 2])) 21 2 ∧
      layered.skips 21 (given 0x0100 none) = true ∧
      layered.skips 21 (given 0x0100 (some 0)) = false ∧
      layered.skips 21 (given 0x0100 (some 7)) = true := by
  have hclass : ClassDef.Assigns (some layeredClasses) 21 3 :=
    @ClassDef.Assigns.ranged [⟨30, 20, 1⟩] [⟨5, 25, 1⟩] ⟨20, 29, 3⟩ 21 (by decide) (by decide)
  have hattachment : ClassDef.Assigns (some (.array 20 [1, 2])) 21 2 := .listed (n := 1) rfl rfl
  obtain ⟨-, -, hskips⟩ :=
    skips_iff_hidden (some layeredClasses) (some (.array 20 [1, 2])) [[25, 21, 25]] 21
  have hhidden := hskips 3 2 hclass hattachment
  refine ⟨hclass, hattachment, (hhidden 0x0100 none).2 ?_,
    Bool.eq_false_iff.2 fun h => ?_, (hhidden 0x0100 (some 7)).2 ?_⟩
  · exact Or.inr (Or.inr ⟨rfl, Or.inr (Or.inr (by decide))⟩)
  · have hall : (0x0100 : UInt16) &&& 0x0008 ≠ 0 := by simpa using (hhidden 0x0100 (some 0)).1 h
    exact hall rfl
  · exact Or.inr (Or.inr ⟨rfl, Or.inr (Or.inl ⟨rfl, 7, rfl, Or.inl rfl⟩)⟩)

end GlyphDefinitions

end GlyphSubstitution
