import GlyphSubstitution.Proofs.ContextRelation
import GlyphSubstitution.Proofs.Segments
import GlyphSubstitution.Substitution.Nested

/-!
# Records that replace single glyphs

A rule may ask, at several of its input glyphs and several times at one of them, for single
substitutions and for multiple substitutions that remove nothing.  Each record then works on the
input glyph that it names and on nothing else.  The input glyph number `k` becomes the stretch
`reworked records k`, to whose first glyph the records with sequence index `k` are applied in order;
the gaps between the input glyphs stay as they were.

The invariant of the loop over the records (`applyRecords_ofSegments`) is that the run is a layout of
segments and the tracked positions are their starts.  A record lands at the head of its segment, and
`shiftAfter_starts` restores the invariant.  Since the stretch of one input glyph depends only on
the records for it, the order of records for different input glyphs does not matter.
-/

namespace GlyphSubstitution

universe u

/-! ## What a lookup puts in the place of a glyph -/

/-- What a single or multiple substitution puts in the place of a glyph, if it covers it. -/
def Lookup.replacement? (lookup : Lookup) (g : GlyphId) : Option (List GlyphId) :=
  match lookup.subtables with
  | .single tables => (Coverage.first? tables g).map fun g' => [g']
  | .multiple tables => Coverage.first? tables g
  | _ => none

/-- The lookup replaces glyphs one at a time and removes none. -/
def Lookup.Replaces (lookup : Lookup) : Prop :=
  match lookup.subtables with
  | .single _ => True
  | .multiple tables => ∀ table ∈ tables, ∀ entry ∈ table.entries, entry.2 ≠ []
  | _ => False

instance (lookup : Lookup) : Decidable lookup.Replaces :=
  match lookup with
  | ⟨_, .single _⟩ => isTrue trivial
  | ⟨_, .multiple tables⟩ =>
    inferInstanceAs (Decidable (∀ table ∈ tables, ∀ entry ∈ table.entries, entry.2 ≠ []))
  | ⟨_, .ligature _⟩ => isFalse id
  | ⟨_, .contextual ..⟩ => isFalse id

theorem Lookup.replacement?_ne_nil {lookup : Lookup} (h : lookup.Replaces) {g : GlyphId}
    {gs : List GlyphId} (hgs : lookup.replacement? g = some gs) : gs ≠ [] := by
  obtain ⟨flag, subtables⟩ := lookup
  cases subtables with
  | single tables =>
    obtain ⟨g', -, rfl⟩ := Option.map_eq_some_iff.1 hgs
    exact List.cons_ne_nil g' []
  | multiple tables =>
    obtain ⟨table, htable, hentry⟩ := Coverage.exists_mem_of_first? hgs
    exact h table htable (g, gs) hentry
  | ligature tables => exact h.elim
  | contextual kind tables => exact h.elim

namespace LookupList

/-- What lookup `k` puts in the place of a glyph, if it covers it. -/
def replacement? (list : LookupList) (k : Nat) (g : GlyphId) : Option (List GlyphId) :=
  list.lookups[k]?.bind (·.replacement? g)

/-- The record names a lookup of the list, and that lookup replaces glyphs one at a time. -/
def NamesReplacement (list : LookupList) (record : SequenceLookup) : Prop :=
  ∃ lookup ∈ list.lookups[record.lookupIndex.toNat]?, lookup.Replaces

instance (list : LookupList) (record : SequenceLookup) : Decidable (list.NamesReplacement record) :=
  inferInstanceAs (Decidable (∃ lookup ∈ list.lookups[record.lookupIndex.toNat]?, lookup.Replaces))

variable {α : Type u}

/-- The lookup of the record covers the first glyph of a stretch. -/
def covers (list : LookupList) (glyphs : Run α) (record : SequenceLookup) : Bool :=
  glyphs.head?.any fun glyph => (list.replacement? record.lookupIndex.toNat glyph.gid).isSome

/-- A stretch with the lookup of a record applied to its first glyph. -/
def rework (list : LookupList) (glyphs : Run α) (record : SequenceLookup) : Run α :=
  match glyphs with
  | [] => []
  | glyph :: rest =>
    match list.replacement? record.lookupIndex.toNat glyph.gid with
    | none => glyph :: rest
    | some gs => glyph.expand gs ++ rest

/-- What the records with sequence index `k` make of a stretch, one after another. -/
def reworked (list : LookupList) (records : List SequenceLookup) (k : Nat) (glyphs : Run α) :
    Run α :=
  (records.filter (·.sequenceIndex.toNat == k)).foldl list.rework glyphs

variable {list : LookupList}

theorem rework_ne_nil {glyphs : Run α} (hglyphs : glyphs ≠ []) {record : SequenceLookup}
    (h : list.NamesReplacement record) : list.rework glyphs record ≠ [] := by
  obtain ⟨lookup, hlookup, hreplaces⟩ := h
  cases glyphs with
  | nil => exact absurd rfl hglyphs
  | cons glyph rest =>
    rw [rework]
    split
    · exact List.cons_ne_nil glyph rest
    · next gs hgs =>
      have hne : gs ≠ [] := by
        rw [replacement?, Option.mem_def.1 hlookup] at hgs
        exact Lookup.replacement?_ne_nil hreplaces hgs
      intro hnil
      have hlength := congrArg List.length (List.append_eq_nil_iff.1 hnil).1
      rw [Glyph.length_expand] at hlength
      exact hne (List.length_eq_zero_iff.1 hlength)

theorem rework_of_not_covers {glyphs : Run α} {record : SequenceLookup}
    (h : list.covers glyphs record = false) : list.rework glyphs record = glyphs := by
  cases glyphs with
  | nil => rfl
  | cons glyph rest =>
    rw [rework]
    cases hgs : list.replacement? record.lookupIndex.toNat glyph.gid with
    | none => rfl
    | some gs => simp [covers, hgs] at h

/-! ## What the records of a rule make of segments -/

theorem reworked_cons (record : SequenceLookup) (rest : List SequenceLookup) (k : Nat)
    (glyphs : Run α) :
    list.reworked (record :: rest) k glyphs =
      list.reworked rest k (list.reworked [record] k glyphs) := by
  by_cases hk : record.sequenceIndex.toNat == k <;> simp [reworked, hk]

/-- Segments with what the records make of each of them. -/
def reworkSegments (list : LookupList) (records : List SequenceLookup)
    (segments : List (Segment α)) : List (Segment α) :=
  segments.mapIdx fun k s => s.withGlyphs (list.reworked records k s.glyphs)

/-- Some record covers the glyph that it is applied to: the first of its stretch, as the records
before it have left that. -/
def Bites (list : LookupList) (records : List SequenceLookup) (segments : List (Segment α)) :
    Prop :=
  ∃ before record after, records = before ++ record :: after ∧
    ∃ s ∈ segments[record.sequenceIndex.toNat]?,
      list.covers (list.reworked before record.sequenceIndex.toNat s.glyphs) record = true

variable {segments : List (Segment α)}

theorem getElem?_reworkSegments (records : List SequenceLookup) (k : Nat) :
    (list.reworkSegments records segments)[k]? =
      segments[k]?.map fun s => s.withGlyphs (list.reworked records k s.glyphs) :=
  List.getElem?_mapIdx

theorem reworkSegments_cons (record : SequenceLookup) (rest : List SequenceLookup) :
    list.reworkSegments (record :: rest) segments =
      list.reworkSegments rest (list.reworkSegments [record] segments) := by
  apply List.ext_getElem?
  intro k
  rw [getElem?_reworkSegments, getElem?_reworkSegments, getElem?_reworkSegments, Option.map_map]
  congr 1
  funext s
  rw [reworked_cons]
  rfl

@[simp] theorem reworkSegments_nil : list.reworkSegments [] segments = segments := by
  apply List.ext_getElem?
  intro k
  rw [getElem?_reworkSegments]
  exact Option.map_id'

@[simp] theorem length_reworkSegments (records : List SequenceLookup) :
    (list.reworkSegments records segments).length = segments.length :=
  List.length_mapIdx

/-- One record reworks the segment that it names. -/
theorem reworkSegments_singleton {record : SequenceLookup} {before after : List (Segment α)}
    {s : Segment α} (h : record.sequenceIndex.toNat = before.length) :
    list.reworkSegments [record] (before ++ s :: after) =
      before ++ s.withGlyphs (list.rework s.glyphs record) :: after := by
  apply List.ext_getElem?
  intro k
  rw [getElem?_reworkSegments]
  rcases Nat.lt_trichotomy k before.length with hlt | rfl | hgt
  · have hne : (record.sequenceIndex.toNat == k) = false := beq_false_of_ne (by omega)
    rw [List.getElem?_append_left hlt, List.getElem?_append_left hlt]
    simp [reworked, hne, Segment.withGlyphs]
  · have heq : (record.sequenceIndex.toNat == before.length) = true := beq_of_eq h
    simp [reworked, heq]
  · have hne : (record.sequenceIndex.toNat == k) = false := beq_false_of_ne (by omega)
    obtain ⟨d, rfl⟩ : ∃ d, k = before.length + (d + 1) := ⟨k - before.length - 1, by omega⟩
    rw [List.getElem?_append_right (by omega), List.getElem?_append_right (by omega),
      Nat.add_sub_cancel_left, List.getElem?_cons_succ, List.getElem?_cons_succ]
    simp [reworked, hne, Segment.withGlyphs]

theorem bites_cons {record : SequenceLookup} {rest : List SequenceLookup} :
    list.Bites (record :: rest) segments ↔
      (∃ s ∈ segments[record.sequenceIndex.toNat]?, list.covers s.glyphs record = true) ∨
        list.Bites rest (list.reworkSegments [record] segments) := by
  constructor
  · intro ⟨before, r, after, hsplit, s, hs, hcovers⟩
    cases before with
    | nil =>
      obtain ⟨rfl, rfl⟩ := List.cons.inj hsplit
      exact Or.inl ⟨s, hs, hcovers⟩
    | cons r' before =>
      obtain ⟨rfl, hrest⟩ := List.cons.inj hsplit
      rw [reworked_cons] at hcovers
      refine Or.inr ⟨before, r, after, hrest,
        s.withGlyphs (list.reworked [record] r.sequenceIndex.toNat s.glyphs), ?_, hcovers⟩
      rw [Option.mem_def, getElem?_reworkSegments, Option.mem_def.1 hs]
      rfl
  · intro h
    rcases h with ⟨s, hs, hcovers⟩ | ⟨before, r, after, hrest, s', hs', hcovers⟩
    · exact ⟨[], record, rest, rfl, s, hs, hcovers⟩
    · rw [Option.mem_def, getElem?_reworkSegments] at hs'
      obtain ⟨s, hs, rfl⟩ := Option.map_eq_some_iff.1 hs'
      refine ⟨record :: before, r, after, by rw [hrest, List.cons_append], s, hs, ?_⟩
      rw [reworked_cons]
      exact hcovers

/-- What records make of a stretch depends only on the order of those that name it. -/
theorem reworked_swap {before after : List SequenceLookup} {r₁ r₂ : SequenceLookup}
    (h : r₁.sequenceIndex ≠ r₂.sequenceIndex) (k : Nat) (glyphs : Run α) :
    list.reworked (before ++ r₂ :: r₁ :: after) k glyphs =
      list.reworked (before ++ r₁ :: r₂ :: after) k glyphs := by
  have hne : r₁.sequenceIndex.toNat ≠ r₂.sequenceIndex.toNat :=
    fun heq => h (UInt16.toNat_inj.1 heq)
  have hfilter : (before ++ r₂ :: r₁ :: after).filter (·.sequenceIndex.toNat == k) =
      (before ++ r₁ :: r₂ :: after).filter (·.sequenceIndex.toNat == k) := by
    by_cases h₁ : r₁.sequenceIndex.toNat = k
    · have h₂ : r₂.sequenceIndex.toNat ≠ k := fun heq => hne (h₁.trans heq.symm)
      simp [h₁, h₂]
    · simp [List.filter_cons, h₁]
  rw [reworked, reworked, hfilter]

theorem reworkSegments_swap {before after : List SequenceLookup} {r₁ r₂ : SequenceLookup}
    (h : r₁.sequenceIndex ≠ r₂.sequenceIndex) :
    list.reworkSegments (before ++ r₂ :: r₁ :: after) segments =
      list.reworkSegments (before ++ r₁ :: r₂ :: after) segments := by
  unfold reworkSegments
  congr 1
  funext k s
  rw [reworked_swap h]

/-- A record for another segment has no influence on whether a record bites. -/
theorem covers_reworkSegments_of_ne {r₁ r₂ : SequenceLookup}
    (h : r₁.sequenceIndex ≠ r₂.sequenceIndex) :
    (∃ s ∈ (list.reworkSegments [r₁] segments)[r₂.sequenceIndex.toNat]?,
        list.covers s.glyphs r₂ = true) ↔
      ∃ s ∈ segments[r₂.sequenceIndex.toNat]?, list.covers s.glyphs r₂ = true := by
  have hne : (r₁.sequenceIndex.toNat == r₂.sequenceIndex.toNat) = false :=
    beq_false_of_ne fun heq => h (UInt16.toNat_inj.1 heq)
  rw [getElem?_reworkSegments]
  cases segments[r₂.sequenceIndex.toNat]? with
  | none => simp
  | some s => simp [reworked, hne, Segment.withGlyphs]

theorem bites_swap {before after : List SequenceLookup} {r₁ r₂ : SequenceLookup}
    (h : r₁.sequenceIndex ≠ r₂.sequenceIndex) :
    list.Bites (before ++ r₂ :: r₁ :: after) segments ↔
      list.Bites (before ++ r₁ :: r₂ :: after) segments := by
  induction before generalizing segments with
  | nil =>
    have hsegments : list.reworkSegments ([] ++ [r₂, r₁]) segments =
        list.reworkSegments ([] ++ [r₁, r₂]) segments := reworkSegments_swap h
    rw [List.nil_append, List.nil_append, reworkSegments_cons r₂ [r₁], reworkSegments_cons r₁ [r₂]]
      at hsegments
    rw [List.nil_append, List.nil_append, bites_cons, bites_cons, bites_cons, bites_cons,
      covers_reworkSegments_of_ne h, covers_reworkSegments_of_ne h.symm, hsegments]
    exact or_left_comm
  | cons r before ih =>
    rw [List.cons_append, List.cons_append, bites_cons, bites_cons, ih]

/-! ## One record -/

variable [Payload α] (skip : SkipPredicate)

/-- A lookup that replaces glyphs puts the replacement where the glyph was. -/
theorem applyAt_of_replaces {lookup : Lookup} (h : lookup.Replaces)
    (contextual : List ContextSubtable → GlyphFilter → Run α → Nat → Outcome α (Option Applied))
    (before : Run α) (glyph : Glyph α) (rest : Run α) :
    lookup.applyAt skip contextual (before ++ glyph :: rest) before.length =
      match lookup.replacement? glyph.gid with
      | none => ⟨before ++ glyph :: rest, .ok none⟩
      | some gs =>
        ⟨before ++ (glyph.expand gs ++ rest),
          .ok (some { width := gs.length, changed := true })⟩ := by
  obtain ⟨flag, subtables⟩ := lookup
  cases subtables with
  | single tables =>
    simp only [Lookup.applyAt, applySingle, Lookup.replacement?, editAt_append]
    cases Coverage.first? tables glyph.gid <;> rfl
  | multiple tables =>
    simp only [Lookup.applyAt, applyMultiple, Lookup.replacement?, editAt_append]
    cases Coverage.first? tables glyph.gid <;> rfl
  | ligature tables => exact h.elim
  | contextual kind tables => exact h.elim

/-- A nested call for such a record reworks the stretch whose first glyph it is made at. -/
theorem applier_of_namesReplacement {record : SequenceLookup} (h : list.NamesReplacement record)
    (limit : Nat) (before : Run α) {glyphs : Run α} (hglyphs : glyphs ≠ []) (after : Run α) :
    list.applier skip
        ⟨record.lookupIndex.toNat, limit, before.length, before ++ (glyphs ++ after)⟩ =
      ⟨before ++ (list.rework glyphs record ++ after), .ok (list.covers glyphs record)⟩ := by
  obtain ⟨lookup, hlookup, hreplaces⟩ := h
  have hget : list.lookups[record.lookupIndex.toNat]? = some lookup := hlookup
  cases glyphs with
  | nil => exact absurd rfl hglyphs
  | cons glyph rest =>
    have hinside : before.length < (before ++ (glyph :: rest ++ after)).length := by simp
    have hsame : list.replacement? record.lookupIndex.toNat glyph.gid =
        lookup.replacement? glyph.gid := by
      rw [replacement?, hget, Option.bind_some]
    rw [applier, applyNested_eq, lookup_eq_ok_iff.2 hget]
    dsimp only
    rw [if_pos hinside, List.cons_append, applyAt_of_replaces skip hreplaces, rework, covers]
    dsimp only [List.head?_cons, Option.any_some]
    rw [hsame]
    cases lookup.replacement? glyph.gid with
    | none => rfl
    | some gs => simp [Outcome.map, Except.map]

/-- The same for a run in segments. -/
theorem applier_ofSegments {record : SequenceLookup} (h : list.NamesReplacement record)
    {s : Segment α} (hs : s.glyphs ≠ []) (limit : Nat) (front : Run α)
    (before after : List (Segment α)) :
    list.applier skip
        ⟨record.lookupIndex.toNat, limit, (front ++ layout before).length,
          front ++ layout (before ++ s :: after)⟩ =
      ⟨front ++ layout (before ++ s.withGlyphs (list.rework s.glyphs record) :: after),
        .ok (list.covers s.glyphs record)⟩ := by
  have hrun : ∀ glyphs : Run α, front ++ layout (before ++ s.withGlyphs glyphs :: after) =
      (front ++ layout before) ++ (glyphs ++ (s.gap ++ layout after)) := by
    intro glyphs
    simp [Segment.withGlyphs]
  have hcall := applier_of_namesReplacement skip h limit (front ++ layout before) hs
    (s.gap ++ layout after)
  rw [← hrun, ← hrun] at hcall
  exact hcall

/-! ## The loop over the records -/

/-- What the loop comes to from a run in segments: each segment is reworked by the records that name
it, and a change is told exactly if one of them bites. -/
theorem applyRecords_ofSegments {records : List SequenceLookup}
    (h : ∀ record ∈ records,
      list.NamesReplacement record ∧ record.sequenceIndex.toNat < segments.length)
    (hsegments : ∀ s ∈ segments, s.glyphs ≠ []) (limit : Nat) (front : Run α) (changed : Bool) :
    ∃ changed', applyRecords (list.applier skip) limit records
        (.ofSegments front segments changed) =
          ⟨front ++ layout (list.reworkSegments records segments), .ok changed'⟩ ∧
      (changed' = true ↔ changed = true ∨ list.Bites records segments) := by
  induction records generalizing segments changed with
  | nil => exact ⟨changed, by rw [reworkSegments_nil]; rfl, by simp [Bites]⟩
  | cons record rest ih =>
    obtain ⟨hnames, hindex⟩ := h record List.mem_cons_self
    obtain ⟨before, s, after, rfl, hlength⟩ := exists_append_of_lt hindex
    have hs : s.glyphs ≠ [] := hsegments s (by simp)
    have hreworked := rework_ne_nil hs hnames
    have hstep : list.reworkSegments [record] (before ++ s :: after) =
        before ++ s.withGlyphs (list.rework s.glyphs record) :: after :=
      reworkSegments_singleton hlength
    -- a stretch of another length has been bitten, so the length adds nothing to the flag
    have hflag : (changed || list.covers s.glyphs record ||
        (list.rework s.glyphs record).length != s.glyphs.length) =
        (changed || list.covers s.glyphs record) := by
      cases hcovers : list.covers s.glyphs record with
      | true => simp
      | false => simp [rework_of_not_covers hcovers]
    have hrest : ∀ r ∈ rest, list.NamesReplacement r ∧
        r.sequenceIndex.toNat < (list.reworkSegments [record] (before ++ s :: after)).length := by
      intro r hr
      rw [length_reworkSegments]
      exact h r (List.mem_cons_of_mem record hr)
    have hkept : ∀ t ∈ list.reworkSegments [record] (before ++ s :: after), t.glyphs ≠ [] := by
      intro t ht
      rw [hstep, List.mem_append, List.mem_cons] at ht
      rcases ht with ht | rfl | ht
      · exact hsegments t (by simp [ht])
      · exact hreworked
      · exact hsegments t (by simp [ht])
    obtain ⟨changed', hrun, hchanged⟩ := ih hrest hkept (changed || list.covers s.glyphs record)
    refine ⟨changed', ?_, ?_⟩
    · have hcall := applier_ofSegments skip hnames hs limit front before after
      have hafter := Application.afterCall_ofSegments hlength s after
        (list.rework s.glyphs record) front changed (list.covers s.glyphs record)
      rw [applyRecords_cons, Application.target?_ofSegments hlength hs]
      dsimp only
      rw [show (Application.ofSegments front (before ++ s :: after) changed).run =
        front ++ layout (before ++ s :: after) from rfl, hcall]
      dsimp only
      rw [hafter, hflag, ← hstep, hrun, ← reworkSegments_cons]
    · have hbite : (∃ t ∈ (before ++ s :: after)[record.sequenceIndex.toNat]?,
          list.covers t.glyphs record = true) ↔ list.covers s.glyphs record = true := by
        simp [hlength]
      rw [hchanged, Bool.or_eq_true, bites_cons, hbite, or_assoc]

/-! ## The rule as a whole -/

omit [Payload α] in
/-- The segments that a match cuts a run into, and that its rule's records address them. -/
theorem cut_of_selectRule? {tables : List ContextSubtable} {f : GlyphFilter} {run : Run α}
    {i : Nat} {found : RuleMatch} (h : selectRule? tables f run.gids i = some found) :
    found.context.start = i ∧ found.context.positions.Pairwise (· < ·) ∧
      (∀ p ∈ found.context.positions, p < run.length) ∧
      ∀ record ∈ found.records,
        record.sequenceIndex.toNat < (cut run found.context.positions).length := by
  obtain ⟨table, -, rule, hrule, hmatch, hrecords⟩ := exists_rule_of_selectRule? h
  have hcontext := (ContextPattern.match?_eq_some_iff_metAt.1 hmatch).2
  refine ⟨by rw [hcontext], ContextPattern.pairwise_positions hmatch, fun p hp => ?_,
    fun record hrecord => ?_⟩
  · rw [← Run.length_gids]
    exact ContextPattern.lt_length_of_mem_positions hmatch hp
  · rw [← hrecords] at hrecord
    rw [length_cut, ContextPattern.length_positions_of_match? hmatch]
    exact ContextSubtable.addressesInput_of_mem hrule record hrecord

/-- Where a rule is selected whose records replace single glyphs, the match is cut into segments and
each of them reworked. -/
theorem applyContextual_reworks {tables : List ContextSubtable} {f : GlyphFilter} {run : Run α}
    {i : Nat} {found : RuleMatch} (hfound : selectRule? tables f run.gids i = some found)
    (hrecords : ∀ record ∈ found.records, list.NamesReplacement record) (limit : Nat) :
    ∃ changed,
      applyContextual (list.applier skip) limit tables f run i =
        ⟨run.take i ++ layout (list.reworkSegments found.records (cut run found.context.positions)),
          .ok (some { width := found.context.last - i + 1, changed })⟩ ∧
      (changed = true ↔ list.Bites found.records (cut run found.context.positions)) := by
  obtain ⟨hstart, hincreasing, hinside, hindex⟩ := cut_of_selectRule? hfound
  have hpositions : found.context.positions = i :: found.context.inputs := by
    rw [ContextMatch.positions, hstart]
  have hi : i < run.length := hinside i (by rw [hpositions]; exact List.mem_cons_self)
  -- at the beginning every segment is the one glyph that was matched
  have hlaid : (⟨run, found.context.positions, false⟩ : Application α) =
      .ofSegments (run.take i) (cut run found.context.positions) false := by
    have hlayout := layout_cut (hpositions ▸ hincreasing) (hpositions ▸ hinside)
    have hstarts := starts_cut (hpositions ▸ hincreasing) (hpositions ▸ hinside)
    rw [Application.ofSegments, List.length_take, Nat.min_eq_left (Nat.le_of_lt hi), hpositions,
      hlayout, hstarts, List.take_append_drop]
  have hglyphs : ∀ s ∈ cut run found.context.positions, s.glyphs ≠ [] := by
    intro s hs hnil
    have hlength := length_glyphs_of_mem_cut hinside hs
    rw [hnil] at hlength
    exact Nat.zero_ne_one hlength
  have hnamed : ∀ record ∈ found.records, list.NamesReplacement record ∧
      record.sequenceIndex.toNat < (cut run found.context.positions).length :=
    fun record hrecord => ⟨hrecords record hrecord, hindex record hrecord⟩
  obtain ⟨changed, hrun, hchanged⟩ :=
    applyRecords_ofSegments skip hnamed hglyphs limit (run.take i) false
  refine ⟨changed, ?_, ?_⟩
  · rw [applyContextual_eq, hfound]
    dsimp only
    rw [hlaid, hrun, ContextMatch.length, hstart]
    rfl
  · rw [hchanged]
    simp

/-- The records of a rule, each of which replaces single glyphs, hit exactly the glyphs they name.
What stands before the match, between its input glyphs and after it stays as it was; each input
glyph becomes what the records for it make of it in order; a change is told exactly if some record
covers the glyph that it is applied to.  The order of neighbouring records for different input
glyphs has no influence. -/
theorem applyContextual_hits_named (list : LookupList) (skip : SkipPredicate) (limit : Nat)
    {tables : List ContextSubtable} {f : GlyphFilter} {run : Run α} {i : Nat} {found : RuleMatch}
    (hfound : selectRule? tables f run.gids i = some found)
    (hrecords : ∀ record ∈ found.records, list.NamesReplacement record) :
    found.context.start = i ∧ found.context.positions.Pairwise (· < ·) ∧
      (∀ p ∈ found.context.positions, p < run.length) ∧
      (∃ changed,
        applyContextual (list.applier skip) limit tables f run i =
          ⟨run.take i ++
              layout ((cut run found.context.positions).mapIdx fun k s =>
                { s with glyphs := list.reworked found.records k s.glyphs }),
            .ok (some { width := found.context.last - i + 1, changed })⟩ ∧
        (changed = true ↔
          ∃ before record after, found.records = before ++ record :: after ∧
            ∃ s ∈ (cut run found.context.positions)[record.sequenceIndex.toNat]?,
              list.covers (list.reworked before record.sequenceIndex.toNat s.glyphs) record =
                true)) ∧
      ∀ (tables' : List ContextSubtable) (before after : List SequenceLookup)
        (r₁ r₂ : SequenceLookup), found.records = before ++ r₁ :: r₂ :: after →
          r₁.sequenceIndex ≠ r₂.sequenceIndex →
          selectRule? tables' f run.gids i = some ⟨found.context, before ++ r₂ :: r₁ :: after⟩ →
            applyContextual (list.applier skip) limit tables' f run i =
              applyContextual (list.applier skip) limit tables f run i := by
  obtain ⟨hstart, hincreasing, hinside, -⟩ := cut_of_selectRule? hfound
  obtain ⟨changed, hrun, hchanged⟩ := applyContextual_reworks skip hfound hrecords limit
  refine ⟨hstart, hincreasing, hinside, ⟨changed, hrun, hchanged⟩, ?_⟩
  intro tables' before after r₁ r₂ hsplit hne htables'
  have hswapped : ∀ record ∈ before ++ r₂ :: r₁ :: after, list.NamesReplacement record := by
    intro record hrecord
    refine hrecords record ?_
    rw [hsplit]
    exact ((List.Perm.swap r₁ r₂ after).append_left before).mem_iff.1 hrecord
  obtain ⟨changed', hrun', hchanged'⟩ :=
    applyContextual_reworks skip htables' hswapped limit
  have hsame : changed' = changed := by
    rw [Bool.eq_iff_iff, hchanged', hchanged, hsplit]
    exact bites_swap hne
  rw [hrun', hrun, hsame, hsplit, reworkSegments_swap hne]

/-- Lookup 0 puts a 40 after each 4, lookup 1 makes a 5 a 50. -/
def doubling : LookupList :=
  ofFaultless
    [⟨{}, .multiple [Coverage.ofList [(4, [4, 40])]]⟩, ⟨{}, .single [Coverage.ofList [(5, 50)]]⟩]
    (by decide)

/-- A 5 after a 4 becomes a 50, and between that the 4 is doubled twice. -/
def doublingRule : ContextSubtable :=
  ⟨Coverage.ofList [(4, [.simple [5] [⟨0, 0⟩, ⟨1, 1⟩, ⟨0, 0⟩]])], by decide⟩

/-- The second record finds the 5 behind a glyph that was passed over and one that was put in, and
the third finds the 4 again and not what was put in. -/
theorem doubling_hits_named :
    selectRule? [doublingRule] ⟨(· != 2)⟩ [1, 4, 2, 5, 6] 1 =
        some ⟨⟨1, [3]⟩, [⟨0, 0⟩, ⟨1, 1⟩, ⟨0, 0⟩]⟩ ∧
      (∀ record ∈ [⟨0, 0⟩, ⟨1, 1⟩, ⟨0, 0⟩], doubling.NamesReplacement record) ∧
      (applyContextual (doubling.applier .nothing) 0 [doublingRule] ⟨(· != 2)⟩
        ([1, 4, 2, 5, 6].map (Glyph.ofId · ())) 1).run.gids = [1, 4, 40, 40, 2, 50, 6] := by
  have hselected : selectRule? [doublingRule] ⟨(· != 2)⟩
      (Run.gids ([1, 4, 2, 5, 6].map (Glyph.ofId · ()))) 1 =
        some ⟨⟨1, [3]⟩, [⟨0, 0⟩, ⟨1, 1⟩, ⟨0, 0⟩]⟩ := by decide
  obtain ⟨-, -, -, ⟨changed, hrun, -⟩, -⟩ :=
    applyContextual_hits_named doubling .nothing 0 hselected (by decide)
  refine ⟨by decide, by decide, ?_⟩
  rw [hrun]
  dsimp only
  decide

end LookupList

end GlyphSubstitution
