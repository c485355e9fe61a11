import GlyphSubstitution.Proofs.SeenGlyphs
import GlyphSubstitution.Substitution.Pass

/-!
# Glyphs that no lookup mentions

A lookup asks for glyphs by their numbers: for those that it covers, and for those that must stand
next to them (`Lookup.mentioned`).  Matching walks outwards from a position, and a glyph that is
seen but not asked for stops it there, just as the end of the run would (`spells_append_iff`).

So a run that has such glyphs for its neighbours, or none on one side or the other (`Fenced`), is
matched as it is by itself, whatever stands further out.  A context is met, and a rule or a ligature
is selected, at the same places, which all lie further right by what stands before the run
(`selectRule?_between`, `selectLigature?_between`).  At the unmentioned glyph itself nothing is
selected (`Lookup.selectsAt_of_not_mentioned`).
-/

namespace GlyphSubstitution

universe u v

/-! ## Stretches of a run -/

/-- A list with something before it and something after it. -/
def between {β : Type v} (before after xs : List β) : List β := before ++ xs ++ after

section

variable {β : Type v} (before after : List β) {xs : List β} {i : Nat}

theorem length_between (xs : List β) :
    (between before after xs).length = before.length + xs.length + after.length := by
  rw [between, List.length_append, List.length_append]

theorem getElem?_between (hi : i < xs.length) :
    (between before after xs)[before.length + i]? = xs[i]? := by
  rw [between, List.getElem?_append_left (by rw [List.length_append]; omega),
    List.getElem?_append_right (Nat.le_add_right _ _), Nat.add_sub_cancel_left]

end

variable {f : GlyphFilter} {gids before after u v pattern : List GlyphId} {b : GlyphId} {i : Nat}

/-- Wherever there is a glyph right before a stretch of a run, or right after it, its number is
`b`. -/
structure Fenced (b : GlyphId) (before after : List GlyphId) : Prop where
  before : ∀ g ∈ before.getLast?, g = b
  after : ∀ g ∈ after.head?, g = b

/-! ## Seen positions -/

namespace GlyphFilter

theorem seesAt_append_left (hi : i < u.length) : f.seesAt (u ++ v) i = f.seesAt u i := by
  rw [seesAt, seesAt, List.getElem?_append_left hi]

theorem seesAt_append_right : f.seesAt (u ++ v) (u.length + i) = f.seesAt v i := by
  rw [seesAt, seesAt, List.getElem?_append_right (Nat.le_add_right _ _), Nat.add_sub_cancel_left]

theorem seesAt_between (hi : i < gids.length) :
    f.seesAt (between before after gids) (before.length + i) = f.seesAt gids i := by
  rw [seesAt, seesAt, getElem?_between before after hi]

/-- What is seen of a second part comes after what is seen of the first. -/
theorem seenAfter_append_left (hi : i < u.length) :
    f.seenAfter (u ++ v) i =
      f.seenAfter u i ++ ((List.range v.length).filter (f.seesAt v)).map (u.length + ·) := by
  rw [seenAfter, List.length_append, List.range_add, List.filter_append, List.filter_map]
  congr 1
  · refine List.filter_congr fun p hp => ?_
    rw [seesAt_append_left (List.mem_range.1 hp)]
  · refine congrArg (List.map _) (List.filter_congr fun p _ => ?_)
    have hlater : i < u.length + p := by omega
    rw [Function.comp_apply, seesAt_append_right, decide_eq_true hlater, Bool.true_and]

theorem seenAfter_append_right :
    f.seenAfter (u ++ v) (u.length + i) = (f.seenAfter v i).map (u.length + ·) := by
  have hfirst : (List.range u.length).filter
      (fun p => u.length + i < p && f.seesAt (u ++ v) p) = [] := by
    refine List.filter_eq_nil_iff.2 fun p hp => ?_
    have hlt := List.mem_range.1 hp
    simp only [Bool.and_eq_true, decide_eq_true_eq]
    omega
  rw [seenAfter, List.length_append, List.range_add, List.filter_append, hfirst, List.nil_append,
    List.filter_map]
  refine congrArg (List.map _) (List.filter_congr fun p _ => ?_)
  rw [Function.comp_apply, seesAt_append_right]
  simp

theorem seenBefore_append_left (hi : i ≤ u.length) :
    f.seenBefore (u ++ v) i = f.seenBefore u i := by
  have hsecond : ((List.range v.length).map (u.length + ·)).filter
      (fun p => p < i && f.seesAt (u ++ v) p) = [] := by
    refine List.filter_eq_nil_iff.2 fun p hp => ?_
    obtain ⟨q, -, rfl⟩ := List.mem_map.1 hp
    simp only [Bool.and_eq_true, decide_eq_true_eq]
    omega
  rw [seenBefore, List.length_append, List.range_add, List.filter_append, hsecond, List.append_nil]
  refine congrArg List.reverse (List.filter_congr fun p hp => ?_)
  rw [seesAt_append_left (List.mem_range.1 hp)]

/-- Going left, what is seen of a first part comes after what is seen of the second. -/
theorem seenBefore_append_right :
    f.seenBefore (u ++ v) (u.length + i) =
      (f.seenBefore v i).map (u.length + ·) ++ f.seenBefore u u.length := by
  rw [seenBefore, List.length_append, List.range_add, List.filter_append, List.reverse_append,
    List.filter_map, ← List.map_reverse]
  congr 1
  · refine congrArg (List.map _) (congrArg List.reverse (List.filter_congr fun p _ => ?_))
    rw [Function.comp_apply, seesAt_append_right]
    simp
  · refine congrArg List.reverse (List.filter_congr fun p hp => ?_)
    have hlt := List.mem_range.1 hp
    have hlt' : p < u.length + i := by omega
    rw [seesAt_append_left hlt, decide_eq_true hlt, decide_eq_true hlt']

theorem seenAfter_between (hi : i < gids.length) :
    f.seenAfter (between before after gids) (before.length + i) =
      (f.seenAfter gids i).map (before.length + ·) ++
        ((List.range after.length).filter (f.seesAt after)).map
          ((before ++ gids).length + ·) := by
  rw [between, seenAfter_append_left (by rw [List.length_append]; omega), seenAfter_append_right]

theorem seenBefore_between (hi : i < gids.length) :
    f.seenBefore (between before after gids) (before.length + i) =
      (f.seenBefore gids i).map (before.length + ·) ++ f.seenBefore before before.length := by
  rw [between, seenBefore_append_left (by rw [List.length_append]; omega), seenBefore_append_right]

/-- As many positions are seen after the head of a list as glyphs. -/
theorem length_seenAfter_append_cons (g : GlyphId) :
    (f.seenAfter (u ++ g :: v) u.length).length = v.countP f.sees := by
  have hnone : f.seenAfter [g] 0 = [] := by
    refine List.eq_nil_iff_forall_not_mem.2 fun p hp => ?_
    obtain ⟨hpos, hsees⟩ := mem_seenAfter.1 hp
    have hlt : p < 1 := lt_length_of_seesAt hsees
    omega
  have hhead : f.seenAfter ([g] ++ v) 0 = _ := seenAfter_append_left Nat.zero_lt_one
  have hshift : f.seenAfter (u ++ ([g] ++ v)) (u.length + 0) = _ := seenAfter_append_right
  have hcount := congrArg List.length (map_rank_seenPositions f v)
  rw [List.length_map, List.length_range] at hcount
  rw [hhead, hnone, List.nil_append] at hshift
  rw [List.countP_eq_length_filter, ← hcount]
  exact (congrArg List.length hshift).trans (by rw [List.length_map, List.length_map])

end GlyphFilter

/-! ## Spelling -/

/-- Where a glyph stands next that the pattern does not ask for, it might as well be the end. -/
theorem spells_append_iff (hb : b ∉ pattern) {positions more : List Nat}
    (hmore : ∀ p ∈ more.head?, gids[p]? = some b) :
    Spells gids pattern (positions ++ more) ↔ Spells gids pattern positions := by
  induction pattern generalizing positions with
  | nil => simp
  | cons g rest ih =>
    have hg : b ≠ g := List.ne_of_not_mem_cons hb
    have hrest : b ∉ rest := List.not_mem_of_not_mem_cons hb
    cases positions with
    | nil =>
      refine iff_of_false ?_ (not_spells_cons_nil gids g rest)
      cases more with
      | nil => exact not_spells_cons_nil gids g rest
      | cons p more =>
        intro h
        have hp := (spells_cons_cons.1 h).1
        rw [hmore p rfl] at hp
        exact hg (Option.some.inj hp)
    | cons p positions =>
      rw [List.cons_append, spells_cons_cons, spells_cons_cons, ih hrest]

namespace Fenced

variable (h : Fenced b before after) (hsees : f.sees b = true)

include h hsees

/-- The first glyph that is seen after the stretch is the one next to it. -/
theorem getElem?_of_head?_seen {p : Nat}
    (hp : p ∈ ((List.range after.length).filter (f.seesAt after)).head?) : after[p]? = some b := by
  cases after with
  | nil => nomatch hp
  | cons g rest =>
    obtain rfl := h.after g rfl
    have hhead : f.seesAt (g :: rest) 0 = true := hsees
    rw [List.length_cons, List.range_succ_eq_map, List.filter_cons_of_pos hhead] at hp
    rw [← Option.some.inj hp]
    rfl

/-- The last glyph that is seen before the stretch is the one next to it. -/
theorem getElem?_of_head?_seenBefore {p : Nat}
    (hp : p ∈ (f.seenBefore before before.length).head?) : before[p]? = some b := by
  rcases List.eq_nil_or_concat' before with rfl | ⟨front, g, rfl⟩
  · nomatch hp
  · obtain rfl := h.before g (by rw [List.getLast?_append]; rfl)
    have hlast : f.seenBefore [g] 1 = [0] := by
      rw [GlyphFilter.seenBefore]
      simp [GlyphFilter.seesAt, hsees]
    rw [List.length_append, List.length_singleton, GlyphFilter.seenBefore_append_right, hlast] at hp
    rw [← Option.some.inj hp, List.getElem?_append_right (Nat.le_add_right _ _),
      Nat.add_sub_cancel_left]
    rfl

theorem spells_seenAfter_iff (hb : b ∉ pattern) (hi : i < gids.length) :
    Spells (between before after gids) pattern
        (f.seenAfter (between before after gids) (before.length + i)) ↔
      Spells gids pattern (f.seenAfter gids i) := by
  rw [GlyphFilter.seenAfter_between hi, spells_append_iff hb, spells_map_iff]
  · intro p hp
    exact getElem?_between before after
      (GlyphFilter.lt_length_of_seesAt (GlyphFilter.mem_seenAfter.1 hp).2)
  · intro p hp
    rw [List.head?_map, Option.mem_def, Option.map_eq_some_iff] at hp
    obtain ⟨q, hq, rfl⟩ := hp
    rw [between, List.getElem?_append_right (Nat.le_add_right _ _), Nat.add_sub_cancel_left]
    exact h.getElem?_of_head?_seen hsees hq

theorem spells_seenBefore_iff (hb : b ∉ pattern) (hi : i < gids.length) :
    Spells (between before after gids) pattern
        (f.seenBefore (between before after gids) (before.length + i)) ↔
      Spells gids pattern (f.seenBefore gids i) := by
  rw [GlyphFilter.seenBefore_between hi, spells_append_iff hb, spells_map_iff]
  · intro p hp
    exact getElem?_between before after
      (GlyphFilter.lt_length_of_seesAt (GlyphFilter.mem_seenBefore.1 hp).2)
  · intro p hp
    have hthere := h.getElem?_of_head?_seenBefore hsees hp
    have hlt := (List.getElem?_eq_some_iff.1 hthere).1
    rw [between, List.append_assoc, List.getElem?_append_left hlt, hthere]

end Fenced

/-! ## Matches -/

/-- The glyphs that the pattern asks for. -/
def ContextPattern.glyphs (pattern : ContextPattern) : List GlyphId :=
  pattern.backtrack.getD [] ++ (pattern.input ++ pattern.lookahead.getD [])

section

variable (h : Fenced b before after) (hsees : f.sees b = true) (hi : i < gids.length)

include h hsees hi

/-- A fenced run meets the context where it does by itself. -/
theorem ContextPattern.metAt_between_iff {pattern : ContextPattern} (hb : b ∉ pattern.glyphs) :
    pattern.MetAt f (between before after gids) (before.length + i) ↔ pattern.MetAt f gids i := by
  have hinside : before.length + i < (between before after gids).length ↔ i < gids.length :=
    iff_of_true (by rw [length_between]; omega) hi
  obtain ⟨hback, hahead⟩ := not_or.1 (mt List.mem_append.2 hb)
  rw [MetAt, MetAt, hinside, h.spells_seenBefore_iff hsees hback hi,
    h.spells_seenAfter_iff hsees hahead hi]

theorem ContextPattern.match?_between {pattern : ContextPattern} (hb : b ∉ pattern.glyphs) :
    pattern.match? f (between before after gids) (before.length + i) =
      (pattern.match? f gids i).map (·.map (before.length + ·)) := by
  refine match?_map (metAt_between_iff h hsees hi hb) fun hmet => ?_
  rw [GlyphFilter.seenAfter_between hi, List.map_take]
  exact List.take_append_of_le_length (by rw [List.length_map]; exact hmet.input_length_le)

/-- In a fenced run the rule is selected that is selected by itself. -/
theorem selectRule?_between {tables : List ContextSubtable}
    (hb : ∀ table ∈ tables, ∀ rule ∈ table.allRules, b ∉ rule.pattern.glyphs) :
    selectRule? tables f (between before after gids) (before.length + i) =
      (selectRule? tables f gids i).map (·.map (before.length + ·)) :=
  selectRule?_map (getElem?_between before after hi) fun table htable rule hrule =>
    ContextPattern.match?_between h hsees hi (hb table htable rule hrule)

theorem Ligature.matchesAt_between {ligature : Ligature} (hb : b ∉ ligature.components) :
    ligature.matchesAt f (between before after gids) (before.length + i) =
      ligature.matchesAt f gids i := by
  rw [Bool.eq_iff_iff, matchesAt_iff, matchesAt_iff]
  exact h.spells_seenAfter_iff hsees hb hi

/-- In a fenced run the ligature is selected that is selected by itself. -/
theorem selectLigature?_between {tables : List LigatureSubtable}
    (hb : ∀ table ∈ tables, ∀ entry ∈ table.entries, ∀ ligature ∈ entry.2,
      b ∉ ligature.components) :
    selectLigature? tables f (between before after gids) (before.length + i) =
      selectLigature? tables f gids i :=
  selectLigature?_congr (getElem?_between before after hi)
    fun table htable entry hentry ligature hligature =>
      Ligature.matchesAt_between h hsees hi (hb table htable entry hentry ligature hligature)

end

/-! ## Lookups -/

theorem Coverage.first?_eq_none {β : Type v} {tables : List (Coverage β)}
    (hb : b ∉ tables.flatMap fun table => table.entries.map (·.1)) : first? tables b = none := by
  refine Option.eq_none_iff_forall_ne_some.2 fun value hvalue => hb ?_
  obtain ⟨table, htable, hentry⟩ := exists_mem_of_first? hvalue
  exact List.mem_flatMap.2 ⟨table, htable, List.mem_map_of_mem hentry⟩

namespace Lookup

/-- The glyphs that the lookup asks for: those at which it has something to do, and those that must
stand next to them for it. -/
def mentioned (lookup : Lookup) : List GlyphId :=
  match lookup.subtables with
  | .single tables => tables.flatMap fun table => table.entries.map (·.1)
  | .multiple tables => tables.flatMap fun table => table.entries.map (·.1)
  | .ligature tables =>
    tables.flatMap fun table => table.entries.flatMap fun entry =>
      entry.2.flatMap fun ligature => entry.1 :: ligature.components
  | .contextual _ tables =>
    tables.flatMap fun table => table.rules.entries.flatMap fun entry =>
      entry.2.flatMap fun rule => entry.1 :: rule.pattern.glyphs

theorem not_mem_components {flag : LookupFlag} {tables : List LigatureSubtable}
    (hb : b ∉ mentioned ⟨flag, .ligature tables⟩) :
    ∀ table ∈ tables, ∀ entry ∈ table.entries, ∀ ligature ∈ entry.2, b ∉ ligature.components := by
  intro table htable entry hentry ligature hligature hmem
  refine hb (List.mem_flatMap.2 ⟨table, htable, List.mem_flatMap.2 ⟨entry, hentry, ?_⟩⟩)
  exact List.mem_flatMap.2 ⟨ligature, hligature, List.mem_cons_of_mem _ hmem⟩

theorem not_mem_glyphs {flag : LookupFlag} {kind : RuleKind} {tables : List ContextSubtable}
    (hb : b ∉ mentioned ⟨flag, .contextual kind tables⟩) :
    ∀ table ∈ tables, ∀ rule ∈ table.allRules, b ∉ rule.pattern.glyphs := by
  intro table htable rule hrule hmem
  obtain ⟨entry, hentry, hrule⟩ := List.mem_flatMap.1 hrule
  refine hb (List.mem_flatMap.2 ⟨table, htable, List.mem_flatMap.2 ⟨entry, hentry, ?_⟩⟩)
  exact List.mem_flatMap.2 ⟨rule, hrule, List.mem_cons_of_mem _ hmem⟩

/-- At a glyph that it does not mention the lookup selects nothing. -/
theorem selectsAt_of_not_mentioned {lookup : Lookup} (hb : b ∉ lookup.mentioned)
    (hi : gids[i]? = some b) : lookup.selectsAt f gids i = false := by
  obtain ⟨flag, subtables⟩ := lookup
  cases subtables with
  | single tables => simp [selectsAt, hi, Coverage.first?_eq_none hb]
  | multiple tables => simp [selectsAt, hi, Coverage.first?_eq_none hb]
  | ligature tables =>
    refine Bool.eq_false_iff.2 fun hselects => hb ?_
    obtain ⟨ligature, hligature⟩ := Option.isSome_iff_exists.1 hselects
    rw [selectLigature?, hi, Option.bind_some] at hligature
    obtain ⟨table, htable, hmem⟩ := List.mem_flatMap.1 (List.mem_of_find?_eq_some hligature)
    obtain ⟨ligatures, hentry, hmem⟩ := Coverage.mem_getD_get?_iff.1 hmem
    refine List.mem_flatMap.2 ⟨table, htable, List.mem_flatMap.2 ⟨_, hentry, ?_⟩⟩
    exact List.mem_flatMap.2 ⟨ligature, hmem, List.mem_cons_self⟩
  | contextual kind tables =>
    refine Bool.eq_false_iff.2 fun hselects => hb ?_
    obtain ⟨found, hfound⟩ := Option.isSome_iff_exists.1 hselects
    rw [selectRule?, hi, Option.bind_some] at hfound
    obtain ⟨rule, hrule, -⟩ := List.exists_of_findSome?_eq_some hfound
    obtain ⟨table, htable, hmem⟩ := List.mem_flatMap.1 hrule
    obtain ⟨rules, hentry, hmem⟩ := Coverage.mem_getD_get?_iff.1 hmem
    refine List.mem_flatMap.2 ⟨table, htable, List.mem_flatMap.2 ⟨_, hentry, ?_⟩⟩
    exact List.mem_flatMap.2 ⟨rule, hmem, List.mem_cons_self⟩

end Lookup

end GlyphSubstitution
