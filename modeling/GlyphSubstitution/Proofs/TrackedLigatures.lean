import GlyphSubstitution.Proofs.LigatureFormation

/-!
# Tracked positions around a ligature

While the records of a rule are worked off, `shiftAfter` moves the tracked positions along knowing
no more than by how much the length of the run has changed; glyphs that were removed it takes to be
the next input glyphs.  A ligature that a record forms removes the glyphs at its components, and
between them others may be passed over.  If it sees the same glyphs as the context did, the two
agree: behind an input glyph, the components are the next seen positions, and so are the next input
positions (`ContextPattern.seenAfter_of_position`).

What is removed before a position of the matched run is counted by `LigatureSite.taken`, so the rest
of the run from position `q` on is found at `q - taken q` (`Ligature.drop_formAt`).  An input glyph
that is no component stands behind all of them, and there `taken` is the number of components.
-/

namespace GlyphSubstitution

universe u

/-! ## Tracked positions -/

theorem getElem?_shiftAfter_of_le {positions : List Nat} {j k : Nat} (h : j ≤ k) (delta : Int) :
    (shiftAfter positions k delta)[j]? = positions[j]? := by
  unfold shiftAfter
  split
  · rfl
  · next floor hfloor =>
    have hk := (List.getElem?_eq_some_iff.1 hfloor).1
    rw [List.getElem?_append_left (by rw [List.length_take]; omega),
      List.getElem?_take_of_lt (by omega)]

theorem getElem?_shiftAfter_of_lt {positions : List Nat} {j k floor : Nat}
    (hfloor : positions[k]? = some floor) (h : k < j) (delta : Int) :
    (shiftAfter positions k delta)[j]? =
      positions[j]?.map fun q : Nat => max floor ((q : Int) + delta).toNat := by
  have hk := (List.getElem?_eq_some_iff.1 hfloor).1
  have htake : (positions.take (k + 1)).length = k + 1 := by
    rw [List.length_take]
    omega
  rw [shiftAfter, hfloor]
  dsimp only
  rw [List.getElem?_append_right (by omega), htake, List.getElem?_map, List.getElem?_drop,
    Nat.add_sub_cancel' h]

/-- If `removed` glyphs are gone, tracked positions with room for them move that many places to the
left. -/
theorem getElem?_shiftAfter_of_removed {positions : List Nat} {j k floor q : Nat}
    (hfloor : positions[k]? = some floor) (hq : positions[j]? = some q) (h : k < j)
    {length length' removed : Nat} (hremoved : length' + removed = length)
    (hroom : floor + removed ≤ q) :
    (shiftAfter positions k ((length' : Int) - length))[j]? = some (q - removed) := by
  rw [getElem?_shiftAfter_of_lt hfloor h, hq, Option.map_some]
  refine congrArg some ?_
  omega

theorem getElem?_lt_of_pairwise {positions : List Nat} {j k p q : Nat}
    (h : positions.Pairwise (· < ·)) (hj : positions[j]? = some q) (hk : positions[k]? = some p)
    (hlt : j < k) : q < p := by
  obtain ⟨hj', rfl⟩ := List.getElem?_eq_some_iff.1 hj
  obtain ⟨hk', rfl⟩ := List.getElem?_eq_some_iff.1 hk
  exact List.pairwise_iff_getElem.1 h j k hj' hk' hlt

namespace ContextPattern

variable {pattern : ContextPattern} {f : GlyphFilter} {gids : List GlyphId} {i j k p q : Nat}
  {m : ContextMatch}

/-- An input glyph after the first is one of the seen glyphs after the start. -/
theorem getElem?_seenAfter_of_position (h : pattern.match? f gids i = some m)
    (hj : m.positions[j + 1]? = some q) : (f.seenAfter gids i)[j]? = some q := by
  obtain ⟨-, rfl⟩ := match?_eq_some_iff_metAt.1 h
  have hinput : ((f.seenAfter gids i).take pattern.input.length)[j]? = some q := hj
  rw [List.getElem?_take] at hinput
  split at hinput
  · exact hinput
  · cases hinput

/-- Behind an input glyph the same glyphs are seen as behind the start, except for those that were
matched up to there. -/
theorem seenAfter_of_position (h : pattern.match? f gids i = some m)
    (hk : m.positions[k]? = some p) : f.seenAfter gids p = (f.seenAfter gids i).drop k := by
  cases k with
  | zero =>
    obtain ⟨-, rfl⟩ := match?_eq_some_iff_metAt.1 h
    rw [← Option.some.inj hk]
    rfl
  | succ k =>
    have hseen := getElem?_seenAfter_of_position h hk
    have hreached : f.reached gids i (k + 1) = p := by
      rw [GlyphFilter.reached, List.getLastD_eq_getLast?, List.getLast?_take,
        if_neg (Nat.succ_ne_zero k), Nat.add_sub_cancel, hseen]
      rfl
    rw [← hreached, GlyphFilter.seenAfter_reached (List.getElem?_eq_some_iff.1 hseen).1]

/-- The input glyphs after one of them are the seen glyphs after it. -/
theorem getElem?_seenAfter_of_positions (h : pattern.match? f gids i = some m)
    (hk : m.positions[k]? = some p) (hj : m.positions[k + 1 + j]? = some q) :
    (f.seenAfter gids p)[j]? = some q := by
  rw [seenAfter_of_position h hk, List.getElem?_drop]
  rw [Nat.add_right_comm] at hj
  exact getElem?_seenAfter_of_position h hj

/-- The next `n` input glyphs are among the next `n` seen glyphs. -/
theorem mem_take_seenAfter_of_positions (h : pattern.match? f gids i = some m)
    (hk : m.positions[k]? = some p) (hj : m.positions[j]? = some q) {n : Nat} (hlt : k < j)
    (hle : j ≤ k + n) : q ∈ (f.seenAfter gids p).take n := by
  obtain ⟨d, rfl⟩ := Nat.exists_eq_add_of_le (show k + 1 ≤ j from hlt)
  refine List.mem_of_getElem? (i := d) ?_
  rw [List.getElem?_take_of_lt (by omega), getElem?_seenAfter_of_positions h hk hj]

end ContextPattern

/-! ## What is removed before a position -/

namespace LigatureSite

variable {site : LigatureSite} {f : GlyphFilter} {gids : List GlyphId}

/-- No more components stand before a position than there are positions between it and the start. -/
theorem Spans.taken_le (h : site.Spans f gids) (n : Nat) : site.taken (site.start + 1 + n) ≤ n := by
  induction n with
  | zero => rw [Nat.add_zero, h.taken_of_le_start (Nat.le_refl _)]
  | succ n ih =>
    have hcount : site.components.count (site.start + 1 + n) ≤ 1 :=
      List.nodup_iff_count_le_one.1 (h.increasing.imp Nat.ne_of_lt) _
    rw [← Nat.add_assoc, taken_succ]
    omega

/-- A position behind the last component has room for the components between it and the start. -/
theorem Spans.start_add_length_lt (h : site.Spans f gids) {q : Nat} (hlast : site.last < q) :
    site.start + site.components.length < q := by
  have hle := h.start_le_last
  obtain ⟨n, rfl⟩ := Nat.exists_eq_add_of_le (show site.start + 1 ≤ q by omega)
  have htaken := h.taken_le n
  rw [h.taken_eq_length hlast] at htaken
  omega

end LigatureSite

namespace Ligature

variable {α : Type u} [Payload α] {site : LigatureSite} {f : GlyphFilter} {run : Run α} {q : Nat}

/-- Of a stretch as many glyphs are missing as components stand in it. -/
theorem length_remnants {gids : List GlyphId} (h : site.Spans f gids) (ligature : Ligature)
    (run stretch : Run α) (k : Nat) :
    (ligature.remnants site run stretch k).length + site.taken (k + stretch.length) =
      stretch.length + site.taken k := by
  induction stretch generalizing k with
  | nil => simp [remnants]
  | cons glyph rest ih =>
    have hrest := ih (k + 1)
    rw [remnants_cons, List.length_append, List.length_cons, Nat.add_comm rest.length 1,
      ← Nat.add_assoc]
    by_cases hk : k ∈ site.components
    · rw [h.taken_succ_of_mem hk] at hrest
      rw [remnant?_of_mem ligature run glyph hk]
      simp only [Option.toList_none, List.length_nil]
      omega
    · obtain ⟨left, hleft⟩ : ∃ left, ligature.remnant? site run glyph k = some left := by
        rw [remnant?, if_neg hk]
        split
        · exact ⟨_, rfl⟩
        · split <;> exact ⟨_, rfl⟩
      rw [LigatureSite.taken_succ_of_not_mem hk] at hrest
      rw [hleft]
      simp only [Option.toList_some, List.length_singleton]
      omega

/-- What is left of the run from position `q` on comes after what is left before it. -/
theorem drop_formAt (h : site.Spans f run.gids) (ligature : Ligature) (hq : q ≤ run.length) :
    (ligature.formAt site run).drop (q - site.taken q) =
      ligature.remnants site run (run.drop q) q := by
  have hlength := length_remnants h ligature run (run.take q) 0
  rw [List.length_take_of_le hq, Nat.zero_add, h.taken_of_le_start (Nat.zero_le _)] at hlength
  have hsplit : ligature.formAt site run =
      ligature.remnants site run (run.take q) 0 ++ ligature.remnants site run (run.drop q) q := by
    have happend := remnants_append ligature site run (run.take q) (run.drop q) 0
    rwa [List.take_append_drop, List.length_take_of_le hq, Nat.zero_add] at happend
  rw [hsplit, show q - site.taken q = (ligature.remnants site run (run.take q) 0).length by omega,
    List.drop_left]

/-- Behind the ligature the run goes on as before, as many places further left as there are
components. -/
theorem drop_formAt_of_last_lt (h : site.Spans f run.gids) (ligature : Ligature)
    (hlast : site.last < q) (hq : q ≤ run.length) :
    (ligature.formAt site run).drop (q - site.components.length) = run.drop q := by
  rw [← h.taken_eq_length hlast, drop_formAt h ligature hq,
    remnants_of_last_lt h ligature run _ hlast]

/-- As many glyphs are gone as the ligature has components. -/
theorem length_formAt (h : site.Spans f run.gids) (ligature : Ligature)
    (hlast : site.last < run.length) :
    (ligature.formAt site run).length + site.components.length = run.length := by
  have hlength := length_remnants h ligature run run 0
  rw [Nat.zero_add, h.taken_of_le_start (Nat.zero_le _), h.taken_eq_length hlast] at hlength
  exact hlength

/-- Before the ligature nothing has changed. -/
theorem take_formAt (h : site.Spans f run.gids) (ligature : Ligature)
    (hstart : site.start < run.length) :
    (ligature.formAt site run).take site.start = run.take site.start := by
  obtain ⟨before, head, rest, rfl, hbefore⟩ := exists_append_of_lt hstart
  rw [formAt_append h ligature before head rest hbefore, hbefore, List.take_left, List.take_left]

/-- Where the ligature begins stands the merged glyph. -/
theorem getElem?_formAt_start (h : site.Spans f run.gids) (ligature : Ligature)
    (hstart : site.start < run.length) :
    (ligature.formAt site run)[site.start]? = run[site.start]?.map fun head =>
      ligature.merge head (site.components.filterMap (run[·]?)) := by
  obtain ⟨before, head, rest, rfl, hbefore⟩ := exists_append_of_lt hstart
  rw [formAt_append h ligature before head rest hbefore, hbefore]
  simp

omit [Payload α] in
theorem last_site_lt_length (ligature : Ligature) {i : Nat} (hi : i < run.length) :
    (ligature.site f run.gids i).last < run.length := by
  rw [← Run.length_gids] at hi ⊢
  exact GlyphFilter.reached_lt_length hi

/-- Where the ligature matches it is formed at its site. -/
theorem applyAt_eq_formAt {ligature : Ligature} {i : Nat}
    (hsize : ligature.components.length ≤ UInt16.size) (hi : i < run.length)
    (hmatch : ligature.matchesAt f run.gids i = true) :
    ∃ passed, ligature.applyAt f run i =
      ⟨ligature.formAt (ligature.site f run.gids i) run, .ok (some passed)⟩ := by
  have hlast : (ligature.site f run.gids i).last < run.length := last_site_lt_length ligature hi
  have hspans := site_spans hmatch
  obtain ⟨before, head, rest, rfl, rfl⟩ := exists_append_of_lt hi
  obtain ⟨hrun, hresult⟩ :=
    fuse_eq_formAt hspans rfl (length_components_site hmatch) hsize hlast
  rw [applyAt, editAt_append, if_pos hmatch]
  dsimp only
  rw [hrun, hresult]
  exact ⟨_, rfl⟩

/-- Input glyphs of a context behind as many as there are components stand behind the last
component. -/
theorem last_site_lt {pattern : ContextPattern} {gids : List GlyphId} {i j k p : Nat}
    {m : ContextMatch} {ligature : Ligature} (hcontext : pattern.match? f gids i = some m)
    (hp : m.positions[k]? = some p) (hq : m.positions[j]? = some q)
    (hligature : ligature.matchesAt f gids p = true) (hj : k + ligature.components.length < j) :
    (ligature.site f gids p).last < q := by
  obtain ⟨n, rfl⟩ := Nat.exists_eq_add_of_le (show k + 1 ≤ j by omega)
  have hseen := ContextPattern.getElem?_seenAfter_of_positions hcontext hp hq
  have hmem : q ∈ (f.seenAfter gids p).drop ligature.components.length := by
    refine List.mem_of_getElem? (i := n - ligature.components.length) ?_
    rw [List.getElem?_drop, Nat.add_sub_cancel' (by omega)]
    exact hseen
  rw [← GlyphFilter.seenAfter_reached (matchesAt_iff.1 hligature).length_le] at hmem
  exact (GlyphFilter.mem_seenAfter.1 hmem).1

/-- Positions that a context has matched are tracked exactly when one of its input glyphs becomes a
ligature that sees the same glyphs.  Tracked positions before it keep their glyph, and so does what
stands before them; the one of the input glyph itself holds the merged glyph.  As many of the next
input glyphs as there are components are among those that were merged.  Each further one is found at
its tracked position, and what follows it is as it was. -/
theorem positions_tracked_exactly (pattern : ContextPattern) (f : GlyphFilter) (run : Run α)
    {i k p : Nat} {m : ContextMatch} {ligature : Ligature}
    (hcontext : pattern.match? f run.gids i = some m) (hp : m.positions[k]? = some p)
    (hsize : ligature.components.length ≤ 65535)
    (hligature : ligature.matchesAt f run.gids p = true) :
    let components := (f.seenAfter run.gids p).take ligature.components.length
    ∃ run' passed, ligature.applyAt f run p = ⟨run', .ok (some passed)⟩ ∧
      let tracked := shiftAfter m.positions k ((run'.length : Int) - run.length)
      tracked.length = m.positions.length ∧
      ∀ j q, m.positions[j]? = some q →
        (j < k → tracked[j]? = some q ∧ q < run.length ∧ run'.take (q + 1) = run.take (q + 1)) ∧
        (j = k → tracked[j]? = some q ∧ ∃ head, run[q]? = some head ∧
          run'[q]? = some (ligature.merge head (components.filterMap (run[·]?)))) ∧
        (k < j → j ≤ k + ligature.components.length → q ∈ components) ∧
        (k + ligature.components.length < j →
          tracked[j]? = some (q - ligature.components.length) ∧ q < run.length ∧
            run'.drop (q - ligature.components.length) = run.drop q) := by
  intro components
  have hspans := site_spans hligature
  have hlength := length_components_site hligature
  have hincreasing := ContextPattern.pairwise_positions hcontext
  have hinside : ∀ q ∈ m.positions, q < run.length := fun q hq => by
    rw [← Run.length_gids]
    exact ContextPattern.lt_length_of_mem_positions hcontext hq
  have hp' : p < run.length := hinside p (List.mem_of_getElem? hp)
  obtain ⟨passed, happly⟩ := applyAt_eq_formAt (hsize.trans (by decide)) hp' hligature
  have hbefore : (ligature.formAt (ligature.site f run.gids p) run).take p = run.take p :=
    take_formAt hspans ligature hp'
  have hmerged : (ligature.formAt (ligature.site f run.gids p) run)[p]? =
      run[p]?.map fun head => ligature.merge head (components.filterMap (run[·]?)) :=
    getElem?_formAt_start hspans ligature hp'
  have hgone := length_formAt hspans ligature (last_site_lt_length ligature hp')
  rw [hlength] at hgone
  refine ⟨_, passed, happly, length_shiftAfter _ _ _, fun j q hq => ⟨fun hj => ?_, ?_, ?_, ?_⟩⟩
  · have hqp : q < p := getElem?_lt_of_pairwise hincreasing hq hp hj
    refine ⟨?_, hinside q (List.mem_of_getElem? hq), ?_⟩
    · rw [getElem?_shiftAfter_of_le (Nat.le_of_lt hj), hq]
    · have htake := congrArg (List.take (q + 1)) hbefore
      rwa [List.take_take, List.take_take, Nat.min_eq_left hqp] at htake
  · rintro rfl
    obtain rfl := Option.some.inj (hq.symm.trans hp)
    refine ⟨?_, run[q], List.getElem?_eq_getElem hp', ?_⟩
    · rw [getElem?_shiftAfter_of_le (Nat.le_refl j), hq]
    · rw [hmerged, List.getElem?_eq_getElem hp', Option.map_some]
  · exact ContextPattern.mem_take_seenAfter_of_positions hcontext hp hq
  · intro hj
    have hbehind := last_site_lt hcontext hp hq hligature hj
    have hroom := hspans.start_add_length_lt hbehind
    rw [hlength] at hroom
    have hq' := hinside q (List.mem_of_getElem? hq)
    have hdrop := drop_formAt_of_last_lt hspans ligature hbehind (Nat.le_of_lt hq')
    rw [hlength] at hdrop
    exact ⟨getElem?_shiftAfter_of_removed hp hq (by omega) hgone (Nat.le_of_lt hroom), hq', hdrop⟩

/-- A 5 and a 6 of a context become a ligature, across a 2 that neither of them sees.  The 7 behind
them is found one place further left, and the 6 was merged. -/
theorem joining_tracked :
    let f : GlyphFilter := ⟨(· != 2)⟩
    let run : Run (List Nat) :=
      [.ofId 4 [0], .ofId 2 [1], .ofId 5 [2], .ofId 2 [3], .ofId 6 [4], .ofId 7 [5]]
    (⟨none, [5, 6, 7], none⟩ : ContextPattern).match? f run.gids 0 = some ⟨0, [2, 4, 5]⟩ ∧
      (⟨56, [6]⟩ : Ligature).matchesAt f run.gids 2 = true ∧
      ∃ run' passed, (⟨56, [6]⟩ : Ligature).applyAt f run 2 = ⟨run', .ok (some passed)⟩ ∧
        run'[2]? = some { Glyph.ofId 56 [2, 4] with flags := { ligature := true } } ∧
        (shiftAfter [0, 2, 4, 5] 1 ((run'.length : Int) - run.length))[3]? = some 4 ∧
        run'.drop 4 = [.ofId 7 [5]] := by
  intro f run
  have hcontext : (⟨none, [5, 6, 7], none⟩ : ContextPattern).match? f run.gids 0 =
      some ⟨0, [2, 4, 5]⟩ := by decide
  have hligature : (⟨56, [6]⟩ : Ligature).matchesAt f run.gids 2 = true := by decide
  obtain ⟨run', passed, happly, -, htracked⟩ :=
    positions_tracked_exactly _ f run (k := 1) hcontext rfl (by decide) hligature
  obtain ⟨-, head, hhead, hmerged⟩ := (htracked 1 2 rfl).2.1 rfl
  obtain ⟨hposition, -, hbehind⟩ := (htracked 3 5 rfl).2.2.2 (by decide)
  refine ⟨hcontext, hligature, run', passed, happly, ?_, hposition, hbehind⟩
  obtain rfl := Option.some.inj hhead
  exact hmerged.trans (by decide)

end Ligature

end GlyphSubstitution
