import GlyphSubstitution.Proofs.DryRun
import GlyphSubstitution.Proofs.SeenGlyphs
import GlyphSubstitution.Proofs.UnseenGlyphs

/-!
# Applications to seen glyphs

What a lookup does to a seen glyph it also does when the unseen glyphs are taken out of the run.  An
application at a seen position corresponds to one at the rank of that position
(`Outcome.seenFrom`).  The widths differ, for the one counts glyphs passed over and the other does
not; so what corresponds is not the widths but the places that they lead to.

For edits this is `Lookup.edit_seen`, where a ligature leaves what it passes over right behind
itself (`absorbFrom_seen`).  Records are carried out at input glyphs, which are seen.  As long as
the calls put one seen glyph in the place of another, the run keeps its shape (`SameShape`) and the
tracked positions stay where they are, and so contextual subtables correspond if the calls do
(`applyContextual_seen`).
-/

namespace GlyphSubstitution

universe u v

variable {α : Type u} {β : Type v} {f : GlyphFilter}

/-! ## Outcomes without the unseen glyphs -/

/-- The outcome with the unseen glyphs taken out of its run. -/
def Outcome.seen (f : GlyphFilter) (o : Outcome α β) : Outcome α β := ⟨o.run.seen f, o.result⟩

/-- What an application at position `i` comes to when the unseen glyphs are taken out of its run:
then the width counts seen glyphs only. -/
def Outcome.seenFrom (f : GlyphFilter) (i : Nat) (o : Outcome α (Option Applied)) :
    Outcome α (Option Applied) :=
  (o.seen f).map fun applied => applied.map fun a =>
    { a with width := f.rank o.run.gids (i + a.width) - f.rank o.run.gids i }

theorem Outcome.map_seenFrom_changed (f : GlyphFilter) (i : Nat) (o : Outcome α (Option Applied)) :
    (o.seenFrom f i).map (·.any (·.changed)) = (o.map (·.any (·.changed))).seen f := by
  obtain ⟨run, result⟩ := o
  rcases result with e | (_ | applied) <;> rfl

theorem Run.rank_length_append (f : GlyphFilter) (before rest : Run α) :
    f.rank (Run.gids (before ++ rest)) before.length = (before.seen f).length := by
  rw [← Run.length_gids before, Run.gids_append, GlyphFilter.rank_length_append, ← Run.gids_seen,
    Run.length_gids]

theorem Run.rank_append_add (f : GlyphFilter) (before rest : Run α) (n : Nat) :
    f.rank (Run.gids (before ++ rest)) (before.length + n) =
      (before.seen f).length + f.rank rest.gids n := by
  rw [← Run.length_gids before, Run.gids_append, GlyphFilter.rank_append_add, ← Run.gids_seen,
    Run.length_gids]

theorem Run.sees_of_seesAt_append {before : Run α} {glyph : Glyph α} {rest : Run α}
    (h : f.seesAt (Run.gids (before ++ glyph :: rest)) before.length = true) :
    f.sees glyph.gid = true := by
  rw [GlyphFilter.seesAt, Run.getElem?_gids_append] at h
  exact h

/-! ## Edits -/

/-- Edits of a seen glyph correspond if what they do to it and to the glyphs after it does. -/
theorem editAt_seen {edit edit' : Glyph α → Run α → Option (Outcome α Applied)} {run : Run α}
    {i : Nat} (hi : f.seesAt run.gids i = true)
    (h : ∀ (glyph : Glyph α) (rest : Run α), f.sees glyph.gid = true →
      edit' glyph (rest.seen f) = (edit glyph rest).map fun o =>
        (o.seen f).map fun a => { a with width := f.rank o.run.gids a.width }) :
    editAt edit' (run.seen f) (f.rank run.gids i) = (editAt edit run i).seenFrom f i := by
  obtain ⟨before, glyph, rest, rfl, rfl⟩ := exists_append_of_lt (Run.lt_length_of_seesAt hi)
  have hsees := Run.sees_of_seesAt_append hi
  rw [Run.rank_length_append, Run.seen_append, Run.seen_cons_of_sees hsees, editAt_append,
    editAt_append, h glyph rest hsees]
  cases edit glyph rest with
  | none =>
    rw [Option.map_none]
    simp only [Outcome.seenFrom, Outcome.seen, Outcome.map, Run.seen_append,
      Run.seen_cons_of_sees hsees]
    rfl
  | some o =>
    obtain ⟨run', result⟩ := o
    rw [Option.map_some]
    cases result with
    | error e =>
      simp only [Outcome.seenFrom, Outcome.seen, Outcome.map, Run.seen_append]
      rfl
    | ok applied =>
      simp only [Outcome.seenFrom, Outcome.seen, Outcome.map, Run.seen_append, Except.map,
        Option.map_some, Run.rank_append_add, Run.rank_length_append, Nat.add_sub_cancel_left]

/-- Seen glyphs in the place of a seen glyph count in full. -/
theorem editAt_replacement_seen {γ : Type v} {select : GlyphId → Option γ}
    (stretch : Glyph α → γ → Run α) (width : γ → Nat)
    (hwidth : ∀ glyph x, width x = (stretch glyph x).length)
    (h : ∀ glyph x, select glyph.gid = some x → ∀ g ∈ stretch glyph x, f.sees g.gid = true)
    {run : Run α} {i : Nat} (hi : f.seesAt run.gids i = true) :
    let edit (glyph : Glyph α) (rest : Run α) : Option (Outcome α Applied) :=
      (select glyph.gid).map fun x =>
        ⟨stretch glyph x ++ rest, .ok { width := width x, changed := true }⟩
    editAt edit (run.seen f) (f.rank run.gids i) = (editAt edit run i).seenFrom f i := by
  refine editAt_seen hi fun glyph rest _ => ?_
  cases hselect : select glyph.gid with
  | none => rfl
  | some x =>
    have hstretch := h glyph x hselect
    have hrank : f.rank (Run.gids (stretch glyph x ++ rest)) (width x) = width x := by
      rw [hwidth glyph x, Run.rank_length_append, Run.seen_eq_self hstretch]
    simp only [Option.map_some, Outcome.seen, Outcome.map, Run.seen_append,
      Run.seen_eq_self hstretch, Except.map, hrank]

theorem applySingle_seen {tables : List SingleSubtable}
    (h : ∀ table ∈ tables, ∀ entry ∈ table.entries, f.sees entry.2 = true) {run : Run α} {i : Nat}
    (hi : f.seesAt run.gids i = true) :
    applySingle tables (run.seen f) (f.rank run.gids i) =
      (applySingle tables run i).seenFrom f i := by
  refine editAt_replacement_seen (fun glyph g => [glyph.replaceBy g]) (fun _ => 1)
    (fun _ _ => rfl) (fun glyph g hg g' hg' => ?_) hi
  obtain ⟨table, htable, hentry⟩ := Coverage.exists_mem_of_first? hg
  rw [List.mem_singleton.1 hg']
  exact h table htable _ hentry

theorem applyMultiple_seen {tables : List MultipleSubtable}
    (h : ∀ table ∈ tables, ∀ entry ∈ table.entries, ∀ g ∈ entry.2, f.sees g = true) {run : Run α}
    {i : Nat} (hi : f.seesAt run.gids i = true) :
    applyMultiple tables (run.seen f) (f.rank run.gids i) =
      (applyMultiple tables run i).seenFrom f i := by
  refine editAt_replacement_seen Glyph.expand List.length
    (fun glyph gs => (glyph.length_expand gs).symm) (fun glyph gs hgs => ?_) hi
  obtain ⟨table, htable, hentry⟩ := Coverage.exists_mem_of_first? hgs
  exact sees_gid_expand (h table htable _ hentry) glyph

/-! ### Ligatures -/

section

variable [Payload α]

theorem absorbFrom_of_le (f : GlyphFilter) {wanted taken : Nat} (h : wanted ≤ taken)
    (head : Glyph α) (rest : Run α) :
    absorbFrom f wanted taken head rest = ⟨head, rest, .ok 0⟩ := by
  cases rest with
  | nil => rfl
  | cons glyph rest => rw [absorbFrom, if_pos h]

/-- The components are the same when the unseen glyphs are taken out, and then none is passed over.
Those that are passed over otherwise stand first in what is left. -/
theorem absorbFrom_seen (f : GlyphFilter) {wanted : Nat} (hwanted : wanted ≤ UInt16.size)
    (taken : Nat) (head : Glyph α) (rest : Run α) :
    ∃ passed, (absorbFrom f wanted taken head rest).passed = .ok passed ∧
      f.rank (absorbFrom f wanted taken head rest).rest.gids passed = 0 ∧
      absorbFrom f wanted taken head (rest.seen f) =
        ⟨(absorbFrom f wanted taken head rest).head,
          (absorbFrom f wanted taken head rest).rest.seen f, .ok 0⟩ := by
  fun_induction absorbFrom f wanted taken head rest with
  | case1 taken head => exact ⟨0, rfl, rfl, rfl⟩
  | case2 taken head glyph rest hdone => exact ⟨0, rfl, rfl, absorbFrom_of_le f hdone head _⟩
  | case3 taken head glyph rest hmore hsees ih =>
    obtain ⟨passed, hpassed, hrank, hseen⟩ := ih
    refine ⟨passed, hpassed, hrank, ?_⟩
    rw [Run.seen_cons_of_sees hsees, absorbFrom, if_neg hmore, if_pos hsees, hseen]
  | case4 taken head glyph rest hmore hsees e hplace =>
    -- more components than a word can count are not asked for
    obtain ⟨-, htoo⟩ := toWord_eq_error_iff.1 hplace
    omega
  | case5 taken head glyph rest hmore hsees place hplace further ih =>
    obtain ⟨passed, hpassed, hrank, hseen⟩ := ih
    refine ⟨passed + 1, by rw [hpassed]; rfl, ?_, ?_⟩
    · have hunseen : f.sees glyph.gid = false := eq_false_of_ne_true hsees
      rw [GlyphFilter.rank, Run.gids_cons, List.take_succ_cons, List.countP_cons]
      simp only [hunseen]
      exact hrank
    · have hplaced : ¬ f.sees ({ glyph with ligatureComponent := place } : Glyph α).gid = true :=
        hsees
      rw [Run.seen_cons_of_not_sees hsees, Run.seen_cons_of_not_sees hplaced]
      exact hseen

/-- A ligature that is seen is formed in the same way when the unseen glyphs are taken out. -/
theorem Ligature.fuse_seen {ligature : Ligature} (hsees : f.sees ligature.glyph = true)
    (hlength : ligature.components.length ≤ UInt16.size) (glyph : Glyph α) (rest : Run α) :
    ∃ (head : Glyph α) (rest' : Run α) (passed : Nat), f.sees head.gid = true ∧
      f.rank rest'.gids passed = 0 ∧
      ligature.fuse f glyph rest = ⟨head :: rest', .ok passed⟩ ∧
      ligature.fuse f glyph (rest.seen f) = ⟨head :: rest'.seen f, .ok 0⟩ := by
  obtain ⟨passed, hpassed, hrank, hseen⟩ := absorbFrom_seen f hlength 0 glyph rest
  refine ⟨_, _, passed, ?_, hrank, by rw [fuse, hpassed], by rw [fuse, hseen]⟩
  exact hsees

theorem applyLigature_seen {tables : List LigatureSubtable}
    (h : ∀ table ∈ tables, ∀ entry ∈ table.entries, ∀ ligature ∈ entry.2,
      f.sees ligature.glyph = true ∧ ligature.components.length ≤ UInt16.size) {run : Run α}
    {i : Nat} (hi : f.seesAt run.gids i = true) :
    applyLigature tables f (run.seen f) (f.rank run.gids i) =
      (applyLigature tables f run i).seenFrom f i := by
  refine editAt_seen hi fun glyph rest _ => ?_
  rw [Run.gids_seen, selectLigature?_filter tables hi]
  cases hselect : selectLigature? tables f run.gids i with
  | none => rfl
  | some ligature =>
    obtain ⟨g, -, hligature⟩ := Option.bind_eq_some_iff.1 hselect
    obtain ⟨table, htable, entry, hentry, hmem⟩ := exists_mem_of_ligatureFor? hligature
    obtain ⟨hsees, hlength⟩ := h table htable entry hentry ligature hmem
    obtain ⟨head, rest', passed, hhead, hpassed, hfuse, hfuse'⟩ :=
      Ligature.fuse_seen hsees hlength glyph rest
    -- the ligature counts, what is passed over after it does not
    have hrank : f.rank (Run.gids (head :: rest')) (passed + 1) = 1 := by
      rw [GlyphFilter.rank, Run.gids_cons, List.take_succ_cons, List.countP_cons_of_pos hhead]
      exact congrArg (· + 1) hpassed
    simp only [Option.map_some, hfuse, hfuse', Outcome.seen, Outcome.map, Except.map,
      Run.seen_cons_of_sees hhead, hrank]

/-- A lookup that edits glyphs itself does to a seen glyph the same when the unseen ones are taken
out. -/
theorem Lookup.edit_seen {lookup : Lookup} {skip : SkipPredicate}
    (houtputs : ∀ g ∈ lookup.outputs, (skip.filter lookup.flag).sees g = true)
    (hligatures : ∀ ligature ∈ lookup.ligatures, ligature.components.length ≤ UInt16.size)
    {run : Run α} {i : Nat} (hi : (skip.filter lookup.flag).seesAt run.gids i = true) :
    lookup.edit skip (run.seen (skip.filter lookup.flag))
        ((skip.filter lookup.flag).rank run.gids i) =
      (lookup.edit skip run i).seenFrom (skip.filter lookup.flag) i := by
  obtain ⟨flag, subtables⟩ := lookup
  cases subtables with
  | single tables =>
    refine applySingle_seen (fun table htable entry hentry => houtputs _ ?_) hi
    exact List.mem_flatMap.2 ⟨table, htable, List.mem_map_of_mem hentry⟩
  | multiple tables =>
    refine applyMultiple_seen (fun table htable entry hentry g hg => houtputs g ?_) hi
    exact List.mem_flatMap.2 ⟨table, htable, List.mem_flatMap.2 ⟨entry, hentry, hg⟩⟩
  | ligature tables =>
    refine applyLigature_seen (fun table htable entry hentry ligature hmem => ⟨?_, ?_⟩) hi
    · exact houtputs _ (List.mem_flatMap.2
        ⟨table, htable, List.mem_flatMap.2 ⟨entry, hentry, List.mem_map_of_mem hmem⟩⟩)
    · exact hligatures ligature (List.mem_flatMap.2
        ⟨table, htable, List.mem_flatMap.2 ⟨entry, hentry, hmem⟩⟩)
  | contextual kind tables => rfl

end

/-! ## Runs of one shape -/

/-- The runs have their seen and unseen glyphs at the same positions. -/
def SameShape (f : GlyphFilter) (run run' : Run α) : Prop :=
  run'.gids.map f.sees = run.gids.map f.sees

namespace SameShape

variable {run run' run'' : Run α}

theorem refl (f : GlyphFilter) (run : Run α) : SameShape f run run := rfl

theorem trans (h : SameShape f run run') (h' : SameShape f run' run'') : SameShape f run run'' :=
  Eq.trans h' h

theorem length_eq (h : SameShape f run run') : run'.length = run.length := by
  have hlength := congrArg List.length h
  rw [List.length_map, List.length_map, Run.length_gids, Run.length_gids] at hlength
  exact hlength

theorem rank_eq (h : SameShape f run run') : f.rank run'.gids = f.rank run.gids := by
  have hcount : ∀ gids : List GlyphId,
      f.rank gids = fun p => ((gids.map f.sees).take p).countP id := by
    intro gids
    funext p
    rw [← List.map_take, List.countP_map]
    rfl
  rw [hcount, hcount, h]

theorem seesAt_eq (h : SameShape f run run') : f.seesAt run'.gids = f.seesAt run.gids := by
  have hany : ∀ gids : List GlyphId, f.seesAt gids = fun p => (gids.map f.sees)[p]?.any id := by
    intro gids
    funext p
    rw [List.getElem?_map, Option.any_map]
    rfl
  rw [hany, hany, h]

end SameShape

/-- A seen glyph in the place of a seen glyph leaves a run its shape. -/
theorem applySingle_sameShape {tables : List SingleSubtable}
    (h : ∀ table ∈ tables, ∀ entry ∈ table.entries, f.sees entry.2 = true) {run : Run α} {i : Nat}
    (hi : f.seesAt run.gids i = true) : SameShape f run (applySingle tables run i).run := by
  obtain ⟨before, glyph, rest, rfl, rfl⟩ := exists_append_of_lt (Run.lt_length_of_seesAt hi)
  have hsees := Run.sees_of_seesAt_append hi
  rw [applySingle, editAt_append]
  cases hg : Coverage.first? tables glyph.gid with
  | none => exact SameShape.refl f _
  | some g =>
    obtain ⟨table, htable, hentry⟩ := Coverage.exists_mem_of_first? hg
    have hreplaced : f.sees (glyph.replaceBy g).gid = f.sees glyph.gid :=
      (h table htable _ hentry).trans hsees.symm
    simp only [SameShape, Option.map_some, Run.gids_append, Run.gids_cons, List.map_append,
      List.map_cons, hreplaced]

/-! ## Records -/

/-- Calls to lookup `k` at seen positions come to the same if the unseen glyphs are taken out, and
they leave the run its shape. -/
def CallsAlike (f : GlyphFilter) (nested : Applier α) (limit k : Nat) : Prop :=
  ∀ (run : Run α) i, f.seesAt run.gids i = true →
    SameShape f run (nested ⟨k, limit, i, run⟩).run ∧
      nested ⟨k, limit, f.rank run.gids i, run.seen f⟩ = (nested ⟨k, limit, i, run⟩).seen f

theorem SameShape.length_seen {run run' : Run α} (h : SameShape f run run') :
    (run'.seen f).length = (run.seen f).length := by
  have hend : ∀ run : Run α, (run.seen f).length = f.rank run.gids run.length := by
    intro run
    rw [GlyphFilter.rank_of_length_le (by rw [Run.length_gids]), ← Run.gids_seen, Run.length_gids]
  rw [hend, hend, h.rank_eq, h.length_eq]

/-- A call that leaves the length of the run alone leaves positions in order where they are. -/
theorem shiftAfter_zero {positions : List Nat} (h : positions.Pairwise (· ≤ ·)) (k : Nat) :
    shiftAfter positions k 0 = positions := by
  unfold shiftAfter
  split
  · rfl
  · next floor hfloor =>
    obtain ⟨hk, rfl⟩ := List.getElem?_eq_some_iff.1 hfloor
    have hlater : ∀ p ∈ positions.drop (k + 1), positions[k] ≤ p := by
      have hrest := h.sublist (List.drop_sublist k positions)
      rw [List.drop_eq_getElem_cons hk] at hrest
      exact (List.pairwise_cons.1 hrest).1
    have hstay : (positions.drop (k + 1)).map
        (fun p : Nat => max positions[k] ((p : Int) + 0).toNat) = positions.drop (k + 1) := by
      refine (List.map_congr_left fun p hp => ?_).trans (List.map_id _)
      have hle := hlater p hp
      simp only [id_eq]
      omega
    rw [hstay, List.take_append_drop]

namespace Application

variable {a : Application α}

/-- The tracked positions are inside the run and in order. -/
structure Tracks (a : Application α) : Prop where
  inside : ∀ p ∈ a.positions, p < a.run.length
  ordered : a.positions.Pairwise (· ≤ ·)

theorem Tracks.target?_eq (h : a.Tracks) (record : SequenceLookup) :
    a.target? record = a.positions[record.sequenceIndex.toNat]? := by
  rw [target?]
  cases hp : a.positions[record.sequenceIndex.toNat]? with
  | none => rfl
  | some p =>
    have hinside : p < a.run.length := h.inside p (List.mem_of_getElem? hp)
    rw [Option.filter_some, if_pos (decide_eq_true hinside)]

/-- A call that leaves the length of the run alone leaves the tracked positions where they are. -/
theorem Tracks.afterCall_eq (h : a.Tracks) {run : Run α} (hlength : run.length = a.run.length)
    (record : SequenceLookup) (changed : Bool) :
    a.afterCall record run changed = ⟨run, a.positions, a.changed || changed⟩ := by
  have hgrowth : a.growth run = 0 := by
    rw [growth, hlength, Int.sub_self]
  rw [afterCall, hgrowth, shiftAfter_zero h.ordered, hlength, bne_self_eq_false, Bool.or_false]

/-- The application with the unseen glyphs taken out of its run. -/
def seen (f : GlyphFilter) (a : Application α) : Application α :=
  ⟨a.run.seen f, a.positions.map (f.rank a.run.gids), a.changed⟩

/-- The tracked positions are seen and in order. -/
structure TracksSeen (f : GlyphFilter) (a : Application α) : Prop where
  sees : ∀ p ∈ a.positions, f.seesAt a.run.gids p = true
  ordered : a.positions.Pairwise (· ≤ ·)

theorem TracksSeen.tracks (h : a.TracksSeen f) : a.Tracks :=
  ⟨fun p hp => Run.lt_length_of_seesAt (h.sees p hp), h.ordered⟩

theorem TracksSeen.seen (h : a.TracksSeen f) : (a.seen f).TracksSeen f where
  sees := by
    intro q hq
    obtain ⟨p, hp, rfl⟩ := List.mem_map.1 hq
    show f.seesAt (a.run.seen f).gids _ = true
    rw [Run.gids_seen]
    exact GlyphFilter.seesAt_rank (h.sees p hp)
  ordered := h.ordered.map _ fun _ _ => GlyphFilter.rank_mono f a.run.gids

theorem TracksSeen.target?_seen (h : a.TracksSeen f) (record : SequenceLookup) :
    (a.seen f).target? record = (a.target? record).map (f.rank a.run.gids) := by
  rw [h.seen.tracks.target?_eq, h.tracks.target?_eq]
  exact List.getElem?_map

theorem TracksSeen.afterCall (h : a.TracksSeen f) {run : Run α} (hshape : SameShape f a.run run)
    (record : SequenceLookup) (changed : Bool) :
    (a.afterCall record run changed).TracksSeen f := by
  rw [h.tracks.afterCall_eq hshape.length_eq]
  refine ⟨fun p hp => ?_, h.ordered⟩
  show f.seesAt run.gids p = true
  rw [hshape.seesAt_eq]
  exact h.sees p hp

theorem TracksSeen.afterCall_seen (h : a.TracksSeen f) {run : Run α}
    (hshape : SameShape f a.run run) (record : SequenceLookup) (changed : Bool) :
    (a.seen f).afterCall record (run.seen f) changed = (a.afterCall record run changed).seen f := by
  rw [h.tracks.afterCall_eq hshape.length_eq, h.seen.tracks.afterCall_eq hshape.length_seen,
    Application.seen, Application.seen, hshape.rank_eq]

end Application

/-- Records come to the same if the unseen glyphs are taken out, and they leave the run its
shape. -/
theorem applyRecords_seen {nested : Applier α} {limit : Nat} {records : List SequenceLookup}
    (h : ∀ record ∈ records, CallsAlike f nested limit record.lookupIndex.toNat)
    {a : Application α} (ha : a.TracksSeen f) :
    SameShape f a.run (applyRecords nested limit records a).run ∧
      applyRecords nested limit records (a.seen f) =
        (applyRecords nested limit records a).seen f := by
  induction records generalizing a with
  | nil => exact ⟨SameShape.refl f a.run, rfl⟩
  | cons record rest ih =>
    obtain ⟨hrecord, hrest⟩ := List.forall_mem_cons.1 h
    rw [applyRecords_cons, applyRecords_cons, ha.target?_seen]
    cases htarget : a.target? record with
    | none => exact ih hrest ha
    | some index =>
      have hindex : f.seesAt a.run.gids index = true := by
        rw [ha.tracks.target?_eq] at htarget
        exact ha.sees index (List.mem_of_getElem? htarget)
      obtain ⟨hshape, hcall⟩ := hrecord a.run index hindex
      have hcall' : nested ⟨record.lookupIndex.toNat, limit, f.rank a.run.gids index,
          (a.seen f).run⟩ = _ := hcall
      dsimp only [Option.map_some]
      rw [hcall']
      generalize nested ⟨record.lookupIndex.toNat, limit, index, a.run⟩ = o at hshape ⊢
      obtain ⟨run, result⟩ := o
      cases result with
      | error e => exact ⟨hshape, rfl⟩
      | ok changed =>
        obtain ⟨hmore, hseen⟩ := ih hrest (ha.afterCall hshape record changed)
        refine ⟨hshape.trans hmore, ?_⟩
        show applyRecords nested limit rest
          ((a.seen f).afterCall record (run.seen f) changed) = _
        rw [ha.afterCall_seen hshape, hseen]

/-- Contextual subtables do at a seen glyph the same if the unseen ones are taken out, and they
leave the run its shape. -/
theorem applyContextual_seen {nested : Applier α} {limit : Nat} {tables : List ContextSubtable}
    (h : ∀ table ∈ tables, ∀ rule ∈ table.allRules, ∀ record ∈ rule.records,
      CallsAlike f nested limit record.lookupIndex.toNat)
    {run : Run α} {i : Nat} (hi : f.seesAt run.gids i = true) :
    SameShape f run (applyContextual nested limit tables f run i).run ∧
      applyContextual nested limit tables f (run.seen f) (f.rank run.gids i) =
        (applyContextual nested limit tables f run i).seenFrom f i := by
  rw [applyContextual_eq, applyContextual_eq, Run.gids_seen, selectRule?_filter tables hi]
  cases hfound : selectRule? tables f run.gids i with
  | none => exact ⟨SameShape.refl f run, rfl⟩
  | some found =>
    obtain ⟨table, htable, rule, hrule, hmatch, hrecords⟩ := exists_rule_of_selectRule? hfound
    have hcalls : ∀ record ∈ found.records,
        CallsAlike f nested limit record.lookupIndex.toNat := by
      rw [← hrecords]
      exact h table htable rule hrule
    have htracks : Application.TracksSeen f ⟨run, found.context.positions, false⟩ :=
      ⟨fun p hp => ContextPattern.sees_of_mem_positions hmatch hi hp,
        (ContextPattern.pairwise_positions hmatch).imp Nat.le_of_lt⟩
    obtain ⟨hshape, hseen⟩ := applyRecords_seen hcalls htracks
    have hrecordsSeen : applyRecords nested limit found.records
        ⟨run.seen f, (found.context.map (f.rank run.gids)).positions, false⟩ = _ := hseen
    refine ⟨hshape, ?_⟩
    dsimp only [Option.map_some, RuleMatch.map]
    rw [hrecordsSeen, ContextPattern.length_map_rank hmatch hi, ← hshape.rank_eq]
    generalize applyRecords nested limit found.records ⟨run, found.context.positions, false⟩ = o
    obtain ⟨run', result⟩ := o
    cases result with
    | error e => rfl
    | ok changed => rfl

end GlyphSubstitution
