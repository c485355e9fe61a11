import GlyphSubstitution.Proofs.LeftOfCursor

/-!
# How far scans get

A scan that leaves fewer glyphs ahead of its cursor with every step ends after at most as many steps
as there are glyphs to begin with (`Scan.exists_finish`).  It does so if its visits advance
(`Advances`): what is applied at a position must add fewer glyphs to the run than the scan then
moves on by.  Single, multiple and ligature substitution are of this kind, even where a sequence is
empty and the scan stays where it is, for then there is one glyph less (`Lookup.edit_advances`).

Glyphs at which nothing applies are passed over one by one (`Scan.reaches_of_idle`), and if nothing
applies anywhere, the run stays as it is (`Scan.finish_of_idle`).  What the way of a scan stops with
is what the scan comes to, whatever the budget (`Scan.finish_eq_of_stopped`).
-/

namespace GlyphSubstitution

universe u

variable {α : Type u}

theorem Run.lt_length_of_seesAt {f : GlyphFilter} {run : Run α} {i : Nat}
    (h : f.seesAt run.gids i = true) : i < run.length := by
  rw [← Run.length_gids]
  exact GlyphFilter.lt_length_of_seesAt h

/-- Whether a position is seen is a matter of the glyph there. -/
theorem Run.seesAt_of_getElem? {f : GlyphFilter} {run : Run α} {i : Nat} {glyph : Glyph α}
    (h : run[i]? = some glyph) : f.seesAt run.gids i = f.sees glyph.gid := by
  rw [GlyphFilter.seesAt, Run.getElem?_gids, h]
  rfl

/-- By how many places a scan moves on after a visit. -/
def stride (applied : Option Applied) : Nat := applied.elim 1 (·.width)

@[simp] theorem stride_some (applied : Applied) : stride (some applied) = applied.width := rfl

/-- Wherever a visit to a seen glyph succeeds, it adds fewer glyphs to the run than the scan moves
on by. -/
def Advances (f : GlyphFilter) (visit : Visit α) : Prop :=
  ∀ run i applied, f.seesAt run.gids i = true → (visit run i).result = .ok applied →
    (visit run i).run.length < run.length + stride applied

namespace Scan

variable {f : GlyphFilter} {visit : Visit α} {s s' next : Scan α} {o o' : Outcome α Bool}
  {budget : Nat}

/-- How many glyphs a scan has still ahead of it. -/
def ahead (s : Scan α) : Nat := s.run.length - s.cursor

/-- A scan moves on from a glyph, past it or by as much as a visit to it says. -/
theorem moved_by_stride (hs : s.step f visit = .moved next) :
    s.cursor < s.run.length ∧
      (next = s.pass ∨
        f.seesAt s.run.gids s.cursor = true ∧
          ∃ applied, (visit s.run s.cursor).result = .ok applied ∧
            next.run = (visit s.run s.cursor).run ∧ next.cursor = s.cursor + stride applied) := by
  obtain ⟨glyph, hglyph, hmoved⟩ := moved_cases hs
  rw [Run.seesAt_of_getElem? hglyph]
  refine ⟨(List.getElem?_eq_some_iff.1 hglyph).1, ?_⟩
  rcases hmoved with ⟨-, rfl⟩ | ⟨hsees, ⟨hnone, rfl⟩ | ⟨applied, hsome, rfl⟩⟩
  · exact Or.inl rfl
  · exact Or.inr ⟨hsees, none, hnone, rfl, rfl⟩
  · exact Or.inr ⟨hsees, some applied, hsome, rfl, rfl⟩

/-- With every step of a scan whose visits advance there are fewer glyphs ahead of it. -/
theorem ahead_lt_of_moved (h : Advances f visit) (hs : s.step f visit = .moved next) :
    next.ahead < s.ahead := by
  obtain ⟨hcursor, rfl | ⟨hsees, applied, hresult, hrun, hnext⟩⟩ := moved_by_stride hs
  · simp only [ahead, pass]
    omega
  · have hgrowth := h s.run s.cursor applied hsees hresult
    rw [ahead, ahead, hrun, hnext]
    omega

/-- A scan whose visits advance ends within as many steps as there are glyphs ahead of it. -/
theorem exists_finish (h : Advances f visit) (hbudget : s.ahead ≤ budget) :
    ∃ o, finish f visit budget s = some o := by
  induction budget generalizing s with
  | zero =>
    have hend : ¬ s.cursor < s.run.length := by
      unfold ahead at hbudget
      omega
    exact ⟨_, by rw [finish_zero, if_neg hend]⟩
  | succ budget ih =>
    rw [finish_succ]
    cases hstep : s.step f visit with
    | stopped o => exact ⟨o, rfl⟩
    | moved next =>
      have hless := ahead_lt_of_moved h hstep
      exact ih (by omega)

/-- What a scan comes to is what its way stops with, whatever the budget. -/
theorem finish_eq_of_stopped (hs : Reaches f visit s s') (hstopped : s'.step f visit = .stopped o)
    (ho' : finish f visit budget s = some o') : o' = o := by
  obtain ⟨s'', hahead, hstopped'⟩ := exists_stopped_ahead hs ho'
  obtain rfl := (reaches_of_stopped hstopped).1 hahead
  rw [hstopped] at hstopped'
  exact (ScanStep.stopped.inj hstopped').symm

/-- At the end of the run a scan stops. -/
theorem stopped_at_end (h : s.run.length ≤ s.cursor) :
    s.step f visit = .stopped ⟨s.run, .ok s.changed⟩ := by
  rw [step_eq, List.getElem?_eq_none h]

/-- A glyph that is seen is visited. -/
theorem step_of_seesAt (h : f.seesAt s.run.gids s.cursor = true) :
    s.step f visit = s.after (visit s.run s.cursor) := by
  have hcursor : s.cursor < s.run.length := Run.lt_length_of_seesAt h
  have hglyph : s.run[s.cursor]? = some s.run[s.cursor] := List.getElem?_eq_getElem hcursor
  rw [Run.seesAt_of_getElem? hglyph] at h
  rw [step_eq, hglyph]
  exact if_pos h

/-- A glyph that is not seen is passed over. -/
theorem step_of_not_seesAt (hcursor : s.cursor < s.run.length)
    (h : ¬ f.seesAt s.run.gids s.cursor = true) : s.step f visit = .moved s.pass := by
  have hglyph : s.run[s.cursor]? = some s.run[s.cursor] := List.getElem?_eq_getElem hcursor
  rw [Run.seesAt_of_getElem? hglyph] at h
  rw [step_eq, hglyph]
  exact if_neg h

/-- A glyph at which nothing applies is passed over. -/
theorem step_of_idle (hcursor : s.cursor < s.run.length)
    (h : f.seesAt s.run.gids s.cursor = true → visit s.run s.cursor = ⟨s.run, .ok none⟩) :
    s.step f visit = .moved s.pass := by
  by_cases hsees : f.seesAt s.run.gids s.cursor = true
  · rw [step_of_seesAt hsees, h hsees]
    rfl
  · exact step_of_not_seesAt hcursor hsees

/-- A scan passes over all glyphs at which nothing applies. -/
theorem reaches_of_idle {count : Nat} (hcount : s.cursor + count ≤ s.run.length)
    (h : ∀ i < s.cursor + count, f.seesAt s.run.gids i = true →
      visit s.run i = ⟨s.run, .ok none⟩) :
    Reaches f visit s { s with cursor := s.cursor + count } := by
  induction count with
  | zero => exact Relation.ReflTransGen.refl
  | succ count ih =>
    have hlast : s.cursor + count < s.run.length := by omega
    have hbefore := ih (by omega) fun i hi => h i (by omega)
    exact hbefore.tail (step_of_idle hlast (h (s.cursor + count) (by omega)))

/-- If nothing applies anywhere, a scan ends with the run as it is. -/
theorem finish_of_idle
    (h : ∀ i, f.seesAt s.run.gids i = true → visit s.run i = ⟨s.run, .ok none⟩)
    (hbudget : s.ahead ≤ budget) : finish f visit budget s = some ⟨s.run, .ok s.changed⟩ := by
  induction budget generalizing s with
  | zero =>
    have hend : ¬ s.cursor < s.run.length := by
      unfold ahead at hbudget
      omega
    rw [finish_zero, if_neg hend]
  | succ budget ih =>
    rw [finish_succ]
    by_cases hcursor : s.cursor < s.run.length
    · have hless : s.pass.ahead ≤ budget := by
        simp only [ahead, pass] at hbudget ⊢
        omega
      rw [step_of_idle hcursor (h s.cursor)]
      exact ih h hless
    · rw [stopped_at_end (Nat.not_lt.1 hcursor)]

/-- Where the visit to a glyph that the scan sees applies something, the scan moves on by the width
of that. -/
theorem step_of_applied {applied : Applied} (hsees : f.seesAt s.run.gids s.cursor = true)
    (h : (visit s.run s.cursor).result = .ok (some applied)) :
    s.step f visit = .moved ⟨(visit s.run s.cursor).run, s.cursor + applied.width,
      s.changed || applied.changed⟩ := by
  rw [step_of_seesAt hsees, after, h]

/-- A change that a scan has reported once is not taken back. -/
theorem changed_of_reaches (hs : Reaches f visit s s') (hchanged : s.changed = true) :
    s'.changed = true := by
  induction hs with
  | refl => exact hchanged
  | tail _ hstep ih =>
    obtain ⟨glyph, -, ⟨-, rfl⟩ | ⟨-, ⟨-, rfl⟩ | ⟨applied, -, rfl⟩⟩⟩ := moved_cases hstep
    · exact ih
    · exact ih
    · exact Bool.or_eq_true_iff.2 (Or.inl ih)

end Scan

/-! ## Lookups that edit glyphs -/

/-- An edit that puts in no more than it says it covers makes the run longer by less than that. -/
theorem length_editAt_lt {edit : Glyph α → Run α → Option (Outcome α Applied)}
    (h : ∀ glyph rest o applied, edit glyph rest = some o → o.result = .ok applied →
      o.run.length ≤ rest.length + applied.width)
    {run : Run α} {i : Nat} {applied : Option Applied} (hi : i < run.length)
    (hresult : (editAt edit run i).result = .ok applied) :
    (editAt edit run i).run.length < run.length + stride applied := by
  obtain ⟨before, glyph, rest, rfl, rfl⟩ := exists_append_of_lt hi
  rw [editAt_append] at hresult ⊢
  cases hedit : edit glyph rest with
  | none =>
    rw [hedit] at hresult
    rw [← Except.ok.inj hresult]
    exact Nat.lt_succ_self _
  | some o =>
    rw [hedit] at hresult
    obtain ⟨run', result⟩ := o
    cases result with
    | error e => nomatch hresult
    | ok covered =>
      have hlength : run'.length ≤ rest.length + covered.width := h glyph rest _ covered hedit rfl
      obtain rfl := Except.ok.inj hresult
      simp only [List.length_append, List.length_cons, stride_some]
      omega

variable [Payload α]

theorem length_rest_absorbFrom_le (f : GlyphFilter) (wanted taken : Nat) (head : Glyph α)
    (rest : Run α) : (absorbFrom f wanted taken head rest).rest.length ≤ rest.length := by
  fun_induction absorbFrom f wanted taken head rest with
  | case1 taken head => exact Nat.le_refl _
  | case2 taken head glyph rest hdone => exact Nat.le_refl _
  | case3 taken head glyph rest hmore hsees ih => exact Nat.le_succ_of_le ih
  | case4 taken head glyph rest hmore hsees e hplace => exact Nat.le_refl _
  | case5 taken head glyph rest hmore hsees place hplace further ih => exact Nat.succ_le_succ ih

/-- Forming a ligature makes a run no longer. -/
theorem Ligature.length_fuse_le (ligature : Ligature) (f : GlyphFilter) (head : Glyph α)
    (rest : Run α) : (ligature.fuse f head rest).run.length ≤ rest.length + 1 := by
  have hrest := length_rest_absorbFrom_le f ligature.components.length 0 head rest
  unfold fuse
  dsimp only
  split <;> exact Nat.succ_le_succ hrest

/-- Scans with lookups that edit glyphs themselves advance. -/
theorem Lookup.edit_advances (lookup : Lookup) (skip : SkipPredicate) (f : GlyphFilter) :
    Advances f (lookup.edit (α := α) skip) := by
  intro run i applied hsees hresult
  have hi : i < run.length := Run.lt_length_of_seesAt hsees
  obtain ⟨flag, subtables⟩ := lookup
  cases subtables with
  | single tables =>
    refine length_editAt_lt (fun glyph rest o covered ho hcovered => ?_) hi hresult
    obtain ⟨g, -, rfl⟩ := Option.map_eq_some_iff.1 ho
    rw [← Except.ok.inj hcovered]
    exact Nat.le_refl _
  | multiple tables =>
    refine length_editAt_lt (fun glyph rest o covered ho hcovered => ?_) hi hresult
    obtain ⟨gs, -, rfl⟩ := Option.map_eq_some_iff.1 ho
    rw [← Except.ok.inj hcovered, List.length_append, Glyph.length_expand]
    exact Nat.le_of_eq (Nat.add_comm _ _)
  | ligature tables =>
    refine length_editAt_lt (fun glyph rest o covered ho hcovered => ?_) hi hresult
    obtain ⟨ligature, -, rfl⟩ := Option.map_eq_some_iff.1 ho
    have hlength := ligature.length_fuse_le (skip.filter flag) glyph rest
    obtain ⟨passed, -, rfl⟩ := Outcome.result_map_eq_ok_iff.1 hcovered
    show (ligature.fuse (skip.filter flag) glyph rest).run.length ≤ rest.length + (passed + 1)
    omega
  | contextual kind tables =>
    rw [← Except.ok.inj hresult]
    exact Nat.lt_succ_self _

omit [Payload α] in
/-- After a visit by contextual subtables that succeeds, a scan moves on. -/
theorem one_le_stride_of_applyContextual {nested : Applier α} {limit : Nat}
    {tables : List ContextSubtable} {f : GlyphFilter} {run : Run α} {i : Nat}
    {applied : Option Applied}
    (h : (applyContextual nested limit tables f run i).result = .ok applied) :
    1 ≤ stride applied := by
  rw [applyContextual_eq] at h
  cases hfound : selectRule? tables f run.gids i with
  | none =>
    rw [hfound] at h
    rw [← Except.ok.inj h]
    exact Nat.le_refl 1
  | some found =>
    rw [hfound] at h
    obtain ⟨changed, -, rfl⟩ := Outcome.result_map_eq_ok_iff.1 h
    exact Nat.succ_pos _

/-- How contextual subtables are applied makes no difference to other lookups. -/
theorem Lookup.applyAt_eq_edit {lookup : Lookup} (hkind : lookup.isContextual = false)
    (skip : SkipPredicate)
    (contextual : List ContextSubtable → GlyphFilter → Run α → Nat → Outcome α (Option Applied)) :
    lookup.applyAt skip contextual = lookup.edit skip := by
  obtain ⟨flag, subtables⟩ := lookup
  cases subtables with
  | contextual kind tables => nomatch hkind
  | _ => rfl

end GlyphSubstitution
