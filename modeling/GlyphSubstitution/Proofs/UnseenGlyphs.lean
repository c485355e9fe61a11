import GlyphSubstitution.Substitution.Pass

/-!
# The glyphs that are not seen

`Run.unseen` is the subsequence of a run that a filter does not see, without the one field that
forming a ligature across a glyph may set.  `KeepsUnseen` says what an application does to it in
terms of a proposition `strays`, that it edited an unseen glyph somewhere: if it did not, the
subsequence is the same afterwards, and if it did, then the subsequence is shorter, unless the
application was broken off with a number too large.

The substitutes that lookups put in are assumed to be seen.  Then an edit of a seen glyph moves
nothing into the subsequence or out of it, and an edit of an unseen glyph takes that glyph out of it
(`keepsUnseen_cons`).  Forming a ligature leaves alone what it passes over (`unseen_absorbFrom`).
`Lookup.applyAt_keepsUnseen` puts this together for the lookups that edit glyphs themselves.
-/

namespace GlyphSubstitution

universe u v w

variable {α : Type u} {β : Type v} {γ : Type w}

/-- The glyph without what a ligature that was formed across it has noted on it. -/
def Glyph.unplaced (glyph : Glyph α) : Glyph α := { glyph with ligatureComponent := 0 }

/-- The glyphs of a run that a filter does not see, in order. -/
def Run.unseen (f : GlyphFilter) (run : Run α) : Run α :=
  (run.filter fun glyph => !f.sees glyph.gid).map Glyph.unplaced

/-! ## The subsequence -/

namespace Run

variable {f : GlyphFilter} {glyph : Glyph α}

@[simp] theorem unseen_nil (f : GlyphFilter) : unseen f ([] : Run α) = [] := rfl

@[simp] theorem unseen_append (f : GlyphFilter) (run rest : Run α) :
    unseen f (run ++ rest) = unseen f run ++ unseen f rest := by
  simp [unseen]

theorem unseen_cons_of_sees (h : f.sees glyph.gid = true) (rest : Run α) :
    unseen f (glyph :: rest) = unseen f rest := by
  simp [unseen, h]

theorem unseen_cons_of_not_sees (h : f.sees glyph.gid = false) (rest : Run α) :
    unseen f (glyph :: rest) = glyph.unplaced :: unseen f rest := by
  simp [unseen, h]

theorem unseen_eq_nil {run : Run α} (h : ∀ glyph ∈ run, f.sees glyph.gid = true) :
    unseen f run = [] := by
  induction run with
  | nil => rfl
  | cons glyph rest ih =>
    rw [unseen_cons_of_sees (h glyph List.mem_cons_self)]
    exact ih fun g hg => h g (List.mem_cons_of_mem glyph hg)

end Run

/-! ## What an application does to it -/

/-- The application keeps the unseen glyphs of a run if it does not stray, and has fewer of them
left if it does.  Only a number that does not fit in a word may interfere. -/
structure KeepsUnseen (f : GlyphFilter) (run : Run α) (o : Outcome α β) (strays : Prop) :
    Prop where
  same : ¬ strays → o.run.unseen f = run.unseen f
  fewer : strays →
    (o.run.unseen f).length < (run.unseen f).length ∨ o.result = .error .badValue

namespace KeepsUnseen

variable {f : GlyphFilter} {run run' : Run α} {o : Outcome α β} {strays strays' : Prop}

theorem of_unchanged (h : o.run = run) (hstrays : ¬ strays) : KeepsUnseen f run o strays where
  same _ := by rw [h]
  fewer hs := absurd hs hstrays

theorem congr (h : KeepsUnseen f run o strays) (hiff : strays' ↔ strays) :
    KeepsUnseen f run o strays' where
  same hs := h.same (mt hiff.2 hs)
  fewer hs := h.fewer (hiff.1 hs)

theorem map (h : KeepsUnseen f run o strays) (g : β → γ) : KeepsUnseen f run (o.map g) strays where
  same := h.same
  fewer hs := (h.fewer hs).imp_right fun herror => by rw [Outcome.result_map, herror]; rfl

theorem of_map {g : β → γ} (h : KeepsUnseen f run (o.map g) strays) :
    KeepsUnseen f run o strays where
  same := h.same
  fewer hs := by
    refine (h.fewer hs).imp_right fun herror => ?_
    rw [Outcome.result_map] at herror
    cases hresult : o.result with
    | ok b => simp [hresult, Except.map] at herror
    | error e => simpa [hresult, Except.map] using herror

theorem length_le (h : KeepsUnseen f run o strays) :
    (o.run.unseen f).length ≤ (run.unseen f).length ∨ o.result = .error .badValue := by
  by_cases hs : strays
  · exact (h.fewer hs).imp_left Nat.le_of_lt
  · exact Or.inl (Nat.le_of_eq (congrArg List.length (h.same hs)))

/-- Applications one after the other stray if one of them does. -/
theorem trans {b : β} {o : Outcome α γ} (h : KeepsUnseen f run (⟨run', .ok b⟩ : Outcome α β) strays)
    (h' : KeepsUnseen f run' o strays') : KeepsUnseen f run o (strays ∨ strays') where
  same hs := by
    have hfirst := h.same fun hl => hs (Or.inl hl)
    have hsecond := h'.same fun hr => hs (Or.inr hr)
    rw [hsecond, hfirst]
  fewer hs := by
    have hle : (run'.unseen f).length ≤ (run.unseen f).length := h.length_le.resolve_right nofun
    rcases hs with hs | hs
    · have hlt : (run'.unseen f).length < (run.unseen f).length := (h.fewer hs).resolve_right nofun
      exact h'.length_le.imp_left fun hle' => Nat.lt_of_le_of_lt hle' hlt
    · exact (h'.fewer hs).imp_left fun hlt => Nat.lt_of_lt_of_le hlt hle

end KeepsUnseen

/-! ## Edits -/

variable {f : GlyphFilter}

/-- What is done to a run from some glyph on is all that matters. -/
theorem KeepsUnseen.append {run : Run α} {o : Outcome α β} {strays : Prop}
    (h : KeepsUnseen f run o strays) (before : Run α) :
    KeepsUnseen f (before ++ run) ⟨before ++ o.run, o.result⟩ strays where
  same hs := by
    have hsame := h.same hs
    rw [Run.unseen_append, Run.unseen_append, hsame]
  fewer hs := by
    refine (h.fewer hs).imp_left fun hlt => ?_
    rw [Run.unseen_append, Run.unseen_append, List.length_append, List.length_append]
    exact Nat.add_lt_add_left hlt _

/-- An edit of a glyph that depends on what there is for its number.  It strays if there is
something and the glyph is not seen. -/
theorem keepsUnseen_editAt {select : GlyphId → Option γ}
    {make : Glyph α → Run α → γ → Outcome α β}
    (h : ∀ glyph rest x, select glyph.gid = some x →
      KeepsUnseen f (glyph :: rest) (make glyph rest x) (f.sees glyph.gid = false))
    (run : Run α) (i : Nat) :
    KeepsUnseen f run
      (editAt (fun glyph rest => (select glyph.gid).map (make glyph rest)) run i)
      (f.seesAt run.gids i = false ∧ (run.gids[i]?.bind select).isSome = true) := by
  rcases Nat.lt_or_ge i run.length with hi | hi
  · obtain ⟨before, glyph, rest, rfl, rfl⟩ := exists_append_of_lt hi
    have hgid : (Run.gids (before ++ glyph :: rest))[before.length]? = some glyph.gid := by
      rw [Run.getElem?_gids, List.getElem?_append_right (Nat.le_refl _), Nat.sub_self]
      rfl
    rw [editAt_append, GlyphFilter.seesAt, hgid]
    cases hselect : select glyph.gid with
    | none =>
      apply KeepsUnseen.of_unchanged
      · rfl
      · simp [hselect]
    | some x =>
      have hmade := ((h glyph rest x hselect).map some).append before
      refine hmade.congr ?_
      simp [hselect]
  · have hnone : run.gids[i]? = none := List.getElem?_eq_none (by rw [Run.length_gids]; exact hi)
    refine KeepsUnseen.of_unchanged ?_ ?_
    · rw [editAt, List.drop_eq_nil_of_le hi]
    · simp [hnone]

/-- Seen glyphs in the place of a glyph: they stray exactly if the glyph was not seen. -/
theorem keepsUnseen_cons (glyph : Glyph α) {rest stretch rest' : Run α}
    (hstretch : ∀ g ∈ stretch, f.sees g.gid = true) (hrest : rest'.unseen f = rest.unseen f)
    (result : Except ShapingError β) :
    KeepsUnseen f (glyph :: rest) ⟨stretch ++ rest', result⟩ (f.sees glyph.gid = false) where
  same hseen := by
    rw [Run.unseen_append, Run.unseen_eq_nil hstretch, hrest, List.nil_append,
      Run.unseen_cons_of_sees (eq_true_of_ne_false hseen)]
  fewer hunseen := by
    rw [Run.unseen_append, Run.unseen_eq_nil hstretch, hrest, Run.unseen_cons_of_not_sees hunseen]
    exact Or.inl (Nat.lt_succ_self _)

theorem sees_gid_expand {gs : List GlyphId} (h : ∀ g ∈ gs, f.sees g = true) (glyph : Glyph α) :
    ∀ g ∈ glyph.expand gs, f.sees g.gid = true := by
  intro g hg
  have hmem : g.gid ∈ (glyph.expand gs).gids := List.mem_map.2 ⟨g, hg, rfl⟩
  rw [Glyph.gids_expand] at hmem
  exact h g.gid hmem

variable [Payload α]

/-- Absorbing components leaves alone what is passed over, and the number of the glyph that absorbs
them. -/
theorem unseen_absorbFrom (f : GlyphFilter) (wanted taken : Nat) (head : Glyph α) (rest : Run α) :
    (absorbFrom f wanted taken head rest).rest.unseen f = rest.unseen f ∧
      (absorbFrom f wanted taken head rest).head.gid = head.gid ∧
      ∀ e, (absorbFrom f wanted taken head rest).passed = .error e → e = .badValue := by
  fun_induction absorbFrom f wanted taken head rest with
  | case1 taken head => exact ⟨rfl, rfl, nofun⟩
  | case2 taken head glyph rest hdone => exact ⟨rfl, rfl, nofun⟩
  | case3 taken head glyph rest hmore hsees ih =>
    obtain ⟨hrest, hhead, herror⟩ := ih
    rw [Run.unseen_cons_of_sees hsees]
    exact ⟨hrest, hhead, herror⟩
  | case4 taken head glyph rest hmore hsees e hplace =>
    have he := (toWord_eq_error_iff.1 hplace).1
    exact ⟨rfl, rfl, fun e' he' => Except.error.inj he' ▸ he⟩
  | case5 taken head glyph rest hmore hsees place hplace further ih =>
    obtain ⟨hrest, hhead, herror⟩ := ih
    have hunseen : f.sees glyph.gid = false := eq_false_of_ne_true hsees
    have hplaced : f.sees ({ glyph with ligatureComponent := place } : Glyph α).gid = false :=
      hunseen
    refine ⟨?_, hhead, fun e he => ?_⟩
    · rw [Run.unseen_cons_of_not_sees hplaced, Run.unseen_cons_of_not_sees hunseen, hrest]
      rfl
    · cases hpassed : further.passed with
      | ok passed =>
        rw [hpassed] at he
        nomatch he
      | error e' =>
        rw [hpassed] at he
        rw [← Except.error.inj he]
        exact herror e' hpassed

/-- Forming a ligature puts a seen glyph in the place of its first component. -/
theorem Ligature.fuse_keepsUnseen {ligature : Ligature} (h : f.sees ligature.glyph = true)
    (glyph : Glyph α) (rest : Run α) :
    KeepsUnseen f (glyph :: rest) (ligature.fuse f glyph rest) (f.sees glyph.gid = false) := by
  obtain ⟨hrest, hhead, herror⟩ := unseen_absorbFrom f ligature.components.length 0 glyph rest
  unfold Ligature.fuse
  dsimp only
  generalize absorbFrom f ligature.components.length 0 glyph rest = absorbed at hrest hhead herror ⊢
  cases hpassed : absorbed.passed with
  | ok passed =>
    have hseen : ∀ g ∈ [absorbed.head.asLigature ligature.glyph], f.sees g.gid = true := by
      intro g hg
      rw [List.mem_singleton.1 hg]
      exact h
    exact keepsUnseen_cons glyph hseen hrest _
  | error e =>
    rw [herror e hpassed]
    constructor
    · intro hseen
      have hglyph := eq_true_of_ne_false hseen
      rw [Run.unseen_cons_of_sees hglyph, Run.unseen_cons_of_sees (by rw [hhead]; exact hglyph)]
      exact hrest
    · exact fun _ => Or.inr rfl

/-! ## Outputs -/

namespace Lookup

/-- The glyphs that the lookup can put into a run. -/
def outputs (lookup : Lookup) : List GlyphId :=
  match lookup.subtables with
  | .single tables => tables.flatMap fun table => table.entries.map (·.2)
  | .multiple tables => tables.flatMap fun table => table.entries.flatMap (·.2)
  | .ligature tables =>
    tables.flatMap fun table => table.entries.flatMap fun entry => entry.2.map (·.glyph)
  | .contextual .. => []

end Lookup

namespace LookupList

/-- The glyphs that the lookups of the list can put into a run. -/
def outputs (list : LookupList) : List GlyphId := list.lookups.flatMap (·.outputs)

variable {list : LookupList} {skip : SkipPredicate} {flag : LookupFlag}

theorem sees_of_mem_outputs (houtputs : ∀ g ∈ list.outputs, skip g flag = false) :
    ∀ g ∈ list.outputs, (skip.filter flag).sees g = true := by
  intro g hg
  rw [SkipPredicate.sees_filter, houtputs g hg]
  rfl

theorem sees_of_mem_lookup_outputs (houtputs : ∀ g ∈ list.outputs, skip g flag = false)
    {lookup : Lookup} (hmem : lookup ∈ list.lookups) :
    ∀ g ∈ lookup.outputs, (skip.filter flag).sees g = true := by
  intro g hg
  exact sees_of_mem_outputs houtputs g (List.mem_flatMap.2 ⟨lookup, hmem, hg⟩)

end LookupList

/-! ## Lookups that edit glyphs -/

omit [Payload α] in
theorem applySingle_keepsUnseen {tables : List SingleSubtable}
    (h : ∀ table ∈ tables, ∀ entry ∈ table.entries, f.sees entry.2 = true) (run : Run α) (i : Nat) :
    KeepsUnseen f run (applySingle tables run i)
      (f.seesAt run.gids i = false ∧
        (run.gids[i]?.bind (Coverage.first? tables)).isSome = true) := by
  refine keepsUnseen_editAt (fun glyph rest g hg => ?_) run i
  obtain ⟨table, htable, hentry⟩ := Coverage.exists_mem_of_first? hg
  have hseen : ∀ g' ∈ [glyph.replaceBy g], f.sees g'.gid = true := by
    intro g' hg'
    rw [List.mem_singleton.1 hg']
    exact h table htable _ hentry
  exact keepsUnseen_cons glyph hseen rfl _

omit [Payload α] in
theorem applyMultiple_keepsUnseen {tables : List MultipleSubtable}
    (h : ∀ table ∈ tables, ∀ entry ∈ table.entries, ∀ g ∈ entry.2, f.sees g = true) (run : Run α)
    (i : Nat) :
    KeepsUnseen f run (applyMultiple tables run i)
      (f.seesAt run.gids i = false ∧
        (run.gids[i]?.bind (Coverage.first? tables)).isSome = true) := by
  refine keepsUnseen_editAt (fun glyph rest gs hgs => ?_) run i
  obtain ⟨table, htable, hentry⟩ := Coverage.exists_mem_of_first? hgs
  have hseen := sees_gid_expand (h table htable _ hentry) glyph
  exact keepsUnseen_cons glyph hseen rfl _

theorem applyLigature_keepsUnseen {tables : List LigatureSubtable}
    (h : ∀ table ∈ tables, ∀ entry ∈ table.entries, ∀ ligature ∈ entry.2,
      f.sees ligature.glyph = true) (run : Run α) (i : Nat) :
    KeepsUnseen f run (applyLigature tables f run i)
      (f.seesAt run.gids i = false ∧ (selectLigature? tables f run.gids i).isSome = true) := by
  have hselect : ∀ glyph rest, run.drop i = glyph :: rest →
      selectLigature? tables f run.gids i = ligatureFor? tables f run.gids i glyph.gid := by
    intro glyph rest hdrop
    have hget : run[i]? = some glyph := by
      rw [← Nat.add_zero i, ← List.getElem?_drop, hdrop]
      rfl
    rw [selectLigature?, Run.getElem?_gids, hget]
    rfl
  have hedit : applyLigature tables f run i =
      editAt (fun head rest =>
        (ligatureFor? tables f run.gids i head.gid).map fun ligature =>
          (ligature.fuse f head rest).map fun passed => { width := passed + 1, changed := true })
        run i := by
    apply editAt_congr
    intro glyph rest hdrop
    rw [hselect glyph rest hdrop]
  rw [hedit]
  refine keepsUnseen_editAt (fun glyph rest ligature hligature => ?_) run i
  obtain ⟨table, htable, entry, hentry, hmem⟩ := exists_mem_of_ligatureFor? hligature
  have hseen := h table htable entry hentry ligature hmem
  exact (Ligature.fuse_keepsUnseen hseen glyph rest).map _

/-- A lookup that edits glyphs itself strays where it has a substitution for a glyph that it does
not see. -/
theorem Lookup.applyAt_keepsUnseen {lookup : Lookup} {skip : SkipPredicate}
    (hkind : lookup.isContextual = false)
    (houtputs : ∀ g ∈ lookup.outputs, (skip.filter lookup.flag).sees g = true)
    (contextual : List ContextSubtable → GlyphFilter → Run α → Nat → Outcome α (Option Applied))
    (run : Run α) (i : Nat) :
    KeepsUnseen (skip.filter lookup.flag) run (lookup.applyAt skip contextual run i)
      ((skip.filter lookup.flag).seesAt run.gids i = false ∧
        lookup.selectsAt (skip.filter lookup.flag) run.gids i = true) := by
  obtain ⟨flag, subtables⟩ := lookup
  cases subtables with
  | single tables =>
    refine applySingle_keepsUnseen (fun table htable entry hentry => houtputs _ ?_) run i
    exact List.mem_flatMap.2 ⟨table, htable, List.mem_map_of_mem hentry⟩
  | multiple tables =>
    refine applyMultiple_keepsUnseen (fun table htable entry hentry g hg => houtputs g ?_) run i
    exact List.mem_flatMap.2 ⟨table, htable, List.mem_flatMap.2 ⟨entry, hentry, hg⟩⟩
  | ligature tables =>
    refine applyLigature_keepsUnseen
      (fun table htable entry hentry ligature hmem => houtputs _ ?_) run i
    exact List.mem_flatMap.2
      ⟨table, htable, List.mem_flatMap.2 ⟨entry, hentry, List.mem_map_of_mem hmem⟩⟩
  | contextual kind tables => nomatch hkind

end GlyphSubstitution
