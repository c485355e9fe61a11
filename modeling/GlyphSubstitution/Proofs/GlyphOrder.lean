import GlyphSubstitution.Proofs.EditRelations

/-!
# The order of glyphs

Let every glyph of a run carry its own position as its payload, and let payloads merge by
concatenation (`Run.numbered`).  Then the first number of a payload tells, after any number of
edits, from where in the first run a glyph has come.  Glyphs are never reordered: these numbers
never decrease from left to right, and where several glyphs have the same one, all but the leftmost
are marked as duplicates (`Run.InOrder`).

Whether a run is in order can be told from the traces of its glyphs, the first number and the mark
(`inOrder_iff_trace`).  Edits do only two things to traces: they leave out some
(`trace_absorbFrom`), and they repeat one, with the mark, right after itself
(`Ordered.insert_duplicates`).
-/

namespace GlyphSubstitution

universe u

variable {α : Type u}

/-- The run with nothing done to it yet and with the position of each glyph as its payload. -/
def Run.numbered (run : Run α) : Run (List Nat) :=
  run.mapIdx fun p glyph =>
    { gid := glyph.gid, chars := glyph.chars, ligatureComponent := glyph.ligatureComponent
      origin := glyph.origin, flags := {}, payload := [p] }

/-- The glyphs of a run are in the order in which they were at first. -/
structure Run.InOrder (run : Run (List Nat)) : Prop where
  nonempty : ∀ glyph ∈ run, glyph.payload ≠ []
  sorted : run.Pairwise fun a b => ∀ m ∈ a.payload.head?, ∀ n ∈ b.payload.head?, m ≤ n
  marked : run.Pairwise fun a b => a.payload.head? = b.payload.head? → b.flags.duplicate = true

/-! ## Traces -/

/-- What the order of glyphs is told from: where a glyph comes from, and whether it is marked as a
duplicate. -/
structure Trace where
  first : Option Nat
  duplicate : Bool

/-- The trace of a glyph. -/
def Glyph.trace (glyph : Glyph (List Nat)) : Trace :=
  ⟨glyph.payload.head?, glyph.flags.duplicate⟩

/-- The traces of a run. -/
def Run.traces (run : Run (List Nat)) : List Trace := run.map Glyph.trace

@[simp] theorem Run.traces_cons (glyph : Glyph (List Nat)) (run : Run (List Nat)) :
    Run.traces (glyph :: run) = glyph.trace :: Run.traces run := rfl

@[simp] theorem Run.traces_append (run rest : Run (List Nat)) :
    Run.traces (run ++ rest) = Run.traces run ++ Run.traces rest := by
  simp [Run.traces]

/-- The second trace may stand somewhere to the right of the first. -/
def Trace.Follows (t t' : Trace) : Prop :=
  (∀ m ∈ t.first, ∀ n ∈ t'.first, m ≤ n) ∧ (t.first = t'.first → t'.duplicate = true)

/-- The traces are those of glyphs in order. -/
structure Ordered (traces : List Trace) : Prop where
  known : ∀ t ∈ traces, t.first ≠ none
  pairwise : traces.Pairwise Trace.Follows

theorem inOrder_iff_trace {run : Run (List Nat)} : run.InOrder ↔ Ordered run.traces := by
  have hknown : (∀ t ∈ run.traces, t.first ≠ none) ↔ ∀ glyph ∈ run, glyph.payload ≠ [] := by
    simp [Run.traces, Glyph.trace]
  have hpairwise : run.traces.Pairwise Trace.Follows ↔
      run.Pairwise (fun a b => ∀ m ∈ a.payload.head?, ∀ n ∈ b.payload.head?, m ≤ n) ∧
        run.Pairwise fun a b =>
          a.payload.head? = b.payload.head? → b.flags.duplicate = true := by
    rw [Run.traces, List.pairwise_map, ← List.pairwise_and_iff]
    rfl
  constructor
  · intro h
    exact ⟨hknown.2 h.nonempty, hpairwise.2 ⟨h.sorted, h.marked⟩⟩
  · intro h
    obtain ⟨hsorted, hmarked⟩ := hpairwise.1 h.pairwise
    exact ⟨hknown.1 h.known, hsorted, hmarked⟩

namespace Ordered

variable {traces traces' before rest : List Trace} {t : Trace}

/-- Leaving out glyphs does not reorder the others. -/
theorem sublist (h : Ordered traces) (hsub : traces'.Sublist traces) : Ordered traces' where
  known t ht := h.known t (hsub.mem ht)
  pairwise := h.pairwise.sublist hsub

/-- A duplicate may stand right after the glyph of which it is one. -/
theorem insert_duplicate (h : Ordered (before ++ t :: rest)) :
    Ordered (before ++ t :: ⟨t.first, true⟩ :: rest) := by
  obtain ⟨hknown, hpairwise⟩ := h
  obtain ⟨hbefore, hright, hacross⟩ := List.pairwise_append.1 hpairwise
  obtain ⟨ht, hrest⟩ := List.pairwise_cons.1 hright
  have hself : Trace.Follows t ⟨t.first, true⟩ :=
    ⟨fun m hm n hn => Nat.le_of_eq (Option.some.inj (hm.symm.trans hn)), fun _ => rfl⟩
  constructor
  · intro t' ht'
    simp only [List.mem_append, List.mem_cons] at ht'
    rcases ht' with hmem | rfl | rfl | hmem
    · exact hknown t' (List.mem_append_left _ hmem)
    · exact hknown t' (List.mem_append_right _ List.mem_cons_self)
    · exact hknown t (List.mem_append_right _ List.mem_cons_self)
    · exact hknown t' (List.mem_append_right _ (List.mem_cons_of_mem t hmem))
  · refine List.pairwise_append.2 ⟨hbefore, ?_, fun b hb t' ht' => ?_⟩
    · refine List.pairwise_cons.2 ⟨fun t' ht' => ?_, List.pairwise_cons.2 ⟨ht, hrest⟩⟩
      rcases List.mem_cons.1 ht' with rfl | hmem
      · exact hself
      · exact ht t' hmem
    · have hbt := hacross b hb t List.mem_cons_self
      simp only [List.mem_cons] at ht'
      rcases ht' with rfl | rfl | hmem
      · exact hbt
      · exact ⟨hbt.1, fun _ => rfl⟩
      · exact hacross b hb t' (List.mem_cons_of_mem t hmem)

theorem insert_duplicates (h : Ordered (before ++ t :: rest)) (count : Nat) :
    Ordered (before ++ t :: (List.replicate count ⟨t.first, true⟩ ++ rest)) := by
  induction count with
  | zero => exact h
  | succ count ih => exact insert_duplicate ih

end Ordered

/-! ## Single edits -/

theorem traces_expand (glyph : Glyph (List Nat)) (g : GlyphId) (rest : List GlyphId) :
    Run.traces (glyph.expand (g :: rest)) =
      glyph.trace :: List.replicate rest.length ⟨glyph.trace.first, true⟩ := by
  have hduplicates : Run.traces (rest.map glyph.duplicateAs) =
      List.replicate rest.length ⟨glyph.trace.first, true⟩ := by
    rw [Run.traces, List.map_map, List.eq_replicate_iff]
    simp [Glyph.trace, Glyph.duplicateAs]
  rw [Glyph.expand, Run.traces_cons, hduplicates]
  rfl

/-- A glyph that absorbs others keeps its trace, and of the glyphs after it some are left out. -/
theorem trace_absorbFrom (f : GlyphFilter) (wanted taken : Nat) {head : Glyph (List Nat)}
    (hhead : head.payload ≠ []) (rest : Run (List Nat)) :
    (absorbFrom f wanted taken head rest).head.trace = head.trace ∧
      (Run.traces (absorbFrom f wanted taken head rest).rest).Sublist (Run.traces rest) := by
  fun_induction absorbFrom f wanted taken head rest with
  | case1 taken head => exact ⟨rfl, .refl _⟩
  | case2 taken head glyph rest hdone => exact ⟨rfl, .refl _⟩
  | case3 taken head glyph rest hmore hsees ih =>
    have hmerged : (head.absorb glyph).payload = head.payload ++ glyph.payload := rfl
    have htrace : (head.absorb glyph).trace = head.trace := by
      rw [Glyph.trace, hmerged, List.head?_append_of_ne_nil _ hhead]
      rfl
    -- what is absorbed comes after the payload of the head, so the first number stays
    obtain ⟨hsame, hsub⟩ := ih (by rw [hmerged]; exact List.append_ne_nil_of_left_ne_nil hhead _)
    exact ⟨hsame.trans htrace, hsub.cons glyph.trace⟩
  | case4 taken head glyph rest hmore hsees e hplace => exact ⟨rfl, .refl _⟩
  | case5 taken head glyph rest hmore hsees place hplace further ih =>
    obtain ⟨hsame, hsub⟩ := ih hhead
    exact ⟨hsame, hsub.cons_cons glyph.trace⟩

theorem Ligature.traces_fuse (ligature : Ligature) (f : GlyphFilter) {head : Glyph (List Nat)}
    (hhead : head.payload ≠ []) (rest : Run (List Nat)) :
    (Run.traces (ligature.fuse f head rest).run).Sublist (Run.traces (head :: rest)) := by
  obtain ⟨hsame, hsub⟩ := trace_absorbFrom f ligature.components.length 0 hhead rest
  unfold fuse
  dsimp only
  split <;>
  · rw [Run.traces_cons, Run.traces_cons, ← hsame]
    exact hsub.cons_cons _

/-- What is done to a stretch of a run leaves the run in order, whatever stands before. -/
def KeepsOrder (run run' : Run (List Nat)) : Prop :=
  ∀ before : Run (List Nat), Run.InOrder (before ++ run) → Run.InOrder (before ++ run')

theorem KeepsOrder.of_traces {run run' : Run (List Nat)}
    (h : (∀ glyph ∈ run, glyph.payload ≠ []) → run'.traces.Sublist run.traces) :
    KeepsOrder run run' := by
  intro before hbefore
  have hsub := h fun glyph hglyph => hbefore.nonempty glyph (List.mem_append_right before hglyph)
  rw [inOrder_iff_trace, Run.traces_append] at hbefore ⊢
  exact hbefore.sublist (hsub.append_left before.traces)

/-- Edits reorder no glyphs. -/
theorem editLaw_keepsOrder (list : LookupList) : EditLaw list KeepsOrder where
  refl _ _ h := h
  trans h h' before hbefore := h' before (h before hbefore)
  append before run run' h before' := by
    rw [← List.append_assoc, ← List.append_assoc]
    exact h (before' ++ before)
  replaceBy _ _ _ := .of_traces fun _ => .refl _
  expand gs _ glyph rest := by
    cases gs with
    | nil => exact .of_traces fun _ => List.sublist_cons_self _ _
    | cons g gs =>
      intro before hbefore
      rw [inOrder_iff_trace, Run.traces_append] at hbefore ⊢
      rw [Run.traces_append, traces_expand]
      exact hbefore.insert_duplicates gs.length
  fuse ligature f glyph rest := .of_traces fun hnonempty =>
    ligature.traces_fuse f (hnonempty glyph List.mem_cons_self) rest

/-! ## Sequences of passes -/

theorem Run.inOrder_numbered (run : Run α) : run.numbered.InOrder := by
  have hpayload : ∀ p (hp : p < run.numbered.length), run.numbered[p].payload = [p] := by
    intro p hp
    simp [Run.numbered]
  have hlt : ∀ {P : Glyph (List Nat) → Glyph (List Nat) → Prop},
      (∀ (p q : Nat) (hp : p < run.numbered.length) (hq : q < run.numbered.length), p < q →
        P run.numbered[p] run.numbered[q]) → run.numbered.Pairwise P :=
    fun h => List.pairwise_iff_getElem.2 h
  constructor
  · intro glyph hglyph
    obtain ⟨p, hp, rfl⟩ := List.mem_iff_getElem.1 hglyph
    simp [hpayload]
  · refine hlt fun p q hp hq hpq m hm n hn => ?_
    have hm : p = m := by simpa [hpayload] using hm
    have hn : q = n := by simpa [hpayload] using hn
    omega
  · refine hlt fun p q hp hq hpq heq => ?_
    have hsame : p = q := by simpa [hpayload] using heq
    omega

variable [Payload α]

/-- Passes with lookups of the list, one after the other, make the second run of the first.  A pass
may fail; the next one goes on with the run as it left it. -/
def LookupList.Passes (list : LookupList) (skip : SkipPredicate) : Run α → Run α → Prop :=
  Relation.ReflTransGen fun run next =>
    ∃ budget k o, list.applyLookup skip budget k run = some o ∧ o.run = next

theorem EditLaw.passes {list : LookupList} {Q : Run α → Run α → Prop} (hQ : EditLaw list Q)
    {skip : SkipPredicate} {run later : Run α} (h : list.Passes skip run later) : Q run later := by
  induction h with
  | refl => exact hQ.refl run
  | tail _ hpass ih =>
    obtain ⟨budget, k, o, ho, rfl⟩ := hpass
    exact hQ.trans ih (hQ.yields (Or.inl ⟨budget, k, ho⟩))

namespace LookupList

omit [Payload α] in
/-- Whatever passes are made over a run, its glyphs stay in the order in which they were at first,
and of several that come from the same glyph all but the leftmost are marked as duplicates. -/
theorem inOrder_of_passes (list : LookupList) (skip : SkipPredicate) (run : Run α)
    {later : Run (List Nat)} (h : list.Passes skip run.numbered later) : later.InOrder :=
  (editLaw_keepsOrder list).passes h [] run.inOrder_numbered

/-- Lookup 0 puts a 40 after each 4 and removes each 5, and lookup 1 makes a ligature of a 4 and
a 6. -/
def regrouping : LookupList :=
  ofFaultless
    [⟨{}, .multiple [Coverage.ofList [(4, [4, 40]), (5, [])]]⟩,
      ⟨{}, .ligature [Coverage.ofList [(4, [⟨46, [6]⟩])]]⟩]
    (by decide)

/-- The 4 is doubled, and then takes in the 6 across its own duplicate and a glyph that is not seen;
the 5 is gone. -/
theorem regrouping_inOrder :
    ∃ later : Run (List Nat),
      regrouping.Passes (fun g _ => g == 2 || g == 40)
        (Run.numbered [Glyph.ofId 4 (), .ofId 2 (), .ofId 5 (), .ofId 6 ()]) later ∧
      later.gids = [46, 40, 2] ∧ later.map (·.payload) = [[0, 3], [0], [1]] ∧ later.InOrder := by
  have hpasses : regrouping.Passes (fun g _ => g == 2 || g == 40)
      (Run.numbered [Glyph.ofId 4 (), .ofId 2 (), .ofId 5 (), .ofId 6 ()]) _ :=
    .head ⟨5, 0, _, rfl, rfl⟩ (.single ⟨5, 1, _, rfl, rfl⟩)
  exact ⟨_, hpasses, by decide, by decide, inOrder_of_passes _ _ _ hpasses⟩

end LookupList

end GlyphSubstitution
