import GlyphSubstitution.Proofs.EditRelations

/-!
# The characters of a run

Each glyph stands for some characters, and a run for all of them: `Run.chars`.  A ligature takes
over the characters of its components, so forming it loses none and invents none, also where it is
broken off (`perm_chars_absorbFrom`).  A sequence of substitutes repeats the characters of the glyph
as often as it has members (`chars_expand`), and that is the only way in which their number changes.

So a law about the characters before and after, one that depends on how often each occurs and on
nothing else, holds of all that a lookup list does as soon as it holds of the repetitions that the
list's sequences make (`CharLaw.editLaw`).  Of such laws `chars_conserved` takes three: nothing is
invented, nothing is lost, nothing is repeated.
-/

namespace GlyphSubstitution

universe u

variable {α : Type u}

/-- The characters that the glyphs of a run stand for, from left to right. -/
def Run.chars (run : Run α) : List Char := run.flatMap Glyph.chars

namespace Run

@[simp] theorem chars_cons (glyph : Glyph α) (run : Run α) :
    chars (glyph :: run) = glyph.chars ++ chars run := rfl

@[simp] theorem chars_append (run rest : Run α) : chars (run ++ rest) = chars run ++ chars rest := by
  simp [chars]

end Run

/-! ## Single edits -/

/-- A sequence of substitutes repeats the characters of the glyph in whose place it is put. -/
theorem chars_expand (glyph : Glyph α) (gs : List GlyphId) :
    Run.chars (glyph.expand gs) = (List.replicate gs.length glyph.chars).flatten := by
  have hduplicates : ∀ rest : List GlyphId,
      Run.chars (rest.map glyph.duplicateAs) = (List.replicate rest.length glyph.chars).flatten := by
    intro rest
    induction rest with
    | nil => rfl
    | cons g rest ih =>
      rw [List.map_cons, Run.chars_cons, ih, List.length_cons, List.replicate_succ,
        List.flatten_cons]
      rfl
  cases gs with
  | nil => rfl
  | cons g rest =>
    rw [Glyph.expand, Run.chars_cons, hduplicates, List.length_cons, List.replicate_succ,
      List.flatten_cons]
    rfl

variable [Payload α]

/-- Absorbing components moves characters to the left and does nothing else to them. -/
theorem perm_chars_absorbFrom (f : GlyphFilter) (wanted taken : Nat) (head : Glyph α)
    (rest : Run α) :
    ((absorbFrom f wanted taken head rest).head.chars ++
        Run.chars (absorbFrom f wanted taken head rest).rest).Perm
      (head.chars ++ Run.chars rest) := by
  fun_induction absorbFrom f wanted taken head rest with
  | case1 taken head => exact .refl _
  | case2 taken head glyph rest hdone => exact .refl _
  | case3 taken head glyph rest hmore hsees ih =>
    rw [Run.chars_cons, ← List.append_assoc]
    exact ih
  | case4 taken head glyph rest hmore hsees e hplace => exact .refl _
  | case5 taken head glyph rest hmore hsees place hplace further ih =>
    -- the glyph that is passed over stands between the head and the rest, before and after
    have hout := List.perm_append_comm_assoc further.head.chars glyph.chars (Run.chars further.rest)
    have hback := List.perm_append_comm_assoc glyph.chars head.chars (Run.chars rest)
    exact (hout.trans (ih.append_left glyph.chars)).trans hback

theorem Ligature.perm_chars_fuse (ligature : Ligature) (f : GlyphFilter) (head : Glyph α)
    (rest : Run α) :
    (Run.chars (ligature.fuse f head rest).run).Perm (Run.chars (head :: rest)) := by
  have habsorbed := perm_chars_absorbFrom f ligature.components.length 0 head rest
  unfold fuse
  dsimp only
  split <;> exact habsorbed

/-! ## Laws about characters -/

/-- A law about the characters before and after that depends only on how often each occurs, and
that may be looked at in any part of the text. -/
structure CharLaw (Q : List Char → List Char → Prop) : Prop where
  of_perm : ∀ {cs cs'}, cs'.Perm cs → Q cs cs'
  trans : ∀ {cs cs' cs''}, Q cs cs' → Q cs' cs'' → Q cs cs''
  append : ∀ before after {cs cs'}, Q cs cs' → Q (before ++ cs ++ after) (before ++ cs' ++ after)

/-- A law about characters holds of all edits if it holds of the repetitions that sequences make. -/
theorem CharLaw.editLaw {Q : List Char → List Char → Prop} (hQ : CharLaw Q) {list : LookupList}
    (h : ∀ gs ∈ list.sequences, ∀ cs, Q cs (List.replicate gs.length cs).flatten) :
    EditLaw list fun run run' : Run α => Q run.chars run'.chars where
  refl _ := hQ.of_perm (.refl _)
  trans := hQ.trans
  append before run run' hrun := by
    simpa using hQ.append before.chars [] hrun
  replaceBy _ _ _ := hQ.of_perm (.refl _)
  expand gs hgs glyph rest := by
    rw [Run.chars_append, chars_expand]
    simpa using hQ.append [] (Run.chars rest) (h gs hgs glyph.chars)
  fuse ligature f glyph rest := hQ.of_perm (ligature.perm_chars_fuse f glyph rest)

theorem charLaw_not_invented : CharLaw fun cs cs' => ∀ c ∈ cs', c ∈ cs where
  of_perm h c := h.mem_iff.1
  trans h h' c hc := h c (h' c hc)
  append before after _ _ h c := by
    simp only [List.mem_append]
    exact Or.imp_left (Or.imp_right (h c))

theorem charLaw_not_lost : CharLaw fun cs cs' => ∀ c ∈ cs, c ∈ cs' where
  of_perm h c := h.mem_iff.2
  trans h h' c hc := h' c (h c hc)
  append before after _ _ h c := by
    simp only [List.mem_append]
    exact Or.imp_left (Or.imp_right (h c))

theorem charLaw_perm : CharLaw fun cs cs' => cs'.Perm cs where
  of_perm h := h
  trans h h' := h'.trans h
  append before after _ _ h := (h.append_left before).append_right after

/-! ## What a list conserves -/

namespace LookupList

/-- No lookup, in a pass or in a nested call, and whether it succeeds or not, brings a character into
a run that was not there before.  If no sequence of the list is empty, none is lost either; and if
all of them have one member, each character is there as often as before. -/
theorem chars_conserved (list : LookupList) (skip : SkipPredicate) {run : Run α}
    {o : Outcome α Bool} (ho : list.Yields skip run o) :
    (∀ c ∈ o.run.chars, c ∈ run.chars) ∧
      ((∀ gs ∈ list.sequences, gs ≠ []) → ∀ c ∈ run.chars, c ∈ o.run.chars) ∧
      ((∀ gs ∈ list.sequences, gs.length = 1) → o.run.chars.Perm run.chars) := by
  have hrepeated : ∀ (gs : List GlyphId) cs (c : Char),
      c ∈ (List.replicate gs.length cs).flatten ↔ gs ≠ [] ∧ c ∈ cs := by
    intro gs cs c
    simp
  refine ⟨?_, fun hfilled => ?_, fun hsingle => ?_⟩
  · have hlaw : EditLaw list fun run run' : Run α => ∀ c ∈ run'.chars, c ∈ run.chars :=
      charLaw_not_invented.editLaw fun gs _ cs c hc => ((hrepeated gs cs c).1 hc).2
    exact hlaw.yields ho
  · have hlaw : EditLaw list fun run run' : Run α => ∀ c ∈ run.chars, c ∈ run'.chars :=
      charLaw_not_lost.editLaw fun gs hgs cs c hc => (hrepeated gs cs c).2 ⟨hfilled gs hgs, hc⟩
    exact hlaw.yields ho
  · have hlaw : EditLaw list fun run run' : Run α => run'.chars.Perm run.chars := by
      refine charLaw_perm.editLaw fun gs hgs cs => ?_
      rw [hsingle gs hgs]
      simp
    exact hlaw.yields ho

/-- Lookup 0 forms the ligature 45, lookup 1 puts a 46 in its place, and lookup 2 asks for the one
and then the other where a 5 follows a 4. -/
def fusing : LookupList :=
  ofFaultless
    [⟨{}, .ligature [Coverage.ofList [(4, [⟨45, [5]⟩])]]⟩,
      ⟨{}, .multiple [Coverage.ofList [(45, [46])]]⟩,
      ⟨{}, .contextual .simple
        [⟨Coverage.ofList [(4, [.simple [5] [⟨0, 0⟩, ⟨0, 1⟩]])], by decide⟩]⟩]
    (by decide)

/-- The ligature is formed across a glyph, so that the characters come to stand in another order,
and they are the same. -/
theorem fusing_conserves_chars :
    ∃ o, fusing.Yields (fun g _ => g == 2)
        [.ofChar 'a' 4 (), .ofChar 'x' 2 (), .ofChar 'b' 5 ()] o ∧
      (∀ gs ∈ fusing.sequences, gs ≠ []) ∧ (∀ gs ∈ fusing.sequences, gs.length = 1) ∧
      o.run.gids = [46, 2] ∧ o.run.chars = ['a', 'b', 'x'] ∧
      o.run.chars.Perm (Run.chars [.ofChar 'a' 4 (), .ofChar 'x' 2 (), .ofChar 'b' 5 ()]) := by
  have ho : fusing.Yields (fun g _ => g == 2)
      [.ofChar 'a' 4 (), .ofChar 'x' 2 (), .ofChar 'b' 5 ()]
      (fusing.applyNested (fun g _ => g == 2) 1 2
        [.ofChar 'a' 4 (), .ofChar 'x' 2 (), .ofChar 'b' 5 ()] 0) := Or.inr ⟨1, 2, 0, rfl⟩
  have hsingle : ∀ gs ∈ fusing.sequences, gs.length = 1 := by decide
  exact ⟨_, ho, by decide, hsingle, by decide, by decide,
    (chars_conserved fusing (fun g _ => g == 2) ho).2.2 hsingle⟩

end LookupList

end GlyphSubstitution
