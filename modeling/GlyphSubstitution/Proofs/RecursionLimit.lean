import GlyphSubstitution.Substitution.Pass

/-!
# The recursion limit changes no answer

Contextual lookups may call each other in a circle, and the limit is what ends that.  A lower limit
can turn an answer into the refusal `limitExceeded`, and that is all it can do: `Outcome.Within`
says of two outcomes that they agree, run and result, unless the first is such a refusal.
Everything that a list does with a limit is within what it does with a larger one, be it nested
application (`applyNested_within`), the application of contextual subtables
(`applyContextual_within`), or a scan with them, which moreover needs no larger budget
(`finish_within`).

The induction is on the smaller limit: a call at limit `n + 1` works off records whose calls are
made at limit `n`, and one record whose call is within lets the next one start from the same state.
-/

namespace GlyphSubstitution

universe u v w

/-- The first outcome is the second one, unless it is a refusal because of the limit. -/
def Outcome.Within {α : Type u} {β : Type v} (o o' : Outcome α β) : Prop :=
  o.result = .error .limitExceeded ∨ o = o'

namespace Outcome.Within

variable {α : Type u} {β : Type v} {γ : Type w}

theorem refl (o : Outcome α β) : o.Within o := Or.inr rfl

theorem map {o o' : Outcome α β} (h : o.Within o') (f : β → γ) : (o.map f).Within (o'.map f) := by
  rcases h with hrefused | rfl
  · exact Or.inl (by rw [result_map, hrefused]; rfl)
  · exact refl _

end Outcome.Within

variable {α : Type u}

/-! ## Records and contextual subtables -/

/-- If each call is within another one's, so is what the records of a rule come to. -/
theorem applyRecords_within {nested nested' : Applier α} {n m : Nat}
    (h : ∀ k i run, (nested ⟨k, n, i, run⟩).Within (nested' ⟨k, m, i, run⟩))
    (records : List SequenceLookup) (a : Application α) :
    (applyRecords nested n records a).Within (applyRecords nested' m records a) := by
  induction records generalizing a with
  | nil => exact Outcome.Within.refl _
  | cons record rest ih =>
    rw [applyRecords_cons, applyRecords_cons]
    cases htarget : a.target? record with
    | none => exact ih a
    | some index =>
      dsimp only
      rcases h record.lookupIndex.toNat index a.run with hrefused | heq
      · rw [hrefused]
        exact Or.inl rfl
      · rw [heq]
        split
        · exact Outcome.Within.refl _
        · exact ih _

theorem applyContextual_within_of {nested nested' : Applier α} {n m : Nat}
    (h : ∀ k i run, (nested ⟨k, n, i, run⟩).Within (nested' ⟨k, m, i, run⟩))
    (tables : List ContextSubtable) (f : GlyphFilter) (run : Run α) (i : Nat) :
    (applyContextual nested n tables f run i).Within
      (applyContextual nested' m tables f run i) := by
  rw [applyContextual_eq, applyContextual_eq]
  cases selectRule? tables f run.gids i with
  | none => exact Outcome.Within.refl _
  | some found => exact (applyRecords_within h _ _).map _

/-! ## Scans -/

namespace Scan

/-- A scan whose visits are within those of another comes to nothing else, if it comes to an end
without a refusal, and in the same number of steps. -/
theorem finish_within {f : GlyphFilter} {visit visit' : Visit α}
    (h : ∀ run i, (visit run i).Within (visit' run i)) {budget : Nat} {s : Scan α}
    {o : Outcome α Bool} (ho : finish f visit budget s = some o) :
    o.result = .error .limitExceeded ∨ finish f visit' budget s = some o := by
  induction budget generalizing s with
  | zero => exact Or.inr ho
  | succ budget ih =>
    rw [finish_succ, step_eq] at ho ⊢
    cases hglyph : s.run[s.cursor]? with
    | none => exact Or.inr (by simpa [hglyph] using ho)
    | some glyph =>
      by_cases hsees : f.sees glyph.gid
      · simp only [hglyph, hsees, if_true] at ho ⊢
        rcases h s.run s.cursor with hrefused | heq
        · simp only [after, hrefused] at ho
          exact Or.inl (by rw [← Option.some.inj ho])
        · rw [← heq]
          cases hafter : s.after (visit s.run s.cursor) with
          | stopped o' => exact Or.inr (by simpa [hafter] using ho)
          | moved next => exact ih (by simpa [hafter] using ho)
      · simp only [hglyph, hsees] at ho ⊢
        exact ih ho

end Scan

/-! ## Lookups of a list -/

variable [Payload α]

theorem Lookup.applyAt_within {lookup : Lookup} {skip : SkipPredicate}
    {contextual contextual' :
      List ContextSubtable → GlyphFilter → Run α → Nat → Outcome α (Option Applied)}
    (h : ∀ tables f run i, (contextual tables f run i).Within (contextual' tables f run i))
    (run : Run α) (i : Nat) :
    (lookup.applyAt skip contextual run i).Within (lookup.applyAt skip contextual' run i) := by
  unfold Lookup.applyAt
  cases lookup.subtables with
  | contextual kind tables => exact h _ _ _ _
  | _ => exact Outcome.Within.refl _

namespace LookupList

variable {list : LookupList} {skip : SkipPredicate}

/-- If contextual subtables are applied within one limit as within another, so are lookups. -/
theorem applyNested_within_of {n m : Nat}
    (h : ∀ tables f (run : Run α) i, (list.contextualAt skip n tables f run i).Within
      (list.contextualAt skip m tables f run i)) (k : Nat) (run : Run α) (i : Nat) :
    (list.applyNested skip n k run i).Within (list.applyNested skip m k run i) := by
  rw [applyNested_eq, applyNested_eq]
  cases list.lookup k with
  | error e => exact Outcome.Within.refl _
  | ok lookup =>
    dsimp only
    split
    · exact (Lookup.applyAt_within h run i).map _
    · exact Outcome.Within.refl _

theorem applyNested_within {n m : Nat} (h : n ≤ m) (k : Nat) (run : Run α) (i : Nat) :
    (list.applyNested skip n k run i).Within (list.applyNested skip m k run i) := by
  induction n generalizing m k run i with
  | zero => exact applyNested_within_of (fun _ _ _ _ => Or.inl rfl) k run i
  | succ n ih =>
    obtain ⟨m, rfl⟩ : ∃ m', m = m' + 1 := ⟨m - 1, by omega⟩
    have hle : n ≤ m := Nat.le_of_succ_le_succ h
    have hcalls : ∀ k i (run : Run α),
        (list.applier skip ⟨k, n, i, run⟩).Within (list.applier skip ⟨k, m, i, run⟩) :=
      fun k i run => ih hle k run i
    refine applyNested_within_of (fun tables f run i => ?_) k run i
    exact applyContextual_within_of hcalls tables f run i

theorem applyContextual_within {n m : Nat} (h : n ≤ m) (tables : List ContextSubtable)
    (f : GlyphFilter) (run : Run α) (i : Nat) :
    (applyContextual (list.applier skip) n tables f run i).Within
      (applyContextual (list.applier skip) m tables f run i) :=
  applyContextual_within_of (fun k i run => applyNested_within h k run i) tables f run i

/-- The limit of a list matters to its passes alone: nested calls bring their own. -/
theorem applyNested_withRecursionLimit (list : LookupList) (skip : SkipPredicate)
    (bound limit k : Nat) (run : Run α) (i : Nat) :
    (list.withRecursionLimit bound).applyNested skip limit k run i =
      list.applyNested skip limit k run i := by
  induction limit generalizing k run i with
  | zero => rw [applyNested, applyNested]; rfl
  | succ limit ih =>
    rw [applyNested, applyNested]
    simp only [ih]
    rfl

@[simp] theorem applier_withRecursionLimit (list : LookupList) (skip : SkipPredicate)
    (bound : Nat) :
    (list.withRecursionLimit bound).applier skip = (list.applier skip : Applier α) := by
  funext call
  exact applyNested_withRecursionLimit list skip bound call.limit call.lookup call.run call.index

/-- A smaller limit, be it passed to a nested call, to contextual subtables, to a pass with them or
to the list, can only turn an answer into `limitExceeded`.  Any other answer, and the run that comes
with it, is that under the larger limit too. -/
theorem limit_only_refuses (list : LookupList) (skip : SkipPredicate) {n m : Nat} (h : n ≤ m) :
    (∀ k (run : Run α) i,
        (list.applyNested skip n k run i).result = .error .limitExceeded ∨
          list.applyNested skip n k run i = list.applyNested skip m k run i) ∧
      (∀ tables f (run : Run α) i,
        (applyContextual (list.applier skip) n tables f run i).result = .error .limitExceeded ∨
          applyContextual (list.applier skip) n tables f run i =
            applyContextual (list.applier skip) m tables f run i) ∧
      (∀ tables f budget (run : Run α) o,
        contextualPass (list.applier skip) n tables f budget run = some o →
          o.result = .error .limitExceeded ∨
            contextualPass (list.applier skip) m tables f budget run = some o) ∧
      (∀ k budget (run : Run α) o,
        (list.withRecursionLimit n).applyLookup skip budget k run = some o →
          o.result = .error .limitExceeded ∨
            (list.withRecursionLimit m).applyLookup skip budget k run = some o) := by
  refine ⟨applyNested_within h, applyContextual_within h, fun tables f budget run o ho => ?_,
    fun k budget run o ho => ?_⟩
  · exact Scan.finish_within (applyContextual_within h tables f) ho
  · unfold applyLookup at ho ⊢
    have hlookup : (list.withRecursionLimit m).lookup k = (list.withRecursionLimit n).lookup k :=
      rfl
    have hclamped : min n maxRecursionLimit ≤ min m maxRecursionLimit := by omega
    rw [hlookup]
    cases hk : (list.withRecursionLimit n).lookup k with
    | error e => exact Or.inr (by simpa [hk] using ho)
    | ok lookup =>
      simp only [hk, visit, applier_withRecursionLimit, recursionLimit_withRecursionLimit] at ho ⊢
      refine Scan.finish_within (fun run i => ?_) ho
      exact Lookup.applyAt_within (applyContextual_within hclamped) run i

/-- Glyph 4 calls the lookup itself again, and so for ever; glyph 5 calls what makes it a 6. -/
def circular : LookupList :=
  ofFaultless
    [⟨{}, .contextual .simple
        [⟨Coverage.ofList [(4, [.simple [] [⟨0, 0⟩]]), (5, [.simple [] [⟨0, 1⟩]])], by decide⟩]⟩,
      ⟨{}, .single [Coverage.ofList [(5, 6)]]⟩]
    (by decide)

/-- In a circle of calls both sides of the alternative occur: the circle itself is refused at every
limit, and one level suffices for what does not go round in it. -/
theorem circular_limit :
    1 ≤ 3 ∧
      (circular.applyNested .nothing 1 0 [Glyph.ofId 4 ()] 0).result = .error .limitExceeded ∧
      (circular.applyNested .nothing 1 0 [Glyph.ofId 5 ()] 0).run.gids = [6] ∧
      circular.applyNested .nothing 1 0 [Glyph.ofId 5 ()] 0 =
        circular.applyNested .nothing 3 0 [Glyph.ofId 5 ()] 0 :=
  ⟨by decide, by decide, by decide,
    ((limit_only_refuses circular .nothing (n := 1) (m := 3) (by decide)).1 0 _ 0).resolve_left
      (by decide)⟩

end LookupList

end GlyphSubstitution
