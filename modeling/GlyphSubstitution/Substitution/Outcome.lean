import GlyphSubstitution.Glyph

/-!
# Outcomes of edits

An application that fails leaves in the run what it has edited so far, so an `Outcome` holds the run
beside the result, whatever the result is.  `editAt` carries out an edit of the glyph at a position,
which may also reach into the glyphs after it; what stands before the position is never touched
(`take_run_editAt`).
-/

namespace GlyphSubstitution

universe u v w

/-- A run as an edit left it, and what the edit has to tell or why it was broken off. -/
structure Outcome (α : Type u) (β : Type v) where
  run : Run α
  result : Except ShapingError β
  deriving DecidableEq

/-- What applying a lookup at one position came to: how many places further the run is to be looked
at next, and whether anything was substituted. -/
structure Applied where
  width : Nat
  changed : Bool
  deriving DecidableEq, Repr

namespace Outcome

variable {α : Type u} {β : Type v} {γ : Type w}

/-- The outcome with its result passed through a function. -/
def map (f : β → γ) (o : Outcome α β) : Outcome α γ := ⟨o.run, o.result.map f⟩

@[simp] theorem run_map (f : β → γ) (o : Outcome α β) : (o.map f).run = o.run := rfl

@[simp] theorem result_map (f : β → γ) (o : Outcome α β) :
    (o.map f).result = o.result.map f := rfl

theorem result_map_eq_ok_iff {f : β → γ} {o : Outcome α β} {c : γ} :
    (o.map f).result = .ok c ↔ ∃ b, o.result = .ok b ∧ f b = c := by
  rw [result_map]
  cases o.result with
  | error e => exact ⟨nofun, nofun⟩
  | ok b =>
    constructor
    · intro h
      exact ⟨b, rfl, Except.ok.inj h⟩
    · rintro ⟨b', hb, rfl⟩
      rw [Except.ok.inj hb]
      rfl

end Outcome

/-- Edits the glyph at position `i` together with what follows it.  Where there is no glyph, or the
edit declines, the run stays as it is. -/
def editAt {α : Type u} {β : Type v} (edit : Glyph α → Run α → Option (Outcome α β)) (run : Run α)
    (i : Nat) : Outcome α (Option β) :=
  match run.drop i with
  | [] => ⟨run, .ok none⟩
  | glyph :: rest =>
    match edit glyph rest with
    | none => ⟨run, .ok none⟩
    | some o => ⟨run.take i ++ o.run, o.result.map some⟩

theorem exists_append_of_lt {β : Type v} {xs : List β} {i : Nat} (h : i < xs.length) :
    ∃ before x after, xs = before ++ x :: after ∧ i = before.length := by
  refine ⟨xs.take i, xs[i], xs.drop (i + 1), ?_, ?_⟩
  · rw [List.getElem_cons_drop, List.take_append_drop]
  · rw [List.length_take, Nat.min_eq_left (Nat.le_of_lt h)]

/-- An edit at a glyph, told by what stands before the glyph and after it. -/
theorem editAt_append {α : Type u} {β : Type v}
    (edit : Glyph α → Run α → Option (Outcome α β)) (before : Run α) (glyph : Glyph α)
    (rest : Run α) :
    editAt edit (before ++ glyph :: rest) before.length =
      match edit glyph rest with
      | none => ⟨before ++ glyph :: rest, .ok none⟩
      | some o => ⟨before ++ o.run, o.result.map some⟩ := by
  unfold editAt
  rw [List.drop_left]
  dsimp only
  rw [List.take_left]

/-- Only what an edit does to the glyph at its position matters. -/
theorem editAt_congr {α : Type u} {β : Type v} {edit edit' : Glyph α → Run α → Option (Outcome α β)}
    {run : Run α} {i : Nat}
    (h : ∀ glyph rest, run.drop i = glyph :: rest → edit glyph rest = edit' glyph rest) :
    editAt edit run i = editAt edit' run i := by
  unfold editAt
  split
  · rfl
  · next glyph rest hdrop => rw [h glyph rest hdrop]

/-- An edit leaves alone what stands before it. -/
theorem take_run_editAt {α : Type u} {β : Type v}
    (edit : Glyph α → Run α → Option (Outcome α β)) (run : Run α) (i : Nat) :
    (editAt edit run i).run.take i = run.take i := by
  unfold editAt
  split
  · rfl
  · next glyph rest h =>
    have hi : i < run.length := by
      rcases Nat.lt_or_ge i run.length with hi | hi
      · exact hi
      · simp [List.drop_eq_nil_of_le hi] at h
    split
    · rfl
    · rw [List.take_append_of_le_length (by rw [List.length_take]; omega), List.take_take,
        Nat.min_self]

end GlyphSubstitution
