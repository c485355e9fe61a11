import GlyphSubstitution.Substitution.Outcome
import GlyphSubstitution.GlyphFilter

/-!
# Scanning a run

A lookup is applied to a run in one scan from left to right.  At each place the glyph is passed over
if the lookup does not see it; otherwise the lookup is applied there, which may change the run and
says how many places further the scan goes on.  A contextual lookup can lengthen the run faster than
the scan moves, and then there is no end.  So `Scan.finish` is given a budget, the number of places
that it may visit, and answers `none` if that does not suffice; a larger budget never changes an
answer (`Scan.finish_add`).  As with the records of a rule, the functions with an `M` in their names
are for visits with effects of their own.
-/

namespace GlyphSubstitution

universe u w

/-- How far a scan has come: the run as the applications so far have left it, the position to be
looked at next, and whether anything was substituted. -/
structure Scan (α : Type u) where
  run : Run α
  cursor : Nat := 0
  changed : Bool := false

/-- What one step of a scan leads to. -/
inductive ScanStep (α : Type u) where
  /-- The scan is over, at the end of the run or with an error. -/
  | stopped (outcome : Outcome α Bool)
  /-- The scan goes on from here. -/
  | moved (next : Scan α)

/-- What a scan does at a position whose glyph the lookup sees. -/
abbrev Visit (α : Type u) := Run α → Nat → Outcome α (Option Applied)

/-- What a scan does at a position, with effects in `m`. -/
abbrev VisitM (m : Type u → Type w) (α : Type u) := Run α → Nat → m (Outcome α (Option Applied))

namespace Scan

variable {α : Type u}

/-- Passes over the glyph at the cursor. -/
def pass (s : Scan α) : Scan α := { s with cursor := s.cursor + 1 }

/-- What an application at the cursor leads to.  Where nothing applied the scan moves on by one
glyph. -/
def after (s : Scan α) (o : Outcome α (Option Applied)) : ScanStep α :=
  match o.result with
  | .error e => .stopped ⟨o.run, .error e⟩
  | .ok none => .moved { s with run := o.run, cursor := s.cursor + 1 }
  | .ok (some applied) =>
    .moved ⟨o.run, s.cursor + applied.width, s.changed || applied.changed⟩

/-- One step of a scan. -/
def stepM {m : Type u → Type w} [Monad m] (f : GlyphFilter) (visit : VisitM m α) (s : Scan α) :
    m (ScanStep α) :=
  match s.run[s.cursor]? with
  | none => pure (.stopped ⟨s.run, .ok s.changed⟩)
  | some glyph =>
    if f.sees glyph.gid then do
      let o ← visit s.run s.cursor
      pure (s.after o)
    else pure (.moved s.pass)

/-- Scans on until the end of the run or an error, visiting at most `budget` positions. -/
def finishM {m : Type u → Type w} [Monad m] (f : GlyphFilter) (visit : VisitM m α) :
    Nat → Scan α → m (Option (Outcome α Bool))
  | 0, s => pure (if s.cursor < s.run.length then none else some ⟨s.run, .ok s.changed⟩)
  | budget + 1, s => do
    match ← s.stepM f visit with
    | .stopped o => pure (some o)
    | .moved next => finishM f visit budget next

/-- One step of a scan whose visits have no effects of their own. -/
def step (f : GlyphFilter) (visit : Visit α) (s : Scan α) : ScanStep α :=
  Id.run (s.stepM (m := Id) f visit)

/-- Scans on until the end of the run or an error, visiting at most `budget` positions, where the
visits have no effects of their own. -/
def finish (f : GlyphFilter) (visit : Visit α) (budget : Nat) (s : Scan α) :
    Option (Outcome α Bool) :=
  Id.run (finishM (m := Id) f visit budget s)

theorem step_eq (f : GlyphFilter) (visit : Visit α) (s : Scan α) :
    s.step f visit =
      match s.run[s.cursor]? with
      | none => .stopped ⟨s.run, .ok s.changed⟩
      | some glyph =>
        if f.sees glyph.gid then s.after (visit s.run s.cursor) else .moved s.pass := by
  simp only [step, stepM]
  cases s.run[s.cursor]? with
  | none => rfl
  | some glyph =>
    dsimp only
    split <;> rfl

theorem finish_zero (f : GlyphFilter) (visit : Visit α) (s : Scan α) :
    finish f visit 0 s = if s.cursor < s.run.length then none else some ⟨s.run, .ok s.changed⟩ :=
  rfl

theorem finish_succ (f : GlyphFilter) (visit : Visit α) (budget : Nat) (s : Scan α) :
    finish f visit (budget + 1) s =
      match s.step f visit with
      | .stopped o => some o
      | .moved next => finish f visit budget next := by
  simp only [finish, finishM, step]
  dsimp only [Id.run, bind]
  split <;> rfl

/-- What a scan comes to within a budget, it comes to within every larger one. -/
theorem finish_add {f : GlyphFilter} {visit : Visit α} {budget : Nat} {s : Scan α}
    {o : Outcome α Bool} (h : finish f visit budget s = some o) (extra : Nat) :
    finish f visit (budget + extra) s = some o := by
  induction budget generalizing s with
  | zero =>
    rw [finish_zero] at h
    split at h
    · nomatch h
    · next hcursor =>
      cases extra with
      | zero => rw [finish_zero, if_neg hcursor, h]
      | succ extra =>
        rw [Nat.zero_add, finish_succ, step_eq, List.getElem?_eq_none (Nat.not_lt.1 hcursor)]
        exact h
  | succ budget ih =>
    rw [Nat.add_right_comm, finish_succ]
    rw [finish_succ] at h
    split at h
    · exact h
    · exact ih h

end Scan

/-- Scans a run from its beginning, visiting at most `budget` positions. -/
def scanM {m : Type u → Type w} [Monad m] {α : Type u} (f : GlyphFilter) (visit : VisitM m α)
    (budget : Nat) (run : Run α) : m (Option (Outcome α Bool)) :=
  Scan.finishM f visit budget { run }

/-- Scans a run from its beginning, visiting at most `budget` positions, where the visits have no
effects of their own. -/
def scan {α : Type u} (f : GlyphFilter) (visit : Visit α) (budget : Nat) (run : Run α) :
    Option (Outcome α Bool) :=
  Scan.finish f visit budget { run }

end GlyphSubstitution
