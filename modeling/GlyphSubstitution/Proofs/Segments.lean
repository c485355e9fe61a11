import GlyphSubstitution.Substitution.Records

/-!
# Runs in segments

While the records of a rule are worked off, the glyphs of its input become longer or shorter
stretches of the run.  A `Segment` is such a stretch, `glyphs`, with the `gap` that stands between
it and the next one.  `layout` strings segments together, `starts` tells where each of them begins,
and `cut` takes a run apart at the positions of a match.

The law that position tracking rests on is `shiftAfter_starts`: whatever takes the place of one
segment, moving the later positions by the difference of the widths gives the starts again.  So an
application whose run is laid out in segments and whose positions are their starts
(`Application.ofSegments`) is of that form again after a call that put something else in the place
of one segment (`afterCall_ofSegments`).
-/

namespace GlyphSubstitution

universe u

/-- What has become of an input glyph, and what stands between it and the next one. -/
structure Segment (α : Type u) where
  glyphs : Run α
  gap : Run α

variable {α : Type u}

namespace Segment

/-- How many places of the run the segment takes up. -/
def width (s : Segment α) : Nat := s.glyphs.length + s.gap.length

/-- The segment with something else in the place of its input glyph. -/
def withGlyphs (s : Segment α) (glyphs : Run α) : Segment α := { s with glyphs }

end Segment

/-- The run that segments make up. -/
def layout (segments : List (Segment α)) : Run α := segments.flatMap fun s => s.glyphs ++ s.gap

/-- Where segments begin, if the first of them begins at `start`. -/
def starts (start : Nat) : List (Segment α) → List Nat
  | [] => []
  | s :: rest => start :: starts (start + s.width) rest

/-- The run from the first of some positions on, each glyph at one of them with the gap that follows
it.  The gap of the last one is the rest of the run. -/
def cut (run : Run α) : List Nat → List (Segment α)
  | [] => []
  | [p] => [⟨(run.drop p).take 1, run.drop (p + 1)⟩]
  | p :: q :: rest => ⟨(run.drop p).take 1, (run.take q).drop (p + 1)⟩ :: cut run (q :: rest)

/-! ## Layout -/

@[simp] theorem layout_nil : layout ([] : List (Segment α)) = [] := rfl

@[simp] theorem layout_cons (s : Segment α) (rest : List (Segment α)) :
    layout (s :: rest) = s.glyphs ++ s.gap ++ layout rest := by
  simp [layout]

@[simp] theorem layout_append (before after : List (Segment α)) :
    layout (before ++ after) = layout before ++ layout after := by
  simp [layout]

/-! ## Starts -/

@[simp] theorem length_starts (start : Nat) (segments : List (Segment α)) :
    (starts start segments).length = segments.length := by
  induction segments generalizing start with
  | nil => rfl
  | cons s rest ih => simp [starts, ih]

theorem starts_append (start : Nat) (before after : List (Segment α)) :
    starts start (before ++ after) =
      starts start before ++ starts (start + (layout before).length) after := by
  induction before generalizing start with
  | nil => simp [starts]
  | cons s before ih =>
    have hstart : start + s.width + (layout before).length =
        start + (layout (s :: before)).length := by
      simp [Segment.width]
      omega
    rw [List.cons_append, starts, starts, ih, hstart, List.cons_append]

theorem le_of_mem_starts {start p : Nat} {segments : List (Segment α)}
    (h : p ∈ starts start segments) : start ≤ p := by
  induction segments generalizing start with
  | nil => simp [starts] at h
  | cons s rest ih =>
    rw [starts, List.mem_cons] at h
    rcases h with rfl | h
    · exact Nat.le_refl _
    · have hle := ih h
      omega

/-- Segments that begin `d` places further right begin each `d` places further right. -/
theorem starts_add (start d : Nat) (segments : List (Segment α)) :
    starts (start + d) segments = (starts start segments).map (· + d) := by
  induction segments generalizing start with
  | nil => rfl
  | cons s rest ih =>
    rw [starts, starts, List.map_cons, ← ih, Nat.add_right_comm]

theorem getElem?_starts (start : Nat) (before after : List (Segment α)) (s : Segment α) :
    (starts start (before ++ s :: after))[before.length]? =
      some (start + (layout before).length) := by
  have hbefore : (starts start before).length = before.length := length_starts start before
  rw [starts_append, List.getElem?_append_right (Nat.le_of_eq hbefore), hbefore, Nat.sub_self,
    starts]
  rfl

/-- Position tracking is right about whatever takes the place of one segment. -/
theorem shiftAfter_starts (start : Nat) (before after : List (Segment α)) (s s' : Segment α) :
    shiftAfter (starts start (before ++ s :: after)) before.length
        ((s'.width : Int) - s.width) =
      starts start (before ++ s' :: after) := by
  have hbefore : (starts start before).length = before.length := length_starts start before
  rw [shiftAfter, getElem?_starts]
  dsimp only
  rw [starts_append, starts_append, starts, starts]
  generalize start + (layout before).length = p
  have htake : (starts start before ++ p :: starts (p + s.width) after).take (before.length + 1) =
      starts start before ++ [p] := by
    rw [← hbefore, List.take_length_add_append]
    rfl
  have hdrop : (starts start before ++ p :: starts (p + s.width) after).drop (before.length + 1) =
      starts (p + s.width) after := by
    rw [← hbefore, List.drop_length_add_append]
    rfl
  have hmoved : (starts (p + s.width) after).map
      (fun (q : Nat) => max p ((q : Int) + ((s'.width : Int) - s.width)).toNat) =
      starts (p + s'.width) after := by
    rw [starts_add p s.width, starts_add p s'.width, List.map_map]
    apply List.map_congr_left
    intro q hq
    have hle := le_of_mem_starts hq
    simp only [Function.comp_apply]
    omega
  rw [htake, hdrop, hmoved, List.append_assoc]
  rfl

/-! ## Cutting a run -/

theorem length_cut (run : Run α) (positions : List Nat) :
    (cut run positions).length = positions.length := by
  fun_induction cut run positions with
  | case1 => rfl
  | case2 p => rfl
  | case3 p q rest ih => rw [List.length_cons, ih]; rfl

/-- What was cut apart makes up the run again, from the first position on. -/
theorem layout_cut {run : Run α} {p : Nat} {rest : List Nat}
    (hincreasing : (p :: rest).Pairwise (· < ·)) (hinside : ∀ q ∈ p :: rest, q < run.length) :
    layout (cut run (p :: rest)) = run.drop p := by
  induction rest generalizing p with
  | nil =>
    have htail : run.drop (p + 1) = (run.drop p).drop 1 := by rw [List.drop_drop]
    rw [cut, layout_cons, layout_nil, List.append_nil, htail, List.take_append_drop]
  | cons q rest ih =>
    obtain ⟨hp, hrest⟩ := List.pairwise_cons.1 hincreasing
    have hpq : p < q := hp q List.mem_cons_self
    have hcut := ih hrest fun r hr => hinside r (List.mem_cons_of_mem p hr)
    have hgap : (run.take q).drop (p + 1) = ((run.drop p).take (q - p)).drop 1 := by
      rw [List.drop_take, List.drop_take, List.drop_drop, Nat.sub_sub]
    have hhead : (run.drop p).take 1 = ((run.drop p).take (q - p)).take 1 := by
      rw [List.take_take, Nat.min_eq_left (by omega)]
    have htail : run.drop q = (run.drop p).drop (q - p) := by
      rw [List.drop_drop, Nat.add_sub_cancel' (Nat.le_of_lt hpq)]
    rw [cut, layout_cons, hcut, hgap, hhead, List.take_append_drop, htail, List.take_append_drop]

/-- The segments of a cut begin where the run was cut. -/
theorem starts_cut {run : Run α} {p : Nat} {rest : List Nat}
    (hincreasing : (p :: rest).Pairwise (· < ·)) (hinside : ∀ q ∈ p :: rest, q < run.length) :
    starts p (cut run (p :: rest)) = p :: rest := by
  induction rest generalizing p with
  | nil => rfl
  | cons q rest ih =>
    obtain ⟨hp, hrest⟩ := List.pairwise_cons.1 hincreasing
    have hpq : p < q := hp q List.mem_cons_self
    have hq : q < run.length := hinside q (List.mem_cons_of_mem p List.mem_cons_self)
    have hwidth : p + Segment.width ⟨(run.drop p).take 1, (run.take q).drop (p + 1)⟩ = q := by
      simp only [Segment.width, List.length_take, List.length_drop]
      omega
    rw [cut, starts, hwidth, ih hrest fun r hr => hinside r (List.mem_cons_of_mem p hr)]

/-- A segment of a cut holds the glyph at one of the positions. -/
theorem exists_of_mem_cut {run : Run α} {positions : List Nat} {s : Segment α}
    (h : s ∈ cut run positions) : ∃ p ∈ positions, s.glyphs = (run.drop p).take 1 := by
  fun_induction cut run positions with
  | case1 => simp at h
  | case2 p =>
    rw [List.mem_singleton] at h
    exact ⟨p, List.mem_cons_self, by rw [h]⟩
  | case3 p q rest ih =>
    rcases List.mem_cons.1 h with heq | hmem
    · exact ⟨p, List.mem_cons_self, by rw [heq]⟩
    · obtain ⟨r, hr, hglyphs⟩ := ih hmem
      exact ⟨r, List.mem_cons_of_mem p hr, hglyphs⟩

/-- Inside the run, every segment of a cut holds one glyph to begin with. -/
theorem length_glyphs_of_mem_cut {run : Run α} {positions : List Nat} {s : Segment α}
    (hinside : ∀ q ∈ positions, q < run.length) (h : s ∈ cut run positions) :
    s.glyphs.length = 1 := by
  obtain ⟨p, hp, hglyphs⟩ := exists_of_mem_cut h
  have hlt := hinside p hp
  rw [hglyphs, List.length_take, List.length_drop]
  omega

/-! ## Applications in segments -/

namespace Application

/-- A run laid out in segments, with the tracked positions at their starts. -/
def ofSegments (front : Run α) (segments : List (Segment α)) (changed : Bool) : Application α :=
  ⟨front ++ layout segments, starts front.length segments, changed⟩

variable {record : SequenceLookup} {before after : List (Segment α)} {s : Segment α}

/-- The target of a record is the head of the segment that it names. -/
theorem target?_ofSegments (h : record.sequenceIndex.toNat = before.length) (hs : s.glyphs ≠ [])
    (front : Run α) (changed : Bool) :
    (ofSegments front (before ++ s :: after) changed).target? record =
      some (front ++ layout before).length := by
  have hposition : (starts front.length (before ++ s :: after))[record.sequenceIndex.toNat]? =
      some (front ++ layout before).length := by
    rw [h, getElem?_starts, List.length_append]
  have hpos : 0 < s.glyphs.length := List.length_pos_iff.2 hs
  rw [target?, ofSegments, hposition, Option.filter_some, if_pos]
  simp only [layout_append, layout_cons, List.length_append, decide_eq_true_eq]
  omega

/-- A call that puts other glyphs in the place of a segment keeps the run laid out and the positions
right.  It is counted as a change if it says so or if the segment is of another length. -/
theorem afterCall_ofSegments (h : record.sequenceIndex.toNat = before.length) (s : Segment α)
    (after : List (Segment α)) (glyphs front : Run α) (changed told : Bool) :
    (ofSegments front (before ++ s :: after) changed).afterCall record
        (front ++ layout (before ++ s.withGlyphs glyphs :: after)) told =
      ofSegments front (before ++ s.withGlyphs glyphs :: after)
        (changed || told || glyphs.length != s.glyphs.length) := by
  have hgrowth : (ofSegments front (before ++ s :: after) changed).growth
      (front ++ layout (before ++ s.withGlyphs glyphs :: after)) =
      ((s.withGlyphs glyphs).width : Int) - s.width := by
    simp only [growth, ofSegments, Segment.width, Segment.withGlyphs, layout_append, layout_cons,
      List.length_append]
    omega
  have hlength : ((front ++ layout (before ++ s.withGlyphs glyphs :: after)).length !=
      (front ++ layout (before ++ s :: after)).length) = (glyphs.length != s.glyphs.length) := by
    rw [Bool.eq_iff_iff]
    simp only [Segment.withGlyphs, layout_append, layout_cons, List.length_append, bne_iff_ne]
    omega
  rw [afterCall, hgrowth, h]
  simp only [ofSegments, shiftAfter_starts, hlength]

end Application

end GlyphSubstitution
