import GlyphSubstitution.Proofs.EditingByPosition
import GlyphSubstitution.Proofs.SeenApplications

/-!
# How a ligature is formed

A ligature is matched by comparing glyphs and formed by counting them.  The walk that forms it
removes components from the run while it goes on, so positions of the run that was matched are not
those of the run that is edited.  This file says what comes out in terms of the run that was
matched: `LigatureSite` holds where the ligature begins and where its components stand there, and
`Ligature.formAt` says of each glyph, by its old position, what is left in its place.

The walk keeps step with the positions of the matched run.  Where it has come to position `k` it has
taken in as many components as stand before `k`, and what it makes of the rest of the run is what is
left in the places from `k` on (`Ligature.absorbFrom_drop`).
-/

namespace GlyphSubstitution

universe u

/-! ## Sites -/

/-- Where a ligature is formed: the position at which it begins, and those of its components from
left to right. -/
structure LigatureSite where
  start : Nat
  components : List Nat

namespace LigatureSite

variable {site : LigatureSite} {k p : Nat}

/-- The position of the last component, or where the ligature begins if it has none. -/
def last (site : LigatureSite) : Nat := site.components.getLastD site.start

/-- How many components stand before position `p`. -/
def taken (site : LigatureSite) (p : Nat) : Nat := site.components.countP (· < p)

/-- The components at position `k` and after it. -/
def onwards (site : LigatureSite) (k : Nat) : List Nat := site.components.filter (k ≤ ·)

/-- How many of the glyphs from position `k` on are passed over on the way to the last component. -/
def passed (site : LigatureSite) (f : GlyphFilter) (gids : List GlyphId) (k : Nat) : Nat :=
  (List.range' k (site.last - k)).countP fun p => !f.seesAt gids p

theorem taken_succ (site : LigatureSite) (k : Nat) :
    site.taken (k + 1) = site.taken k + site.components.count k := by
  unfold taken
  induction site.components with
  | nil => rfl
  | cons p rest ih =>
    rw [List.countP_cons, List.countP_cons, List.count_cons, ih]
    simp only [decide_eq_true_eq, beq_iff_eq]
    split <;> split <;> split <;> omega

theorem taken_succ_of_not_mem (h : k ∉ site.components) : site.taken (k + 1) = site.taken k := by
  rw [taken_succ, List.count_eq_zero_of_not_mem h, Nat.add_zero]

theorem onwards_of_not_mem (h : k ∉ site.components) : site.onwards k = site.onwards (k + 1) := by
  refine List.filter_congr fun p hp => ?_
  have hne : p ≠ k := fun heq => h (heq ▸ hp)
  rw [decide_eq_decide]
  omega

theorem passed_of_last_le (h : site.last ≤ k) (f : GlyphFilter) (gids : List GlyphId) :
    site.passed f gids k = 0 := by
  rw [passed, Nat.sub_eq_zero_of_le h]
  rfl

theorem passed_of_lt_last (h : k < site.last) (f : GlyphFilter) (gids : List GlyphId) :
    site.passed f gids k =
      site.passed f gids (k + 1) + if f.seesAt gids k = true then 0 else 1 := by
  obtain ⟨n, hn⟩ := Nat.exists_eq_add_of_lt h
  rw [passed, passed, show site.last - k = n + 1 by omega, List.range'_succ, List.countP_cons,
    show site.last - (k + 1) = n by omega]
  cases f.seesAt gids k <;> rfl

/-- The components are what the filter sees of the run after the start and up to the last of
them. -/
structure Spans (site : LigatureSite) (f : GlyphFilter) (gids : List GlyphId) : Prop where
  increasing : site.components.Pairwise (· < ·)
  mem_iff : ∀ p, p ∈ site.components ↔
    site.start < p ∧ p ≤ site.last ∧ f.seesAt gids p = true
  start_le_last : site.start ≤ site.last
  sees_last : site.start < site.last → f.seesAt gids site.last = true

namespace Spans

variable {f : GlyphFilter} {gids : List GlyphId} (h : site.Spans f gids)
include h

theorem taken_succ_of_mem (hk : k ∈ site.components) :
    site.taken (k + 1) = site.taken k + 1 := by
  have hnodup : site.components.Nodup := h.increasing.imp Nat.ne_of_lt
  rw [taken_succ, List.count_eq_one_of_mem hnodup hk]

theorem onwards_of_mem (hk : k ∈ site.components) :
    site.onwards k = k :: site.onwards (k + 1) := by
  have hsorted : (k :: site.onwards (k + 1)).Pairwise (· < ·) :=
    List.pairwise_cons.2 ⟨fun p hp => of_decide_eq_true (List.mem_filter.1 hp).2,
      h.increasing.filter _⟩
  refine (h.increasing.filter _).eq_of_mem_iff hsorted fun p => ?_
  simp only [onwards, List.mem_filter, List.mem_cons, decide_eq_true_eq]
  constructor
  · rintro ⟨hp, hle⟩
    rcases Nat.eq_or_lt_of_le hle with heq | hlt
    · exact Or.inl heq.symm
    · exact Or.inr ⟨hp, hlt⟩
  · rintro (rfl | ⟨hp, hlt⟩)
    · exact ⟨hk, Nat.le_refl _⟩
    · exact ⟨hp, Nat.le_of_lt hlt⟩

theorem onwards_start : site.onwards (site.start + 1) = site.components :=
  List.filter_eq_self.2 fun p hp => decide_eq_true ((h.mem_iff p).1 hp).1

theorem onwards_of_last_lt (hk : site.last < k) : site.onwards k = [] := by
  refine List.filter_eq_nil_iff.2 fun p hp hle => ?_
  have hlast := ((h.mem_iff p).1 hp).2.1
  have hk' := of_decide_eq_true hle
  omega

theorem taken_of_le_start (hk : k ≤ site.start + 1) : site.taken k = 0 := by
  refine List.countP_eq_zero.2 fun p hp hlt => ?_
  have hafter := ((h.mem_iff p).1 hp).1
  have hbefore := of_decide_eq_true hlt
  omega

theorem taken_eq_length (hk : site.last < k) : site.taken k = site.components.length :=
  List.countP_eq_length.2 fun p hp =>
    decide_eq_true (Nat.lt_of_le_of_lt ((h.mem_iff p).1 hp).2.1 hk)

/-- Up to the last component not all have been taken. -/
theorem taken_lt_length (hstart : site.start < k) (hk : k ≤ site.last) :
    site.taken k < site.components.length := by
  have hlast : site.last ∈ site.components :=
    (h.mem_iff _).2 ⟨by omega, Nat.le_refl _, h.sees_last (by omega)⟩
  refine Nat.lt_of_le_of_ne List.countP_le_length fun hall => ?_
  have hbefore := of_decide_eq_true (List.countP_eq_length.1 hall site.last hlast)
  omega

/-- Up to the last component, a position is that of a component, or of a glyph that is passed
over. -/
theorem component_or_passed (hstart : site.start < k) (hk : k ≤ site.last) :
    (k ∈ site.components ∧ f.seesAt gids k = true ∧
        site.passed f gids k = site.passed f gids (k + 1)) ∨
      k ∉ site.components ∧ f.seesAt gids k = false ∧ k < site.last ∧
        site.passed f gids k = site.passed f gids (k + 1) + 1 := by
  cases hsees : f.seesAt gids k with
  | true =>
    refine Or.inl ⟨(h.mem_iff k).2 ⟨hstart, hk, hsees⟩, rfl, ?_⟩
    rcases Nat.eq_or_lt_of_le hk with heq | hbefore
    · rw [passed_of_last_le heq.ge, passed_of_last_le (by omega)]
    · rw [passed_of_lt_last hbefore, if_pos hsees, Nat.add_zero]
  | false =>
    have hbefore : k < site.last := by
      refine Nat.lt_of_le_of_ne hk fun heq => ?_
      rw [heq, h.sees_last (heq ▸ hstart)] at hsees
      nomatch hsees
    refine Or.inr ⟨fun hmem => ?_, rfl, hbefore, ?_⟩
    · rw [((h.mem_iff k).1 hmem).2.2] at hsees
      nomatch hsees
    · rw [passed_of_lt_last hbefore, if_neg (Bool.eq_false_iff.1 hsees)]

end Spans

end LigatureSite

/-- Where the ligature is formed if it begins at position `i`: its components stand at the first
seen positions after that. -/
def Ligature.site (ligature : Ligature) (f : GlyphFilter) (gids : List GlyphId) (i : Nat) :
    LigatureSite :=
  ⟨i, (f.seenAfter gids i).take ligature.components.length⟩

namespace Ligature

variable {ligature : Ligature} {f : GlyphFilter} {gids : List GlyphId} {i : Nat}

theorem length_components_site (h : ligature.matchesAt f gids i = true) :
    (ligature.site f gids i).components.length = ligature.components.length :=
  List.length_take_of_le (matchesAt_iff.1 h).length_le

theorem site_spans (h : ligature.matchesAt f gids i = true) :
    (ligature.site f gids i).Spans f gids where
  increasing := (f.pairwise_seenAfter gids i).sublist (List.take_sublist _ _)
  mem_iff _ := GlyphFilter.mem_take_seenAfter (matchesAt_iff.1 h).length_le
  start_le_last := GlyphFilter.le_reached
  sees_last := GlyphFilter.seesAt_reached

/-! ## What is left -/

variable {α : Type u} [Payload α] {site : LigatureSite} {run : Run α} {k : Nat}

/-- The glyph at which the ligature begins, after it has taken in these components. -/
def merge (ligature : Ligature) (head : Glyph α) (components : Run α) : Glyph α where
  gid := ligature.glyph
  chars := head.chars ++ components.flatMap (·.chars)
  ligatureComponent := head.ligatureComponent
  origin := .direct
  flags := { head.flags with ligature := true }
  payload :=
    components.foldl (fun payload glyph => Payload.merge payload glyph.payload) head.payload

/-- What is left in the place of the glyph at position `p`: of a component nothing, of the glyph at
which the ligature begins the ligature, and of a glyph that is passed over the glyph itself, which
is told how many components stood before it. -/
def remnant? (ligature : Ligature) (site : LigatureSite) (run : Run α) (glyph : Glyph α) (p : Nat) :
    Option (Glyph α) :=
  if p ∈ site.components then none
  else if p = site.start then some (ligature.merge glyph (site.components.filterMap (run[·]?)))
  else if site.start < p ∧ p < site.last then
    some { glyph with ligatureComponent := UInt16.ofNat (site.taken p) }
  else some glyph

/-- What is left of a stretch of the run that begins at position `k`. -/
def remnants (ligature : Ligature) (site : LigatureSite) (run stretch : Run α) (k : Nat) : Run α :=
  (stretch.zipIdx k).filterMap fun placed => ligature.remnant? site run placed.1 placed.2

/-- What is left of the whole run where the ligature is formed. -/
def formAt (ligature : Ligature) (site : LigatureSite) (run : Run α) : Run α :=
  ligature.remnants site run run 0

theorem asLigature_foldl_absorb (ligature : Ligature) (head : Glyph α) (components : Run α) :
    (components.foldl Glyph.absorb head).asLigature ligature.glyph =
      ligature.merge head components := by
  induction components generalizing head with
  | nil => simp [merge, Glyph.asLigature]
  | cons component rest ih =>
    rw [List.foldl_cons, ih]
    simp [merge, Glyph.absorb]

theorem remnants_append (ligature : Ligature) (site : LigatureSite) (run stretch rest : Run α)
    (k : Nat) :
    ligature.remnants site run (stretch ++ rest) k =
      ligature.remnants site run stretch k ++
        ligature.remnants site run rest (k + stretch.length) := by
  rw [remnants, List.zipIdx_append, List.filterMap_append]
  rfl

theorem remnants_cons (ligature : Ligature) (site : LigatureSite) (run : Run α) (glyph : Glyph α)
    (rest : Run α) (k : Nat) :
    ligature.remnants site run (glyph :: rest) k =
      (ligature.remnant? site run glyph k).toList ++
        ligature.remnants site run rest (k + 1) := by
  rw [remnants, List.zipIdx_cons, List.filterMap_cons, remnants]
  cases ligature.remnant? site run glyph k <;> rfl

/-- A stretch of which everything is left is left as it is. -/
theorem remnants_eq_self {stretch : Run α}
    (h : ∀ glyph p, k ≤ p → p < k + stretch.length →
      ligature.remnant? site run glyph p = some glyph) :
    ligature.remnants site run stretch k = stretch := by
  induction stretch generalizing k with
  | nil => rfl
  | cons glyph rest ih =>
    rw [List.length_cons] at h
    rw [remnants_cons, h glyph k (Nat.le_refl k) (by omega),
      ih fun glyph p hp hlt => h glyph p (by omega) (by omega)]
    rfl

theorem remnant?_of_mem (ligature : Ligature) (run : Run α) (glyph : Glyph α)
    (hk : k ∈ site.components) : ligature.remnant? site run glyph k = none :=
  if_pos hk

theorem remnant?_of_passed (ligature : Ligature) (run : Run α) (glyph : Glyph α)
    (hk : k ∉ site.components) (hstart : site.start < k) (hlast : k < site.last) :
    ligature.remnant? site run glyph k =
      some { glyph with ligatureComponent := UInt16.ofNat (site.taken k) } := by
  rw [remnant?, if_neg hk, if_neg (by omega), if_pos ⟨hstart, hlast⟩]

section
variable {gids : List GlyphId} (hspans : site.Spans f gids)
include hspans

theorem remnant?_start (ligature : Ligature) (run : Run α) (glyph : Glyph α) :
    ligature.remnant? site run glyph site.start =
      some (ligature.merge glyph (site.components.filterMap (run[·]?))) := by
  have hmem : site.start ∉ site.components := fun hmem =>
    Nat.lt_irrefl _ ((hspans.mem_iff _).1 hmem).1
  rw [remnant?, if_neg hmem, if_pos rfl]

/-- What stands before the ligature, or after its last component, is left as it is. -/
theorem remnant?_of_outside (ligature : Ligature) (run : Run α) (glyph : Glyph α)
    (hk : k < site.start ∨ site.last < k) : ligature.remnant? site run glyph k = some glyph := by
  have hle := hspans.start_le_last
  have hmem : k ∉ site.components := fun hmem => by
    obtain ⟨hstart, hlast, -⟩ := (hspans.mem_iff k).1 hmem
    omega
  rw [remnant?, if_neg hmem, if_neg (by omega), if_neg (by omega)]

theorem remnants_of_last_lt (ligature : Ligature) (run stretch : Run α) (hk : site.last < k) :
    ligature.remnants site run stretch k = stretch :=
  remnants_eq_self fun glyph _ hp _ =>
    remnant?_of_outside hspans ligature run glyph (Or.inr (by omega))

/-- The run before the ligature stays, then comes the ligature, and then what is left after it. -/
theorem formAt_append (ligature : Ligature) (before : Run α) (head : Glyph α) (rest : Run α)
    (hstart : site.start = before.length) :
    ligature.formAt site (before ++ head :: rest) =
      before ++
        ligature.merge head (site.components.filterMap ((before ++ head :: rest)[·]?)) ::
          ligature.remnants site (before ++ head :: rest) rest (site.start + 1) := by
  have hbefore : ligature.remnants site (before ++ head :: rest) before 0 = before :=
    remnants_eq_self fun glyph p _ hp =>
      remnant?_of_outside hspans ligature _ glyph (Or.inl (by omega))
  rw [formAt, remnants_append, remnants_cons, hbefore, Nat.zero_add, ← hstart,
    remnant?_start hspans]
  rfl

/-! ## The walk -/

omit [Payload α] in
theorem toWord_taken (hsize : site.components.length ≤ UInt16.size) (hstart : site.start < k)
    (hk : k ≤ site.last) : toWord (site.taken k) = .ok (UInt16.ofNat (site.taken k)) := by
  have hlt := hspans.taken_lt_length hstart hk
  rw [toWord_eq_ok_iff, UInt16.toNat_ofNat_of_lt' (by omega)]

end

/-- Where the walk has come to position `k` it has taken in the components before `k`.  It goes on
to take in those from `k` on, and to leave what is left there. -/
theorem absorbFrom_drop (hspans : site.Spans f run.gids) (ligature : Ligature)
    (hsize : site.components.length ≤ UInt16.size) (hlast : site.last < run.length)
    (hstart : site.start < k) (head : Glyph α) :
    absorbFrom f site.components.length (site.taken k) head (run.drop k) =
      ⟨((site.onwards k).filterMap (run[·]?)).foldl Glyph.absorb head,
        ligature.remnants site run (run.drop k) k, .ok (site.passed f run.gids k)⟩ := by
  induction hn : site.last + 1 - k generalizing k head with
  | zero =>
    have hover : site.last < k := by omega
    rw [absorbFrom_of_le f (hspans.taken_eq_length hover).ge, hspans.onwards_of_last_lt hover,
      remnants_of_last_lt hspans ligature run _ hover, site.passed_of_last_le (by omega)]
    rfl
  | succ n ih =>
    have hle : k ≤ site.last := by omega
    have hlt : k < run.length := by omega
    have hmore := hspans.taken_lt_length hstart hle
    have hnext := fun head => ih (k := k + 1) (by omega) head (by omega)
    have hthere : run[k]? = some run[k] := List.getElem?_eq_getElem hlt
    rw [List.drop_eq_getElem_cons hlt, absorbFrom, if_neg (by omega), remnants_cons,
      ← Run.seesAt_of_getElem? hthere]
    rcases hspans.component_or_passed hstart hle with ⟨hk, hsees, hpassed⟩ |
      ⟨hk, hsees, hbefore, hpassed⟩
    · rw [if_pos hsees, ← hspans.taken_succ_of_mem hk, hnext, hspans.onwards_of_mem hk,
        remnant?_of_mem ligature run _ hk, hpassed, List.filterMap_cons, hthere]
      rfl
    · have hplace := toWord_taken hspans hsize hstart hle
      rw [if_neg (Bool.eq_false_iff.1 hsees), hplace,
        remnant?_of_passed ligature run _ hk hstart hbefore, LigatureSite.onwards_of_not_mem hk,
        hpassed]
      rw [LigatureSite.taken_succ_of_not_mem hk] at hnext
      simp only [hnext]
      rfl

/-- Behind the glyphs that are passed over stands what followed the last component. -/
theorem drop_remnants (hspans : site.Spans f run.gids) (ligature : Ligature)
    (hlast : site.last < run.length) (hstart : site.start < k) (hk : k ≤ site.last + 1) :
    (ligature.remnants site run (run.drop k) k).drop (site.passed f run.gids k) =
      run.drop (site.last + 1) := by
  induction hn : site.last + 1 - k generalizing k with
  | zero =>
    obtain rfl : k = site.last + 1 := by omega
    rw [remnants_of_last_lt hspans ligature run _ (Nat.lt_succ_self _),
      site.passed_of_last_le (Nat.le_succ _), List.drop_zero]
  | succ n ih =>
    have hlt : k < run.length := by omega
    have hnext := ih (k := k + 1) (by omega) (by omega) (by omega)
    rw [List.drop_eq_getElem_cons hlt, remnants_cons]
    rcases hspans.component_or_passed hstart (by omega) with ⟨hk, -, hpassed⟩ |
      ⟨hk, -, hbefore, hpassed⟩
    · rw [remnant?_of_mem ligature run _ hk, hpassed]
      exact hnext
    · rw [remnant?_of_passed ligature run _ hk hstart hbefore, hpassed]
      exact hnext

omit [Payload α] in
theorem drop_start_succ {before : Run α} {head : Glyph α} {rest : Run α}
    (hstart : site.start = before.length) :
    (before ++ head :: rest).drop (site.start + 1) = rest := by
  rw [hstart, ← List.drop_drop, List.drop_left]
  rfl

/-- Forming a ligature leaves the run as `formAt` says, and counts the glyphs passed over. -/
theorem fuse_eq_formAt {before : Run α} {head : Glyph α} {rest : Run α}
    (hspans : site.Spans f (Run.gids (before ++ head :: rest)))
    (hstart : site.start = before.length)
    (hlength : site.components.length = ligature.components.length)
    (hsize : ligature.components.length ≤ UInt16.size)
    (hlast : site.last < (before ++ head :: rest).length) :
    before ++ (ligature.fuse f head rest).run = ligature.formAt site (before ++ head :: rest) ∧
      (ligature.fuse f head rest).result =
        .ok (site.passed f (Run.gids (before ++ head :: rest)) (site.start + 1)) := by
  have hwalk := absorbFrom_drop hspans ligature (hlength ▸ hsize) hlast (Nat.lt_succ_self _) head
  rw [drop_start_succ hstart, hspans.taken_of_le_start (Nat.le_refl _), hspans.onwards_start,
    hlength] at hwalk
  rw [fuse, hwalk, formAt_append hspans ligature before head rest hstart]
  exact ⟨by rw [asLigature_foldl_absorb], rfl⟩

/-- A ligature merges exactly what it matched.  Where it begins stands what `merge` says, for the
glyphs at its components, which are the first seen positions after that; the components are gone,
and the glyphs that were passed over are told how many components stood before them, a number that a
word can hold.  All else is as before, and in order; the walk that removes components from the run
as it goes leaves just this.  What is told is the number of glyphs passed over between the start and
the last component, and right behind these stands what followed the last component. -/
theorem forms_what_it_matched (ligature : Ligature) (f : GlyphFilter) (run : Run α) (i : Nat)
    (hsize : ligature.components.length ≤ UInt16.size) (hi : i < run.length)
    (hmatch : ligature.matchesAt f run.gids i = true) :
    let site := ligature.site f run.gids i
    let passed := (List.range' (i + 1) (site.last - (i + 1))).countP fun p => !f.seesAt run.gids p
    site.components.length = ligature.components.length ∧
      ligature.applyAt f run i = ⟨ligature.formAt site run, .ok (some passed)⟩ ∧
      ByPosition.fuse ligature f run i = some ⟨ligature.formAt site run, .ok passed⟩ ∧
      (∀ p ≤ site.last, (UInt16.ofNat (site.taken p)).toNat = site.taken p) ∧
      (ligature.formAt site run).drop (i + passed + 1) = run.drop (site.last + 1) := by
  have hspans := site_spans hmatch
  have hlength := length_components_site hmatch
  have hlast : (ligature.site f run.gids i).last < run.length := by
    rw [← Run.length_gids]
    exact GlyphFilter.reached_lt_length (by rw [Run.length_gids]; exact hi)
  have hword : ∀ p ≤ (ligature.site f run.gids i).last,
      (UInt16.ofNat ((ligature.site f run.gids i).taken p)).toNat =
        (ligature.site f run.gids i).taken p := by
    intro p hp
    refine UInt16.toNat_ofNat_of_lt' ?_
    rcases Nat.lt_or_ge i p with hafter | hbefore
    · exact Nat.lt_of_lt_of_le (hspans.taken_lt_length hafter hp) (hlength ▸ hsize)
    · rw [hspans.taken_of_le_start (Nat.le_succ_of_le hbefore)]
      exact Nat.zero_lt_succ _
  obtain ⟨before, head, rest, rfl, rfl⟩ := exists_append_of_lt hi
  obtain ⟨hrun, hresult⟩ := fuse_eq_formAt hspans rfl hlength hsize hlast
  refine ⟨hlength, ?_, ?_, hword, ?_⟩
  · rw [applyAt, editAt_append, if_pos hmatch]
    dsimp only
    rw [hrun, hresult]
    rfl
  · rw [ByPosition.fuse_eq, hrun, hresult]
    rfl
  · have hbehind := drop_remnants hspans ligature hlast (Nat.lt_succ_self _)
      (Nat.succ_le_succ hspans.start_le_last)
    rw [drop_start_succ rfl] at hbehind
    rw [formAt_append hspans ligature before head rest rfl, Nat.add_assoc, ← List.drop_drop,
      List.drop_left]
    exact hbehind

/-- A ligature of 4, 5 and 6 where glyphs 2 are not seen: the first is passed over before the 5 and
the other two after it. -/
theorem forms_across_unseen :
    let f : GlyphFilter := ⟨fun g => g != 2⟩
    let run : Run (List Nat) := [⟨9, ['i'], 0, .direct, {}, [0]⟩, ⟨4, ['a'], 7, .char 'a', {}, [1]⟩,
      .ofChar 'x' 2 [2], .ofChar 'b' 5 [3], .ofChar 'y' 2 [4], .ofChar 'z' 2 [5],
      .ofChar 'c' 6 [6], .ofChar 'w' 2 [7]]
    (⟨45, [5, 6]⟩ : Ligature).matchesAt f run.gids 1 = true ∧
      (⟨45, [5, 6]⟩ : Ligature).applyAt f run 1 =
        ⟨[⟨9, ['i'], 0, .direct, {}, [0]⟩,
            ⟨45, ['a', 'b', 'c'], 7, .direct, { ligature := true }, [1, 3, 6]⟩,
            .ofChar 'x' 2 [2], { Glyph.ofChar 'y' 2 [4] with ligatureComponent := 1 },
            { Glyph.ofChar 'z' 2 [5] with ligatureComponent := 1 }, .ofChar 'w' 2 [7]],
          .ok (some 3)⟩ := by
  intro f run
  have hmatch : (⟨45, [5, 6]⟩ : Ligature).matchesAt f run.gids 1 = true := by decide
  obtain ⟨-, hforms, -⟩ :=
    forms_what_it_matched ⟨45, [5, 6]⟩ f run 1 (by decide) (by decide) hmatch
  exact ⟨hmatch, hforms.trans (by decide)⟩

end Ligature

end GlyphSubstitution
