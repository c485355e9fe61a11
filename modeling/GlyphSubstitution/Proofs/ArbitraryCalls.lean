import GlyphSubstitution.Proofs.ScanProgress

/-!
# Whatever nested calls do

Contextual substitution hands its run to whoever answers nested calls.  An answer may insert, remove
or replace glyphs anywhere in the run, may fail, and may depend on everything that has happened
before: the applier has a memory of any kind.  This file says what holds all the same.

`Progress` is how far the records of a rule have come with such an applier, and `Progress.step` is
what is done next; `Progress.outcome_eq` cuts a run of `applyRecordsM` up into these steps.  What
`Progress.Sound` lists is preserved by each step, whatever the answer, and so holds at all times.
-/

namespace GlyphSubstitution

universe u

variable {α σ : Type u}

/-! ## Tracked positions -/

/-- Positions in order stay in order. -/
theorem pairwise_shiftAfter {positions : List Nat} (h : positions.Pairwise (· ≤ ·)) (k : Nat)
    (delta : Int) : (shiftAfter positions k delta).Pairwise (· ≤ ·) := by
  unfold shiftAfter
  split
  · exact h
  · next floor hfloor =>
    obtain ⟨hk, rfl⟩ := List.getElem?_eq_some_iff.1 hfloor
    refine List.pairwise_append.2 ⟨h.sublist (List.take_sublist _ _), ?_, ?_⟩
    · refine (h.sublist (List.drop_sublist (k + 1) positions)).map _ fun p q hpq => ?_
      omega
    · intro p hp q hq
      obtain ⟨q', -, rfl⟩ := List.mem_map.1 hq
      have hfront : p ≤ positions[k] := by
        rw [List.take_succ_eq_append_getElem hk] at hp
        rcases List.mem_append.1 hp with hbefore | hlast
        · have hsplit := h
          rw [← List.take_append_drop k positions, List.drop_eq_getElem_cons hk] at hsplit
          exact (List.pairwise_append.1 hsplit).2.2 p hbefore _ List.mem_cons_self
        · rw [List.mem_singleton.1 hlast]
      exact hfront.trans (Nat.le_max_left _ _)

/-- The first position is never moved. -/
theorem head?_shiftAfter (positions : List Nat) (k : Nat) (delta : Int) :
    (shiftAfter positions k delta).head? = positions.head? := by
  unfold shiftAfter
  split
  · rfl
  · cases positions with
    | nil => next hfloor => nomatch hfloor
    | cons p positions => rfl

/-! ## Appliers with a memory -/

/-- The applier that answers as another does and keeps a log of the calls. -/
def logging (nested : ApplierM (StateM σ) α) : ApplierM (StateM (σ × List (NestedCall α))) α :=
  fun call => do
    let (memory, calls) ← get
    let (o, memory) := (nested call).run memory
    set (memory, calls ++ [call])
    return o

theorem run_logging (nested : ApplierM (StateM σ) α) (call : NestedCall α) (memory : σ)
    (calls : List (NestedCall α)) :
    (logging nested call).run (memory, calls) =
      (((nested call).run memory).1, ((nested call).run memory).2, calls ++ [call]) :=
  rfl

theorem applyRecordsM_cons_run (nested : ApplierM (StateM σ) α) (limit : Nat)
    (record : SequenceLookup) (rest : List SequenceLookup) (a : Application α) (memory : σ) :
    (applyRecordsM nested limit (record :: rest) a).run memory =
      match a.target? record with
      | none => (applyRecordsM nested limit rest a).run memory
      | some index =>
        let answer :=
          (nested { lookup := record.lookupIndex.toNat, limit, index, run := a.run }).run memory
        match answer.1.result with
        | .error e => (⟨answer.1.run, .error e⟩, answer.2)
        | .ok changed =>
          (applyRecordsM nested limit rest (a.afterCall record answer.1.run changed)).run
            answer.2 := by
  rw [applyRecordsM]
  cases a.target? record with
  | none => rfl
  | some index =>
    dsimp only
    rw [StateT.run_bind]
    dsimp only [bind]
    generalize (nested _).run memory = answer
    obtain ⟨⟨run, result⟩, memory'⟩ := answer
    cases result with
    | error e => rfl
    | ok changed => rfl

/-- Keeping a log makes no difference to what is logged. -/
theorem applyRecordsM_logging (nested : ApplierM (StateM σ) α) (limit : Nat)
    (records : List SequenceLookup) (a : Application α) (memory : σ)
    (calls : List (NestedCall α)) :
    ((applyRecordsM (logging nested) limit records a).run (memory, calls)).map id Prod.fst =
      (applyRecordsM nested limit records a).run memory := by
  induction records generalizing a memory calls with
  | nil => rfl
  | cons record rest ih =>
    rw [applyRecordsM_cons_run, applyRecordsM_cons_run]
    cases a.target? record with
    | none => exact ih a memory calls
    | some index =>
      dsimp only
      rw [run_logging]
      generalize (nested _).run memory = answer
      obtain ⟨⟨run, result⟩, memory'⟩ := answer
      cases result with
      | error e => rfl
      | ok changed => exact ih _ memory' _

/-! ## Working off records, step by step -/

/-- How far the records of a rule have been worked off: the records that are left, what is kept
between calls, what the applier remembers, and the calls that it has been given. -/
structure Progress (σ α : Type u) where
  pending : List SequenceLookup
  application : Application α
  memory : σ
  calls : List (NestedCall α) := []

/-- What one step of working off records leads to. -/
inductive ProgressStep (σ α : Type u) where
  /-- It is over, with all records worked off or with an error. -/
  | stopped (outcome : Outcome α Bool) (memory : σ) (calls : List (NestedCall α))
  /-- It goes on from here. -/
  | moved (next : Progress σ α)

namespace Progress

variable {nested : ApplierM (StateM σ) α} {limit start : Nat} {records : List SequenceLookup}
  {p p' next : Progress σ α} {o : Outcome α Bool} {memory : σ} {calls : List (NestedCall α)}

/-- The call for a record that is to be carried out at a position. -/
def callFor (limit : Nat) (p : Progress σ α) (record : SequenceLookup) (index : Nat) :
    NestedCall α :=
  { lookup := record.lookupIndex.toNat, limit, index, run := p.application.run }

/-- One step of working off records: the next one is left out or becomes a call. -/
def step (nested : ApplierM (StateM σ) α) (limit : Nat) (p : Progress σ α) : ProgressStep σ α :=
  match p.pending with
  | [] => .stopped ⟨p.application.run, .ok p.application.changed⟩ p.memory p.calls
  | record :: rest =>
    match p.application.target? record with
    | none => .moved { p with pending := rest }
    | some index =>
      let call := p.callFor limit record index
      let answer := (nested call).run p.memory
      match answer.1.result with
      | .error e => .stopped ⟨answer.1.run, .error e⟩ answer.2 (p.calls ++ [call])
      | .ok changed =>
        .moved ⟨rest, p.application.afterCall record answer.1.run changed, answer.2,
          p.calls ++ [call]⟩

/-- Working off records goes from the first state to the second, in any number of steps. -/
def Reaches (nested : ApplierM (StateM σ) α) (limit : Nat) : Progress σ α → Progress σ α → Prop :=
  Relation.ReflTransGen fun p next => p.step nested limit = .moved next

/-- What working off the records that are left comes to. -/
def outcome (nested : ApplierM (StateM σ) α) (limit : Nat) (p : Progress σ α) :
    Outcome α Bool × σ × List (NestedCall α) :=
  (applyRecordsM (logging nested) limit p.pending p.application).run (p.memory, p.calls)

theorem outcome_eq (p : Progress σ α) :
    p.outcome nested limit =
      match p.step nested limit with
      | .stopped o memory calls => (o, memory, calls)
      | .moved next => next.outcome nested limit := by
  obtain ⟨pending, application, memory, calls⟩ := p
  cases pending with
  | nil => rfl
  | cons record rest =>
    rw [outcome, step, applyRecordsM_cons_run]
    dsimp only
    cases application.target? record with
    | none => rfl
    | some index =>
      dsimp only
      rw [run_logging, callFor]
      generalize (nested _).run memory = answer
      obtain ⟨⟨run, result⟩, memory'⟩ := answer
      cases result with
      | error e => rfl
      | ok changed => rfl

theorem outcome_of_reaches (h : Reaches nested limit p p') :
    p'.outcome nested limit = p.outcome nested limit := by
  induction h with
  | refl => rfl
  | @tail there next _ hstep ih =>
    rw [← ih, outcome_eq there, hstep]

theorem step_of_pending_nil (h : p.pending = []) :
    p.step nested limit =
      .stopped ⟨p.application.run, .ok p.application.changed⟩ p.memory p.calls := by
  rw [step, h]

section

variable {record : SequenceLookup} {rest : List SequenceLookup} {index : Nat} {run : Run α}
  (hpending : p.pending = record :: rest)

include hpending

theorem step_of_target?_eq_none (htarget : p.application.target? record = none) :
    p.step nested limit = .moved { p with pending := rest } := by
  rw [step, hpending]
  dsimp only
  rw [htarget]

theorem step_of_call (htarget : p.application.target? record = some index) {changed : Bool}
    (hanswer : (nested (p.callFor limit record index)).run p.memory =
      (⟨run, .ok changed⟩, memory)) :
    p.step nested limit = .moved ⟨rest, p.application.afterCall record run changed, memory,
      p.calls ++ [p.callFor limit record index]⟩ := by
  rw [step, hpending]
  dsimp only
  rw [htarget]
  dsimp only
  rw [hanswer]

theorem step_of_failure (htarget : p.application.target? record = some index) {e : ShapingError}
    (hanswer : (nested (p.callFor limit record index)).run p.memory =
      (⟨run, .error e⟩, memory)) :
    p.step nested limit =
      .stopped ⟨run, .error e⟩ memory (p.calls ++ [p.callFor limit record index]) := by
  rw [step, hpending]
  dsimp only
  rw [htarget]
  dsimp only
  rw [hanswer]

end

/-- All that one step can do, whatever the answer. -/
theorem step_cases (nested : ApplierM (StateM σ) α) (limit : Nat) (p : Progress σ α) :
    (p.pending = [] ∧ p.step nested limit =
        .stopped ⟨p.application.run, .ok p.application.changed⟩ p.memory p.calls) ∨
      ∃ record rest, p.pending = record :: rest ∧
        (p.application.target? record = none ∧
            p.step nested limit = .moved { p with pending := rest } ∨
          ∃ index run memory, p.application.target? record = some index ∧
            ((∃ e, p.step nested limit = .stopped ⟨run, .error e⟩ memory
                  (p.calls ++ [p.callFor limit record index])) ∨
              ∃ changed, p.step nested limit = .moved
                  ⟨rest, p.application.afterCall record run changed, memory,
                    p.calls ++ [p.callFor limit record index]⟩)) := by
  cases hpending : p.pending with
  | nil => exact Or.inl ⟨rfl, step_of_pending_nil hpending⟩
  | cons record rest =>
    refine Or.inr ⟨record, rest, rfl, ?_⟩
    cases htarget : p.application.target? record with
    | none => exact Or.inl ⟨rfl, step_of_target?_eq_none hpending htarget⟩
    | some index =>
      cases hanswer : (nested (p.callFor limit record index)).run p.memory with
      | mk answer memory =>
        obtain ⟨run, result⟩ := answer
        refine Or.inr ⟨index, run, memory, rfl, ?_⟩
        cases result with
        | error e => exact Or.inl ⟨e, step_of_failure hpending htarget hanswer⟩
        | ok changed => exact Or.inr ⟨changed, step_of_call hpending htarget hanswer⟩

/-- What holds while records are worked off, whatever the calls do. -/
structure Sound (limit start : Nat) (records : List SequenceLookup) (p : Progress σ α) : Prop where
  /-- The start glyph is tracked where the match began, and the others in order. -/
  head : p.application.positions.head? = some start
  ordered : p.application.positions.Pairwise (· ≤ ·)
  /-- Every record that is left addresses one of them. -/
  addressed : ∀ record ∈ p.pending,
    record.sequenceIndex.toNat < p.application.positions.length
  /-- Calls have been made for some of the records before those that are left, in order. -/
  inOrder : ∃ done, done ++ p.pending = records ∧
    (p.calls.map (·.lookup)).Sublist (done.map (·.lookupIndex.toNat))
  /-- Each call was made inside the run, not left of the match, and with the same limit. -/
  inside : ∀ call ∈ p.calls,
    call.limit = limit ∧ start ≤ call.index ∧ call.index < call.run.length

theorem Sound.start_le (h : p.Sound limit start records) :
    ∀ q ∈ p.application.positions, start ≤ q := by
  intro q hq
  have hhead := h.head
  have hordered := h.ordered
  cases hpositions : p.application.positions with
  | nil =>
    rw [hpositions] at hq
    nomatch hq
  | cons first rest =>
    rw [hpositions] at hhead hordered hq
    obtain rfl : first = start := Option.some.inj hhead
    rcases List.mem_cons.1 hq with rfl | hrest
    · exact Nat.le_refl _
    · exact (List.pairwise_cons.1 hordered).1 q hrest

/-- A record that is left has a tracked position, and it is carried out there exactly if that is
still inside the run. -/
theorem Sound.exists_position (h : p.Sound limit start records) {record : SequenceLookup}
    {rest : List SequenceLookup} (hpending : p.pending = record :: rest) :
    ∃ position, p.application.positions[record.sequenceIndex.toNat]? = some position ∧
      start ≤ position ∧
      p.application.target? record =
        if position < p.application.run.length then some position else none := by
  have haddressed := h.addressed record (by rw [hpending]; exact List.mem_cons_self)
  have hposition := List.getElem?_eq_getElem haddressed
  refine ⟨_, hposition, h.start_le _ (List.getElem_mem haddressed), ?_⟩
  rw [Application.target?, hposition, Option.filter_some]
  simp only [decide_eq_true_eq]

/-- Whatever was sound before a step that makes a call is sound with that call added. -/
theorem Sound.call (h : p.Sound limit start records) {record : SequenceLookup}
    {rest : List SequenceLookup} (hpending : p.pending = record :: rest) {index : Nat}
    (htarget : p.application.target? record = some index) :
    (∃ done, done ++ rest = records ∧
        ((p.calls ++ [p.callFor limit record index]).map (·.lookup)).Sublist
          (done.map (·.lookupIndex.toNat))) ∧
      ∀ call ∈ p.calls ++ [p.callFor limit record index],
        call.limit = limit ∧ start ≤ call.index ∧ call.index < call.run.length := by
  obtain ⟨hposition, hinside⟩ := Application.target?_eq_some_iff.1 htarget
  obtain ⟨done, hdone, hcalls⟩ := h.inOrder
  constructor
  · refine ⟨done ++ [record], ?_, ?_⟩
    · rw [← hdone, hpending, List.append_assoc]
      rfl
    · rw [List.map_append, List.map_append]
      exact hcalls.append (List.Sublist.refl _)
  · intro call hcall
    rcases List.mem_append.1 hcall with hbefore | hlast
    · exact h.inside call hbefore
    · rw [List.mem_singleton.1 hlast]
      exact ⟨rfl, h.start_le index (List.mem_of_getElem? hposition), hinside⟩

/-- Each step preserves what holds while records are worked off. -/
theorem Sound.of_moved (h : p.Sound limit start records)
    (hstep : p.step nested limit = .moved next) : next.Sound limit start records := by
  rcases step_cases nested limit p with ⟨-, hstop⟩ | ⟨record, rest, hpending, hrecord⟩
  · rw [hstop] at hstep
    nomatch hstep
  have hlater : ∀ later ∈ rest, later.sequenceIndex.toNat < p.application.positions.length :=
    fun later hlater => h.addressed later (by rw [hpending]; exact List.mem_cons_of_mem _ hlater)
  rcases hrecord with ⟨-, hout⟩ | ⟨index, run, memory, htarget, hanswer⟩
  · -- the record is left out
    rw [hout] at hstep
    obtain rfl := ProgressStep.moved.inj hstep
    obtain ⟨done, hdone, hcalls⟩ := h.inOrder
    refine ⟨h.head, h.ordered, hlater, ⟨done ++ [record], ?_, ?_⟩, h.inside⟩
    · rw [← hdone, hpending, List.append_assoc]
      rfl
    · rw [List.map_append]
      exact hcalls.trans (List.sublist_append_left _ _)
  · obtain ⟨hinOrder, hinside⟩ := h.call hpending htarget
    rcases hanswer with ⟨e, hstop⟩ | ⟨changed, hmoved⟩
    · rw [hstop] at hstep
      nomatch hstep
    · rw [hmoved] at hstep
      obtain rfl := ProgressStep.moved.inj hstep
      refine ⟨?_, pairwise_shiftAfter h.ordered _ _, fun later hmem => ?_, hinOrder, hinside⟩
      · exact (head?_shiftAfter _ _ _).trans h.head
      · show _ < (shiftAfter _ _ _).length
        rw [length_shiftAfter]
        exact hlater later hmem

/-- What holds at the beginning holds all the time, whatever the calls do. -/
theorem Sound.of_reaches (h : p.Sound limit start records) (hreaches : Reaches nested limit p p') :
    p'.Sound limit start records := by
  induction hreaches with
  | refl => exact h
  | tail _ hstep ih => exact ih.of_moved hstep

/-- The calls that have been made in the end. -/
theorem Sound.of_stopped (h : p.Sound limit start records)
    (hstop : p.step nested limit = .stopped o memory calls) :
    (calls.map (·.lookup)).Sublist (records.map (·.lookupIndex.toNat)) ∧
      ∀ call ∈ calls, call.limit = limit ∧ start ≤ call.index ∧ call.index < call.run.length := by
  rcases step_cases nested limit p with ⟨hpending, hdone⟩ | ⟨record, rest, hpending, hrecord⟩
  · rw [hdone] at hstop
    obtain ⟨-, -, rfl⟩ := ProgressStep.stopped.inj hstop
    obtain ⟨done, hall, hcalls⟩ := h.inOrder
    rw [hpending, List.append_nil] at hall
    exact ⟨hall ▸ hcalls, h.inside⟩
  · rcases hrecord with ⟨-, hout⟩ | ⟨index, run, memory, htarget, ⟨e, hfailed⟩ | ⟨changed, hmoved⟩⟩
    · rw [hout] at hstop
      nomatch hstop
    · rw [hfailed] at hstop
      obtain ⟨-, -, rfl⟩ := ProgressStep.stopped.inj hstop
      obtain ⟨⟨done, hall, hcalls⟩, hinside⟩ := h.call hpending htarget
      refine ⟨hcalls.trans ?_, hinside⟩
      rw [← hall, List.map_append]
      exact List.sublist_append_left _ _
    · rw [hmoved] at hstop
      nomatch hstop

/-- Working off records comes to an end. -/
theorem exists_stopped (nested : ApplierM (StateM σ) α) (limit : Nat) (p : Progress σ α) :
    ∃ p' o memory calls, Reaches nested limit p p' ∧
      p'.step nested limit = .stopped o memory calls := by
  induction hleft : p.pending generalizing p with
  | nil =>
    rcases step_cases nested limit p with ⟨-, hstop⟩ | ⟨record, rest, hpending, -⟩
    · exact ⟨p, _, _, _, Relation.ReflTransGen.refl, hstop⟩
    · rw [hleft] at hpending
      nomatch hpending
  | cons first left ih =>
    rcases step_cases nested limit p with ⟨hpending, -⟩ | ⟨record, rest, hpending, hrecord⟩
    · rw [hleft] at hpending
      nomatch hpending
    obtain ⟨rfl, rfl⟩ := List.cons.inj (hleft.symm.trans hpending)
    have hon : ∀ next : Progress σ α, p.step nested limit = .moved next → next.pending = left →
        ∃ p' o memory calls, Reaches nested limit p p' ∧
          p'.step nested limit = .stopped o memory calls := by
      intro next hstep hnext
      obtain ⟨p', o, memory, calls, hreaches, hstop⟩ := ih next hnext
      exact ⟨p', o, memory, calls, Relation.ReflTransGen.head hstep hreaches, hstop⟩
    rcases hrecord with ⟨-, hout⟩ | ⟨index, run, memory, -, ⟨e, hstop⟩ | ⟨changed, hmoved⟩⟩
    · exact hon _ hout rfl
    · exact ⟨p, _, _, _, Relation.ReflTransGen.refl, hstop⟩
    · exact hon _ hmoved rfl

end Progress

/-! ## One match -/

section

variable {tables : List ContextSubtable} {f : GlyphFilter} {run : Run α} {i : Nat}
  {found : RuleMatch}

/-- The beginning of working off the records of a match. -/
def Progress.begin (found : RuleMatch) (run : Run α) (memory : σ) : Progress σ α :=
  { pending := found.records, application := { run, positions := found.context.positions }, memory }

theorem Progress.sound_begin (h : selectRule? tables f run.gids i = some found) (limit : Nat)
    (memory : σ) : (begin found run memory).Sound limit i found.records := by
  obtain ⟨table, -, rule, hrule, hmatch, hrecords⟩ := exists_rule_of_selectRule? h
  have hcontext := (ContextPattern.match?_eq_some_iff_metAt.1 hmatch).2
  have hlength : found.context.positions.length = rule.inputLength :=
    ContextPattern.length_positions_of_match? hmatch
  refine ⟨?_, (ContextPattern.pairwise_positions hmatch).imp Nat.le_of_lt, fun record hrecord => ?_,
    ⟨[], rfl, List.Sublist.refl _⟩, nofun⟩
  · show found.context.positions.head? = some i
    rw [hcontext]
    rfl
  · show _ < found.context.positions.length
    rw [hlength]
    refine ContextSubtable.addressesInput_of_mem hrule record ?_
    rw [hrecords]
    exact hrecord

theorem applyContextualM_run (h : selectRule? tables f run.gids i = some found)
    (nested : ApplierM (StateM σ) α) (limit : Nat) (memory : σ) :
    (applyContextualM nested limit tables f run i).run memory =
      ((applyRecordsM nested limit found.records
          { run, positions := found.context.positions }).run memory).map
        (·.map fun changed => some { width := found.context.length, changed }) id := by
  rw [applyContextualM, h]
  rfl

theorem applyContextualM_run_of_none (h : selectRule? tables f run.gids i = none)
    (nested : ApplierM (StateM σ) α) (limit : Nat) (memory : σ) :
    (applyContextualM nested limit tables f run i).run memory = (⟨run, .ok none⟩, memory) := by
  rw [applyContextualM, h]
  rfl

/-- Applying a rule comes to what working off its records comes to, with the length that the match
had at the beginning. -/
theorem applyContextualM_of_reaches (h : selectRule? tables f run.gids i = some found)
    {nested : ApplierM (StateM σ) α} {limit : Nat} {memory memory' : σ} {p : Progress σ α}
    (hp : Progress.Reaches nested limit (.begin found run memory) p) {o : Outcome α Bool}
    {calls : List (NestedCall α)} (hstop : p.step nested limit = .stopped o memory' calls) :
    (applyContextualM (logging nested) limit tables f run i).run (memory, []) =
        (o.map fun changed => some { width := found.context.length, changed }, memory', calls) ∧
      (applyContextualM nested limit tables f run i).run memory =
        (o.map fun changed => some { width := found.context.length, changed }, memory') := by
  have houtcome : (applyRecordsM (logging nested) limit found.records
      { run, positions := found.context.positions }).run (memory, []) = (o, memory', calls) := by
    have hsame := Progress.outcome_of_reaches hp
    rw [Progress.outcome_eq p, hstop] at hsame
    exact hsame.symm
  have hplain := applyRecordsM_logging nested limit found.records
    { run, positions := found.context.positions } memory []
  rw [applyContextualM_run h, applyContextualM_run h, ← hplain, houtcome]
  exact ⟨rfl, rfl⟩

end

/-! ## Passes -/

namespace Scan

variable {f : GlyphFilter} {visit : VisitM (StateM σ) α} {s : Scan α} {memory memory' : σ}

/-- The scan takes one step that goes on, and leaves the memory of its visits in this state. -/
def MovesTo (f : GlyphFilter) (visit : VisitM (StateM σ) α) (s next : Scan α × σ) : Prop :=
  (s.1.stepM f visit).run s.2 = (.moved next.1, next.2)

theorem stepM_run (f : GlyphFilter) (visit : VisitM (StateM σ) α) (s : Scan α) (memory : σ) :
    (s.stepM f visit).run memory =
      if s.cursor < s.run.length then
        if f.seesAt s.run.gids s.cursor then
          (s.after ((visit s.run s.cursor).run memory).1, ((visit s.run s.cursor).run memory).2)
        else (.moved s.pass, memory)
      else (.stopped ⟨s.run, .ok s.changed⟩, memory) := by
  rw [stepM]
  by_cases hcursor : s.cursor < s.run.length
  · have hglyph : s.run[s.cursor]? = some s.run[s.cursor] := List.getElem?_eq_getElem hcursor
    rw [GlyphFilter.seesAt, Run.getElem?_gids, hglyph, if_pos hcursor]
    dsimp only [Option.map_some, Option.any_some]
    split <;> rfl
  · rw [List.getElem?_eq_none (Nat.not_lt.1 hcursor), if_neg hcursor]
    rfl

theorem finishM_succ_run (f : GlyphFilter) (visit : VisitM (StateM σ) α) (budget : Nat)
    (s : Scan α) (memory : σ) :
    (finishM f visit (budget + 1) s).run memory =
      match (s.stepM f visit).run memory with
      | (.stopped o, memory') => (some o, memory')
      | (.moved next, memory') => (finishM f visit budget next).run memory' := by
  rw [finishM, StateT.run_bind]
  dsimp only [bind]
  generalize (s.stepM f visit).run memory = answer
  obtain ⟨_ | _, memory'⟩ := answer
  · rfl
  · rfl

/-- A scan comes to what its way stops with, if the budget allows for it. -/
theorem finishM_of_reaches {s s' : Scan α × σ} {o : Outcome α Bool} {memory : σ}
    (h : Relation.ReflTransGen (MovesTo f visit) s s')
    (hstop : (s'.1.stepM f visit).run s'.2 = (.stopped o, memory)) :
    ∃ enough, ∀ budget, enough ≤ budget →
      (finishM f visit budget s.1).run s.2 = (some o, memory) := by
  induction h using Relation.ReflTransGen.head_induction_on with
  | refl =>
    refine ⟨1, fun budget hbudget => ?_⟩
    obtain ⟨less, rfl⟩ := Nat.exists_eq_add_of_le' hbudget
    rw [finishM_succ_run, hstop]
  | head hstep _ ih =>
    obtain ⟨enough, henough⟩ := ih
    refine ⟨enough + 1, fun budget hbudget => ?_⟩
    obtain ⟨less, rfl⟩ := Nat.exists_eq_add_of_le' (Nat.le_trans (Nat.le_add_left 1 enough) hbudget)
    rw [MovesTo] at hstep
    rw [finishM_succ_run, hstep]
    exact henough less (Nat.le_of_succ_le_succ hbudget)

end Scan

section

variable {tables : List ContextSubtable} {f : GlyphFilter} {nested : ApplierM (StateM σ) α}
  {limit : Nat} {s next : Scan α × σ}

/-- By how many places a pass with contextual subtables moves on from position `i`: by the length
that a match there has in the run as it is found, and else by one. -/
def contextStride (tables : List ContextSubtable) (f : GlyphFilter) (gids : List GlyphId)
    (i : Nat) : Nat :=
  if f.seesAt gids i then (selectRule? tables f gids i).elim 1 (·.context.length) else 1

theorem one_le_contextStride (tables : List ContextSubtable) (f : GlyphFilter)
    (gids : List GlyphId) (i : Nat) : 1 ≤ contextStride tables f gids i := by
  unfold contextStride
  split
  · cases selectRule? tables f gids i with
    | none => exact Nat.le_refl 1
    | some found => exact Nat.succ_pos _
  · exact Nat.le_refl 1

theorem cursor_of_movesTo (h : Scan.MovesTo f (applyContextualM nested limit tables f) s next) :
    next.1.cursor = s.1.cursor + contextStride tables f s.1.run.gids s.1.cursor := by
  rw [Scan.MovesTo, Scan.stepM_run] at h
  split at h
  · rw [contextStride]
    split at h
    · next hsees =>
      rw [if_pos hsees]
      cases hfound : selectRule? tables f s.1.run.gids s.1.cursor with
      | none =>
        rw [applyContextualM_run_of_none hfound] at h
        rw [← ScanStep.moved.inj (Prod.mk.inj h).1]
        rfl
      | some found =>
        rw [applyContextualM_run hfound] at h
        generalize (applyRecordsM nested limit found.records _).run s.2 = answer at h
        obtain ⟨⟨run, result⟩, memory⟩ := answer
        cases result with
        | error e => nomatch (Prod.mk.inj h).1
        | ok changed =>
          rw [← ScanStep.moved.inj (Prod.mk.inj h).1]
          rfl
    · next hsees =>
      rw [if_neg hsees, ← ScanStep.moved.inj (Prod.mk.inj h).1]
      rfl
  · nomatch (Prod.mk.inj h).1

/-- A pass with contextual subtables never goes back nor stays where it is. -/
theorem cursor_lt_of_transGen
    (h : Relation.TransGen (Scan.MovesTo f (applyContextualM nested limit tables f)) s next) :
    s.1.cursor < next.1.cursor := by
  have hstep : ∀ s next : Scan α × σ,
      Scan.MovesTo f (applyContextualM nested limit tables f) s next →
        s.1.cursor < next.1.cursor := by
    intro s next hmoves
    have hstride := one_le_contextStride tables f s.1.run.gids s.1.cursor
    rw [cursor_of_movesTo hmoves]
    omega
  induction h with
  | single hmoves => exact hstep _ _ hmoves
  | tail _ hmoves ih => exact ih.trans (hstep _ _ hmoves)

end

/-- Applying contextual subtables is sound whoever answers the nested calls: whatever the applier
remembers, and whatever it does to the run.

In one match the input glyphs are tracked in order from the start of the match on, calls are made in
the order of the records with the limit unchanged, inside the run and not left of the match, and a
record is left out only if its position has been cut off.  The first call that fails ends the match
with its error and its run.  Otherwise the match is reported with the length that it had before any
call.

A pass moves on by that length, or by one glyph, and so the matches begin further and further right;
it ends with the first error. -/
theorem sound_for_all_appliers (nested : ApplierM (StateM σ) α) (limit : Nat)
    (tables : List ContextSubtable) (f : GlyphFilter) :
    (∀ (run : Run α) i found memory, selectRule? tables f run.gids i = some found →
      (∀ p, Progress.Reaches nested limit (.begin found run memory) p →
        p.Sound limit i found.records ∧
          ∀ record rest, p.pending = record :: rest → ∃ position,
            p.application.positions[record.sequenceIndex.toNat]? = some position ∧
              (p.application.run.length ≤ position →
                p.step nested limit = .moved { p with pending := rest }) ∧
              (position < p.application.run.length → ∀ run' memory',
                (∀ changed, (nested (p.callFor limit record position)).run p.memory =
                    (⟨run', .ok changed⟩, memory') →
                  p.step nested limit = .moved
                    ⟨rest, p.application.afterCall record run' changed, memory',
                      p.calls ++ [p.callFor limit record position]⟩) ∧
                ∀ e, (nested (p.callFor limit record position)).run p.memory =
                    (⟨run', .error e⟩, memory') →
                  (applyContextualM nested limit tables f run i).run memory =
                    (⟨run', .error e⟩, memory'))) ∧
        ∃ (o : Outcome α Bool) (memory' : σ) (calls : List (NestedCall α)),
          (applyContextualM nested limit tables f run i).run memory =
              (o.map fun changed => some { width := found.context.length, changed }, memory') ∧
            (applyContextualM (logging nested) limit tables f run i).run (memory, []) =
              (o.map fun changed => some { width := found.context.length, changed }, memory',
                calls) ∧
            (calls.map (·.lookup)).Sublist (found.records.map (·.lookupIndex.toNat)) ∧
            ∀ call ∈ calls, call.limit = limit ∧ i ≤ call.index ∧ call.index < call.run.length) ∧
      ∀ (run : Run α) memory s,
        Relation.ReflTransGen (Scan.MovesTo f (applyContextualM nested limit tables f))
            ({ run }, memory) s →
          (∀ next, Scan.MovesTo f (applyContextualM nested limit tables f) s next →
            next.1.cursor = s.1.cursor + contextStride tables f s.1.run.gids s.1.cursor) ∧
          (∀ later,
            Relation.TransGen (Scan.MovesTo f (applyContextualM nested limit tables f)) s later →
              s.1.cursor < later.1.cursor) ∧
          ∀ run' e memory', f.seesAt s.1.run.gids s.1.cursor = true →
            (applyContextualM nested limit tables f s.1.run s.1.cursor).run s.2 =
                (⟨run', .error e⟩, memory') →
              ∃ enough, ∀ budget, enough ≤ budget →
                (contextualPassM nested limit tables f budget run).run memory =
                  (some ⟨run', .error e⟩, memory') := by
  refine ⟨fun run i found memory hfound => ⟨fun p hp => ?_, ?_⟩,
    fun run memory s hs => ⟨fun next => cursor_of_movesTo, fun later => cursor_lt_of_transGen,
      fun run' e memory' hsees hfails => ?_⟩⟩
  · have hsound := (Progress.sound_begin hfound limit memory).of_reaches hp
    refine ⟨hsound, fun record rest hpending => ?_⟩
    obtain ⟨position, hposition, -, htarget⟩ := hsound.exists_position hpending
    refine ⟨position, hposition, fun hgone => ?_, fun hinside run' memory' =>
      ⟨fun changed hanswer => ?_, fun e hanswer => ?_⟩⟩
    · rw [if_neg (Nat.not_lt.2 hgone)] at htarget
      exact Progress.step_of_target?_eq_none hpending htarget
    · rw [if_pos hinside] at htarget
      exact Progress.step_of_call hpending htarget hanswer
    · rw [if_pos hinside] at htarget
      have hstop := Progress.step_of_failure hpending htarget hanswer
      exact (applyContextualM_of_reaches hfound hp hstop).2
  · obtain ⟨p, o, memory', calls, hp, hstop⟩ :=
      Progress.exists_stopped nested limit (.begin found run memory)
    have hsound := (Progress.sound_begin hfound limit memory).of_reaches hp
    obtain ⟨hlogged, hplain⟩ := applyContextualM_of_reaches hfound hp hstop
    exact ⟨o, memory', calls, hplain, hlogged, hsound.of_stopped hstop⟩
  · have hstop : (s.1.stepM f (applyContextualM nested limit tables f)).run s.2 =
        (.stopped ⟨run', .error e⟩, memory') := by
      rw [Scan.stepM_run, if_pos (Run.lt_length_of_seesAt hsees), if_pos hsees, hfails]
      rfl
    exact Scan.finishM_of_reaches hs hstop

/-- The applier that counts its calls.  On the first it cuts the run off before the glyph that it is
asked to edit, on the second it leaves the run alone, and after that it fails. -/
def cuttingOff : ApplierM (StateM Nat) Unit := fun call => do
  let count ← get
  set (count + 1)
  return match count with
    | 0 => ⟨call.run.take call.index, .ok false⟩
    | 1 => ⟨call.run, .ok false⟩
    | _ => ⟨call.run, .error .limitExceeded⟩

/-- Where a 5 and a 6 follow a 4, lookup 0 is asked for at the 5 and at the 6, and then lookup 1 at
the 4. -/
def cutContext : ContextSubtable :=
  ⟨Coverage.ofList [(4, [.simple [5, 6] [⟨1, 0⟩, ⟨2, 0⟩, ⟨0, 1⟩]])], by decide⟩

/-- How far the records have been worked off after the first call: only the 4 is left, and the
position kept for the 6 has been moved to the one kept for the 5. -/
def cutOff : Progress Nat Unit where
  pending := [⟨2, 0⟩, ⟨0, 1⟩]
  application := { run := [.ofId 4 ()], positions := [0, 1, 1], changed := true }
  memory := 1
  calls := [{ lookup := 0, limit := 2, index := 1, run := [.ofId 4 (), .ofId 5 (), .ofId 6 ()] }]

/-- The 6 is cut off together with the 5, so the second record is left out.  The match is as long as
it was at first.  Where the applier fails, the pass does. -/
theorem cuttingOff_sound :
    (∃ calls,
        (applyContextualM (logging cuttingOff) 2 [cutContext] ⟨fun _ => true⟩
            [Glyph.ofId 4 (), .ofId 5 (), .ofId 6 ()] 0).run (0, []) =
          (⟨[.ofId 4 ()], .ok (some { width := 3, changed := true })⟩, 2, calls) ∧
        calls.map (·.lookup) = [0, 1] ∧
        ∀ call ∈ calls, call.limit = 2 ∧ 0 ≤ call.index ∧ call.index < call.run.length) ∧
      cutOff.Sound 2 0 [⟨1, 0⟩, ⟨2, 0⟩, ⟨0, 1⟩] ∧
      cutOff.step cuttingOff 2 = .moved { cutOff with pending := [⟨0, 1⟩] } ∧
      ∃ enough, ∀ budget, enough ≤ budget →
        (contextualPassM cuttingOff 2 [cutContext] ⟨fun _ => true⟩ budget
            [Glyph.ofId 9 (), .ofId 4 (), .ofId 5 (), .ofId 6 ()]).run 2 =
          (some ⟨[.ofId 9 (), .ofId 4 (), .ofId 5 (), .ofId 6 ()], .error .limitExceeded⟩, 3) := by
  have hfound : selectRule? [cutContext] ⟨fun _ => true⟩ [4, 5, 6] 0 =
      some ⟨⟨0, [1, 2]⟩, [⟨1, 0⟩, ⟨2, 0⟩, ⟨0, 1⟩]⟩ := by decide
  obtain ⟨hmatch, hpass⟩ := sound_for_all_appliers cuttingOff 2 [cutContext] ⟨fun _ => true⟩
  obtain ⟨hway, o, memory, calls, -, hlogged, -, hinside⟩ :=
    hmatch [Glyph.ofId 4 (), .ofId 5 (), .ofId 6 ()] 0 _ 0 hfound
  refine ⟨⟨calls, ?_⟩, ?_⟩
  · obtain ⟨calls', hrun, hlookups⟩ : ∃ calls',
        (applyContextualM (logging cuttingOff) 2 [cutContext] ⟨fun _ => true⟩
            [Glyph.ofId 4 (), .ofId 5 (), .ofId 6 ()] 0).run (0, []) =
          (⟨[.ofId 4 ()], .ok (some { width := 3, changed := true })⟩, 2, calls') ∧
        calls'.map (·.lookup) = [0, 1] := ⟨_, rfl, by decide⟩
    rw [hlogged] at hrun
    obtain ⟨-, hmemory⟩ := Prod.mk.inj hrun
    obtain ⟨-, rfl⟩ := Prod.mk.inj hmemory
    exact ⟨hlogged.trans hrun, hlookups, hinside⟩
  · obtain ⟨hsound, hrecord⟩ := hway cutOff (Relation.ReflTransGen.single rfl)
    obtain ⟨position, hposition, hleftOut, -⟩ := hrecord _ _ rfl
    obtain rfl : 1 = position := Option.some.inj hposition
    obtain ⟨-, -, hfails⟩ := hpass [.ofId 9 (), .ofId 4 (), .ofId 5 (), .ofId 6 ()] 2
      ({ run := [.ofId 9 (), .ofId 4 (), .ofId 5 (), .ofId 6 ()], cursor := 1 }, 2)
      (Relation.ReflTransGen.single rfl)
    exact ⟨hsound, hleftOut (Nat.le_refl 1), hfails _ .limitExceeded 3 rfl rfl⟩

end GlyphSubstitution
