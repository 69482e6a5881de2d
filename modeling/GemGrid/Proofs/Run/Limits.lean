import GemGrid.Proofs.Run.Replay

/-!
# Raising a limit only extends a run

A run is made twice, the second time with limits that are at least as large.  Both runs make the
same moves until a limit stops the first one: a move reads its limits at two points, the charge and
the count of the rounds of a `while`, and what is within the smaller limit is within the larger one.

`Agree m m'` is what the two runs keep: they have come to the same machine, or a limit has stopped
the first and the second has everything that the first had before the fault (`Extends`).  It holds
after one move (`agree_move`).  From the same machine the runs go on together; once they have
parted, the first is over and the second can only add to what it has (`extends_of_run_move`).
-/

namespace GemGrid

/-- One actor has visited and collected what another has, and perhaps more. -/
structure Walker.Grows (w w' : Walker) : Prop where
  visited : w.visited <+: w'.visited
  collected : w.collected ≤ w'.collected

namespace Walker.Grows

variable {w w' w'' : Walker}

theorem refl (w : Walker) : w.Grows w :=
  ⟨List.prefix_refl _, Nat.le_refl _⟩

theorem trans (h : w.Grows w') (h' : w'.Grows w'') : w.Grows w'' :=
  ⟨h.visited.trans h'.visited, h.collected.trans h'.collected⟩

theorem begun (w : Walker) : w.Grows w.begun :=
  ⟨(visited_visit { w with attempted := w.attempted + 1 }).1, by simp⟩

theorem goTo (w : Walker) (p : Position) : w.Grows (w.goTo p) :=
  ⟨(visited_visit { w with position := p }).1, by simp⟩

end Walker.Grows

theorem Event.grows {map : GridMap} {s s' : Scene} {item : Item} (h : Event map s item s') :
    s.walker.Grows s'.walker := by
  cases h with
  | @deed w w' _ _ _ _ _ _ hdeed =>
      have hbegun := Walker.Grows.begun w
      cases hdeed with
      | collect => exact ⟨hbegun.visited, Nat.le_succ _⟩
      | move => exact hbegun.trans (.goTo ..)
      | _ => exact ⟨hbegun.visited, hbegun.collected⟩
  | pass => exact .goTo ..
  | refuse => exact .begun _
  | _ => exact .refl _

theorem Path.grows {map : GridMap} {s s' : Scene} {items : List Item}
    (h : Path map s items s') : s.walker.Grows s'.walker := by
  induction h with
  | nil => exact .refl _
  | cons hevent _ ih => exact hevent.grows.trans ih

namespace Machine

variable {setting setting' : Setting} {map : GridMap} {m m₁ m' m'' final : Machine}
  {task : Task} {rest : List Task} {items : List Item}

/-! ## Machines that have more -/

/-- One machine has recorded and done what another has, and perhaps more. -/
structure Extends (m m' : Machine) : Prop where
  logs : m.logs.toList <+: m'.logs.toList
  frames : m.frames.toList <+: m'.frames.toList
  walker : m.walker.Grows m'.walker
  executed : m.walker.executed ≤ m'.walker.executed

theorem Extends.trans (h : Extends m m') (h' : Extends m' m'') : Extends m m'' :=
  ⟨h.logs.trans h'.logs, h.frames.trans h'.frames, h.walker.trans h'.walker,
    h.executed.trans h'.executed⟩

theorem Adds.extends (h : Adds m items m') (hwalker : m.walker.Grows m'.walker)
    (hexecuted : m.walker.executed ≤ m'.walker.executed) : Extends m m' := by
  refine ⟨?_, ?_, hwalker, hexecuted⟩
  · rw [h.logs]
    exact List.prefix_append _ _
  · rw [h.frames]
    exact List.prefix_append _ _

theorem Extends.refl (m : Machine) : Extends m m :=
  (adds_nil rfl rfl).extends (.refl _) (Nat.le_refl _)

theorem Extends.withAgenda (h : Extends m m') (agenda : List Task) :
    Extends m { m' with agenda } :=
  ⟨h.logs, h.frames, h.walker, h.executed⟩

theorem Writes.extends (h : Writes map m items m')
    (hexecuted : m.walker.executed ≤ m'.walker.executed) : Extends m m' :=
  h.adds.extends ⟨h.path.grows.visited, h.path.grows.collected⟩ hexecuted

theorem extends_fail (m : Machine) (fault : Fault) (note : Note) :
    Extends m (m.fail fault note) :=
  (adds_fail m fault note).extends (.refl _) (Nat.le_refl _)

theorem extends_close (map : GridMap) (m : Machine) : Extends m m.close := by
  obtain ⟨items, hwrites⟩ := exists_writes_close map m
  apply hwrites.extends
  rw [walker_close]

theorem executed_le_execute (map : GridMap) (m : Machine) (c : Command) (source : SourceRef) :
    m.walker.executed ≤ (m.execute map c source).walker.executed := by
  have hexecuted := executed_execute map m c source
  generalize execute map m c source = m' at hexecuted ⊢
  cases hexecuted with
  | refused hunderway _ => exact hunderway.executed.ge
  | completed hunderway _ => exact Nat.le_succ_of_le hunderway.executed.ge

theorem executed_le_perform (setting : Setting) (m : Machine) (task : Task) (rest : List Task) :
    m.walker.executed ≤ (m.perform setting task rest).walker.executed := by
  rcases command_or_walker_perform setting m task rest with ⟨c, source, rfl⟩ | hwalker
  · exact executed_le_execute setting.map { m with agenda := rest } c source
  · rw [hwalker]

theorem executed_le_move (setting : Setting) (m : Machine) (task : Task) (rest : List Task) :
    m.walker.executed ≤ (m.move setting task rest).walker.executed := by
  rcases move_cases setting m task rest with ⟨_, hmove⟩ | ⟨_, hmove⟩
  · rw [hmove]
    exact Nat.le_refl _
  · rw [hmove]
    exact executed_le_perform setting m.charge task rest

theorem extends_move (setting : Setting) (hfault : m.fault = none) (task : Task)
    (rest : List Task) : Extends m (m.move setting task rest) := by
  obtain ⟨items, hwrites, _, _⟩ := exists_writes_move setting hfault task rest
  exact hwrites.extends (executed_le_move setting m task rest)

theorem Reachable.extends {start : Machine} (hstart : start.fault = none)
    (h : Reachable setting start m) : Extends start m := by
  induction h with
  | start => exact .refl start
  | move hreach hnext ih =>
      exact ih.trans (extends_move setting (hreach.fault_of_next? hstart hnext) _ _)

/-- After a move, which may have stopped the machine, a run can only add to what there is. -/
theorem extends_of_run_move (hfault : m.fault = none)
    (hnext : Task.next? m.agenda = some (task, rest)) {allowed : Nat}
    (hrun : run setting allowed (m.move setting task rest) = some final) :
    Extends (m.move setting task rest) final := by
  cases hmoved : (m.move setting task rest).fault with
  | none => exact (Reachable.start.of_run hrun).1.extends hmoved
  | some d =>
      have hstopped := (Reachable.start.move hnext).stopped hfault hmoved
      have hdone : Task.next? (m.move setting task rest).agenda = none := by
        rw [hstopped.1]
        rfl
      rw [run_of_next?_eq_none hdone] at hrun
      cases hrun
      exact .refl _

/-! ## Two runs -/

/-- Two machines are the same, or a limit has stopped the first and the second has everything that
came before the fault. -/
inductive Agree : Machine → Machine → Prop
  | same (m : Machine) : Agree m m
  | parted {m m' : Machine} {fault : Fault} (note : Note) : fault.code ∈ [405, 406] →
      Extends m m' → Agree (m.fail fault note) m'

/-- Two settings that differ in their limits only, and the second allows at least as much. -/
structure Relaxes (setting setting' : Setting) : Prop where
  map : setting'.map = setting.map
  functions : setting'.functions = setting.functions
  budget : setting.limits.operationBudget ≤ setting'.limits.operationBudget
  whileLimit : setting.limits.whileLimit ≤ setting'.limits.whileLimit

theorem agree_check (h : Relaxes setting setting') (m : Machine) (rounds : Nat)
    (condition : Condition) (body : List Stmt) (source : SourceRef) (rest : List Task) :
    Agree (m.check setting rounds condition body source rest)
      (m.check setting' rounds condition body source rest) := by
  have hwhile := h.whileLimit
  unfold check
  rw [h.map]
  cases condition.eval (m.walker.holds setting.map) with
  | false => exact .same _
  | true =>
      simp only [Bool.not_true, Bool.false_eq_true, if_false, if_true]
      by_cases hlimit : setting.limits.whileLimit < (rounds + 1) % (Text.max32 + 1)
      · rw [if_pos hlimit]
        apply Agree.parted _ (by simp [Fault.code])
        -- the line of the check is there in either case
        split
        · exact extends_fail _ _ _
        · exact (Extends.refl _).withAgenda _
      · rw [if_neg hlimit, if_neg (by omega)]
        exact .same _

theorem agree_perform (h : Relaxes setting setting') (m : Machine) (task : Task)
    (rest : List Task) :
    Agree (m.perform setting task rest) (m.perform setting' task rest) := by
  unfold perform
  rw [h.map, h.functions]
  match task with
  | .run (.whileDo condition body source) => exact agree_check h ..
  | .recheck rounds condition body source => exact agree_check h ..
  | .run (.command c source) => exact .same _
  | .run (.loop count body source) => exact .same _
  | .run (.ifThen condition consequent source) => exact .same _
  | .run (.ifElse condition consequent alternate source) => exact .same _
  | .run (.call name source) => exact .same _
  | .leave name => exact .same _

/-- **One move under two limits.** -/
theorem agree_move (h : Relaxes setting setting') (hfault : m.fault = none) (task : Task)
    (rest : List Task) : Agree (m.move setting task rest) (m.move setting' task rest) := by
  have hbudget := h.budget
  rcases move_cases setting m task rest with ⟨_, hmove⟩ | ⟨hwithin, hmove⟩
  · rw [hmove]
    apply Agree.parted _ (by simp [Fault.code])
    -- the charge cannot be seen in the trace
    obtain ⟨hlogs, hframes, hwalker, hexecuted⟩ := extends_move setting' hfault task rest
    exact ⟨hlogs, hframes, ⟨hwalker.visited, hwalker.collected⟩, hexecuted⟩
  · rw [hmove, move_of_le_budget (by omega)]
    exact agree_perform h m.charge task rest

/-- **Two runs from the same machine.** -/
theorem agree_of_run (h : Relaxes setting setting') {start : Machine} (hstart : start.fault = none)
    (hreach : Reachable setting start m) {allowed allowed' : Nat} {final' : Machine}
    (hrun : run setting allowed m = some final) (hrun' : run setting' allowed' m = some final') :
    Agree final final' := by
  -- on the smaller limits, move by move; on the larger ones the run makes the same moves
  revert allowed' hreach
  refine run_induction ?_ ?_ hrun
  · intro _ hnext _ allowed' hrun'
    rw [run_of_next?_eq_none hnext] at hrun'
    cases hrun'
    exact .same _
  · intro allowed m task rest hnext hrest ih hreach allowed' hrun'
    have hfault := hreach.fault_of_next? hstart hnext
    obtain ⟨hnone, _⟩ | ⟨_, _, fewer, hnext', _, hrest'⟩ := run_cases hrun'
    · rw [hnext] at hnone
      cases hnone
    · rw [hnext] at hnext'
      cases hnext'
      have hagree := agree_move h hfault task rest
      have hextends := extends_of_run_move hfault hnext hrest'
      have hreach' := hreach.move hnext
      generalize m.move setting task rest = m₁ at hagree hrest ih hreach'
      generalize m.move setting' task rest = m₂ at hagree hextends hrest'
      cases hagree with
      | same => exact ih hreach' hrest'
      -- the smaller limits ended the walk here, and the other walk goes on from the same machine
      | parted note hcode hparted =>
          rw [run_of_next?_eq_none rfl] at hrest
          cases hrest
          exact .parted note hcode (hparted.trans hextends)

end Machine

/-! ## Outcomes -/

/-- An outcome reports that a limit has stopped the run. -/
def Outcome.HitLimit (o : Outcome) : Prop :=
  ∃ d ∈ o.diagnostics, d.code = 405 ∨ d.code = 406

/-- An outcome goes beyond another up to the fault that stopped it. -/
structure Outcome.Resumes (o o' : Outcome) : Prop where
  logs : o.logs.dropLast <+: o'.logs
  frames : o.frames.dropLast <+: o'.frames
  visited : o.visitedPath <+: o'.visitedPath
  steps : o.stepsExecuted ≤ o'.stepsExecuted
  gems : o.gemsCollected ≤ o'.gemsCollected

theorem Outcome.Resumes.refl (o : Outcome) : o.Resumes o :=
  ⟨List.dropLast_prefix _, List.dropLast_prefix _, List.prefix_refl _, Nat.le_refl _,
    Nat.le_refl _⟩

/-- What two runs that agree leave behind. -/
theorem Machine.Agree.outcomes {m m' : Machine} (map : GridMap) (h : Agree m m') :
    Outcome.ofMachine map m.close = .ofMachine map m'.close ∨
      (Outcome.ofMachine map m.close).HitLimit ∧
        (Outcome.ofMachine map m.close).Resumes (.ofMachine map m'.close) := by
  cases h with
  | same => exact .inl rfl
  | @parted m₁ m' fault note hcode hextends =>
      -- both are closed; the one with a fault is closed as it is
      obtain ⟨hlogs, hframes, hwalker, hexecuted⟩ := hextends.trans (extends_close map m')
      rw [close_of_fault (m := m₁.fail fault note) rfl]
      refine .inr ⟨⟨fault.toDiagnostic note.source, List.mem_cons_self, ?_⟩, ?_⟩
      · simpa using hcode
      · refine ⟨?_, ?_, hwalker.visited.map _, hexecuted, hwalker.collected⟩
        · -- the fault is the last line
          show (m₁.fail fault note).logs.toList.dropLast <+: _
          rw [(adds_fail m₁ fault note).logs, List.map_singleton, List.dropLast_concat]
          exact hlogs
        · show (m₁.fail fault note).frames.toList.dropLast <+: _
          rw [(adds_fail m₁ fault note).frames]
          show (m₁.frames.toList ++ [_]).dropLast <+: _
          rw [List.dropLast_concat]
          exact hframes

/-- **Raising a limit only extends a run.**  Under budgets that the counter of operations can
exceed, a run has the same outcome under larger limits if no limit has stopped it, and otherwise the
larger limits add to everything that came before the fault. -/
theorem simulate_relaxed (map : GridMap) (p : Program) {limits limits' : Limits}
    (hbudget : limits.operationBudget ≤ limits'.operationBudget)
    (hmax : limits'.operationBudget < Text.max32)
    (hwhile : limits.whileLimit ≤ limits'.whileLimit) :
    ∃ o o', simulate map p limits = some o ∧ simulate map p limits' = some o' ∧
      (¬ o.HitLimit → o = o') ∧ (o.HitLimit → o.Resumes o') := by
  cases hstart : map.start with
  | none =>
      refine ⟨.withoutStart map, .withoutStart map, ?_, ?_, fun _ => rfl, fun _ => .refl _⟩
      · rw [simulate, simulateWithin, hstart]
      · rw [simulate, simulateWithin, hstart]
  | some start =>
      obtain ⟨m, hrun⟩ := Machine.exists_run_atStart map p start (Nat.lt_of_le_of_lt hbudget hmax)
      obtain ⟨m', hrun'⟩ := Machine.exists_run_atStart map p start hmax
      have hrelaxes : Machine.Relaxes { map, functions := p.functions, limits }
          { map, functions := p.functions, limits := limits' } :=
        ⟨rfl, rfl, hbudget, hwhile⟩
      have hagree := Machine.agree_of_run hrelaxes rfl .start hrun hrun'
      refine ⟨_, _, simulate_of_run hstart hrun, simulate_of_run hstart hrun', ?_⟩
      rcases hagree.outcomes map with hsame | ⟨hhit, hresumes⟩
      · rw [hsame]
        exact ⟨fun _ => rfl, fun _ => .refl _⟩
      · exact ⟨fun hnot => absurd hhit hnot, fun _ => hresumes⟩

/-- A loop that never ends by itself is stopped in its second round, and then, with more of both, by
the budget in its third. -/
theorem simulate_relaxed_endless :
    let ref (line : Nat) : SourceRef := { line, text := "" }
    let p : Program :=
      { main := [.whileDo (.not (.predicate .isOnSwitch)) [.command .turnLeft (ref 2)] (ref 1)]
        functions := []
        metadata := { staticCommandCount := none, hasDynamicControlFlow := true } }
    let limits : Limits := { operationBudget := 5, whileLimit := 1 }
    let limits' : Limits := { operationBudget := 5, whileLimit := 7 }
    limits.operationBudget ≤ limits'.operationBudget ∧ limits'.operationBudget < Text.max32 ∧
      limits.whileLimit ≤ limits'.whileLimit ∧
    ∃ map o o', GridMap.read {} "→\t♦" = .ok map ∧ simulate map p limits = some o ∧
      simulate map p limits' = some o' ∧ o.HitLimit ∧ o.Resumes o' ∧
      o.diagnostics.map (·.code) = [406, 500] ∧ o.logs.length = 5 ∧
      o'.diagnostics.map (·.code) = [405, 500] ∧ o'.logs.length = 7 := by
  intro ref p limits limits'
  have heval : ((GridMap.read {} "→\t♦").toOption.bind fun map =>
      (simulate map p limits).bind fun o => (simulate map p limits').map fun o' =>
        (o.diagnostics.map (·.code), o.logs.length, o'.diagnostics.map (·.code), o'.logs.length)) =
      some ([406, 500], 5, [405, 500], 7) := by
    decide +kernel
  obtain ⟨map, hmap, heval⟩ := Option.bind_eq_some_iff.mp heval
  obtain ⟨o, ho, heval⟩ := Option.bind_eq_some_iff.mp heval
  obtain ⟨o', ho', heval⟩ := Option.map_eq_some_iff.mp heval
  simp only [Prod.mk.injEq] at heval
  have hbudget : limits.operationBudget ≤ limits'.operationBudget := by decide
  have hmax : limits'.operationBudget < Text.max32 := by decide
  have hwhile : limits.whileLimit ≤ limits'.whileLimit := by decide
  have hhit : o.HitLimit := by
    have hcode : 406 ∈ o.diagnostics.map (·.code) := by simp [heval.1]
    obtain ⟨d, hd, hcode⟩ := List.mem_map.mp hcode
    exact ⟨d, hd, .inr hcode⟩
  obtain ⟨_, _, h, h', _, hresumes⟩ := simulate_relaxed map p hbudget hmax hwhile
  rw [ho] at h
  rw [ho'] at h'
  cases h
  cases h'
  exact ⟨hbudget, hmax, hwhile, map, o, o', eq_ok_of_toOption hmap, ho, ho', hhit, hresumes hhit,
    heval⟩

end GemGrid
