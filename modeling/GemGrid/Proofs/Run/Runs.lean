import GemGrid.Proofs.Run.Moves
import GemGrid.Run.Simulate

/-!
# Runs

A run is a sequence of moves.  `Machine.Reachable` names the machines that a run comes by, so that
an invariant is proved once for the start and once for a move; `Machine.Reachable.of_run` and
`Ends.exists_machine` bring it to the outcome of a simulation.  `run_induction` goes through a run
that ends from its end back to its start.

* `run_mono`: more moves than needed change nothing.
* `Reachable.stopped`: a fault leaves nothing to do, and its frame is the last.  So a last frame for
  the end of the run tells that no fault has stopped it (`Reachable.fault_eq_none`).
* `runSkipping_eq_run`: charging the rounds of an empty loop at once changes nothing.
* `exists_run_of_budget`: as long as the counter of operations can exceed the budget, a run ends
  within one move more than the budget allows.
-/

namespace GemGrid

/-! ## The next task -/

/-- A task that is dropped without a move. -/
inductive Task.Idle : Task → Prop
  | leave (name : String) : Idle (.leave name)
  | loop (body : List Stmt) (source : SourceRef) : Idle (.run (.loop 0 body source))

theorem Task.next?_eq_some {agenda : List Task} {task : Task} {rest : List Task}
    (h : next? agenda = some (task, rest)) :
    ∃ idle, agenda = idle ++ task :: rest ∧ (∀ t ∈ idle, Idle t) ∧ ¬ Idle task := by
  fun_induction next? agenda with
  | case1 => cases h
  | case2 name agenda ih =>
      obtain ⟨idle, rfl, hidle, htask⟩ := ih h
      exact ⟨.leave name :: idle, rfl, List.forall_mem_cons.mpr ⟨.leave name, hidle⟩, htask⟩
  | case3 body source agenda ih =>
      obtain ⟨idle, rfl, hidle, htask⟩ := ih h
      exact ⟨_ :: idle, rfl, List.forall_mem_cons.mpr ⟨.loop body source, hidle⟩, htask⟩
  | case4 first agenda hleave hloop =>
      cases h
      -- what is neither a return nor a finished loop is done next
      refine ⟨[], rfl, by simp, ?_⟩
      rintro (⟨name⟩ | ⟨body, source⟩)
      · exact hleave name rfl
      · exact hloop body source rfl

theorem Task.next?_eq_none {agenda : List Task} (h : next? agenda = none) :
    ∀ t ∈ agenda, Idle t := by
  fun_induction next? agenda with
  | case1 => simp
  | case2 name agenda ih => exact List.forall_mem_cons.mpr ⟨.leave name, ih h⟩
  | case3 body source agenda ih => exact List.forall_mem_cons.mpr ⟨.loop body source, ih h⟩
  | case4 first agenda hleave hloop => cases h

namespace Machine

variable {setting : Setting}

/-! ## Reachable machines -/

/-- The machines that a run comes by. -/
inductive Reachable (setting : Setting) (start : Machine) : Machine → Prop
  | start : Reachable setting start start
  | move {m : Machine} {task : Task} {rest : List Task} : Reachable setting start m →
      Task.next? m.agenda = some (task, rest) →
      Reachable setting start (m.move setting task rest)

theorem run_of_next?_eq_none {m : Machine} (h : Task.next? m.agenda = none) (allowed : Nat) :
    run setting allowed m = some m := by
  rw [run, h]

theorem run_succ {m : Machine} {task : Task} {rest : List Task}
    (h : Task.next? m.agenda = some (task, rest)) (allowed : Nat) :
    run setting (allowed + 1) m = run setting allowed (m.move setting task rest) := by
  rw [run, h]

/-- A run that ends has nothing left to do, or it makes a move and then ends. -/
theorem run_cases {allowed : Nat} {m final : Machine} (h : run setting allowed m = some final) :
    (Task.next? m.agenda = none ∧ final = m) ∨
      ∃ task rest fewer, Task.next? m.agenda = some (task, rest) ∧ allowed = fewer + 1 ∧
        run setting fewer (m.move setting task rest) = some final := by
  cases hnext : Task.next? m.agenda with
  | none =>
      rw [run_of_next?_eq_none hnext] at h
      exact .inl ⟨rfl, (Option.some.inj h).symm⟩
  | some next =>
      obtain ⟨task, rest⟩ := next
      cases allowed with
      | zero => rw [run, hnext] at h; cases h
      | succ fewer =>
          rw [run_succ hnext] at h
          exact .inr ⟨task, rest, fewer, rfl, rfl, h⟩

/-- Induction over a run that ends, from its end back to its start. -/
@[elab_as_elim]
theorem run_induction {final : Machine} {motive : Nat → Machine → Prop}
    (done : ∀ allowed, Task.next? final.agenda = none → motive allowed final)
    (move : ∀ allowed m task rest, Task.next? m.agenda = some (task, rest) →
      run setting allowed (m.move setting task rest) = some final →
      motive allowed (m.move setting task rest) → motive (allowed + 1) m)
    {allowed : Nat} {m : Machine} (hrun : run setting allowed m = some final) :
    motive allowed m := by
  induction allowed generalizing m with
  | zero =>
      obtain ⟨hnext, rfl⟩ | ⟨_, _, _, _, hzero, _⟩ := run_cases hrun
      · exact done 0 hnext
      · cases hzero
  | succ allowed ih =>
      obtain ⟨hnext, rfl⟩ | ⟨task, rest, fewer, hnext, hsucc, hrest⟩ := run_cases hrun
      · exact done (allowed + 1) hnext
      · cases hsucc
        exact move allowed m task rest hnext hrest (ih hrest)

/-- A run ends in a machine that it can reach and that has nothing left to do. -/
theorem Reachable.of_run {allowed : Nat} {start m final : Machine}
    (hreach : Reachable setting start m) (hrun : run setting allowed m = some final) :
    Reachable setting start final ∧ Task.next? final.agenda = none := by
  revert hreach
  refine run_induction ?_ ?_ hrun
  · intro _ hnext hreach
    exact ⟨hreach, hnext⟩
  · intro _ m task rest hnext _ ih hreach
    exact ih (hreach.move hnext)

/-- More moves than needed change nothing. -/
theorem run_mono {allowed larger : Nat} {m final : Machine}
    (hrun : run setting allowed m = some final) (hle : allowed ≤ larger) :
    run setting larger m = some final := by
  refine run_induction
    (motive := fun allowed m => ∀ larger, allowed ≤ larger → run setting larger m = some final)
    ?_ ?_ hrun larger hle
  · intro _ hnext larger _
    exact run_of_next?_eq_none hnext larger
  · intro allowed m task rest hnext _ ih larger hle
    obtain ⟨larger, rfl⟩ : ∃ k, larger = k + 1 := ⟨larger - 1, by omega⟩
    rw [run_succ hnext]
    exact ih larger (by omega)

/-! ## Moves within the budget -/

/-- A machine leads to another in a number of moves whose operations are within the budget. -/
inductive Charged (setting : Setting) : Nat → Machine → Machine → Prop
  | nil (m : Machine) : Charged setting 0 m m
  | cons {m m' : Machine} {task : Task} {rest : List Task} {n : Nat} :
      Task.next? m.agenda = some (task, rest) →
      min (m.walker.operations + 1) Text.max32 ≤ setting.limits.operationBudget →
      Charged setting n (m.move setting task rest) m' → Charged setting (n + 1) m m'

theorem Charged.run_eq {n : Nat} {m m' : Machine} (h : Charged setting n m m') (allowed : Nat) :
    run setting (allowed + n) m = run setting allowed m' := by
  induction h with
  | nil => rfl
  | cons hnext _ _ ih => rw [← Nat.add_assoc, run_succ hnext, ih]

/-! ## Machines that a fault has stopped -/

/-- What the last frame was taken for. -/
def lastTrigger (m : Machine) : Option Trigger :=
  m.frames.toList.getLast?.bind (·.command)

theorem lastTrigger_record (m : Machine) (message : String) (kind : LogKind) (note : Note) :
    (m.record message kind note).lastTrigger = note.trigger := by
  simp [lastTrigger, record, snapshot, log]

/-- A machine that a fault has stopped has nothing left to do, and its last frame was not taken
for the end of the run. -/
theorem Reachable.stopped {start m : Machine} (hstart : start.fault = none)
    (h : Reachable setting start m) {d : Diagnostic} (hfault : m.fault = some d) :
    m.agenda = [] ∧ m.lastTrigger ≠ some .finish := by
  induction h with
  | start =>
      rw [hstart] at hfault
      cases hfault
  | @move m task rest _ hnext ih =>
      have hmoved := moved_move setting m task rest
      generalize m.move setting task rest = m' at hmoved hfault ⊢
      cases hmoved with
      | @stopped m₁ fault note _ htrigger =>
          refine ⟨rfl, ?_⟩
          show (m₁.record fault.message .error note).lastTrigger ≠ _
          rwa [lastTrigger_record]
      | went _ hsame =>
          -- a machine that has been stopped makes no moves
          rw [(ih (hsame.symm.trans hfault)).1] at hnext
          cases hnext

/-- A machine that still has something to do has not been stopped. -/
theorem Reachable.fault_of_next? {start m : Machine} (hstart : start.fault = none)
    (h : Reachable setting start m) {task : Task} {rest : List Task}
    (hnext : Task.next? m.agenda = some (task, rest)) : m.fault = none := by
  cases hfault : m.fault with
  | none => rfl
  | some d =>
      rw [(h.stopped hstart hfault).1] at hnext
      cases hnext

/-! ## Every run ends -/

/-- A run ends within one move more than the budget has left, if the counter can exceed it. -/
theorem exists_run_of_budget (hbudget : setting.limits.operationBudget < Text.max32) :
    ∀ (allowed : Nat) (m : Machine), m.walker.operations ≤ setting.limits.operationBudget →
      setting.limits.operationBudget < m.walker.operations + allowed →
      ∃ final, run setting allowed m = some final := by
  intro allowed
  induction allowed with
  -- more was charged than the budget allows
  | zero =>
      intro m hle hlt
      omega
  | succ allowed ih =>
      intro m hle hlt
      cases hnext : Task.next? m.agenda with
      | none => exact ⟨m, run_of_next?_eq_none hnext _⟩
      | some next =>
          obtain ⟨task, rest⟩ := next
          rw [run_succ hnext]
          have hops := operations_move setting m task rest
          by_cases hover :
              setting.limits.operationBudget < min (m.walker.operations + 1) Text.max32
          · -- the charge that exceeds the budget empties the agenda
            have hdone : Task.next? (m.move setting task rest).agenda = none := by
              rw [move_of_budget_lt hover]
              rfl
            exact ⟨_, run_of_next?_eq_none hdone _⟩
          · exact ih _ (by omega) (by omega)

/-! ## Starting and closing -/

section Start

variable (map : GridMap) (p : Program) (start : Cell)

theorem commandFrames_atStart : (atStart map p start).commandFrames = 0 :=
  commandFrames_record_other _ _ _ (by simp)

theorem executed_atStart : (atStart map p start).walker.executed = 0 := by
  show (Walker.atStart map start).visit.executed = 0
  simp [Walker.atStart]

theorem operations_atStart : (atStart map p start).walker.operations = 0 := by
  show (Walker.atStart map start).visit.operations = 0
  simp [Walker.atStart]

/-- A run from the start ends within one move more than the budget. -/
theorem exists_run_atStart {limits : Limits} (hbudget : limits.operationBudget < Text.max32) :
    ∃ m, run { map, functions := p.functions, limits } (limits.operationBudget + 1)
      (.atStart map p start) = some m := by
  apply exists_run_of_budget hbudget
  · rw [operations_atStart]
    exact Nat.zero_le _
  · rw [operations_atStart, Nat.zero_add]
    exact Nat.lt_succ_self _

end Start

/-! ## Empty loops -/

section Empty

variable {m : Machine} {count : Nat} {source : SourceRef} {rest : List Task}

theorem skip_of_agenda (hagenda : m.agenda = .run (.loop count [] source) :: rest)
    (rounds : Nat) :
    m.skip rounds =
      { m with
        walker.operations := min (m.walker.operations + rounds) Text.max32
        agenda := .run (.loop (count - rounds) [] source) :: rest } := by
  unfold skip
  rw [hagenda]

theorem skip_succ (hagenda : m.agenda = .run (.loop count [] source) :: rest) (rounds : Nat) :
    m.skip (rounds + 1) = (m.skip 1).skip rounds := by
  have hops : min (min (m.walker.operations + 1) Text.max32 + rounds) Text.max32 =
      min (m.walker.operations + (rounds + 1)) Text.max32 := by omega
  rw [skip_of_agenda hagenda, skip_of_agenda hagenda]
  unfold skip
  dsimp only
  rw [hops, Nat.sub_sub, Nat.add_comm 1 rounds]

theorem operations_skip_le {m : Machine} (rounds : Nat)
    (hops : m.walker.operations ≤ Text.max32) :
    (m.skip rounds).walker.operations ≤ Text.max32 := by
  unfold skip
  split
  · exact Nat.min_le_right _ _
  · exact hops

/-- Skipping a round of an empty loop is the move that goes through it. -/
theorem move_eq_skip (hagenda : m.agenda = .run (.loop count [] source) :: rest)
    (hwithin : min (m.walker.operations + 1) Text.max32 ≤ setting.limits.operationBudget) :
    m.move setting (.run (.loop count [] source)) rest = m.skip 1 := by
  rw [move_of_le_budget hwithin, skip_of_agenda hagenda]
  rfl

/-- Skipping rounds of an empty loop that are within the budget is going through them. -/
theorem charged_skip {rounds : Nat} (hagenda : m.agenda = .run (.loop count [] source) :: rest)
    (hcount : rounds ≤ count) (hops : m.walker.operations ≤ Text.max32)
    (hwithin : rounds ≠ 0 →
      min (m.walker.operations + rounds) Text.max32 ≤ setting.limits.operationBudget) :
    Charged setting rounds m (m.skip rounds) := by
  induction rounds generalizing m count with
  | zero =>
      have hskip : m.skip 0 = m := by
        rw [skip_of_agenda hagenda, Nat.add_zero, Nat.min_eq_left hops, Nat.sub_zero, ← hagenda]
      rw [hskip]
      exact .nil m
  | succ rounds ih =>
      -- one round now, the others from the machine that this round leaves
      obtain ⟨count, rfl⟩ : ∃ k, count = k + 1 := ⟨count - 1, by omega⟩
      have hwithin := hwithin (Nat.succ_ne_zero rounds)
      have hfirst : min (m.walker.operations + 1) Text.max32 ≤ setting.limits.operationBudget := by
        omega
      have hnext : Task.next? m.agenda = some (.run (.loop (count + 1) [] source), rest) := by
        rw [hagenda]
        rfl
      have hskip := skip_of_agenda hagenda 1
      refine .cons hnext hfirst ?_
      rw [move_eq_skip hagenda hfirst, skip_succ hagenda rounds]
      have hagenda' : (m.skip 1).agenda = .run (.loop count [] source) :: rest := by
        rw [hskip]
        rfl
      refine ih hagenda' (by omega) (operations_skip_le 1 hops) ?_
      intro _
      rw [hskip]
      dsimp only
      omega

/-- The rounds of an empty loop that are skipped are allowed and within the budget, so a run goes
through them as well. -/
theorem run_skip_emptyRounds (m : Machine) (allowed : Nat)
    (hops : m.walker.operations ≤ Text.max32) :
    run setting (allowed - m.emptyRounds setting allowed) (m.skip (m.emptyRounds setting allowed)) =
      run setting allowed m := by
  unfold emptyRounds
  split
  · next count source rest hagenda =>
      -- the rounds are never more than the count, the moves allowed and the budget that is left
      dsimp only
      generalize hspare : (if setting.limits.operationBudget < Text.max32 then
        setting.limits.operationBudget - m.walker.operations else count) = spare
      have hcharged : Charged setting (min count (min allowed spare)) m
          (m.skip (min count (min allowed spare))) := by
        refine charged_skip hagenda (Nat.min_le_left _ _) hops fun hrounds => ?_
        split at hspare <;> omega
      rw [← hcharged.run_eq, Nat.sub_add_cancel (by omega)]
  · next hagenda =>
      have hskip : m.skip 0 = m := by
        unfold skip
        split
        · next count source rest h => exact absurd h (hagenda count source rest)
        · rfl
      rw [hskip, Nat.sub_zero]

end Empty

/-- Charging the rounds of empty loops at once does not change a run. -/
theorem runSkipping_eq_run {steps allowed : Nat} {m : Machine} (hsteps : allowed ≤ steps)
    (hops : m.walker.operations ≤ Text.max32) :
    runSkipping setting steps allowed m = run setting allowed m := by
  induction steps generalizing allowed m with
  | zero =>
      obtain rfl : allowed = 0 := by omega
      rw [runSkipping, run]
  | succ steps ih =>
      unfold runSkipping
      cases hnext : Task.next? m.agenda with
      | none => rw [run_of_next?_eq_none hnext]
      | some next =>
          obtain ⟨task, rest⟩ := next
          cases allowed with
          | zero => rw [run, hnext]
          | succ allowed =>
              have hmove : (m.move setting task rest).walker.operations ≤ Text.max32 := by
                rw [operations_move]
                exact Nat.min_le_right _ _
              dsimp only
              -- the skipped rounds were moves of the plain run
              rw [ih (by omega) (operations_skip_le _ hmove), run_skip_emptyRounds _ _ hmove,
                run_succ hnext]

theorem close_of_fault {m : Machine} {d : Diagnostic} (hfault : m.fault = some d) :
    m.close = m := by
  unfold close
  rw [hfault]

/-- A machine that no fault has stopped records the end of the run. -/
theorem close_of_no_fault {m : Machine} (hfault : m.fault = none) :
    m.close = m.record "All commands executed." .success
      { label := some "Done", trigger := some .finish } := by
  unfold close
  rw [hfault]

/-- If no fault has stopped a machine, closing it records the end of the run. -/
theorem lastTrigger_close {m : Machine} (hfault : m.fault = none) :
    m.close.lastTrigger = some .finish := by
  rw [close_of_no_fault hfault]
  exact lastTrigger_record ..

theorem fault_close (m : Machine) : m.close.fault = m.fault := by
  unfold close
  split <;> rfl

theorem walker_close (m : Machine) : m.close.walker = m.walker := by
  unfold close
  split <;> rfl

theorem commandFrames_close (m : Machine) : m.close.commandFrames = m.commandFrames := by
  unfold close
  split
  · rfl
  · exact commandFrames_record_other _ _ _ (by simp)

/-- If the last frame of a run was taken for its end, no fault has stopped it. -/
theorem Reachable.fault_eq_none {start m : Machine} (hstart : start.fault = none)
    (h : Reachable setting start m) (hlast : m.close.lastTrigger = some .finish) :
    m.fault = none := by
  cases hfault : m.fault with
  | none => rfl
  | some d =>
      rw [close_of_fault hfault] at hlast
      exact absurd hlast (h.stopped hstart hfault).2

end Machine

/-! ## Simulations -/

section Simulations

variable {map : GridMap} {p : Program} {limits : Limits} {start : Cell}

theorem simulateWithin_of_start (moves : Nat) (hstart : map.start = some start) :
    simulateWithin moves map p limits =
      (Machine.run { map, functions := p.functions, limits } moves (.atStart map p start)).map
        fun m => .ofMachine map m.close := by
  have hops := Machine.operations_atStart map p start
  rw [simulateWithin, hstart]
  dsimp only
  rw [Machine.runSkipping_eq_run (Nat.le_refl moves) (by omega), Option.map_eq_bind]
  rfl

theorem simulate_of_run {m : Machine} (hstart : map.start = some start)
    (hrun : Machine.run { map, functions := p.functions, limits } (limits.operationBudget + 1)
      (.atStart map p start) = some m) :
    simulate map p limits = some (.ofMachine map m.close) := by
  rw [simulate, simulateWithin_of_start _ hstart, hrun]
  rfl

/-- A run on a map with a start that ends comes from a machine that it reaches. -/
theorem Ends.exists_machine {o : Outcome} (hstart : map.start = some start)
    (h : Ends map p limits o) :
    ∃ m, Machine.Reachable { map, functions := p.functions, limits } (.atStart map p start) m ∧
      Task.next? m.agenda = none ∧ o = .ofMachine map m.close := by
  obtain ⟨moves, hmoves⟩ := h
  rw [simulateWithin_of_start _ hstart] at hmoves
  obtain ⟨m, hrun, rfl⟩ := Option.map_eq_some_iff.mp hmoves
  obtain ⟨hreach, hnext⟩ := Machine.Reachable.start.of_run hrun
  exact ⟨m, hreach, hnext, rfl⟩

/-- A run has at most one outcome. -/
theorem Ends.unique {o o' : Outcome} (h : Ends map p limits o) (h' : Ends map p limits o') :
    o' = o := by
  -- a walk that ended is the same with more moves allowed
  have hmono : ∀ {moves larger o}, simulateWithin moves map p limits = some o → moves ≤ larger →
      simulateWithin larger map p limits = some o := by
    intro moves larger o h hle
    cases hstart : map.start with
    | none =>
        rw [simulateWithin, hstart] at h ⊢
        exact h
    | some start =>
        rw [simulateWithin_of_start _ hstart] at h ⊢
        obtain ⟨m, hrun, rfl⟩ := Option.map_eq_some_iff.mp h
        rw [Machine.run_mono hrun hle]
        rfl
  obtain ⟨moves, h⟩ := h
  obtain ⟨moves', h'⟩ := h'
  have heq := hmono h (Nat.le_max_left moves moves')
  rw [hmono h' (Nat.le_max_right moves moves')] at heq
  exact Option.some.inj heq

/-- Under a budget that the counter can exceed a run has an outcome. -/
theorem exists_simulate (map : GridMap) (p : Program)
    (hbudget : limits.operationBudget < Text.max32) : ∃ o, simulate map p limits = some o := by
  cases hstart : map.start with
  | none => exact ⟨.withoutStart map, by rw [simulate, simulateWithin, hstart]⟩
  | some start =>
      obtain ⟨m, hrun⟩ := Machine.exists_run_atStart map p start hbudget
      exact ⟨_, simulate_of_run hstart hrun⟩

theorem Ends.eq_withoutStart {o : Outcome} (hstart : map.start = none)
    (h : Ends map p limits o) : o = .withoutStart map := by
  obtain ⟨moves, hmoves⟩ := h
  rw [simulateWithin, hstart] at hmoves
  exact (Option.some.inj hmoves).symm

/-- The errors are the messages of the diagnostics. -/
theorem Ends.errors_eq {o : Outcome} (h : Ends map p limits o) :
    o.errors = o.diagnostics.map (·.message) := by
  cases hstart : map.start with
  | none =>
      obtain rfl := h.eq_withoutStart hstart
      rfl
  | some start =>
      obtain ⟨m, _, _, rfl⟩ := h.exists_machine hstart
      rfl

end Simulations

end GemGrid
