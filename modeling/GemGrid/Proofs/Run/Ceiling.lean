import GemGrid.Grid.Reader
import GemGrid.Proofs.Results
import GemGrid.Proofs.Run.Runs
import GemGrid.Script.Parser

/-!
# The budget as a ceiling

The operations that a run charges are counted here by the moves that make them, and not by the
counter of the actor, which stops at the largest 32-bit word.

* As long as the counter can exceed the budget, it is exact up to the refused charge, so the budget
  is a ceiling: what is on the counter and what is still charged are within it
  (`operations_add_charges_le`).  A command is counted after its charge, so the completed commands
  are within it as well (`executed_le_charges`).
* At the largest word the counter stops right at the budget and no charge is refused any more.  A
  loop with nothing to repeat then charges as many operations as it has rounds
  (`exists_run_of_endless_counter`).
-/

namespace GemGrid

namespace Machine

variable {setting : Setting} {m m' final : Machine}

/-- The operations that a run charges: its moves that the budget lets go on. -/
def charges (setting : Setting) : Nat → Machine → Nat
  | 0, _ => 0
  | allowed + 1, m =>
    match Task.next? m.agenda with
    | none => 0
    | some (task, rest) =>
      if m.charge.walker.operations ≤ setting.limits.operationBudget then
        charges setting allowed (m.move setting task rest) + 1
      else 0

theorem charges_of_next?_eq_none (h : Task.next? m.agenda = none) (allowed : Nat) :
    charges setting allowed m = 0 := by
  cases allowed with
  | zero => rfl
  | succ allowed => rw [charges, h]

theorem charges_of_le_budget {task : Task} {rest : List Task}
    (hnext : Task.next? m.agenda = some (task, rest))
    (hwithin : min (m.walker.operations + 1) Text.max32 ≤ setting.limits.operationBudget)
    (allowed : Nat) :
    charges setting (allowed + 1) m = charges setting allowed (m.move setting task rest) + 1 := by
  rw [charges, hnext]
  exact if_pos hwithin

theorem charges_of_budget_lt {task : Task} {rest : List Task}
    (hnext : Task.next? m.agenda = some (task, rest))
    (hover : setting.limits.operationBudget < min (m.walker.operations + 1) Text.max32)
    (allowed : Nat) : charges setting (allowed + 1) m = 0 := by
  rw [charges, hnext]
  exact if_neg (Nat.not_le.mpr hover)

theorem Charged.charges_eq {n : Nat} (h : Charged setting n m m') (allowed : Nat) :
    charges setting (allowed + n) m = charges setting allowed m' + n := by
  induction h with
  | nil => rfl
  | cons hnext hwithin _ ih =>
      rw [← Nat.add_assoc, charges_of_le_budget hnext hwithin, ih, Nat.add_assoc]

/-! ## Under a budget that the counter can exceed -/

theorem operations_add_charges_le (hbudget : setting.limits.operationBudget < Text.max32)
    {allowed : Nat} (hops : m.walker.operations ≤ setting.limits.operationBudget) :
    m.walker.operations + charges setting allowed m ≤ setting.limits.operationBudget := by
  induction allowed generalizing m with
  | zero => exact hops
  | succ allowed ih =>
      cases hnext : Task.next? m.agenda with
      | none =>
          rw [charges_of_next?_eq_none hnext]
          exact hops
      | some next =>
          obtain ⟨task, rest⟩ := next
          -- the saturation is out of reach: below it the counter grows with each charge
          rcases Nat.lt_or_ge setting.limits.operationBudget
            (min (m.walker.operations + 1) Text.max32) with hover | hwithin
          · rw [charges_of_budget_lt hnext hover]
            exact hops
          · have hmove := operations_move setting m task rest
            have hrest := @ih (m.move setting task rest) (by omega)
            rw [charges_of_le_budget hnext hwithin]
            omega

theorem executed_execute_le (map : GridMap) (m : Machine) (c : Command) (source : SourceRef) :
    (m.execute map c source).walker.executed ≤ m.walker.executed + 1 := by
  have hexecuted := executed_execute map m c source
  generalize execute map m c source = m' at hexecuted ⊢
  cases hexecuted with
  | refused hunderway _ => exact Nat.le_succ_of_le (Nat.le_of_eq hunderway.executed)
  | completed hunderway _ => exact Nat.succ_le_succ (Nat.le_of_eq hunderway.executed)

theorem executed_perform_le (setting : Setting) (m : Machine) (task : Task) (rest : List Task) :
    (m.perform setting task rest).walker.executed ≤ m.walker.executed + 1 := by
  rcases command_or_walker_perform setting m task rest with ⟨c, source, rfl⟩ | hwalker
  · exact executed_execute_le setting.map { m with agenda := rest } c source
  · rw [hwalker]
    exact Nat.le_succ _

/-- A command is completed by a move that has been charged. -/
theorem executed_le_charges {allowed : Nat} (hrun : run setting allowed m = some final) :
    final.walker.executed ≤ m.walker.executed + charges setting allowed m := by
  refine run_induction
    (motive := fun allowed m =>
      final.walker.executed ≤ m.walker.executed + charges setting allowed m) ?_ ?_ hrun
  · intro _ _
    exact Nat.le_add_right _ _
  · intro allowed m task rest hnext hrest ih
    rcases move_cases setting m task rest with ⟨_, hmove⟩ | ⟨hwithin, hmove⟩
    · rw [hmove, run_of_next?_eq_none rfl] at hrest
      cases hrest
      exact Nat.le_add_right _ _
    · have hexecuted : (m.move setting task rest).walker.executed ≤ m.walker.executed + 1 := by
        rw [hmove]
        exact executed_perform_le setting m.charge task rest
      rw [charges_of_le_budget hnext hwithin]
      omega

/-! ## Under the largest budget -/

/-- Under a budget that the counter cannot exceed, a loop with nothing to repeat charges all its
rounds. -/
theorem exists_run_of_endless_counter (hmax : Text.max32 ≤ setting.limits.operationBudget)
    {count : Nat} {source : SourceRef} (hagenda : m.agenda = [.run (.loop count [] source)])
    (hops : m.walker.operations ≤ Text.max32) :
    (∃ final, run setting count m = some final) ∧ charges setting count m = count := by
  -- the counter saturates at the budget, so every round of the empty loop is within it
  have hcharged : Charged setting count m (m.skip count) :=
    charged_skip hagenda (Nat.le_refl _) hops fun _ => Nat.le_trans (Nat.min_le_right _ _) hmax
  have hdone : Task.next? (m.skip count).agenda = none := by
    rw [skip_of_agenda hagenda, Nat.sub_self]
    rfl
  have hrun := hcharged.run_eq 0
  have hcharges := hcharged.charges_eq 0
  rw [Nat.zero_add] at hrun hcharges
  refine ⟨⟨m.skip count, ?_⟩, ?_⟩
  · rw [hrun, run_of_next?_eq_none hdone]
  · rw [hcharges, charges_of_next?_eq_none hdone, Nat.zero_add]

end Machine

/-! ## Simulations -/

/-- The operations that a run from the start charges within a number of moves. -/
def operationsWithin (moves : Nat) (map : GridMap) (program : Program) (limits : Limits) : Nat :=
  match map.start with
  | none => 0
  | some start =>
    Machine.charges { map, functions := program.functions, limits } moves
      (.atStart map program start)

section Simulations

variable {map : GridMap} {p : Program} {limits : Limits} {start : Cell}

theorem operationsWithin_of_start (moves : Nat) (hstart : map.start = some start) :
    operationsWithin moves map p limits =
      Machine.charges { map, functions := p.functions, limits } moves (.atStart map p start) := by
  rw [operationsWithin, hstart]

theorem operationsWithin_le (hbudget : limits.operationBudget < Text.max32) (moves : Nat) :
    operationsWithin moves map p limits ≤ limits.operationBudget := by
  cases hstart : map.start with
  | none =>
      rw [operationsWithin, hstart]
      exact Nat.zero_le _
  | some start =>
      have hops := Machine.operations_atStart map p start
      rw [operationsWithin_of_start moves hstart]
      refine Nat.le_trans (Nat.le_add_left _ _)
        (Machine.operations_add_charges_le hbudget ?_)
      rw [hops]
      exact Nat.zero_le _

theorem stepsExecuted_le_operationsWithin {moves : Nat} {o : Outcome}
    (h : simulateWithin moves map p limits = some o) :
    o.stepsExecuted ≤ operationsWithin moves map p limits := by
  cases hstart : map.start with
  | none =>
      obtain rfl := Ends.eq_withoutStart hstart ⟨moves, h⟩
      exact Nat.zero_le _
  | some start =>
      rw [simulateWithin_of_start moves hstart] at h
      obtain ⟨m, hrun, rfl⟩ := Option.map_eq_some_iff.mp h
      have hle := Machine.executed_le_charges hrun
      rw [Machine.executed_atStart, Nat.zero_add] at hle
      rw [operationsWithin_of_start moves hstart]
      show m.close.walker.executed ≤ _
      rw [Machine.walker_close]
      exact hle

/-- The rounds of a program that is a loop with nothing to repeat. -/
def Program.emptyLoop? (p : Program) : Option Nat :=
  match p.main with
  | [.loop count [] _] => some count
  | _ => none

/-- From the largest word on, the budget does not bound what a loop with nothing to repeat
charges. -/
theorem operationsWithin_of_emptyLoop? {count : Nat} (hp : p.emptyLoop? = some count)
    (hstart : map.start = some start) (hmax : Text.max32 ≤ limits.operationBudget) :
    (∃ o, simulateWithin count map p limits = some o) ∧
      operationsWithin count map p limits = count := by
  obtain ⟨source, hmain⟩ : ∃ source, p.main = [.loop count [] source] := by
    unfold Program.emptyLoop? at hp
    split at hp
    · next source hmain =>
        cases hp
        exact ⟨source, hmain⟩
    · cases hp
  let setting : Setting := { map, functions := p.functions, limits }
  let m := Machine.atStart map p start
  have hagenda : m.agenda = [.run (.loop count [] source)] := by
    show Task.ahead p.main [] = _
    rw [hmain]
    rfl
  have hops : m.walker.operations ≤ Text.max32 := by
    rw [Machine.operations_atStart]
    exact Nat.zero_le _
  obtain ⟨⟨final, hrun⟩, hcharges⟩ :
      (∃ final, Machine.run setting count m = some final) ∧
        Machine.charges setting count m = count :=
    Machine.exists_run_of_endless_counter hmax hagenda hops
  constructor
  · refine ⟨.ofMachine map final.close, ?_⟩
    rw [simulateWithin_of_start count hstart]
    exact congrArg (Option.map _) hrun
  · rw [operationsWithin_of_start count hstart]
    exact hcharges

end Simulations

/-- **The budget is a ceiling exactly if the counter can exceed it.**  Below the largest 32-bit
word the budget bounds the operations that a run charges, and with them its completed commands, on
every map and for every program.  At that word it does not: a loop with nothing to repeat charges
more than the budget. -/
theorem operations_le_budget_iff (limits : Limits) :
    (∀ map p moves o, simulateWithin moves map p limits = some o →
      operationsWithin moves map p limits ≤ limits.operationBudget ∧
        o.stepsExecuted ≤ limits.operationBudget) ↔
      limits.operationBudget < Text.max32 := by
  constructor
  · intro hceiling
    -- with the largest budget, a loop of one round more than the budget is charged to its end
    refine Nat.lt_of_not_le fun hmax => ?_
    have hsome : ((GridMap.read {} "→").toOption.bind (·.start)).isSome = true := by
      decide +kernel
    obtain ⟨start, hstart⟩ := Option.isSome_iff_exists.mp hsome
    obtain ⟨map, -, hstart⟩ := Option.bind_eq_some_iff.mp hstart
    let p : Program :=
      { main := [.loop (limits.operationBudget + 1) [] { line := 1, text := "" }]
        functions := []
        metadata := { staticCommandCount := some 0, hasDynamicControlFlow := false } }
    obtain ⟨⟨o, ho⟩, hcount⟩ := operationsWithin_of_emptyLoop? (p := p) rfl hstart hmax
    have hle := (hceiling map p _ o ho).1
    rw [hcount] at hle
    exact Nat.not_succ_le_self _ hle
  · intro hbudget map p moves o ho
    have hle : operationsWithin moves map p limits ≤ limits.operationBudget :=
      operationsWithin_le hbudget moves
    exact ⟨hle, Nat.le_trans (stepsExecuted_le_operationsWithin ho) hle⟩

/-- Under the largest budget a run charges one operation more than the budget, and comes to its end
without a fault. -/
theorem not_operations_le_largest_budget :
    let limits : Limits := { operationBudget := Text.max32 }
    let rounds := 4294967296
    ∃ map p o, GridMap.read {} "→" = .ok map ∧
      Script.read "for 4294967296 times \x7b\n\x7d" = .ok p ∧
      simulateWithin rounds map p limits = some o ∧ o.diagnostics = [] ∧
      operationsWithin rounds map p limits = rounds ∧ limits.operationBudget < rounds := by
  intro limits rounds
  have heval : ((GridMap.read {} "→").toOption.bind fun map => map.start.bind fun _ =>
      (Script.read "for 4294967296 times \x7b\n\x7d").toOption.bind fun p =>
        (simulateWithin rounds map p limits).map fun o =>
          (p.emptyLoop?, o.diagnostics.length)) = some (some rounds, 0) := by
    decide +kernel
  obtain ⟨map, hmap, heval⟩ := Option.bind_eq_some_iff.mp heval
  obtain ⟨start, hstart, heval⟩ := Option.bind_eq_some_iff.mp heval
  obtain ⟨p, hp, heval⟩ := Option.bind_eq_some_iff.mp heval
  obtain ⟨o, ho, heval⟩ := Option.map_eq_some_iff.mp heval
  simp only [Prod.mk.injEq, List.length_eq_zero_iff] at heval
  obtain ⟨hloop, hdiagnostics⟩ := heval
  have hcount : operationsWithin rounds map p limits = rounds :=
    (operationsWithin_of_emptyLoop? hloop hstart (Nat.le_refl _)).2
  exact ⟨map, p, o, eq_ok_of_toOption hmap, eq_ok_of_toOption hp, ho, hdiagnostics, hcount,
    by decide⟩

end GemGrid
