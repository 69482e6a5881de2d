import GemGrid.Grid.Reader
import GemGrid.Proofs.Results
import GemGrid.Proofs.Run.Events

/-!
# Every run ends, and its trace is bounded

A budget below the largest 32-bit word bounds a run of any program: one that recurses, calls
functions that do not exist or loops for ever.

Each move charges one operation before it does anything, so the budget that is left goes down, or
the charge is refused and nothing is left to do.  This makes moving a well-founded relation on
machines (`wellFounded_after`).

For the length of the log, the account is kept in operations (`Reachable.account`).  A move within
the budget writes at most two items, so a machine that has not been stopped has at most two items
for each operation beside the first one.  What comes last is a single item: the refused charge or
the end of the run.
-/

namespace GemGrid

namespace Machine

variable {setting : Setting}

/-- The first machine comes from the second by a move. -/
def After (setting : Setting) (m' m : Machine) : Prop :=
  ∃ task rest, Task.next? m.agenda = some (task, rest) ∧ m' = m.move setting task rest

theorem acc_of_next?_eq_none {m : Machine} (h : Task.next? m.agenda = none) :
    Acc (After setting) m := by
  constructor
  rintro m' ⟨task, rest, hnext, _⟩
  rw [h] at hnext
  cases hnext

/-- The induction is on the budget that is left. -/
theorem acc_of_budget (hbudget : setting.limits.operationBudget < Text.max32) :
    ∀ (left : Nat) (m : Machine),
      setting.limits.operationBudget ≤ m.walker.operations + left → Acc (After setting) m := by
  intro left
  induction left with
  | zero =>
      intro m hleft
      constructor
      rintro _ ⟨task, rest, _, rfl⟩
      -- nothing is left of the budget: the next charge stops the walk
      have hover : setting.limits.operationBudget < min (m.walker.operations + 1) Text.max32 := by
        omega
      rw [move_of_budget_lt hover]
      exact acc_of_next?_eq_none rfl
  | succ left ih =>
      intro m hleft
      constructor
      rintro _ ⟨task, rest, _, rfl⟩
      by_cases hover : setting.limits.operationBudget < min (m.walker.operations + 1) Text.max32
      · rw [move_of_budget_lt hover]
        exact acc_of_next?_eq_none rfl
      · -- the charge was within the budget, so one less is left
        have hcharge := operations_move setting m task rest
        exact ih _ (by omega)

/-- Under a budget that the counter can exceed there is no endless sequence of moves. -/
theorem wellFounded_after (hbudget : setting.limits.operationBudget < Text.max32) :
    WellFounded (After setting) :=
  ⟨fun m => acc_of_budget hbudget setting.limits.operationBudget m (Nat.le_add_left ..)⟩

/-! ## The length of the log -/

theorem Adds.size_logs {m m' : Machine} {items : List Item} (h : Adds m items m') :
    m'.logs.size = m.logs.size + items.length := by
  rw [← Array.length_toList, h.logs, List.length_append, List.length_map, Array.length_toList]

/-- What the log of a machine may hold: two items for each operation, and one item more once the
machine has been stopped. -/
structure Account (setting : Setting) (m : Machine) : Prop where
  total : m.logs.size ≤ 2 * setting.limits.operationBudget + 2
  running : m.fault = none → m.walker.operations ≤ setting.limits.operationBudget ∧
    m.logs.size ≤ 2 * m.walker.operations + 1

theorem Account.move (hbudget : setting.limits.operationBudget < Text.max32) {m : Machine}
    (h : Account setting m) (hfault : m.fault = none) (task : Task) (rest : List Task) :
    Account setting (m.move setting task rest) := by
  obtain ⟨hoperations, hlogs⟩ := h.running hfault
  obtain ⟨items, hwrites, htwo, hone⟩ := exists_writes_move setting hfault task rest
  have hsize := hwrites.adds.size_logs
  by_cases hover : setting.limits.operationBudget < min (m.walker.operations + 1) Text.max32
  · have hitem := hone hover
    rw [move_of_budget_lt hover] at hsize ⊢
    exact ⟨by omega, fun hnone => by cases hnone⟩
  · have hcharge := operations_move setting m task rest
    exact ⟨by omega, fun _ => by omega⟩

theorem account_atStart (map : GridMap) (p : Program) (start : Cell) (limits : Limits) :
    Account { map, functions := p.functions, limits } (atStart map p start) := by
  have hone : (atStart map p start).logs.size = 1 := rfl
  have hzero := operations_atStart map p start
  exact ⟨by omega, fun _ => by omega⟩

theorem Reachable.account (hbudget : setting.limits.operationBudget < Text.max32)
    {start m : Machine} (hfault : start.fault = none) (hstart : Account setting start)
    (h : Reachable setting start m) : Account setting m := by
  induction h with
  | start => exact hstart
  | move hreach hnext ih =>
      exact ih.move hbudget (hreach.fault_of_next? hfault hnext) _ _

/-- Closing a machine that no fault has stopped writes one item more. -/
theorem Account.size_logs_close {m : Machine} (h : Account setting m) :
    m.close.logs.size ≤ 2 * setting.limits.operationBudget + 2 := by
  cases hfault : m.fault with
  | none =>
      obtain ⟨hoperations, hlogs⟩ := h.running hfault
      obtain ⟨item, hwrites⟩ := writes_close setting.map hfault
      have hsize : m.close.logs.size = m.logs.size + 1 := hwrites.adds.size_logs
      omega
  | some d =>
      rw [close_of_fault hfault]
      exact h.total

end Machine

/-! ## Outcomes -/

theorem codes_leftUndone (gems closed : Nat) :
    (leftUndone gems closed).map (·.code) =
      (if 0 < gems then [500] else []) ++ (if 0 < closed then [501] else []) := by
  by_cases hgems : 0 < gems <;> by_cases hclosed : 0 < closed <;>
    simp [leftUndone, hgems, hclosed, Diagnostic.plain]

theorem length_leftUndone_le (gems closed : Nat) : (leftUndone gems closed).length ≤ 2 := by
  rw [← List.length_map (·.code), codes_leftUndone]
  split <;> split <;> simp

/-- No log has fewer lines than there are frames. -/
theorem Ends.length_frames_le {map : GridMap} {p : Program} {limits : Limits} {o : Outcome}
    {start : Cell} (hstart : map.start = some start) (h : Ends map p limits o) :
    o.frames.length ≤ o.logs.length := by
  obtain ⟨_, items, _, _, _, _, hlogs, hframes⟩ := h.exists_path hstart
  rw [hlogs, hframes, List.length_cons, List.length_cons, List.length_map]
  exact Nat.succ_le_succ (List.length_filterMap_le ..)

theorem Outcome.length_diagnostics_le (map : GridMap) (m : Machine) :
    (ofMachine map m).diagnostics.length ≤ 3 := by
  have hfault : m.fault.toList.length ≤ 1 := by cases m.fault <;> simp
  have hundone := length_leftUndone_le m.walker.gems.size
    (m.walker.switches.size - m.walker.openSwitches)
  show (m.fault.toList ++ leftUndone _ _).length ≤ 3
  rw [List.length_append]
  omega

/-- **Every run ends, and its trace is bounded.**  Under a budget below the largest 32-bit word no
program, whatever it calls and however it loops, makes moves for ever.  Its run has an outcome,
with at most two lines for each operation of the budget and two more, at most as many frames as
lines, and at most three diagnostics. -/
theorem simulate_bounded (map : GridMap) (p : Program) {limits : Limits}
    (hbudget : limits.operationBudget < Text.max32) :
    WellFounded (Machine.After { map, functions := p.functions, limits }) ∧
    ∃ o, simulate map p limits = some o ∧
      o.logs.length ≤ 2 * limits.operationBudget + 2 ∧ o.frames.length ≤ o.logs.length ∧
      o.diagnostics.length ≤ 3 := by
  refine ⟨Machine.wellFounded_after hbudget, ?_⟩
  cases hstart : map.start with
  | none =>
      refine ⟨.withoutStart map, ?_, Nat.zero_le _, Nat.zero_le _, ?_⟩
      · rw [simulate, simulateWithin, hstart]
      · exact Nat.succ_le_succ (length_leftUndone_le ..)
  | some start =>
      obtain ⟨m, hrun⟩ := Machine.exists_run_atStart map p start hbudget
      have hsimulate := simulate_of_run hstart hrun
      have hends : Ends map p limits (.ofMachine map m.close) := ⟨_, hsimulate⟩
      -- each charge pays for two lines; the two more are those of the start and of the end
      have haccount := (Machine.Reachable.start.of_run hrun).1.account hbudget rfl
        (Machine.account_atStart map p start limits)
      refine ⟨_, hsimulate, ?_, hends.length_frames_le hstart,
        Outcome.length_diagnostics_le map m.close⟩
      exact haccount.size_logs_close

/-- Two moves through portals and a call that the budget refuses: every bound is attained. -/
theorem simulate_bounded_attained :
    let ref (line : Nat) : SourceRef := { line, text := "" }
    let p : Program :=
      { main := [.command .moveForward (ref 1), .command .moveForward (ref 2),
          .call "nowhere" (ref 3)]
        functions := []
        metadata := { staticCommandCount := none, hasDynamicControlFlow := false } }
    let limits : Limits := { operationBudget := 2, whileLimit := 0 }
    limits.operationBudget < Text.max32 ∧
    ∃ map o, GridMap.read {} "→\tW1\t♦\t●\nW1\tW2\nW2" = .ok map ∧
      WellFounded (Machine.After { map, functions := p.functions, limits }) ∧
      simulate map p limits = some o ∧ o.logs.length = 6 ∧ o.frames.length = 6 ∧
      o.diagnostics.length = 3 ∧ o.logs.length ≤ 2 * limits.operationBudget + 2 := by
  intro ref p limits
  have heval : ((GridMap.read {} "→\tW1\t♦\t●\nW1\tW2\nW2").toOption.bind fun map =>
      (simulate map p limits).map fun o =>
        (o.logs.length, o.frames.length, o.diagnostics.length)) = some (6, 6, 3) := by
    decide +kernel
  obtain ⟨map, hmap, heval⟩ := Option.bind_eq_some_iff.mp heval
  obtain ⟨o, ho, heval⟩ := Option.map_eq_some_iff.mp heval
  simp only [Prod.mk.injEq] at heval
  obtain ⟨hlogs, hframes, hdiagnostics⟩ := heval
  have hbudget : limits.operationBudget < Text.max32 := by decide
  obtain ⟨hwell, o', ho', hbound, _, _⟩ := simulate_bounded map p hbudget
  obtain rfl : o = o' := Option.some.inj (ho.symm.trans ho')
  exact ⟨hbudget, map, o, eq_ok_of_toOption hmap, hwell, ho, hlogs, hframes, hdiagnostics, hbound⟩

end GemGrid
