import GemGrid.Proofs.Run.Unrolled
import GemGrid.Proofs.Script.Totals

/-!
# The budget is exact

A static program has a *cost*: one operation for each command, one for each round of a loop, and one
for each call.  It is what the program totals to with a toll of one.

The cost is known beforehand and a run pays it move by move.  What has been charged and what the
agenda still totals to make up the cost at every machine that the run comes by (`Paid`), and the
charge never exceeds the budget unless the budget stops the run:

* `exists_totals_of_leads`: a move that leads on takes exactly one operation off the agenda,
* `Reachable.paid`: so the account is in balance until a fault stops the run,
* `lt_cost_of_cause`: only a task that is not paid for can exceed the budget.

A run that comes to its end has paid the whole cost within the budget, and a run that the budget has
stopped would have had to pay more.
-/

namespace GemGrid

open Script

/-! ## The total of an agenda -/

section Agendas

variable {functions : List FunctionDef} {toll n : Nat}

/-- Tasks that are dropped add nothing. -/
theorem Task.Idle.totals {task : Task} (h : Idle task) {agenda : List Task}
    (htotals : Totals functions toll (pending (task :: agenda)) n) :
    Totals functions toll (pending agenda) n := by
  cases h with
  | leave name => exact htotals
  | loop body source =>
      cases htotals with
      | loop _ hrest =>
          rw [Nat.zero_mul, Nat.zero_add]
          exact hrest

theorem Task.totals_of_idle {idle agenda : List Task} (hidle : ∀ t ∈ idle, Idle t)
    (htotals : Totals functions toll (pending (idle ++ agenda)) n) :
    Totals functions toll (pending agenda) n := by
  induction idle with
  | nil => exact htotals
  | cons task idle ih =>
      obtain ⟨htask, hidle⟩ := List.forall_mem_cons.mp hidle
      exact ih hidle (htask.totals htotals)

/-- An agenda without a task that does something totals to nothing. -/
theorem Task.eq_zero_of_next? {agenda : List Task} (hnext : next? agenda = none)
    (htotals : Totals functions toll (pending agenda) n) : n = 0 := by
  rw [← List.append_nil agenda] at htotals
  have hempty := Task.totals_of_idle (Task.next?_eq_none hnext) htotals
  cases hempty
  rfl

/-- A task that is not dropped costs an operation. -/
theorem Task.pos_of_totals {task : Task} {agenda : List Task} (htask : ¬ Idle task)
    (htotals : Totals functions 1 (pending (task :: agenda)) n) : 0 < n := by
  rcases task with s | ⟨rounds, condition, body, source⟩ | name
  · -- a task that is no idle one charges for itself, whatever its body costs
    change Totals functions 1 (s :: pending agenda) n at htotals
    cases htotals with
    | command _ => omega
    | @loop count body source _ inner rest _ _ =>
        cases count with
        | zero => exact absurd (.loop body source) htask
        | succ count =>
            rw [Nat.succ_mul]
            omega
    | call _ _ _ => omega
  · cases htotals
  · exact absurd (.leave name) htask

end Agendas

namespace Machine

variable {setting : Setting} {main : List Stmt} {start m : Machine} {task : Task}
  {rest : List Task} {cost : Nat}

/-- An `if` has no total. -/
theorem Selects.not_totals {condition : Condition} {consequent alternate : List Stmt}
    (h : Selects task condition consequent alternate) {toll n : Nat} :
    ¬ Totals setting.functions toll (Task.pending (task :: rest)) n := by
  intro htotals
  cases h with
  | ifThen => cases htotals
  | ifElse => cases htotals

/-- A `while` has no total. -/
theorem Checks.not_totals {rounds : Nat} {condition : Condition} {body : List Stmt}
    {source : SourceRef} (h : Checks task rounds condition body source) {toll n : Nat} :
    ¬ Totals setting.functions toll (Task.pending (task :: rest)) n := by
  intro htotals
  cases h with
  | first => cases htotals
  | again => cases htotals

/-- A move that leads on takes one operation off what is left to pay. -/
theorem exists_totals_of_leads {agenda : List Task} {left : Nat}
    (hleads : Leads setting m task rest agenda) (htask : ¬ task.Idle)
    (htotals : Totals setting.functions 1 (Task.pending (task :: rest)) left) :
    ∃ fewer, left = fewer + 1 ∧ Totals setting.functions 1 (Task.pending agenda) fewer := by
  cases hleads with
  | command =>
      cases htotals with
      | command hrest => exact ⟨_, Nat.add_comm _ _, hrest⟩
  | @loop count body source =>
      cases htotals with
      | @loop _ _ _ _ inner after hbody hrest =>
          cases count with
          | zero => exact absurd (.loop body source) htask
          | succ count =>
              -- the round that begins and the loop with one round less share the cost
              refine ⟨inner + (count * (1 + inner) + after), ?_, ?_⟩
              · rw [Nat.succ_mul]
                omega
              · rw [Task.pending_ahead]
                exact hbody.append (.loop hbody hrest)
  -- a branch or a loop that waits for a condition has no cost of its own
  | branch hselects => exact absurd htotals hselects.not_totals
  | stop hchecks _ => exact absurd htotals hchecks.not_totals
  | round hchecks _ => exact absurd htotals hchecks.not_totals
  | call hbody _ =>
      cases htotals with
      | @call _ _ _ _ inner after hbody' hinner hrest =>
          obtain rfl := Option.some.inj (hbody.symm.trans hbody')
          refine ⟨inner + after, by omega, ?_⟩
          rw [Task.pending_ahead]
          exact hinner.append hrest
  | @leave name => exact absurd (.leave name) htask

/-! ## The account of a run -/

/-- What has been charged and what the agenda totals to make up the cost, and the charge is within
the budget. -/
structure Paid (setting : Setting) (cost : Nat) (m : Machine) : Prop where
  within : m.walker.operations ≤ setting.limits.operationBudget
  balance : ∃ left, Totals setting.functions 1 (Task.pending m.agenda) left ∧
    m.walker.operations + left = cost

theorem paid_atStart {map : GridMap} {p : Program} {limits : Limits} {cell : Cell}
    (hcost : Totals p.functions 1 p.main cost) :
    Paid { map, functions := p.functions, limits } cost (atStart map p cell) where
  within := by
    rw [operations_atStart]
    exact Nat.zero_le _
  balance := by
    refine ⟨cost, ?_, by rw [operations_atStart, Nat.zero_add]⟩
    show Totals p.functions 1 (Task.pending (Task.ahead p.main [])) cost
    rw [Task.pending_ahead]
    simpa [Task.pending] using hcost

/-- A machine in front of a task is in balance with the task and what follows it. -/
theorem Paid.exists_left (h : Paid setting cost m)
    (hnext : Task.next? m.agenda = some (task, rest)) :
    ∃ left, Totals setting.functions 1 (Task.pending (task :: rest)) left ∧
      m.walker.operations + left = cost ∧ ¬ task.Idle := by
  obtain ⟨left, htotals, hbalance⟩ := h.balance
  obtain ⟨idle, hagenda, hidle, htask⟩ := Task.next?_eq_some hnext
  rw [hagenda] at htotals
  exact ⟨left, Task.totals_of_idle hidle htotals, hbalance, htask⟩

/-- One move keeps the account in balance, unless a fault stops the machine. -/
theorem Paid.move (h : Paid setting cost m)
    (hbudget : setting.limits.operationBudget < Text.max32)
    (hnext : Task.next? m.agenda = some (task, rest))
    (hfault : (m.move setting task rest).fault = none) :
    Paid setting cost (m.move setting task rest) := by
  obtain ⟨left, htotals, hbalance, htask⟩ := h.exists_left hnext
  have hwithin : min (m.walker.operations + 1) Text.max32 ≤ setting.limits.operationBudget := by
    by_contra hover
    rw [move_of_budget_lt (Nat.not_le.mp hover)] at hfault
    cases hfault
  have hcharge := operations_move setting m task rest
  have hmoved := moved_move setting m task rest
  generalize m.move setting task rest = m' at hmoved hfault hcharge ⊢
  cases hmoved with
  | stopped _ _ => cases hfault
  | went hleads _ =>
      obtain ⟨fewer, rfl, hfewer⟩ := exists_totals_of_leads hleads htask htotals
      exact ⟨by omega, fewer, hfewer, by omega⟩

/-- The account is in balance until a fault stops the run. -/
theorem Reachable.paid (hbudget : setting.limits.operationBudget < Text.max32)
    (hstart : start.fault = none) (hpaid : Paid setting cost start)
    (h : Reachable setting start m) (hfault : m.fault = none) : Paid setting cost m := by
  induction h with
  | start => exact hpaid
  | move hreach hnext ih =>
      have hbefore := ih (hreach.fault_of_next? hstart hnext)
      exact hbefore.move hbudget hnext hfault

/-- If a task does not fail where the actor stands, only the budget can stop a program whose calls
are in order, and then the cost exceeds it. -/
theorem Paid.lt_cost_of_cause (h : Paid setting cost m)
    (hcalls : WellCalled main setting.functions)
    (hnested : Nested main setting.functions m.agenda)
    (hnext : Task.next? m.agenda = some (task, rest)) {fault : Fault}
    (hcause : Cause setting m task rest fault)
    (hcode : fault.code ∉ [400, 401, 402, 403, 404]) :
    fault.code = 405 ∧ setting.limits.operationBudget < cost := by
  obtain ⟨left, htotals, hbalance, htask⟩ := h.exists_left hnext
  obtain ⟨idle, hagenda, -, -⟩ := Task.next?_eq_some hnext
  rw [hagenda] at hnested
  have hmem := hcause.code_mem hcalls hnested.of_append
  cases hcause with
  -- the next task costs at least one, and the charge for it is already over the budget
  | budget hover =>
      have hpos := Task.pos_of_totals htask htotals
      exact ⟨rfl, by omega⟩
  | command hrefusal => cases hrefusal <;> simp [Fault.code] at hcode
  | whileLimit hchecks _ _ => exact absurd htotals hchecks.not_totals
  | undefined _ => simp [Fault.code] at hmem
  | recursion _ => simp [Fault.code] at hmem

/-- A run on which no command fails has paid its cost within the budget, or the budget has stopped
it short of its cost. -/
theorem Reachable.paid_or_stopped (hbudget : setting.limits.operationBudget < Text.max32)
    (hcalls : WellCalled main setting.functions)
    (hagenda : Nested main setting.functions start.agenda) (hstart : start.fault = none)
    (hpaid : Paid setting cost start) (h : Reachable setting start m)
    (hdone : Task.next? m.agenda = none)
    (hcode : ∀ d, m.fault = some d → d.code ∉ [400, 401, 402, 403, 404]) :
    (m.fault = none ∧ cost ≤ setting.limits.operationBudget) ∨
      ∃ d, m.fault = some d ∧ d.code = 405 ∧ setting.limits.operationBudget < cost := by
  cases hfault : m.fault with
  | none =>
      obtain ⟨hwithin, left, htotals, hbalance⟩ := h.paid hbudget hstart hpaid hfault
      have hzero := Task.eq_zero_of_next? hdone htotals
      exact .inl ⟨rfl, by omega⟩
  | some d =>
      obtain ⟨m₀, task, rest, fault, source, hreach, hnext, hcause, rfl⟩ :=
        h.exists_cause hstart hfault
      -- the machine that the fault has stopped was still in balance
      have hpaid₀ := hreach.paid hbudget hstart hpaid (hreach.fault_of_next? hstart hnext)
      have hcodes := hcode _ hfault
      rw [Fault.code_toDiagnostic] at hcodes
      obtain ⟨hover, hlt⟩ :=
        hpaid₀.lt_cost_of_cause hcalls (hreach.nested hagenda) hnext hcause hcodes
      exact .inr ⟨_, rfl, (Fault.code_toDiagnostic ..).trans hover, hlt⟩

end Machine

/-! ## Outcomes -/

theorem mem_diagnostics_of_fault (map : GridMap) {m : Machine} {d : Diagnostic}
    (h : m.fault = some d) : d ∈ (Outcome.ofMachine map m.close).diagnostics := by
  refine List.mem_append_left _ ?_
  rw [Option.mem_toList, Machine.fault_close]
  exact h

/-- A code that does not tell of things left undone is reported exactly if it has stopped the
machine. -/
theorem exists_code_iff_fault (map : GridMap) (m : Machine) {code : Nat}
    (hcode : code ∉ [500, 501]) :
    (∃ d ∈ (Outcome.ofMachine map m.close).diagnostics, d.code = code) ↔
      ∃ d, m.fault = some d ∧ d.code = code := by
  constructor
  · rintro ⟨d, hd, rfl⟩
    rcases List.mem_append.mp hd with hd | hd
    · rw [Option.mem_toList, Machine.fault_close] at hd
      exact ⟨d, hd, rfl⟩
    · exact absurd (code_mem_of_leftUndone hd) hcode
  · rintro ⟨d, hd, rfl⟩
    exact ⟨d, mem_diagnostics_of_fault map hd, rfl⟩

/-- **The budget is exact on static programs.**  A program whose calls have been checked and that
reaches no guarded statement has a cost.  A run of it on which no command fails is stopped by the
budget exactly if the cost exceeds the budget, and otherwise it comes to its end. -/
theorem budget_exact {p : Program} (hchecked : checkCalls p.main p.functions = .ok ())
    (hstatic : ¬ ∃ s, Reaches p.functions p.main s ∧ s.Guarded) :
    ∃ cost, Totals p.functions 1 p.main cost ∧
      (∀ n, Totals p.functions 1 p.main n → n = cost) ∧
      ∀ (map : GridMap) (limits : Limits), map.start.isSome = true →
        limits.operationBudget < Text.max32 →
        ∃ o, simulate map p limits = some o ∧
          ((∀ d ∈ o.diagnostics, d.code ∉ [400, 401, 402, 403, 404]) →
            ((∃ d ∈ o.diagnostics, d.code = 405) ↔ limits.operationBudget < cost) ∧
            ((¬ ∃ d ∈ o.diagnostics, d.code = 405) →
              ∃ f, o.frames.getLast? = some f ∧ f.command = some .finish)) := by
  obtain ⟨flat, hflat⟩ := exists_unrolls_of_static hchecked hstatic
  obtain ⟨cost, hcost⟩ := hflat.exists_totals 1
  refine ⟨cost, hcost, fun n => hcost.unique, fun map limits hsome hbudget => ?_⟩
  obtain ⟨start, hstart⟩ := Option.isSome_iff_exists.mp hsome
  obtain ⟨m, hrun⟩ := Machine.exists_run_atStart map p start hbudget
  refine ⟨_, simulate_of_run hstart hrun, fun hcodes => ?_⟩
  obtain ⟨hreach, hdone⟩ := Machine.Reachable.start.of_run hrun
  have hending := hreach.paid_or_stopped hbudget (checkCalls_eq_ok_iff.mp hchecked)
    (nested_start p.main p.functions) rfl (Machine.paid_atStart hcost) hdone
    fun d hd => hcodes d (mem_diagnostics_of_fault map hd)
  -- a fault is the only diagnostic that can carry the code
  rw [exists_code_iff_fault map m (by decide)]
  rcases hending with ⟨hfault, hle⟩ | ⟨d, hfault, hcode, hlt⟩
  · have hlast := Machine.lastTrigger_close hfault
    refine ⟨⟨?_, fun hlt => absurd hle (Nat.not_le.mpr hlt)⟩, fun _ => ?_⟩
    · rintro ⟨d, hd, -⟩
      rw [hfault] at hd
      cases hd
    · exact Option.bind_eq_some_iff.mp hlast
  · have hreported : ∃ d, m.fault = some d ∧ d.code = 405 := ⟨d, hfault, hcode⟩
    exact ⟨⟨fun _ => hlt, fun _ => hreported⟩, fun hnone => absurd hreported hnone⟩

/-- Two rounds of a loop, each with a call of a function with one command, cost six operations, and
the loop without rounds costs none: five operations are too few, six are enough. -/
theorem budget_exact_at_limit :
    let ref (line : Nat) : SourceRef := { line, text := "" }
    let p : Program :=
      { main := [.loop 2 [.call "turn" (ref 5)] (ref 4), .loop 0 [.call "turn" (ref 7)] (ref 6)]
        functions := [{ name := "turn", body := [.command .turnLeft (ref 2)], source := ref 1 }]
        metadata := { staticCommandCount := some 2, hasDynamicControlFlow := false } }
    checkCalls p.main p.functions = .ok () ∧
      (¬ ∃ s, Reaches p.functions p.main s ∧ s.Guarded) ∧ Totals p.functions 1 p.main 6 ∧
      ∃ map short enough, GridMap.read {} "→" = .ok map ∧
        simulate map p { operationBudget := 5 } = some short ∧
        (∃ d ∈ short.diagnostics, d.code = 405) ∧
        simulate map p { operationBudget := 6 } = some enough ∧
        ∃ f, enough.frames.getLast? = some f ∧ f.command = some .finish := by
  intro ref p
  have hchecked : checkCalls p.main p.functions = .ok () := by decide +kernel
  have hturn : Totals p.functions 1 [.command .turnLeft (ref 2)] 1 := .command .nil
  have hcost : Totals p.functions 1 p.main 6 :=
    .loop (.call rfl hturn .nil) (.loop (.call rfl hturn .nil) .nil)
  have hstatic : ¬ ∃ s, Reaches p.functions p.main s ∧ s.Guarded := by
    have hunrolls : Unrolls p.functions p.main _ :=
      .loop (.call rfl (.command .nil) .nil) (.loop (.call rfl (.command .nil) .nil) .nil)
    exact hunrolls.static
  have heval : ((GridMap.read {} "→").toOption.bind fun map => map.start.bind fun _ =>
      (simulate map p { operationBudget := 5 }).bind fun short =>
        (simulate map p { operationBudget := 6 }).map fun enough =>
          (short.diagnostics.map (·.code), enough.diagnostics.map (·.code))) =
      some ([405], []) := by
    decide +kernel
  obtain ⟨map, hmap, heval⟩ := Option.bind_eq_some_iff.mp heval
  obtain ⟨start, hstart, heval⟩ := Option.bind_eq_some_iff.mp heval
  obtain ⟨short, hshort, heval⟩ := Option.bind_eq_some_iff.mp heval
  obtain ⟨enough, henough, heval⟩ := Option.map_eq_some_iff.mp heval
  simp only [Prod.mk.injEq, List.map_eq_nil_iff] at heval
  obtain ⟨cost, _, hunique, hruns⟩ := budget_exact hchecked hstatic
  obtain rfl := hunique 6 hcost
  have hsome : map.start.isSome = true := by rw [hstart]; rfl
  refine ⟨hchecked, hstatic, hcost, map, short, enough, eq_ok_of_toOption hmap, hshort, ?_,
    henough, ?_⟩
  · obtain ⟨o, ho, hexact⟩ := hruns map { operationBudget := 5 } hsome (by decide)
    obtain rfl := Option.some.inj (hshort.symm.trans ho)
    refine (hexact fun d hd => ?_).1.mpr (by decide)
    have hcode : d.code ∈ short.diagnostics.map (·.code) := List.mem_map_of_mem hd
    rw [heval.1, List.mem_singleton] at hcode
    rw [hcode]
    decide
  · obtain ⟨o, ho, hexact⟩ := hruns map { operationBudget := 6 } hsome (by decide)
    obtain rfl := Option.some.inj (henough.symm.trans ho)
    exact (hexact (by simp [heval.2])).2 (by simp [heval.2])

end GemGrid
