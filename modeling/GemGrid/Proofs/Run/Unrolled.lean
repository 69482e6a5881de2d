import GemGrid.Proofs.Run.Guards
import GemGrid.Proofs.Script.Unrolling

/-!
# Running an unrolled program

A program without guarded statements runs like the list of its commands.  What an observer sees of
a machine is all but its agenda and its count of operations (`Machine.visible`), and a command does
the same to two machines that look the same (`visible_execute`).

`Mirrors` relates the machine of a program to the machine of its unrolling: they look the same, the
agenda of the second is the unrolling of the agenda of the first, and the second has not been
charged more.  The machines are compared move by move (`Mirrors.move`):

* entering a loop or a function is a move of the first machine alone.  It changes nothing that can
  be seen, and the unrolling of the agenda stays the same list;
* a command is a move of both.  It is charged in both, so if the budget stops the second machine it
  stops the first one too.

On the second machine every task is a command, so the commands that it completes can be counted
(`counts_of_run`).
-/

namespace GemGrid

open Script

/-! ## The statements of an agenda -/

/-- The statement that a task stands for; the end of a function stands for none. -/
def Task.statement? : Task → Option Stmt
  | .run s => some s
  | .recheck _ condition body source => some (.whileDo condition body source)
  | .leave _ => none

/-- The statements that an agenda stands for. -/
def Task.pending (agenda : List Task) : List Stmt :=
  agenda.filterMap statement?

theorem Task.pending_ahead (ss : List Stmt) (agenda : List Task) :
    pending (ahead ss agenda) = ss ++ pending agenda := by
  have hruns : pending (ss.map .run) = ss := by
    rw [pending, List.filterMap_map]
    exact List.filterMap_some
  rw [pending, ahead, List.filterMap_append]
  exact congrArg (· ++ pending agenda) hruns

/-- Tasks that are dropped unroll to nothing. -/
theorem Task.Idle.unrolls {functions : List FunctionDef} {task : Task} (h : Idle task)
    {agenda : List Task} {flat : List Stmt}
    (hunrolls : Unrolls functions (pending (task :: agenda)) flat) :
    Unrolls functions (pending agenda) flat := by
  cases h with
  | leave name => exact hunrolls
  | loop body source =>
      cases hunrolls with
      | loop _ hrest => exact hrest

theorem Task.unrolls_of_idle {functions : List FunctionDef} {idle agenda : List Task}
    {flat : List Stmt} (hidle : ∀ t ∈ idle, Idle t)
    (hunrolls : Unrolls functions (pending (idle ++ agenda)) flat) :
    Unrolls functions (pending agenda) flat := by
  induction idle with
  | nil => exact hunrolls
  | cons task idle ih =>
      obtain ⟨htask, hidle⟩ := List.forall_mem_cons.mp hidle
      exact ih hidle (htask.unrolls hunrolls)

/-! ## What can be seen of a machine -/

/-- The actor without its charge. -/
def Walker.uncharged (w : Walker) : Walker :=
  { w with operations := 0 }

theorem Walker.uncharged_visit (w : Walker) : w.visit.uncharged = w.uncharged.visit := by
  unfold visit
  split
  · next hseen => rw [if_pos (show w.uncharged.visited.contains w.uncharged.position from hseen)]
  · next hnew =>
    rw [if_neg (show ¬ w.uncharged.visited.contains w.uncharged.position = true from hnew)]
    rfl

namespace Machine

/-- The machine without its agenda and its charge. -/
def visible (m : Machine) : Machine :=
  { m with agenda := [], walker := m.walker.uncharged }

theorem visible_record (m : Machine) (message : String) (kind : LogKind) (note : Note) :
    (m.record message kind note).visible = m.visible.record message kind note := rfl

theorem visible_complete (m : Machine) : m.complete.visible = m.visible.complete := rfl

theorem visible_begin (m : Machine) : m.begin.visible = m.visible.begin :=
  congrArg m.visible.withWalker
    (Walker.uncharged_visit { m.walker with attempted := m.walker.attempted + 1 })

theorem visible_goTo (m : Machine) (p : Position) :
    (m.withWalker (m.walker.goTo p)).visible = m.visible.withWalker (m.visible.walker.goTo p) :=
  congrArg m.visible.withWalker (Walker.uncharged_visit { m.walker with position := p })

theorem visible_collect (m : Machine) (step : Nat) (note : Note) :
    (m.collect step note).visible = m.visible.collect step note := by
  unfold collect Walker.takeGem?
  by_cases hgem : m.walker.gems.contains m.walker.position = true
  · rw [if_pos hgem,
      if_pos (show m.visible.walker.gems.contains m.visible.walker.position = true from hgem)]
    rfl
  · rw [if_neg hgem,
      if_neg (show ¬ m.visible.walker.gems.contains m.visible.walker.position = true from hgem)]
    rfl

theorem visible_toggle (m : Machine) (step : Nat) (note : Note) :
    (m.toggle step note).visible = m.visible.toggle step note := by
  unfold toggle Walker.toggle?
  rw [show m.visible.walker.switches.get? m.visible.walker.position =
    m.walker.switches.get? m.walker.position from rfl]
  cases m.walker.switches.get? m.walker.position with
  | none => rfl
  | some state => rfl

theorem visible_warp (map : GridMap) (m : Machine) (step id : Nat) (note : Note) :
    (m.warp map step id note).visible = m.visible.warp map step id note := by
  unfold warp
  rw [show m.visible.walker.position = m.walker.position from rfl]
  cases map.partner? id m.walker.position with
  | none => rfl
  | some exit =>
      show (complete _).visible = complete _
      rw [visible_complete, visible_record, visible_goTo]

theorem visible_moveForward (map : GridMap) (m : Machine) (step : Nat) (note : Note) :
    (m.moveForward map step note).visible = m.visible.moveForward map step note := by
  unfold moveForward
  rw [show m.visible.walker.position = m.walker.position from rfl,
    show m.visible.walker.facing = m.walker.facing from rfl]
  cases map.neighbor? m.walker.position m.walker.facing with
  | none => rfl
  | some cell =>
      dsimp only
      by_cases hwall : cell.isWall = true
      · rw [if_pos hwall, if_pos hwall]
        rfl
      · rw [if_neg hwall, if_neg hwall]
        cases cell.warpId with
        | none =>
            dsimp only
            rw [visible_complete, visible_record, visible_goTo]
        | some id =>
            dsimp only
            rw [visible_warp, visible_record, visible_goTo]

/-- A command does not depend on what cannot be seen. -/
theorem visible_execute (map : GridMap) (m : Machine) (c : Command) (source : SourceRef) :
    (m.execute map c source).visible = m.visible.execute map c source := by
  -- the step and the note of a command are the same on both sides
  cases c with
  | moveForward =>
      show (m.begin.moveForward map _ _).visible = m.visible.begin.moveForward map _ _
      rw [visible_moveForward, visible_begin]
      rfl
  | turnLeft =>
      show (m.begin.turn _ _ m.begin.walker.facing.turnLeft _).visible =
        m.visible.begin.turn _ _ m.visible.begin.walker.facing.turnLeft _
      rw [← visible_begin]
      rfl
  | turnRight =>
      show (m.begin.turn _ _ m.begin.walker.facing.turnRight _).visible =
        m.visible.begin.turn _ _ m.visible.begin.walker.facing.turnRight _
      rw [← visible_begin]
      rfl
  | collectGem =>
      show (m.begin.collect _ _).visible = m.visible.begin.collect _ _
      rw [visible_collect, visible_begin]
      rfl
  | toggleSwitch =>
      show (m.begin.toggle _ _).visible = m.visible.begin.toggle _ _
      rw [visible_toggle, visible_begin]
      rfl

/-- A command that stops the machine leaves nothing to do, and any other leaves the agenda. -/
theorem agenda_execute (map : GridMap) {m : Machine} (hfault : m.fault = none) (c : Command)
    (source : SourceRef) :
    (m.execute map c source).agenda =
      if (m.execute map c source).fault.isSome then [] else m.agenda := by
  have h := executed_execute map m c source
  generalize execute map m c source = m' at h ⊢
  cases h with
  | refused _ _ => rfl
  | @completed m₁ hunderway _ =>
      have hnone : m₁.complete.fault = none := hunderway.fault.trans hfault
      rw [hnone]
      exact hunderway.agenda

/-! ## Machines of a program and of its unrolling -/

/-- The second machine looks like the first and works on the unrolling of its agenda. -/
structure Mirrors (functions : List FunctionDef) (m m' : Machine) (flat : List Stmt) : Prop where
  visible : m.visible = m'.visible
  operations : m'.walker.operations ≤ m.walker.operations
  unrolls : Unrolls functions (Task.pending m.agenda) flat
  agenda : m'.agenda = flat.map .run

namespace Mirrors

variable {main : List Stmt} {setting : Setting} {m m' : Machine} {flat : List Stmt}
  {task : Task} {rest : List Task}

theorem fault (h : Mirrors setting.functions m m' flat) : m'.fault = m.fault :=
  (congrArg Machine.fault h.visible).symm

/-- A move that only changes the agenda, to one with the same unrolling. -/
theorem control (h : Mirrors setting.functions m m' flat) {agenda : List Task}
    (hmove : m.move setting task rest = { m.charge with agenda })
    (hcharge : m.walker.operations ≤ m.charge.walker.operations)
    (hunrolls : Unrolls setting.functions (Task.pending agenda) flat) :
    Mirrors setting.functions (m.move setting task rest) m' flat := by
  rw [hmove]
  exact ⟨h.visible, Nat.le_trans h.operations hcharge, hunrolls, h.agenda⟩

/-- A command does the same to both machines; if it stops them, neither has anything left to do. -/
theorem execute (h : Mirrors setting.functions m m' flat) (hfault : m.fault = none)
    (map : GridMap) (c : Command) (source : SourceRef) :
    ∃ flat', Mirrors setting.functions (m.execute map c source) (m'.execute map c source) flat' := by
  have hvisible : (m.execute map c source).visible = (m'.execute map c source).visible := by
    rw [visible_execute, visible_execute, h.visible]
  have hfaults : (m'.execute map c source).fault = (m.execute map c source).fault :=
    (congrArg Machine.fault hvisible).symm
  have hoperations : (m'.execute map c source).walker.operations ≤
      (m.execute map c source).walker.operations := by
    rw [operations_execute, operations_execute]
    exact h.operations
  have hagenda := agenda_execute map hfault c source
  have hagenda' := agenda_execute map (h.fault.trans hfault) c source
  rw [hfaults] at hagenda'
  -- a fault can be seen, so both machines are stopped or neither is
  cases hstopped : (m.execute map c source).fault.isSome with
  | true =>
      rw [hstopped, if_pos rfl] at hagenda hagenda'
      refine ⟨[], hvisible, hoperations, ?_, hagenda'⟩
      rw [hagenda]
      exact .nil
  | false =>
      rw [hstopped, if_neg Bool.false_ne_true] at hagenda hagenda'
      refine ⟨flat, hvisible, hoperations, ?_, hagenda'.trans h.agenda⟩
      rw [hagenda]
      exact h.unrolls

/-- A command is a move of both machines. -/
theorem command (h : Mirrors setting.functions m m' flat) (hfault : m.fault = none)
    {c : Command} {source : SourceRef} {flat' : List Stmt}
    (hwithin : min (m.walker.operations + 1) Text.max32 ≤ setting.limits.operationBudget)
    (hunrolls : Unrolls setting.functions (Task.pending rest) flat') :
    ∃ flat'', Mirrors setting.functions
      (m.move setting (.run (.command c source)) rest)
      (m'.move { setting with functions := [] } (.run (.command c source)) (flat'.map .run))
      flat'' := by
  -- the unrolled machine has charged no more, so its charge is within the budget too
  have hoperations := h.operations
  have hwithin' : min (m'.walker.operations + 1) Text.max32 ≤ setting.limits.operationBudget := by
    omega
  have hcharged : Mirrors setting.functions { m.charge with agenda := rest }
      { m'.charge with agenda := flat'.map .run } flat' := by
    refine ⟨h.visible, ?_, hunrolls, rfl⟩
    show min (m'.walker.operations + 1) Text.max32 ≤ min (m.walker.operations + 1) Text.max32
    omega
  rw [move_command hwithin, @move_command { setting with functions := [] } m' c source _ hwithin']
  exact hcharged.execute hfault setting.map c source

/-- **One move of the machine of a program.**  Within the budget it is a move of both machines, or
of the first alone. -/
theorem move (h : Mirrors setting.functions m m' flat) (hfault : m.fault = none)
    (hcalls : WellCalled main setting.functions)
    (hnested : Nested main setting.functions m.agenda)
    (hnext : Task.next? m.agenda = some (task, rest))
    (hbudget : setting.limits.operationBudget < Text.max32)
    (hwithin : min (m.walker.operations + 1) Text.max32 ≤ setting.limits.operationBudget) :
    Mirrors setting.functions (m.move setting task rest) m' flat ∨
      ∃ rest' flat', Task.next? m'.agenda = some (task, rest') ∧
        Mirrors setting.functions (m.move setting task rest)
          (m'.move { setting with functions := [] } task rest') flat' := by
  -- the unrolled walk has no task but commands: everything else moves the program alone
  obtain ⟨idle, hagenda, hidle, htask⟩ := Task.next?_eq_some hnext
  have hunrolls := h.unrolls
  rw [hagenda] at hunrolls hnested
  replace hunrolls := Task.unrolls_of_idle hidle hunrolls
  replace hnested := hnested.of_append
  have hcharge : m.walker.operations ≤ m.charge.walker.operations := by
    show m.walker.operations ≤ min (m.walker.operations + 1) Text.max32
    omega
  rcases task with s | ⟨rounds, condition, body, source⟩ | name
  · change Unrolls setting.functions (s :: Task.pending rest) flat at hunrolls
    cases hunrolls with
    | command hrest =>
        right
        obtain ⟨flat'', hmirrors⟩ := h.command hfault hwithin hrest
        refine ⟨_, flat'', ?_, hmirrors⟩
        rw [h.agenda]
        rfl
    | @loop count body source _ inner _ hbody hrest =>
        left
        cases count with
        | zero => exact absurd (.loop body source) htask
        | succ count =>
            refine h.control (move_of_le_budget hwithin) hcharge ?_
            rw [Task.pending_ahead, List.replicate_succ, List.flatten_cons, List.append_assoc]
            exact hbody.append (.loop hbody hrest)
    | @call name source body _ inner _ hbody hinner hrest =>
        left
        -- a call of an active name would be a cycle of the call graph
        have hactive : name ∉ Task.active rest := by
          cases hnested with
          | cons hbelow _ =>
              intro hmem
              have hcycle := (hbelow { name, source } (.run .call)).reached name hmem
              exact hcalls.acyclic name hcycle
        refine h.control ((move_of_le_budget hwithin).trans (enter_eq hbody hactive)) hcharge ?_
        rw [Task.pending_ahead]
        exact hinner.append hrest
  · -- a loop that waits for a condition has no unrolling
    cases hunrolls
  · exact absurd (.leave name) htask

/-- When the first machine has nothing left to do, neither has the second. -/
theorem agenda_eq_nil (h : Mirrors setting.functions m m' flat)
    (hnext : Task.next? m.agenda = none) : m'.agenda = [] := by
  have hunrolls := h.unrolls
  rw [← List.append_nil m.agenda] at hunrolls
  have hempty := Task.unrolls_of_idle (Task.next?_eq_none hnext) hunrolls
  cases hempty
  exact h.agenda

/-- The run of an unrolling ends where the run of the program does, if the budget does not stop
the latter. -/
theorem run {start final : Machine} (hcalls : WellCalled main setting.functions)
    (hbegin : Nested main setting.functions start.agenda) (hstart : start.fault = none)
    (hbudget : setting.limits.operationBudget < Text.max32)
    (hcode : ∀ d, final.fault = some d → d.code ≠ 405) {allowed : Nat}
    (hreach : Reachable setting start m) (hmirrors : Mirrors setting.functions m m' flat)
    (hrun : Machine.run setting allowed m = some final) :
    ∃ final', Machine.run { setting with functions := [] } allowed m' = some final' ∧
      final.visible = final'.visible := by
  refine run_induction
    (motive := fun allowed m => ∀ m' flat, Reachable setting start m →
      Mirrors setting.functions m m' flat →
      ∃ final', Machine.run { setting with functions := [] } allowed m' = some final' ∧
        final.visible = final'.visible)
    ?_ ?_ hrun m' flat hreach hmirrors
  · intro allowed hnext m' flat _ hmirrors
    have hdone : Task.next? m'.agenda = none := by
      rw [hmirrors.agenda_eq_nil hnext]
      rfl
    exact ⟨m', run_of_next?_eq_none hdone allowed, hmirrors.visible⟩
  · intro allowed m task rest hnext hrest ih m' flat hreach hmirrors
    have hfault := hreach.fault_of_next? hstart hnext
    rcases move_cases setting m task rest with ⟨_, hmove⟩ | ⟨hwithin, _⟩
    · -- the budget stops the program, which its last fault would show
      rw [hmove, run_of_next?_eq_none rfl] at hrest
      cases hrest
      exact absurd (Fault.code_toDiagnostic _ _) (hcode _ rfl)
    · have hnested := hreach.nested hbegin
      -- the move was either one of the program alone or a command of both
      rcases hmirrors.move hfault hcalls hnested hnext hbudget hwithin with
        hmirrors | ⟨rest', flat', hnext', hmirrors⟩
      · obtain ⟨final', hrun', hvisible⟩ := ih m' flat (hreach.move hnext) hmirrors
        exact ⟨final', run_mono hrun' (Nat.le_succ allowed), hvisible⟩
      · rw [run_succ hnext']
        exact ih _ flat' (hreach.move hnext) hmirrors

end Mirrors

/-! ## Counting commands -/

/-- The move of a command stops the machine or completes the command. -/
theorem move_command_cases {setting : Setting} {m m' : Machine} {c : Command}
    {source : SourceRef} {rest : List Task}
    (h : m.move setting (.run (.command c source)) rest = m') :
    (m'.agenda = [] ∧ m'.fault ≠ none) ∨
      (m'.agenda = rest ∧ m'.walker.executed = m.walker.executed + 1 ∧
        m'.commandFrames = m.commandFrames + 1) := by
  subst h
  rcases move_cases setting m (.run (.command c source)) rest with ⟨_, hmove⟩ | ⟨hwithin, _⟩
  · left
    rw [hmove]
    exact ⟨rfl, Option.some_ne_none _⟩
  · -- the command was within the budget: refused, or carried out and counted in one frame
    have hexecuted := executed_execute setting.map { m.charge with agenda := rest } c source
    rw [← move_command hwithin] at hexecuted
    generalize m.move setting (.run (.command c source)) rest = m' at hexecuted ⊢
    cases hexecuted with
    | refused _ _ => exact .inl ⟨rfl, Option.some_ne_none _⟩
    | completed hunderway hframes =>
        exact .inr ⟨hunderway.agenda, congrArg (· + 1) hunderway.executed, hframes⟩

/-- A run of commands that no fault stops completes them all, one move and one frame for each. -/
theorem counts_of_run {setting : Setting} {final : Machine} (hfault : final.fault = none) :
    ∀ (flat : List Stmt), (∀ s ∈ flat, ∃ c source, s = .command c source) →
      ∀ (allowed : Nat) (m : Machine), m.agenda = flat.map .run →
        Machine.run setting allowed m = some final →
        final.walker.executed = m.walker.executed + flat.length ∧
          final.commandFrames = m.commandFrames + flat.length ∧ flat.length ≤ allowed := by
  intro flat
  induction flat with
  | nil =>
      intro _ allowed m hagenda hrun
      have hnext : Task.next? m.agenda = none := by rw [hagenda]; rfl
      rw [run_of_next?_eq_none hnext] at hrun
      cases hrun
      exact ⟨rfl, rfl, Nat.zero_le allowed⟩
  | cons s flat ih =>
      intro hcommands allowed m hagenda hrun
      obtain ⟨⟨c, source, rfl⟩, hothers⟩ := List.forall_mem_cons.mp hcommands
      have hnext : Task.next? m.agenda = some (.run (.command c source), flat.map .run) := by
        rw [hagenda]
        rfl
      obtain ⟨hnone, _⟩ | ⟨task, rest, fewer, hnext', rfl, hrest⟩ := run_cases hrun
      · rw [hnext] at hnone
        cases hnone
      · rw [hnext] at hnext'
        cases hnext'
        rcases move_command_cases rfl with ⟨hstopped, hne⟩ | ⟨hleft, hexecuted, hframes⟩
        · -- the run would have ended here, with the fault
          rw [run_of_next?_eq_none (by rw [hstopped]; rfl)] at hrest
          cases hrest
          exact absurd hfault hne
        · obtain ⟨hexecuted', hframes', hle⟩ := ih hothers fewer _ hleft hrest
          rw [List.length_cons]
          omega

end Machine

/-! ## Outcomes -/

theorem Machine.visible_close (m : Machine) : m.close.visible = m.visible.close := by
  unfold close
  rw [show m.visible.fault = m.fault from rfl]
  cases m.fault with
  | none => rfl
  | some d => rfl

/-- The outcome of a run is what can be seen of the machine. -/
theorem Outcome.ofMachine_close_congr (map : GridMap) {m m' : Machine}
    (h : m.visible = m'.visible) : ofMachine map m.close = ofMachine map m'.close := by
  have hclose : m.close.visible = m'.close.visible := by
    rw [Machine.visible_close, Machine.visible_close, h]
  show ofMachine map m.close.visible = ofMachine map m'.close.visible
  rw [hclose]

section Start

variable {p : Program} {flat : List Stmt} {map : GridMap} {limits : Limits} {start : Cell}

/-- The machine of a program and that of its unrolling start alike. -/
theorem Machine.mirrors_atStart (map : GridMap) (start : Cell)
    (hflat : Unrolls p.functions p.main flat) :
    Mirrors p.functions (atStart map p start)
      (atStart map { p with main := flat, functions := [] } start) flat := by
  refine ⟨rfl, Nat.le_refl _, ?_, List.append_nil _⟩
  show Unrolls p.functions (Task.pending (Task.ahead p.main [])) flat
  rw [Task.pending_ahead]
  simpa [Task.pending] using hflat

/-- An unrolled program that comes to its end has completed all its commands. -/
theorem Machine.counts_of_finish {m : Machine}
    (hcommands : ∀ s ∈ flat, ∃ c source, s = .command c source)
    (hrun : Machine.run { map, functions := [], limits } (limits.operationBudget + 1)
      (.atStart map { p with main := flat, functions := [] } start) = some m)
    (hlast : m.close.lastTrigger = some .finish) :
    m.close.walker.executed = flat.length ∧ m.close.commandFrames = flat.length ∧
      flat.length ≤ limits.operationBudget + 1 := by
  have hreach := (Reachable.start.of_run hrun).1
  have hfault := hreach.fault_eq_none rfl hlast
  have hagenda : (atStart map { p with main := flat, functions := [] } start).agenda =
      flat.map .run :=
    List.append_nil _
  obtain ⟨hexecuted, hframes, hle⟩ := counts_of_run hfault flat hcommands _ _ hagenda hrun
  rw [executed_atStart, Nat.zero_add] at hexecuted
  rw [commandFrames_atStart, Nat.zero_add] at hframes
  rw [walker_close, commandFrames_close]
  exact ⟨hexecuted, hframes, hle⟩

end Start

/-- **Running a program is running its unrolling.**  A program with its calls in order that reaches
no guarded statement has one unrolling.  Its run, if the budget does not stop it, is in every
respect the run of the unrolling, and if it comes to its end it has completed as many commands as
were counted beforehand. -/
theorem simulate_eq_unrolled {p : Program} {n : Nat}
    (hchecked : checkCalls p.main p.functions = .ok ())
    (hcount : commandCount p.main p.functions = .ok (some n)) (map : GridMap) {limits : Limits}
    (hbudget : limits.operationBudget < Text.max32) :
    ∃ flat, (∀ ss, Unrolls p.functions p.main ss ↔ ss = flat) ∧
      ∃ o, simulate map p limits = some o ∧
        ((∀ d ∈ o.diagnostics, d.code ≠ 405) →
          simulate map { p with main := flat, functions := [] } limits = some o ∧
            (o.frames.getLast?.bind (·.command) = some .finish →
              o.stepsExecuted = n ∧ o.commandFrames.length = n)) := by
  have hcalls := checkCalls_eq_ok_iff.mp hchecked
  obtain ⟨flat, hflat, hn⟩ := exists_unrolls_of_commandCount hcount
  refine ⟨flat, fun ss => ⟨fun hss => hss.unique hflat, fun hss => hss ▸ hflat⟩, ?_⟩
  cases hstart : map.start with
  | none =>
      have hsimulate : ∀ q, simulate map q limits = some (.withoutStart map) := by
        intro q
        rw [simulate, simulateWithin, hstart]
      refine ⟨_, hsimulate p, fun _ => ⟨hsimulate _, fun hlast => ?_⟩⟩
      simp [Outcome.withoutStart] at hlast
  | some start =>
      obtain ⟨m, hrun⟩ := Machine.exists_run_atStart map p start hbudget
      refine ⟨_, simulate_of_run hstart hrun, fun hcode => ?_⟩
      have hfault : ∀ d, m.fault = some d → d.code ≠ 405 := by
        intro d hd
        apply hcode
        refine List.mem_append_left _ ?_
        rw [Option.mem_toList, Machine.fault_close]
        exact hd
      obtain ⟨m', hrun', hvisible⟩ := Machine.Mirrors.run hcalls (nested_start p.main p.functions)
        rfl hbudget hfault .start (Machine.mirrors_atStart map start hflat) hrun
      have hsame := Outcome.ofMachine_close_congr map hvisible
      refine ⟨?_, fun hlast => ?_⟩
      · rw [hsame]
        exact simulate_of_run hstart hrun'
      · rw [hsame] at hlast ⊢
        obtain ⟨hexecuted, hframes, hle⟩ :=
          Machine.counts_of_finish hflat.eq_command hrun' hlast
        -- a run that ends has made fewer moves than would make the count cut off
        have hsmall : n = flat.length := by
          have hwords : Text.max32 < Text.max64 := by decide
          replace hle : flat.length ≤ limits.operationBudget + 1 := hle
          rw [hn, saturate, Nat.min_eq_left]
          omega
        exact ⟨hexecuted.trans hsmall.symm, hframes.trans hsmall.symm⟩

/-- Two functions, one inside the other, a loop without rounds and a portal: three commands. -/
theorem simulate_eq_unrolled_through_portal :
    let ref (line : Nat) : SourceRef := { line, text := "" }
    let p : Program :=
      { main := [.call "twice" (ref 7), .command .collectGem (ref 8),
          .loop 0 [.command .toggleSwitch (ref 10)] (ref 9)]
        functions := [{ name := "step", body := [.command .moveForward (ref 2)], source := ref 1 },
          { name := "twice", body := [.loop 2 [.call "step" (ref 5)] (ref 4)], source := ref 3 }]
        metadata := { staticCommandCount := some 3, hasDynamicControlFlow := false } }
    checkCalls p.main p.functions = .ok () ∧ commandCount p.main p.functions = .ok (some 3) ∧
    ∃ map flat o, GridMap.read {} "→\tW1\nW1\t♦" = .ok map ∧
      Unrolls p.functions p.main flat ∧ simulate map p {} = some o ∧
      simulate map { p with main := flat, functions := [] } {} = some o ∧
      o.stepsExecuted = 3 ∧ o.commandFrames.length = 3 := by
  intro ref p
  have heval : ((GridMap.read {} "→\tW1\nW1\t♦").toOption.bind fun map =>
      (simulate map p {}).map fun o =>
        (o.diagnostics.map (·.code), o.frames.getLast?.bind (·.command))) =
      some ([], some .finish) := by
    decide +kernel
  obtain ⟨map, hmap, heval⟩ := Option.bind_eq_some_iff.mp heval
  obtain ⟨o, ho, heval⟩ := Option.map_eq_some_iff.mp heval
  simp only [Prod.mk.injEq, List.map_eq_nil_iff] at heval
  obtain ⟨hnone, hlast⟩ := heval
  have hchecked : checkCalls p.main p.functions = .ok () := by decide +kernel
  have hcount : commandCount p.main p.functions = .ok (some 3) := by decide +kernel
  have hbudget : ({} : Limits).operationBudget < Text.max32 := by decide
  obtain ⟨flat, hflat, o', ho', hsame⟩ := simulate_eq_unrolled hchecked hcount map hbudget
  obtain rfl : o = o' := Option.some.inj (ho.symm.trans ho')
  obtain ⟨hrun, hcounts⟩ := hsame (by simp [hnone])
  exact ⟨hchecked, hcount, map, flat, o, eq_ok_of_toOption hmap, (hflat flat).mpr rfl, ho, hrun,
    hcounts hlast⟩

end GemGrid
