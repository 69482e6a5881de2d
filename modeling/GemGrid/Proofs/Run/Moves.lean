import GemGrid.Run.Machine

/-!
# What one move does

Every proof about runs goes through the statements of this module and does not open the machine
again.

* `executed_execute`: a command is refused for a reason given by `Refusal`, or it is completed with
  exactly one more command frame.  A portal takes a second frame, which is not a command frame.
* `moved_move`: a move stops the machine for a reason given by `Cause`, or it leads to the agenda
  given by `Leads` and leaves the fault as it was.
* `operations_move`: either way one operation is charged.
-/

namespace GemGrid

/-- Marking a cell as visited changes nothing else. -/
@[simp] theorem Walker.visit_fields (w : Walker) :
    w.visit.position = w.position ∧ w.visit.facing = w.facing ∧ w.visit.gems = w.gems ∧
      w.visit.switches = w.switches ∧ w.visit.attempted = w.attempted ∧
      w.visit.executed = w.executed ∧ w.visit.collected = w.collected ∧
      w.visit.operations = w.operations := by
  unfold visit
  split <;> simp

namespace Machine

/-! ## Recording -/

/-- The number of frames taken for commands. -/
def commandFrames (m : Machine) : Nat :=
  (m.frames.toList.filter (·.isCommand)).length

@[simp] theorem record_fields (m : Machine) (message : String) (kind : LogKind) (note : Note) :
    (m.record message kind note).walker = m.walker ∧
      (m.record message kind note).agenda = m.agenda ∧
      (m.record message kind note).fault = m.fault :=
  ⟨rfl, rfl, rfl⟩

@[simp] theorem withWalker_fields (m : Machine) (w : Walker) :
    (m.withWalker w).walker = w ∧ (m.withWalker w).agenda = m.agenda ∧
      (m.withWalker w).fault = m.fault ∧ (m.withWalker w).frames = m.frames :=
  ⟨rfl, rfl, rfl, rfl⟩

/-- A recorded command is one more command frame. -/
theorem commandFrames_record_command (m : Machine) (message : String) (kind : LogKind)
    (step : Nat) (c : Command) (source : SourceRef) :
    (m.record message kind (.command step c source)).commandFrames = m.commandFrames + 1 := by
  simp [commandFrames, record, snapshot, log, Frame.isCommand, Note.command]

/-- A frame that was taken for anything else is not one. -/
theorem commandFrames_record_other (m : Machine) (message : String) (kind : LogKind) {note : Note}
    (h : ∀ c, note.trigger ≠ some (.command c)) :
    (m.record message kind note).commandFrames = m.commandFrames := by
  have hframe : ∀ frame : Frame, frame.command = note.trigger → frame.isCommand = false := by
    intro frame hcommand
    unfold Frame.isCommand
    split
    · next c htrigger => exact absurd (hcommand.symm.trans htrigger) (h c)
    · rfl
  simp [commandFrames, record, snapshot, log, hframe]

/-! ## Commands -/

/-- Why a command cannot be carried out where the actor stands. -/
inductive Refusal (map : GridMap) (w : Walker) : Command → Fault → Prop
  | offMap {step : Nat} : map.neighbor? w.position w.facing = none →
      Refusal map w .moveForward (.offMap step)
  | wall {step : Nat} {cell : Cell} : map.neighbor? w.position w.facing = some cell →
      cell.isWall = true → Refusal map w .moveForward (.wallCollision step)
  | portal {step id : Nat} {cell : Cell} : map.neighbor? w.position w.facing = some cell →
      cell.warpId = some id → map.partner? id cell.position = none →
      Refusal map w .moveForward (.unresolvedPortal step id)
  | noGem {step : Nat} : w.gems.contains w.position = false →
      Refusal map w .collectGem (.noGem step)
  | noSwitch {step : Nat} : w.switches.get? w.position = none →
      Refusal map w .toggleSwitch (.noSwitch step)

/-- A machine in the middle of a command: only the actor and the trace have changed. -/
structure Underway (m m₁ : Machine) : Prop where
  agenda : m₁.agenda = m.agenda
  fault : m₁.fault = m.fault
  operations : m₁.walker.operations = m.walker.operations
  executed : m₁.walker.executed = m.walker.executed

/-- A command is refused, or completed with one command frame. -/
inductive Executed (map : GridMap) (m : Machine) (c : Command) (source : SourceRef) :
    Machine → Prop
  | refused {m₁ : Machine} {fault : Fault} : Underway m m₁ → Refusal map m.walker c fault →
      Executed map m c source (m₁.fail fault (.command (m.walker.attempted + 1) c source))
  | completed {m₁ : Machine} : Underway m m₁ → m₁.commandFrames = m.commandFrames + 1 →
      Executed map m c source m₁.complete

theorem Underway.record {m m₁ : Machine} (h : Underway m m₁) (message : String) (kind : LogKind)
    (note : Note) : Underway m (m₁.record message kind note) :=
  ⟨h.agenda, h.fault, h.operations, h.executed⟩

theorem Underway.withWalker {m m₁ : Machine} (h : Underway m m₁) {w : Walker}
    (hoperations : w.operations = m₁.walker.operations)
    (hexecuted : w.executed = m₁.walker.executed) : Underway m (m₁.withWalker w) :=
  ⟨h.agenda, h.fault, hoperations.trans h.operations, hexecuted.trans h.executed⟩

theorem Underway.goTo {m m₁ : Machine} (h : Underway m m₁) (p : Position) :
    Underway m (m₁.withWalker (m₁.walker.goTo p)) :=
  h.withWalker (by simp [Walker.goTo]) (by simp [Walker.goTo])

/-- The machine when a command has been begun and nothing has come of it yet. -/
def begin (m : Machine) : Machine :=
  m.withWalker { m.walker with attempted := m.walker.attempted + 1 }.visit

theorem underway_begin (m : Machine) : Underway m m.begin :=
  ⟨rfl, rfl, by simp [begin], by simp [begin]⟩

section Commands

variable {map : GridMap} {m : Machine} {c : Command} {source : SourceRef} {step : Nat}

theorem executed_turn (side : String) (facing : Direction) :
    Executed map m c source
      (m.begin.turn step side facing (.command (m.walker.attempted + 1) c source)) := by
  unfold turn
  refine .completed (.record (.withWalker (underway_begin m) ?_ ?_) _ _ _) ?_
  · rfl
  · rfl
  · rw [commandFrames_record_command]
    rfl

theorem executed_collect :
    Executed map m .collectGem source
      (m.begin.collect step (.command (m.walker.attempted + 1) .collectGem source)) := by
  unfold collect Walker.takeGem?
  by_cases hgem : m.begin.walker.gems.contains m.begin.walker.position = true
  · simp only [if_pos hgem]
    refine .completed (.record (.withWalker (underway_begin m) ?_ ?_) _ _ _) ?_
    · rfl
    · rfl
    · rw [commandFrames_record_command]
      rfl
  · simp only [if_neg hgem]
    exact .refused (underway_begin m) (.noGem (by simpa [begin] using hgem))

theorem executed_toggle :
    Executed map m .toggleSwitch source
      (m.begin.toggle step (.command (m.walker.attempted + 1) .toggleSwitch source)) := by
  unfold toggle Walker.toggle?
  cases hswitch : m.begin.walker.switches.get? m.begin.walker.position with
  | none => exact .refused (underway_begin m) (.noSwitch (by simpa [begin] using hswitch))
  | some state =>
      refine .completed (.record (.withWalker (underway_begin m) ?_ ?_) _ _ _) ?_
      · rfl
      · rfl
      · rw [commandFrames_record_command]
        rfl

/-- The second half of a step onto a portal. -/
theorem executed_warp {m₁ : Machine} {cell : Cell} {id : Nat} (hmoved : Underway m m₁)
    (hframes : m₁.commandFrames = m.commandFrames + 1)
    (hposition : m₁.walker.position = cell.position)
    (hcell : map.neighbor? m.walker.position m.walker.facing = some cell)
    (hwarp : cell.warpId = some id) :
    Executed map m .moveForward source
      (m₁.warp map step id (.command (m.walker.attempted + 1) .moveForward source)) := by
  unfold warp
  rw [hposition]
  -- a portal without a partner stops the walk in its cell
  cases hpartner : map.partner? id cell.position with
  | none => exact .refused hmoved (.portal hcell hwarp hpartner)
  | some exit =>
      refine .completed ((hmoved.goTo exit).record _ _ _) ?_
      rw [commandFrames_record_other _ _ _ (by simp)]
      exact hframes

theorem executed_moveForward :
    Executed map m .moveForward source
      (m.begin.moveForward map step (.command (m.walker.attempted + 1) .moveForward source)) := by
  have hposition : m.begin.walker.position = m.walker.position := by simp [begin]
  have hfacing : m.begin.walker.facing = m.walker.facing := by simp [begin]
  unfold moveForward
  rw [hposition, hfacing]
  cases hcell : map.neighbor? m.walker.position m.walker.facing with
  | none => exact .refused (underway_begin m) (.offMap hcell)
  | some cell =>
      dsimp only
      by_cases hwall : cell.isWall = true
      · rw [if_pos hwall]
        exact .refused (underway_begin m) (.wall hcell hwall)
      · rw [if_neg hwall]
        -- the command frame is taken before anyone looks for a portal
        have hmoved := (underway_begin m).goTo cell.position
        have hframes : ∀ message,
            ((m.begin.withWalker (m.begin.walker.goTo cell.position)).record message .info
              (.command (m.walker.attempted + 1) .moveForward source)).commandFrames =
            m.commandFrames + 1 :=
          fun message => commandFrames_record_command ..
        cases hwarp : cell.warpId with
        | none => exact .completed (hmoved.record _ _ _) (hframes _)
        | some id =>
            refine executed_warp (hmoved.record _ _ _) (hframes _) ?_ hcell hwarp
            simp [Walker.goTo]

end Commands

theorem executed_execute (map : GridMap) (m : Machine) (c : Command) (source : SourceRef) :
    Executed map m c source (m.execute map c source) := by
  cases c with
  | moveForward => exact executed_moveForward
  | turnLeft => exact executed_turn "left" _
  | turnRight => exact executed_turn "right" _
  | collectGem => exact executed_collect
  | toggleSwitch => exact executed_toggle

/-! ## Moves -/

/-- The task is an `if` with these branches; one without alternative has an empty one. -/
inductive Selects : Task → Condition → List Stmt → List Stmt → Prop
  | ifThen {condition : Condition} {consequent : List Stmt} {source : SourceRef} :
      Selects (.run (.ifThen condition consequent source)) condition consequent []
  | ifElse {condition : Condition} {consequent alternate : List Stmt} {source : SourceRef} :
      Selects (.run (.ifElse condition consequent alternate source)) condition consequent alternate

/-- The task is a check of a `while` that has been through some rounds. -/
inductive Checks : Task → Nat → Condition → List Stmt → SourceRef → Prop
  | first {condition : Condition} {body : List Stmt} {source : SourceRef} :
      Checks (.run (.whileDo condition body source)) 0 condition body source
  | again {rounds : Nat} {condition : Condition} {body : List Stmt} {source : SourceRef} :
      Checks (.recheck rounds condition body source) rounds condition body source

/-- Why a move stops the machine. -/
inductive Cause (setting : Setting) (m : Machine) : Task → List Task → Fault → Prop
  | budget {task : Task} {rest : List Task} :
      setting.limits.operationBudget < min (m.walker.operations + 1) Text.max32 →
      Cause setting m task rest (.budgetExceeded setting.limits.operationBudget)
  | command {c : Command} {source : SourceRef} {rest : List Task} {fault : Fault} :
      Refusal setting.map m.walker c fault → Cause setting m (.run (.command c source)) rest fault
  | whileLimit {task : Task} {rest : List Task} {rounds : Nat} {condition : Condition}
      {body : List Stmt} {source : SourceRef} : Checks task rounds condition body source →
      condition.eval (m.walker.holds setting.map) = true →
      setting.limits.whileLimit < (rounds + 1) % (Text.max32 + 1) →
      Cause setting m task rest (.whileLimitExceeded setting.limits.whileLimit)
  | undefined {name : String} {source : SourceRef} {rest : List Task} :
      FunctionDef.body? setting.functions name = none →
      Cause setting m (.run (.call name source)) rest (.undefinedFunction name)
  | recursion {name : String} {source : SourceRef} {rest : List Task} :
      name ∈ Task.active rest → Cause setting m (.run (.call name source)) rest (.recursion name)

/-- What the agenda is after a task that no fault has stopped. -/
inductive Leads (setting : Setting) (m : Machine) : Task → List Task → List Task → Prop
  | command {c : Command} {source : SourceRef} {rest : List Task} :
      Leads setting m (.run (.command c source)) rest rest
  | loop {count : Nat} {body : List Stmt} {source : SourceRef} {rest : List Task} :
      Leads setting m (.run (.loop count body source)) rest
        (Task.ahead body (.run (.loop (count - 1) body source) :: rest))
  | branch {task : Task} {condition : Condition} {consequent alternate : List Stmt}
      {rest : List Task} : Selects task condition consequent alternate →
      Leads setting m task rest
        (Task.ahead (if condition.eval (m.walker.holds setting.map) then consequent else alternate)
          rest)
  | stop {task : Task} {rounds : Nat} {condition : Condition} {body : List Stmt}
      {source : SourceRef} {rest : List Task} : Checks task rounds condition body source →
      condition.eval (m.walker.holds setting.map) = false → Leads setting m task rest rest
  | round {task : Task} {rounds : Nat} {condition : Condition} {body : List Stmt}
      {source : SourceRef} {rest : List Task} : Checks task rounds condition body source →
      condition.eval (m.walker.holds setting.map) = true →
      Leads setting m task rest (Task.ahead body
        (.recheck ((rounds + 1) % (Text.max32 + 1)) condition body source :: rest))
  | call {name : String} {source : SourceRef} {body : List Stmt} {rest : List Task} :
      FunctionDef.body? setting.functions name = some body → name ∉ Task.active rest →
      Leads setting m (.run (.call name source)) rest (Task.ahead body (.leave name :: rest))
  | leave {name : String} {rest : List Task} : Leads setting m (.leave name) rest rest

/-- A move stops the machine with a fault, or it leads on to another agenda. -/
inductive Moved (setting : Setting) (m : Machine) (task : Task) (rest : List Task) :
    Machine → Prop
  | stopped {m₁ : Machine} {fault : Fault} {note : Note} : Cause setting m task rest fault →
      note.trigger ≠ some .finish → Moved setting m task rest (m₁.fail fault note)
  | went {m' : Machine} : Leads setting m task rest m'.agenda → m'.fault = m.fault →
      Moved setting m task rest m'

/-- A charge beyond the budget stops the machine. -/
theorem move_of_budget_lt {setting : Setting} {m : Machine} {task : Task} {rest : List Task}
    (h : setting.limits.operationBudget < min (m.walker.operations + 1) Text.max32) :
    m.move setting task rest =
      m.charge.fail (.budgetExceeded setting.limits.operationBudget) (task.note m.walker) :=
  if_pos h

/-- Within the budget the task is carried out. -/
theorem move_of_le_budget {setting : Setting} {m : Machine} {task : Task} {rest : List Task}
    (h : min (m.walker.operations + 1) Text.max32 ≤ setting.limits.operationBudget) :
    m.move setting task rest = m.charge.perform setting task rest :=
  if_neg (Nat.not_lt.mpr h)

/-- A move is stopped at its charge, or its task is carried out. -/
theorem move_cases (setting : Setting) (m : Machine) (task : Task) (rest : List Task) :
    (setting.limits.operationBudget < min (m.walker.operations + 1) Text.max32 ∧
      m.move setting task rest =
        m.charge.fail (.budgetExceeded setting.limits.operationBudget) (task.note m.walker)) ∨
    (min (m.walker.operations + 1) Text.max32 ≤ setting.limits.operationBudget ∧
      m.move setting task rest = m.charge.perform setting task rest) := by
  rcases Nat.lt_or_ge setting.limits.operationBudget (min (m.walker.operations + 1) Text.max32)
    with hover | hwithin
  · exact .inl ⟨hover, move_of_budget_lt hover⟩
  · exact .inr ⟨hwithin, move_of_le_budget hwithin⟩

theorem move_command {setting : Setting} {m : Machine} {c : Command} {source : SourceRef}
    {rest : List Task}
    (h : min (m.walker.operations + 1) Text.max32 ≤ setting.limits.operationBudget) :
    m.move setting (.run (.command c source)) rest =
      { m.charge with agenda := rest }.execute setting.map c source :=
  move_of_le_budget h

theorem Refusal.of_charge {map : GridMap} {m : Machine} {c : Command} {fault : Fault}
    (h : Refusal map m.charge.walker c fault) : Refusal map m.walker c fault := by
  cases h with
  | offMap hcell => exact .offMap hcell
  | wall hcell hwall => exact .wall hcell hwall
  | portal hcell hwarp hpartner => exact .portal hcell hwarp hpartner
  | noGem hgem => exact .noGem hgem
  | noSwitch hswitch => exact .noSwitch hswitch

theorem trigger_note_ne_finish (w : Walker) (task : Task) :
    (task.note w).trigger ≠ some .finish := by
  rcases task with s | _ | _
  · cases s <;> simp [Task.note, Note.command, Note.at]
  · simp [Task.note, Note.at]
  · simp [Task.note]

theorem enter_eq {functions : List FunctionDef} {m : Machine} {name : String}
    {source : SourceRef} {body : List Stmt} {rest : List Task}
    (hbody : FunctionDef.body? functions name = some body) (hactive : name ∉ Task.active rest) :
    m.enter functions name source rest =
      { m with agenda := Task.ahead body (.leave name :: rest) } := by
  unfold enter
  rw [hbody]
  exact if_neg (by simpa using hactive)

section Control

variable {setting : Setting} {m : Machine} {task : Task} {rest : List Task}

theorem moved_select {condition : Condition} {consequent alternate : List Stmt}
    (h : Selects task condition consequent alternate) :
    Moved setting m task rest
      (m.charge.select setting.map condition consequent alternate rest) :=
  .went (.branch h) rfl

theorem moved_check {rounds : Nat} {condition : Condition} {body : List Stmt}
    {source : SourceRef} (h : Checks task rounds condition body source) :
    Moved setting m task rest
      (m.charge.check setting rounds condition body source rest) := by
  unfold check
  cases hresult : condition.eval (m.charge.walker.holds setting.map) with
  | false => exact .went (.stop h hresult) rfl
  | true =>
      simp only [Bool.not_true, Bool.false_eq_true, if_false]
      split
      · next hlimit => exact .stopped (.whileLimit h hresult hlimit) (by simp [Note.at])
      · exact .went (.round h hresult) rfl

theorem moved_enter {name : String} {source : SourceRef} :
    Moved setting m (.run (.call name source)) rest
      (m.charge.enter setting.functions name source rest) := by
  cases hbody : FunctionDef.body? setting.functions name with
  | none =>
      unfold enter
      rw [hbody]
      exact .stopped (.undefined hbody) (by simp [Note.at])
  | some body =>
      -- the check of the call path comes after the body is found
      by_cases hactive : name ∈ Task.active rest
      · unfold enter
        rw [hbody]
        dsimp only
        rw [if_pos (List.contains_iff_mem.mpr hactive)]
        exact .stopped (.recursion hactive) (by simp [Note.at])
      · rw [enter_eq hbody hactive]
        exact .went (.call hbody hactive) rfl

theorem moved_command {c : Command} {source : SourceRef} :
    Moved setting m (.run (.command c source)) rest
      ({ m.charge with agenda := rest }.execute setting.map c source) := by
  have h := executed_execute setting.map { m.charge with agenda := rest } c source
  generalize execute setting.map { m.charge with agenda := rest } c source = m' at h ⊢
  cases h with
  | refused _ hrefusal => exact .stopped (.command hrefusal.of_charge) (by simp [Note.command])
  | @completed m₁ hunderway _ =>
      have hagenda : m₁.complete.agenda = rest := hunderway.agenda
      refine .went ?_ hunderway.fault
      rw [hagenda]
      exact .command

end Control

/-- **What one move does.** -/
theorem moved_move (setting : Setting) (m : Machine) (task : Task) (rest : List Task) :
    Moved setting m task rest (m.move setting task rest) := by
  -- the budget comes first: no task is looked at when it is spent
  rcases move_cases setting m task rest with ⟨hover, hmove⟩ | ⟨_, hmove⟩
  · rw [hmove]
    exact .stopped (.budget hover) (trigger_note_ne_finish m.walker task)
  · rw [hmove]
    unfold perform
    match task with
    | .run (.command c source) => exact moved_command
    | .run (.loop count body source) => exact .went .loop rfl
    | .run (.ifThen condition consequent source) => exact moved_select .ifThen
    | .run (.ifElse condition consequent alternate source) => exact moved_select .ifElse
    | .run (.whileDo condition body source) => exact moved_check .first
    | .run (.call name source) => exact moved_enter
    | .recheck rounds condition body source => exact moved_check .again
    | .leave name => exact .went .leave rfl

/-! ## The charge -/

theorem walker_check (setting : Setting) (m : Machine) (rounds : Nat) (condition : Condition)
    (body : List Stmt) (source : SourceRef) (rest : List Task) :
    (m.check setting rounds condition body source rest).walker = m.walker := by
  unfold check
  dsimp only
  split
  · rfl
  · split <;> rfl

theorem walker_enter (functions : List FunctionDef) (m : Machine) (name : String)
    (source : SourceRef) (rest : List Task) :
    (m.enter functions name source rest).walker = m.walker := by
  unfold enter
  split
  · rfl
  · split <;> rfl

/-- Only a command changes the actor. -/
theorem command_or_walker_perform (setting : Setting) (m : Machine) (task : Task)
    (rest : List Task) :
    (∃ c source, task = .run (.command c source)) ∨
      (m.perform setting task rest).walker = m.walker := by
  unfold perform
  match task with
  | .run (.command c source) => exact .inl ⟨c, source, rfl⟩
  | .run (.loop count body source) => exact .inr rfl
  | .run (.ifThen condition consequent source) => exact .inr rfl
  | .run (.ifElse condition consequent alternate source) => exact .inr rfl
  | .run (.whileDo condition body source) => exact .inr (walker_check ..)
  | .run (.call name source) => exact .inr (walker_enter ..)
  | .recheck rounds condition body source => exact .inr (walker_check ..)
  | .leave name => exact .inr rfl

theorem operations_execute (map : GridMap) (m : Machine) (c : Command) (source : SourceRef) :
    (m.execute map c source).walker.operations = m.walker.operations := by
  have h := executed_execute map m c source
  generalize execute map m c source = m' at h ⊢
  cases h with
  | refused hunderway _ => exact hunderway.operations
  | completed hunderway _ => exact hunderway.operations

/-- Nothing but the charge changes the number of operations. -/
theorem operations_perform (setting : Setting) (m : Machine) (task : Task) (rest : List Task) :
    (m.perform setting task rest).walker.operations = m.walker.operations := by
  rcases command_or_walker_perform setting m task rest with ⟨c, source, rfl⟩ | hwalker
  · exact operations_execute setting.map { m with agenda := rest } c source
  · rw [hwalker]

/-- Every move charges one operation. -/
theorem operations_move (setting : Setting) (m : Machine) (task : Task) (rest : List Task) :
    (m.move setting task rest).walker.operations = min (m.walker.operations + 1) Text.max32 := by
  rcases move_cases setting m task rest with ⟨_, hmove⟩ | ⟨_, hmove⟩
  · rw [hmove]
    rfl
  · rw [hmove]
    exact operations_perform setting m.charge task rest

end Machine

end GemGrid
