import GemGrid.Proofs.Run.Guards
import GemGrid.Proofs.Run.Records

/-!
# Labels and steps

The frame of a command shows the index of the attempt twice, in its label and as its step.  The
label is made before the operation of the command is charged, and the step is read off the actor,
who counts the attempt after the charge.  So the two agree on every path that begins the command,
whatever comes of it (`numbered_execute`).  They differ by one in the frame of a command that the
budget refuses, which is the last of its run.

`Machine.Labelled` says this of a machine.  One move keeps it (`labelled_move`), and
`Reachable.labelled` brings it to the machines of a run.
-/

namespace GemGrid

/-! ## Frames -/

/-- A frame that is labelled with its step and whose text is about a command. -/
structure Frame.Numbered (f : Frame) : Prop where
  label : f.label = some s!"Command {f.step}"
  text : ∃ text, f.message = "Command " ++ text

/-- The frame reports that the budget was used up. -/
def Outcome.ReportsBudget (o : Outcome) (f : Frame) : Prop :=
  ∃ d ∈ o.diagnostics, d.code = 405 ∧ f.Reports d

/-- The label of a command tells its number. -/
theorem commandLabel_inj {n k : Nat} (h : s!"Command {n}" = s!"Command {k}") : n = k := by
  have hdigits : n.repr = k.repr := (String.append_right_inj _).mp h
  have hn := Text.digits?_repr n
  rw [hdigits, Text.digits?_repr k] at hn
  exact (Option.some.inj hn).symm

/-- The faults of commands have the texts of commands. -/
theorem Fault.exists_text {fault : Fault} (hcode : fault.code ∈ [400, 401, 402, 403, 404]) :
    ∃ text, fault.message = "Command " ++ text := by
  unfold message
  cases fault with
  | offMap | wallCollision | noGem | noSwitch | unresolvedPortal =>
      simp only [toString_string, String.append_assoc]
      exact ⟨_, rfl⟩
  | _ => simp [code] at hcode

/-- No frame with the text of a command reports that the budget was used up. -/
theorem Frame.Numbered.not_reportsBudget {f : Frame} (h : f.Numbered) (o : Outcome) :
    ¬ o.ReportsBudget f := by
  rintro ⟨d, _, hcode, hreports⟩
  obtain ⟨fault, source, rfl, hmessage, _⟩ := hreports.fault
  obtain ⟨text, htext⟩ := h.text
  rw [Fault.code_toDiagnostic] at hcode
  have hletters := congrArg String.toList (htext.symm.trans hmessage)
  unfold Fault.message at hletters
  cases fault with
  | budgetExceeded limit => simp [toString_string] at hletters
  | _ => simp [Fault.code] at hcode

namespace Machine

variable {setting : Setting} {m m' : Machine}

/-- Every frame that was taken for a command is numbered. -/
def Numbered (m : Machine) : Prop :=
  ∀ f ∈ m.frames.toList, f.isCommand = true → f.Numbered

namespace Numbered

theorem of_frames (h : m.Numbered) (hframes : m'.frames = m.frames) : m'.Numbered := by
  unfold Numbered
  rw [hframes]
  exact h

theorem withWalker (h : m.Numbered) (w : Walker) : (m.withWalker w).Numbered :=
  h.of_frames rfl

theorem complete (h : m.Numbered) : m.complete.Numbered :=
  h.of_frames rfl

theorem record (h : m.Numbered) {message : String} {kind : LogKind} {note : Note}
    (hframe : (m.walker.frame m.frames.size message kind note).isCommand = true →
      (m.walker.frame m.frames.size message kind note).Numbered) :
    (m.record message kind note).Numbered := by
  intro f hf hcommand
  rw [(adds_record m message kind note).frames] at hf
  rcases List.mem_append.mp hf with hf | hf
  · exact h f hf hcommand
  · obtain rfl := List.mem_singleton.mp hf
    exact hframe hcommand

/-- A frame that was not taken for a command may be added. -/
theorem record_other (h : m.Numbered) (message : String) (kind : LogKind) {note : Note}
    (hother : ∀ c, note.trigger ≠ some (.command c)) : (m.record message kind note).Numbered := by
  apply h.record
  intro hcommand
  unfold Frame.isCommand at hcommand
  split at hcommand
  · next c htrigger => exact absurd htrigger (hother c)
  · cases hcommand

/-- The frame of a command that has been begun may be added. -/
theorem record_command (h : m.Numbered) {w : Walker} {n : Nat} (hn : w.attempted = n)
    (text : String) (kind : LogKind) (c : Command) (source : SourceRef) :
    ((m.withWalker w).record ("Command " ++ text) kind (.command n c source)).Numbered := by
  subst hn
  exact (h.withWalker w).record fun _ => ⟨rfl, text, rfl⟩

theorem fail_other (h : m.Numbered) (fault : Fault) {note : Note}
    (hother : ∀ c, note.trigger ≠ some (.command c)) : (m.fail fault note).Numbered :=
  (h.record_other fault.message .error hother).of_frames rfl

theorem fail_command (h : m.Numbered) {n : Nat} (hn : m.walker.attempted = n) {fault : Fault}
    (hcode : fault.code ∈ [400, 401, 402, 403, 404]) (c : Command) (source : SourceRef) :
    (m.fail fault (.command n c source)).Numbered := by
  obtain ⟨text, htext⟩ := Fault.exists_text hcode
  have hrecord := h.record_command hn text .error c source
  rw [← htext] at hrecord
  exact hrecord.of_frames rfl

end Numbered

/-! ## Commands -/

section Commands

variable {map : GridMap} {c : Command} {source : SourceRef} {step n : Nat}

theorem attempted_begin (m : Machine) : m.begin.walker.attempted = m.walker.attempted + 1 := by
  simp [begin]

theorem numbered_turn (h : m.Numbered) (hn : m.walker.attempted = n) (side : String)
    (facing : Direction) : (m.turn step side facing (.command n c source)).Numbered := by
  unfold turn
  simp only [toString_string, String.append_assoc]
  exact .complete (h.record_command (by exact hn) _ _ _ _)

theorem numbered_collect (h : m.Numbered) (hn : m.walker.attempted = n) :
    (m.collect step (.command n c source)).Numbered := by
  unfold collect Walker.takeGem?
  by_cases hgem : m.walker.gems.contains m.walker.position = true
  · rw [if_pos hgem]
    simp only [toString_string, String.append_assoc]
    exact .complete (h.record_command (by exact hn) _ _ _ _)
  · rw [if_neg hgem]
    exact h.fail_command hn (by simp [Fault.code]) c source

theorem numbered_toggle (h : m.Numbered) (hn : m.walker.attempted = n) :
    (m.toggle step (.command n c source)).Numbered := by
  unfold toggle Walker.toggle?
  cases m.walker.switches.get? m.walker.position with
  | none => exact h.fail_command hn (by simp [Fault.code]) c source
  | some state =>
      dsimp only [Option.bind_eq_bind, Option.bind_some, Option.pure_def]
      simp only [toString_string, String.append_assoc]
      exact .complete (h.record_command (by exact hn) _ _ _ _)

theorem numbered_warp (h : m.Numbered) (hn : m.walker.attempted = n) (id : Nat) :
    (m.warp map step id (.command n c source)).Numbered := by
  unfold warp
  cases map.partner? id m.walker.position with
  | none => exact h.fail_command hn (by simp [Fault.code]) c source
  | some exit => exact ((h.withWalker _).record_other _ _ (by simp)).complete

theorem numbered_moveForward (h : m.Numbered) (hn : m.walker.attempted = n) :
    (m.moveForward map step (.command n c source)).Numbered := by
  unfold moveForward
  cases map.neighbor? m.walker.position m.walker.facing with
  | none => exact h.fail_command hn (by simp [Fault.code]) c source
  | some cell =>
      dsimp only
      by_cases hwall : cell.isWall = true
      · rw [if_pos hwall]
        exact h.fail_command hn (by simp [Fault.code]) c source
      · rw [if_neg hwall]
        simp only [toString_string, String.append_assoc]
        have hattempted : (m.walker.goTo cell.position).attempted = n := by simpa using hn
        -- the frame for the move is numbered before anyone looks for a portal
        have hmoved := fun text =>
          h.record_command hattempted text .info c source
        cases cell.warpId with
        | none => exact (hmoved _).complete
        | some id => exact numbered_warp (hmoved _) hattempted id

/-- Whatever comes of a command that is begun, its frames are numbered. -/
theorem numbered_execute (h : m.Numbered) (map : GridMap) (c : Command) (source : SourceRef) :
    (m.execute map c source).Numbered := by
  have hbegin : m.begin.Numbered := h.of_frames rfl
  have hn := attempted_begin m
  cases c with
  | moveForward => exact numbered_moveForward hbegin hn
  | turnLeft => exact numbered_turn hbegin hn "left" _
  | turnRight => exact numbered_turn hbegin hn "right" _
  | collectGem => exact numbered_collect hbegin hn
  | toggleSwitch => exact numbered_toggle hbegin hn

end Commands

/-! ## Moves -/

section Moves

variable {task : Task} {rest : List Task}

theorem numbered_check (h : m.Numbered) (rounds : Nat) (condition : Condition)
    (body : List Stmt) (source : SourceRef) :
    (m.check setting rounds condition body source rest).Numbered := by
  have hlog : ∀ message, (m.log message .info).Numbered := fun _ => h.of_frames rfl
  unfold check
  dsimp only
  split
  · exact h.of_frames rfl
  · split
    · exact (hlog _).fail_other _ (by simp [Note.at])
    · exact h.of_frames rfl

theorem numbered_enter (h : m.Numbered) (functions : List FunctionDef) (name : String)
    (source : SourceRef) : (m.enter functions name source rest).Numbered := by
  unfold enter
  split
  · exact h.fail_other _ (by simp [Note.at])
  · split
    · exact h.fail_other _ (by simp [Note.at])
    · exact h.of_frames rfl

theorem numbered_perform (h : m.Numbered) : (m.perform setting task rest).Numbered := by
  unfold perform
  match task with
  | .run (.command c source) =>
      exact numbered_execute (m := { m with agenda := rest }) (h.of_frames rfl) _ _ _
  | .run (.loop count body source) => exact h.of_frames rfl
  | .run (.ifThen condition consequent source) => exact h.of_frames rfl
  | .run (.ifElse condition consequent alternate source) => exact h.of_frames rfl
  | .run (.whileDo condition body source) => exact numbered_check h _ _ _ _
  | .run (.call name source) => exact numbered_enter h _ _ _
  | .recheck rounds condition body source => exact numbered_check h _ _ _ _
  | .leave name => exact h.of_frames rfl

/-- A machine whose command frames are numbered, or one that has been stopped by its budget when
it was about to begin a command. -/
inductive Labelled (limit : Nat) : Machine → Prop
  | numbered {m : Machine} : m.Numbered → Labelled limit m
  | refused {m : Machine} (c : Command) (source : SourceRef) : m.Numbered →
      Labelled limit (m.fail (.budgetExceeded limit) (.command (m.walker.attempted + 1) c source))

/-- Only a command is noted as one. -/
theorem command_or_note (w : Walker) (task : Task) :
    (∃ c source, task = .run (.command c source)) ∨
      ∀ c, (task.note w).trigger ≠ some (.command c) := by
  rcases task with s | _ | _
  · cases s with
    | command c source => exact .inl ⟨c, source, rfl⟩
    | _ => exact .inr (by simp [Task.note, Note.at])
  · exact .inr (by simp [Task.note, Note.at])
  · exact .inr (by simp [Task.note])

/-- **How one move labels its frames.** -/
theorem labelled_move (h : m.Numbered) :
    (m.move setting task rest).Labelled setting.limits.operationBudget := by
  have hcharge : m.charge.Numbered := h.of_frames rfl
  rcases move_cases setting m task rest with ⟨_, hmove⟩ | ⟨_, hmove⟩
  · rw [hmove]
    rcases command_or_note m.walker task with ⟨c, source, rfl⟩ | hother
    · exact .refused c source hcharge
    · exact .numbered (hcharge.fail_other _ hother)
  · rw [hmove]
    exact .numbered (numbered_perform hcharge)

/-- **How a run labels its frames.** -/
theorem Reachable.labelled {start : Machine} (hstart : start.Numbered)
    (h : Reachable setting start m) : m.Labelled setting.limits.operationBudget := by
  induction h with
  | start => exact .numbered hstart
  | move _ hnext ih =>
      cases ih with
      | numbered hm => exact labelled_move hm
      | refused => cases hnext

theorem numbered_atStart (map : GridMap) (p : Program) (start : Cell) :
    (atStart map p start).Numbered :=
  .record_other (fun _ hf => by cases hf) _ _ (by simp)

theorem Labelled.close {limit : Nat} (h : m.Labelled limit) : m.close.Labelled limit := by
  cases hfault : m.fault with
  | some d => rwa [close_of_fault hfault]
  | none =>
      rw [close_of_no_fault hfault]
      cases h with
      | numbered hm => exact .numbered (hm.record_other _ _ (by simp))
      | refused => cases hfault

end Moves

end Machine

/-! ## Outcomes -/

/-- Labels and steps of an outcome: they agree unless the frame reports that the budget was used
up, and then the step is one behind. -/
structure Outcome.Labelled (o : Outcome) : Prop where
  agree : ∀ f ∈ o.frames, f.isCommand = true →
    (f.label = some s!"Command {f.step}" ↔ ¬ o.ReportsBudget f)
  behind : ∀ f ∈ o.frames, f.isCommand = true → o.ReportsBudget f →
    f.label = some s!"Command {f.step + 1}" ∧ o.frames.getLast? = some f

theorem Outcome.labelled_of_numbered {o : Outcome}
    (h : ∀ f ∈ o.frames, f.isCommand = true → f.Numbered) : o.Labelled := by
  constructor
  · intro f hf hcommand
    have hnumbered := h f hf hcommand
    exact iff_of_true hnumbered.label (hnumbered.not_reportsBudget o)
  · intro f hf hcommand hbudget
    exact absurd hbudget ((h f hf hcommand).not_reportsBudget o)

/-- The outcome of a run that its budget has stopped at a command. -/
theorem Outcome.labelled_of_refused {o : Outcome} {frames : List Frame} {last : Frame}
    (hframes : o.frames = frames ++ [last])
    (hnumbered : ∀ f ∈ frames, f.isCommand = true → f.Numbered)
    (hlabel : last.label = some s!"Command {last.step + 1}") (hbudget : o.ReportsBudget last) :
    o.Labelled := by
  -- the label is one ahead of the step, so the two cannot agree on it
  have hlast : last.label ≠ some s!"Command {last.step}" := by
    rw [hlabel]
    intro hsame
    have hsucc := commandLabel_inj (Option.some.inj hsame)
    omega
  have hmem : ∀ f ∈ o.frames, f ∈ frames ∨ f = last := by
    simp [hframes]
  -- the budget is reported of the last frame only, and the frames before are numbered
  constructor
  · intro f hf hcommand
    rcases hmem f hf with hf | rfl
    · exact iff_of_true (hnumbered f hf hcommand).label
        ((hnumbered f hf hcommand).not_reportsBudget o)
    · exact iff_of_false hlast (not_not_intro hbudget)
  · intro f hf hcommand hreports
    rcases hmem f hf with hf | rfl
    · exact absurd hreports ((hnumbered f hf hcommand).not_reportsBudget o)
    · exact ⟨hlabel, by simp [hframes]⟩

theorem Machine.Labelled.outcome {m : Machine} {limit : Nat} (map : GridMap)
    (h : m.Labelled limit) : (Outcome.ofMachine map m).Labelled := by
  cases h with
  | numbered hm => exact Outcome.labelled_of_numbered hm
  | @refused m c source hm =>
      refine Outcome.labelled_of_refused (Machine.adds_fail m _ _).frames hm rfl ?_
      refine ⟨(Fault.budgetExceeded limit).toDiagnostic (some source), ?_, rfl, rfl, ?_, ?_⟩
      · exact List.mem_append_left _ (List.mem_singleton_self _)
      · simp [Walker.frame, Note.command]
      · exact ⟨_, source, rfl, rfl, rfl⟩

/-- **The labels of the commands of a run.**  The frame of a command is labelled with its step,
unless the budget has refused the command. -/
theorem labelled_of_ends {map : GridMap} {p : Program} {limits : Limits} {o : Outcome}
    (h : Ends map p limits o) : o.Labelled := by
  cases hstart : map.start with
  | none =>
      rw [h.eq_withoutStart hstart]
      exact Outcome.labelled_of_numbered fun f hf => by cases hf
  | some start =>
      obtain ⟨m, hreach, _, rfl⟩ := h.exists_machine hstart
      exact (hreach.labelled (Machine.numbered_atStart map p start)).close.outcome map

/-- A step through a portal and a turn, and then the budget refuses the third command, which is
labelled `Command 3` in a frame with step 2. -/
theorem labelled_of_ends_beyond_portal :
    let limits : Limits := { operationBudget := 2 }
    ∃ map p o, GridMap.read {} "→\tW2\t♦\tW2" = .ok map ∧
      Script.read "moveForward()\nturnLeft()\ncollectGem()" = .ok p ∧ Ends map p limits o ∧
      o.Labelled ∧ o.frames.map (·.label) =
        [some "Start", some "Command 1", some "Warp W2", some "Command 2", some "Command 3"] ∧
      o.frames.map (·.step) = [0, 1, 1, 2, 2] ∧ o.diagnostics.map (·.code) = [405, 500] := by
  intro limits
  have heval : ((GridMap.read {} "→\tW2\t♦\tW2").toOption.bind fun map =>
      (Script.read "moveForward()\nturnLeft()\ncollectGem()").toOption.bind fun p =>
        (simulate map p limits).map fun o =>
          (o.frames.map (·.label), o.frames.map (·.step), o.diagnostics.map (·.code))) =
      some ([some "Start", some "Command 1", some "Warp W2", some "Command 2",
        some "Command 3"], [0, 1, 1, 2, 2], [405, 500]) := by
    decide +kernel
  obtain ⟨map, hmap, heval⟩ := Option.bind_eq_some_iff.mp heval
  obtain ⟨p, hp, heval⟩ := Option.bind_eq_some_iff.mp heval
  obtain ⟨o, ho, heval⟩ := Option.map_eq_some_iff.mp heval
  simp only [Prod.mk.injEq] at heval
  have hends : Ends map p limits o := ⟨_, ho⟩
  exact ⟨map, p, o, eq_ok_of_toOption hmap, eq_ok_of_toOption hp, hends, labelled_of_ends hends,
    heval⟩

/-- The second of two commands under a budget of one: its frame is labelled `Command 2` and has
step 1. -/
theorem not_label_eq_step_of_refused :
    let limits : Limits := { operationBudget := 1 }
    ∃ map p o f, GridMap.read {} "→" = .ok map ∧
      Script.read "turnLeft()\nturnLeft()" = .ok p ∧ Ends map p limits o ∧ f ∈ o.frames ∧
      f.command = some (.command .turnLeft) ∧ f.label = some "Command 2" ∧ f.step = 1 ∧
      f.label ≠ some s!"Command {f.step}" := by
  intro limits
  have heval : ((GridMap.read {} "→").toOption.bind fun map =>
      (Script.read "turnLeft()\nturnLeft()").toOption.bind fun p =>
        (simulate map p limits).bind fun o => (o.frames.getLast?).map fun f =>
          (f.command, f.label, f.step)) =
      some (some (.command .turnLeft), some "Command 2", 1) := by
    decide +kernel
  obtain ⟨map, hmap, heval⟩ := Option.bind_eq_some_iff.mp heval
  obtain ⟨p, hp, heval⟩ := Option.bind_eq_some_iff.mp heval
  obtain ⟨o, ho, heval⟩ := Option.bind_eq_some_iff.mp heval
  obtain ⟨f, hf, heval⟩ := Option.map_eq_some_iff.mp heval
  simp only [Prod.mk.injEq] at heval
  obtain ⟨hcommand, hlabel, hstep⟩ := heval
  refine ⟨map, p, o, f, eq_ok_of_toOption hmap, eq_ok_of_toOption hp, ⟨_, ho⟩,
    List.mem_of_getLast? hf, hcommand, hlabel, hstep, ?_⟩
  rw [hlabel, hstep]
  decide

end GemGrid
