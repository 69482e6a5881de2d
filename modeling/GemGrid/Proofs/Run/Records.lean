import GemGrid.Proofs.Run.Events

/-!
# What a run records

`Events.lean` follows the actor.  Here the trace is read on its own, by its texts and tones.

* A line without a frame tells the `Decision` on a condition, and no frame has a text of that form
  (`tellsCheck`).
* A run that goes on records *calm* items only, and it counts one completed command for each
  command that its frames show as carried out (`carriedOut`).
* A run that is stopped records the fault as its last item.  There is one fault that comes after a
  command has been shown and before it is counted: a portal without destination.

`Recorded m m'` says this of everything that was recorded between two machines.  It holds of a
single move (`recorded_move`) and is transitive, so it holds of a whole run (`Reachable.recorded`).
A move is taken apart by `Calmly`, the part of it that has only calm items so far: it ends the move,
it completes a command, or a fault comes after it.
-/

namespace GemGrid

/-! ## Texts -/

/-- The texts that tell how the condition of an `if` or a `while` was decided. -/
inductive Decision : String → Prop
  | branch (c : Condition) {verdict : String} : verdict ∈ ["true", "false"] →
      Decision s!"Condition if ({c.render}) is {verdict}."
  | round (c : Condition) {verdict : String} : verdict ∈ ["continue", "stop"] →
      Decision s!"while ({c.render}) check: {verdict}"

/-- Whether a text starts like a decision. -/
def tellsCheck (message : String) : Bool :=
  "Condition if (".toList.isPrefixOf message.toList || "while (".toList.isPrefixOf message.toList

/-- Whether a line tells of a condition that was checked. -/
def LogEntry.isCheck (e : LogEntry) : Bool :=
  tellsCheck e.message

theorem toString_string (s : String) : toString s = s :=
  rfl

theorem Decision.tellsCheck {message : String} (h : Decision message) :
    tellsCheck message = true := by
  cases h <;> simp [GemGrid.tellsCheck, toString_string]

/-- The text of a command starts with its number. -/
theorem tellsCheck_command (text : String) : tellsCheck ("Command " ++ text) = false := by
  simp [tellsCheck, List.isPrefixOf]

theorem Fault.tellsCheck_message (fault : Fault) : tellsCheck fault.message = false := by
  unfold message
  cases fault with
  | _ => simp [tellsCheck, toString_string, List.isPrefixOf]

/-! ## Items -/

/-- The line that was written with a frame. -/
def Frame.entry (f : Frame) : LogEntry :=
  { message := f.message, kind := f.kind, position := f.position, facing := f.facing }

/-- An item that a run records and then goes on. -/
inductive Item.Calm : Item → Prop
  | line {e : LogEntry} : Decision e.message → e.kind = .info → Calm (.line e)
  | frame {f : Frame} : tellsCheck f.message = false → f.kind ≠ .error →
      f.command ≠ some .finish → Calm (.frame f)

theorem Item.Calm.kind_ne_error {item : Item} (h : item.Calm) : item.entry.kind ≠ .error := by
  cases h with
  | @line e _ hkind =>
      show e.kind ≠ .error
      rw [hkind]
      decide
  | frame _ hkind _ => exact hkind

/-- The frame shows the fault of a diagnostic and the statement that was running. -/
structure Frame.Reports (f : Frame) (d : Diagnostic) : Prop where
  kind : f.kind = .error
  trigger : f.command ≠ some .finish
  fault : ∃ fault : Fault, ∃ source, d = fault.toDiagnostic (some source) ∧
    f.message = fault.message ∧ f.source = some source

/-- The number of commands that some frames show as carried out. -/
def carriedOut (frames : List Frame) : Nat :=
  (frames.filter (·.isCommand)).countP (·.kind != .error)

@[simp] theorem carriedOut_nil : carriedOut [] = 0 :=
  rfl

@[simp] theorem carriedOut_append (frames more : List Frame) :
    carriedOut (frames ++ more) = carriedOut frames + carriedOut more := by
  simp [carriedOut]

theorem carriedOut_singleton_of_command {f : Frame} {c : Command}
    (hcommand : f.command = some (.command c)) (hkind : f.kind ≠ .error) : carriedOut [f] = 1 := by
  have hframe : f.isCommand = true := by rw [Frame.isCommand, hcommand]
  simp [carriedOut, hframe, hkind]

theorem carriedOut_singleton_of_error {f : Frame} (hkind : f.kind = .error) :
    carriedOut [f] = 0 := by
  cases hframe : f.isCommand <;> simp [carriedOut, hframe, hkind]

theorem carriedOut_singleton_of_other {f : Frame} (h : ∀ c, f.command ≠ some (.command c)) :
    carriedOut [f] = 0 := by
  have hframe : f.isCommand = false := by
    unfold Frame.isCommand
    split
    · next c hcommand => exact absurd hcommand (h c)
    · rfl
  simp [carriedOut, hframe]

/-- What a number of commands is short of the frames, when the fault of a diagnostic stopped it. -/
def shortfall (d : Diagnostic) : Nat :=
  if d.code = 404 then 1 else 0

namespace Machine

variable {map : GridMap} {setting : Setting} {m m₁ m' m'' : Machine} {items : List Item}

/-! ## Recorded -/

/-- Everything that was recorded between two machines is in order. -/
inductive Recorded (m m' : Machine) : Prop
  | went {items : List Item} : Adds m items m' → (∀ item ∈ items, item.Calm) → m'.fault = none →
      m'.walker.executed = m.walker.executed + carriedOut (items.filterMap (·.frame?)) →
      Recorded m m'
  | stopped {items : List Item} {f : Frame} {d : Diagnostic} :
      Adds m (items ++ [.frame f]) m' → (∀ item ∈ items, item.Calm) → m'.fault = some d →
      f.Reports d →
      m'.walker.executed + shortfall d =
        m.walker.executed + carriedOut (items.filterMap (·.frame?)) →
      Recorded m m'

/-- A run goes on only if no fault has stopped it. -/
theorem Recorded.trans (h : Recorded m m') (hfault : m'.fault = none) (h' : Recorded m' m'') :
    Recorded m m'' := by
  -- no record follows a fault, so only the second part can have stopped
  cases h with
  | stopped _ _ hstopped _ _ =>
      rw [hstopped] at hfault
      cases hfault
  | @went first hadds hcalm _ hexecuted =>
      cases h' with
      | @went second hadds' hcalm' hfault' hexecuted' =>
          refine .went (hadds.trans hadds') ?_ hfault' ?_
          · exact List.forall_mem_append.mpr ⟨hcalm, hcalm'⟩
          · rw [List.filterMap_append, carriedOut_append]
            omega
      | @stopped second f d hadds' hcalm' hfault' hreports hexecuted' =>
          have hall : Adds m ((first ++ second) ++ [.frame f]) m'' := by
            rw [List.append_assoc]
            exact hadds.trans hadds'
          refine .stopped hall ?_ hfault' hreports ?_
          · exact List.forall_mem_append.mpr ⟨hcalm, hcalm'⟩
          · rw [List.filterMap_append, carriedOut_append]
            omega

/-! ## A move in its course -/

/-- The second machine has recorded calm items since the first, and has not counted a command. -/
structure Calmly (m : Machine) (items : List Item) (m₁ : Machine) : Prop where
  adds : Adds m items m₁
  calm : ∀ item ∈ items, item.Calm
  fault : m₁.fault = none
  executed : m₁.walker.executed = m.walker.executed

namespace Calmly

theorem start (hfault : m.fault = none) : Calmly m [] m :=
  ⟨adds_nil rfl rfl, by simp, hfault, rfl⟩

/-- What cannot be seen in the trace may change. -/
theorem of_same (h : Calmly m items m₁) (hlogs : m'.logs = m₁.logs)
    (hframes : m'.frames = m₁.frames) (hfault : m'.fault = m₁.fault)
    (hexecuted : m'.walker.executed = m₁.walker.executed) : Calmly m items m' :=
  ⟨h.adds.of_traces rfl rfl hlogs hframes, h.calm, hfault.trans h.fault,
    hexecuted.trans h.executed⟩

theorem withAgenda (h : Calmly m items m₁) (agenda : List Task) :
    Calmly m items { m₁ with agenda } :=
  h.of_same rfl rfl rfl rfl

theorem goTo (h : Calmly m items m₁) (p : Position) :
    Calmly m items (m₁.withWalker (m₁.walker.goTo p)) :=
  h.of_same rfl rfl rfl (by simp [Walker.goTo])

theorem log (h : Calmly m items m₁) {message : String} (hverdict : Decision message) :
    ∃ e, Calmly m (items ++ [.line e]) (m₁.log message .info) := by
  refine ⟨_, h.adds.trans (adds_log m₁ message .info), ?_, h.fault, h.executed⟩
  exact List.forall_mem_append.mpr ⟨h.calm, List.forall_mem_singleton.mpr (.line hverdict rfl)⟩

theorem record (h : Calmly m items m₁) {message : String} {kind : LogKind} {note : Note}
    (htext : tellsCheck message = false) (hkind : kind ≠ .error)
    (htrigger : note.trigger ≠ some .finish) :
    Calmly m (items ++ [.frame (m₁.walker.frame m₁.frames.size message kind note)])
      (m₁.record message kind note) := by
  refine ⟨h.adds.trans (adds_record m₁ message kind note), ?_, h.fault, h.executed⟩
  exact List.forall_mem_append.mpr
    ⟨h.calm, List.forall_mem_singleton.mpr (.frame htext hkind htrigger)⟩

/-- The move ends. -/
theorem recorded (h : Calmly m items m₁)
    (hframes : carriedOut (items.filterMap (·.frame?)) = 0) : Recorded m m₁ := by
  apply Recorded.went h.adds h.calm h.fault
  rw [hframes]
  exact h.executed

/-- The move ends with a command that is completed. -/
theorem completed (h : Calmly m items m₁)
    (hframes : carriedOut (items.filterMap (·.frame?)) = 1) : Recorded m m₁.complete := by
  have hadds : Adds m items m₁.complete := h.adds.of_traces rfl rfl rfl rfl
  apply Recorded.went hadds h.calm h.fault
  rw [hframes]
  exact congrArg (· + 1) h.executed

/-- The move ends with a fault. -/
theorem stopped (h : Calmly m items m₁) {fault : Fault} {note : Note} {source : SourceRef}
    (hsource : note.source = some source) (htrigger : note.trigger ≠ some .finish)
    (hframes : carriedOut (items.filterMap (·.frame?)) = if fault.code = 404 then 1 else 0) :
    Recorded m (m₁.fail fault note) := by
  have hcode : (fault.toDiagnostic note.source).code = fault.code := by cases note.source <;> rfl
  refine .stopped (h.adds.trans (adds_fail m₁ fault note)) h.calm rfl ?_ ?_
  · exact ⟨rfl, htrigger, fault, source, by rw [hsource], rfl, hsource⟩
  · rw [hframes, shortfall, hcode]
    exact congrArg (· + _) h.executed

end Calmly

/-! ## What a command records -/

section Commands

variable {step : Nat} {source : SourceRef} {c : Command}

theorem calmly_begin (hfault : m.fault = none) : Calmly m [] m.begin :=
  (Calmly.start hfault).of_same rfl rfl rfl (by simp [begin])

/-- The machine has refused a command for a reason other than a portal. -/
theorem recorded_refuse (hfault : m.fault = none) (fault : Fault) (hcode : fault.code ≠ 404) :
    Recorded m (m.begin.fail fault (.command step c source)) :=
  (calmly_begin hfault).stopped rfl (by simp [Note.command]) (by simp [hcode])

/-- The machine has carried out a command and taken the frame for it. -/
theorem exists_calmly_deed (hfault : m.fault = none) {w : Walker}
    (hexecuted : w.executed = m.walker.executed) {text : String} {kind : LogKind}
    (hkind : kind ≠ .error) :
    ∃ f : Frame, Calmly m [.frame f] ((m.begin.withWalker w).record ("Command " ++ text) kind
      (.command step c source)) ∧ carriedOut [f] = 1 := by
  have hbegun : Calmly m [] (m.begin.withWalker w) :=
    (Calmly.start hfault).of_same rfl rfl rfl hexecuted
  refine ⟨_, hbegun.record (tellsCheck_command text) hkind (by simp [Note.command]), ?_⟩
  exact carriedOut_singleton_of_command rfl hkind

theorem recorded_deed (hfault : m.fault = none) {w : Walker}
    (hexecuted : w.executed = m.walker.executed) {text : String} {kind : LogKind}
    (hkind : kind ≠ .error) :
    Recorded m ((m.begin.withWalker w).record ("Command " ++ text) kind
      (.command step c source)).complete := by
  obtain ⟨f, hcalmly, hone⟩ := exists_calmly_deed hfault hexecuted hkind
  exact hcalmly.completed hone

theorem recorded_turn (hfault : m.fault = none) (side : String) (facing : Direction) :
    Recorded m (m.begin.turn step side facing (.command step c source)) := by
  unfold turn
  simp only [toString_string, String.append_assoc]
  exact recorded_deed hfault (by simp [begin]) (by decide)

theorem recorded_collect (hfault : m.fault = none) :
    Recorded m (m.begin.collect step (.command step c source)) := by
  unfold collect Walker.takeGem?
  by_cases hgem : m.begin.walker.gems.contains m.begin.walker.position = true
  · rw [if_pos hgem]
    simp only [toString_string, String.append_assoc]
    exact recorded_deed hfault (by simp [begin]) (by decide)
  · rw [if_neg hgem]
    exact recorded_refuse hfault _ (by simp [Fault.code])

theorem recorded_toggle (hfault : m.fault = none) :
    Recorded m (m.begin.toggle step (.command step c source)) := by
  unfold toggle Walker.toggle?
  cases m.begin.walker.switches.get? m.begin.walker.position with
  | none => exact recorded_refuse hfault _ (by simp [Fault.code])
  | some state =>
      dsimp only [Option.bind_eq_bind, Option.bind_some, Option.pure_def]
      simp only [toString_string, String.append_assoc]
      exact recorded_deed hfault (by simp [begin]) (by decide)

/-- The portal behind a command that has been shown takes the actor on, or it is the fault. -/
theorem recorded_warp {f : Frame} {id : Nat} (h : Calmly m [.frame f] m₁)
    (hone : carriedOut [f] = 1) :
    Recorded m (m₁.warp map step id (.command step c source)) := by
  unfold warp
  cases map.partner? id m₁.walker.position with
  | none =>
      refine h.stopped rfl ?_ ?_
      · simp [Note.command]
      · simpa [Item.frame?, Fault.code] using hone
  | some exit =>
      have htext : tellsCheck s!"Passed through warp W{id} to {exit.render}." = false := by
        simp [tellsCheck, toString_string, List.isPrefixOf]
      refine ((h.goTo exit).record htext (by decide) (by simp)).completed ?_
      -- the frame for the portal does not show a command
      simp only [List.filterMap_append, carriedOut_append, List.filterMap_cons, List.filterMap_nil,
        Item.frame?, hone]
      rw [carriedOut_singleton_of_other (by simp [Walker.frame])]

theorem recorded_moveForward (hfault : m.fault = none) :
    Recorded m (m.begin.moveForward map step (.command step c source)) := by
  unfold moveForward
  cases map.neighbor? m.begin.walker.position m.begin.walker.facing with
  | none => exact recorded_refuse hfault _ (by simp [Fault.code])
  | some cell =>
      dsimp only
      by_cases hwall : cell.isWall = true
      · rw [if_pos hwall]
        exact recorded_refuse hfault _ (by simp [Fault.code])
      · rw [if_neg hwall]
        -- going to the next cell executes nothing by itself
        have hexecuted : (m.begin.walker.goTo cell.position).executed = m.walker.executed := by
          simp [begin, Walker.goTo]
        simp only [toString_string, String.append_assoc]
        cases cell.warpId with
        | none => exact recorded_deed hfault hexecuted (by decide)
        | some id =>
            have hkind : LogKind.info ≠ .error := by decide
            obtain ⟨f, hcalmly, hone⟩ := exists_calmly_deed hfault hexecuted hkind
            exact recorded_warp hcalmly hone

theorem recorded_execute (map : GridMap) (hfault : m.fault = none) (c : Command)
    (source : SourceRef) :
    Recorded m (m.execute map c source) := by
  cases c with
  | moveForward => exact recorded_moveForward hfault
  | turnLeft => exact recorded_turn hfault "left" _
  | turnRight => exact recorded_turn hfault "right" _
  | collectGem => exact recorded_collect hfault
  | toggleSwitch => exact recorded_toggle hfault

end Commands

/-! ## What a move records -/

section Moves

variable {task : Task} {rest : List Task}

theorem Recorded.of_charge (h : Recorded m.charge m') : Recorded m m' := by
  cases h with
  | went hadds hcalm hfault hexecuted =>
      exact .went (hadds.of_traces rfl rfl rfl rfl) hcalm hfault hexecuted
  | stopped hadds hcalm hfault hreports hexecuted =>
      exact .stopped (hadds.of_traces rfl rfl rfl rfl) hcalm hfault hreports hexecuted

/-- Every task that does something has a place in the script. -/
theorem exists_source_note (w : Walker) (h : ¬ task.Idle) :
    ∃ source, (task.note w).source = some source := by
  match task with
  | .run (.command c source) => exact ⟨source, rfl⟩
  | .run (.loop count body source) => exact ⟨source, rfl⟩
  | .run (.ifThen condition consequent source) => exact ⟨source, rfl⟩
  | .run (.ifElse condition consequent alternate source) => exact ⟨source, rfl⟩
  | .run (.whileDo condition body source) => exact ⟨source, rfl⟩
  | .run (.call name source) => exact ⟨source, rfl⟩
  | .recheck rounds condition body source => exact ⟨source, rfl⟩
  | .leave name => exact absurd (.leave name) h

theorem recorded_select (hfault : m.fault = none) (condition : Condition)
    (consequent alternate : List Stmt) :
    Recorded m (m.select map condition consequent alternate rest) := by
  have hverdict : (if condition.eval (m.walker.holds map) then "true" else "false") ∈
      ["true", "false"] := by
    split <;> simp
  obtain ⟨e, hcalmly⟩ := (Calmly.start hfault).log (.branch condition hverdict)
  exact (hcalmly.withAgenda _).recorded rfl

theorem recorded_check (hfault : m.fault = none) (rounds : Nat) (condition : Condition)
    (body : List Stmt) (source : SourceRef) :
    Recorded m (m.check setting rounds condition body source rest) := by
  -- the line of the check is written whatever the verdict is
  have hline : ∀ verdict ∈ ["continue", "stop"], ∃ e, Calmly m [.line e]
      (m.log s!"while ({condition.render}) check: {verdict}" .info) :=
    fun verdict hverdict => (Calmly.start hfault).log (.round condition hverdict)
  unfold check
  cases condition.eval (m.walker.holds setting.map) with
  | false =>
      obtain ⟨e, hcalmly⟩ := hline "stop" (by simp)
      exact (hcalmly.withAgenda rest).recorded rfl
  | true =>
      obtain ⟨e, hcalmly⟩ := hline "continue" (by simp)
      simp only [Bool.not_true, Bool.false_eq_true, if_false, if_true]
      split
      · exact hcalmly.stopped rfl (by simp [Note.at]) (by simp [Item.frame?, Fault.code])
      · exact (hcalmly.withAgenda _).recorded rfl

theorem recorded_enter (hfault : m.fault = none) (functions : List FunctionDef) (name : String)
    (source : SourceRef) : Recorded m (m.enter functions name source rest) := by
  unfold enter
  split
  · exact (Calmly.start hfault).stopped rfl (by simp [Note.at]) (by simp [Fault.code])
  · split
    · exact (Calmly.start hfault).stopped rfl (by simp [Note.at]) (by simp [Fault.code])
    · exact ((Calmly.start hfault).withAgenda _).recorded rfl

theorem recorded_perform (hfault : m.fault = none) :
    Recorded m (m.perform setting task rest) := by
  have hquiet : ∀ agenda, Recorded m { m with agenda } :=
    fun agenda => ((Calmly.start hfault).withAgenda agenda).recorded rfl
  unfold perform
  match task with
  | .run (.command c source) =>
      have hexecute :=
        recorded_execute (m := { m with agenda := rest }) setting.map hfault c source
      exact (hquiet rest).trans hfault hexecute
  | .run (.loop count body source) => exact hquiet _
  | .run (.ifThen condition consequent source) => exact recorded_select hfault ..
  | .run (.ifElse condition consequent alternate source) => exact recorded_select hfault ..
  | .run (.whileDo condition body source) => exact recorded_check hfault ..
  | .run (.call name source) => exact recorded_enter hfault ..
  | .recheck rounds condition body source => exact recorded_check hfault ..
  | .leave name => exact hquiet rest

/-- **What one move records.** -/
theorem recorded_move (hfault : m.fault = none) (htask : ¬ task.Idle) :
    Recorded m (m.move setting task rest) := by
  apply Recorded.of_charge
  rcases move_cases setting m task rest with ⟨_, hmove⟩ | ⟨_, hmove⟩
  · rw [hmove]
    obtain ⟨source, hsource⟩ := exists_source_note m.walker htask
    exact (Calmly.start (m := m.charge) hfault).stopped hsource
      (trigger_note_ne_finish m.walker task) (by simp [Fault.code])
  · rw [hmove]
    exact recorded_perform (m := m.charge) hfault

end Moves

/-- **What a run records.** -/
theorem Reachable.recorded {start : Machine} (hstart : start.fault = none)
    (h : Reachable setting start m) : Recorded start m := by
  induction h with
  | start => exact (Calmly.start hstart).recorded rfl
  | move hreach hnext ih =>
      obtain ⟨_, _, _, htask⟩ := Task.next?_eq_some hnext
      have hfault := hreach.fault_of_next? hstart hnext
      exact ih.trans hfault (recorded_move hfault htask)

end Machine

/-! ## Endings -/

/-- How the last frame of a run shows its end. -/
inductive Ending : Option Diagnostic → Frame → Prop
  | finish {f : Frame} : f.command = some .finish → f.kind = .success →
      f.message = "All commands executed." → Ending none f
  | fault {d : Diagnostic} {f : Frame} : f.Reports d → Ending (some d) f

theorem Ending.tellsCheck {fault : Option Diagnostic} {f : Frame} (h : Ending fault f) :
    tellsCheck f.message = false := by
  cases h with
  | finish _ _ hmessage =>
      rw [hmessage]
      decide
  | fault hreports =>
      obtain ⟨fault, source, _, hmessage, _⟩ := hreports.fault
      rw [hmessage]
      exact fault.tellsCheck_message

namespace Machine

variable {m m' : Machine}

/-- What has been recorded when a machine is closed: calm items and the frame for the end. -/
theorem Recorded.exists_ending (h : Recorded m m') :
    ∃ items f, Adds m (items ++ [.frame f]) m'.close ∧ (∀ item ∈ items, item.Calm) ∧
      Ending m'.fault f ∧
      m'.walker.executed + m'.fault.elim 0 shortfall =
        m.walker.executed + carriedOut (items.filterMap (·.frame?)) := by
  cases h with
  | @went items hadds hcalm hfault hexecuted =>
      rw [close_of_no_fault hfault, hfault]
      exact ⟨items, _, hadds.trans (adds_record ..), hcalm, .finish rfl rfl rfl, hexecuted⟩
  | @stopped items f d hadds hcalm hfault hreports hexecuted =>
      rw [close_of_fault hfault, hfault]
      exact ⟨items, f, hadds, hcalm, .fault hreports, hexecuted⟩

end Machine

theorem calm_atStart (map : GridMap) (start : Cell) :
    (Item.frame (.atStart map start)).Calm := by
  refine .frame ?_ (by simp [Frame.atStart, Walker.frame]) (by simp [Frame.atStart, Walker.frame])
  simp [Frame.atStart, Walker.frame, tellsCheck, toString_string, List.isPrefixOf]

/-- **What an outcome tells.**  From the start frame on the items are calm, and the last frame
shows how the run ended. -/
theorem Ends.exists_ending {map : GridMap} {p : Program} {limits : Limits} {o : Outcome}
    {start : Cell} (hstart : map.start = some start) (h : Ends map p limits o) :
    ∃ (m : Machine) (items : List Item) (f : Frame), o = .ofMachine map m.close ∧
      Ending m.fault f ∧ (∀ item ∈ items, item.Calm) ∧
      items.head? = some (.frame (.atStart map start)) ∧
      o.logs = items.map (·.entry) ++ [f.entry] ∧ o.frames = items.filterMap (·.frame?) ++ [f] ∧
      o.stepsExecuted + m.fault.elim 0 shortfall = carriedOut (items.filterMap (·.frame?)) := by
  obtain ⟨m, hreach, _, rfl⟩ := h.exists_machine hstart
  obtain ⟨items, f, hadds, hcalm, hending, hexecuted⟩ := (hreach.recorded rfl).exists_ending
  have hlogs : m.close.logs.toList = (Item.frame (.atStart map start)).entry :: _ := hadds.logs
  have hframes : m.close.frames.toList = .atStart map start :: _ := hadds.frames
  refine ⟨m, .frame (.atStart map start) :: items, f, rfl, hending, ?_, rfl, ?_, ?_, ?_⟩
  · exact List.forall_mem_cons.mpr ⟨calm_atStart map start, hcalm⟩
  · show m.close.logs.toList = _
    rw [hlogs, List.map_append]
    rfl
  · show m.close.frames.toList = _
    rw [hframes, List.filterMap_append]
    rfl
  · -- the start frame does not show a command
    show m.close.walker.executed + _ = carriedOut ([Frame.atStart map start] ++ _)
    rw [Machine.walker_close, hexecuted, Machine.executed_atStart, carriedOut_append,
      carriedOut_singleton_of_other (by simp [Frame.atStart, Walker.frame])]

end GemGrid
