import GemGrid.Proofs.Run.Guards

/-!
# Sensors protect commands

A command that stands first in the branch of an `if`, or in the body of a `while`, is carried out
right after the check of the condition.  If the condition entails that the command is possible, it
never fails.

* `Condition.Entails` says what a condition guarantees about the sensors, whatever the map.
* `Sheltered c literals guard ss` says that a block entered under a guard has its commands `c` in
  such places only, with conditions that entail one of the literals.
* `Machine.Ready` is what a run keeps: no command `c` is on the agenda without a check, unless it
  is the next task and one of the literals holds for the actor as it stands.  A check changes
  nothing that a sensor reads (`holds_move`), and the literals refute what the command could be
  refused for (`Refusal.not_holds`).
-/

namespace GemGrid

/-! ## What a condition entails -/

/-- A sensor, or the negation of one. -/
structure Literal where
  sensor : Predicate
  positive : Bool
deriving DecidableEq, Repr, Inhabited

/-- A literal is true under an assignment of the sensors. -/
def Literal.Holds (truth : Predicate → Bool) (l : Literal) : Prop :=
  truth l.sensor = l.positive

/-- Whenever a condition is true, so is one of the literals. -/
def Condition.Entails (condition : Condition) (literals : List Literal) : Prop :=
  ∀ truth, condition.eval truth = true → ∃ l ∈ literals, l.Holds truth

/-- The literals that each rule out a refusal of a command. -/
def Command.safeguards : Command → List Literal
  | .moveForward => [⟨.isBlocked, false⟩]
  | .collectGem => [⟨.isOnGem, true⟩]
  | .toggleSwitch => [⟨.isOnSwitch, true⟩, ⟨.isOnOpenSwitch, true⟩, ⟨.isOnClosedSwitch, true⟩]
  | .turnLeft | .turnRight => []

/-- The codes of the faults that tell of a refusal, apart from that of a portal. -/
def Command.refusals : Command → List Nat
  | .moveForward => [400, 401]
  | .collectGem => [402]
  | .toggleSwitch => [403]
  | .turnLeft | .turnRight => []

/-! ## Sheltered commands -/

/-- In a block that is entered under a guard, or under none, every command `c` comes first under a
guard that entails one of the literals. -/
inductive Sheltered (c : Command) (literals : List Literal) : Option Condition → List Stmt → Prop
  | nil {guard : Option Condition} : Sheltered c literals guard []
  | guarded {condition : Condition} {source : SourceRef} {ss : List Stmt} :
      condition.Entails literals → Sheltered c literals none ss →
      Sheltered c literals (some condition) (.command c source :: ss)
  | command {guard : Option Condition} {other : Command} {source : SourceRef} {ss : List Stmt} :
      other ≠ c → Sheltered c literals none ss →
      Sheltered c literals guard (.command other source :: ss)
  | loop {guard : Option Condition} {count : Nat} {body : List Stmt} {source : SourceRef}
      {ss : List Stmt} : Sheltered c literals none body → Sheltered c literals none ss →
      Sheltered c literals guard (.loop count body source :: ss)
  | ifThen {guard : Option Condition} {condition : Condition} {consequent : List Stmt}
      {source : SourceRef} {ss : List Stmt} : Sheltered c literals (some condition) consequent →
      Sheltered c literals none ss →
      Sheltered c literals guard (.ifThen condition consequent source :: ss)
  | ifElse {guard : Option Condition} {condition : Condition} {consequent alternate : List Stmt}
      {source : SourceRef} {ss : List Stmt} : Sheltered c literals (some condition) consequent →
      Sheltered c literals none alternate → Sheltered c literals none ss →
      Sheltered c literals guard (.ifElse condition consequent alternate source :: ss)
  | whileDo {guard : Option Condition} {condition : Condition} {body : List Stmt}
      {source : SourceRef} {ss : List Stmt} : Sheltered c literals (some condition) body →
      Sheltered c literals none ss →
      Sheltered c literals guard (.whileDo condition body source :: ss)
  | call {guard : Option Condition} {name : String} {source : SourceRef} {ss : List Stmt} :
      Sheltered c literals none ss → Sheltered c literals guard (.call name source :: ss)

/-- A program has every command `c` in a sheltered place, in its main part and in its functions. -/
structure Program.Shelters (p : Program) (c : Command) (literals : List Literal) : Prop where
  main : Sheltered c literals none p.main
  functions : ∀ f ∈ p.functions, Sheltered c literals none f.body

section Blocks

variable {c : Command} {literals : List Literal}

/-- Each statement of a sheltered block is sheltered by itself. -/
theorem Sheltered.single {ss : List Stmt} (h : Sheltered c literals none ss) :
    ∀ s ∈ ss, Sheltered c literals none [s] := by
  induction ss with
  | nil => simp
  | cons s ss ih =>
      cases h with
      | command hother h => exact List.forall_mem_cons.mpr ⟨.command hother .nil, ih h⟩
      | loop hbody h => exact List.forall_mem_cons.mpr ⟨.loop hbody .nil, ih h⟩
      | ifThen hcons h => exact List.forall_mem_cons.mpr ⟨.ifThen hcons .nil, ih h⟩
      | ifElse hcons halt h => exact List.forall_mem_cons.mpr ⟨.ifElse hcons halt .nil, ih h⟩
      | whileDo hbody h => exact List.forall_mem_cons.mpr ⟨.whileDo hbody .nil, ih h⟩
      | call h => exact List.forall_mem_cons.mpr ⟨.call .nil, ih h⟩

/-- A block that needs its guard begins with the command. -/
theorem Sheltered.cases_guard {condition : Condition} {ss : List Stmt}
    (h : Sheltered c literals (some condition) ss) :
    Sheltered c literals none ss ∨ ∃ source rest, ss = .command c source :: rest ∧
      condition.Entails literals ∧ Sheltered c literals none rest := by
  cases h with
  | nil => exact .inl .nil
  | guarded hentails hrest => exact .inr ⟨_, _, rfl, hentails, hrest⟩
  | command hother hrest => exact .inl (.command hother hrest)
  | loop hbody hrest => exact .inl (.loop hbody hrest)
  | ifThen hcons hrest => exact .inl (.ifThen hcons hrest)
  | ifElse hcons halt hrest => exact .inl (.ifElse hcons halt hrest)
  | whileDo hbody hrest => exact .inl (.whileDo hbody hrest)
  | call hrest => exact .inl (.call hrest)

/-- A task whose commands `c` are sheltered. -/
def Task.Sheltered (c : Command) (literals : List Literal) : Task → Prop
  | .run s => GemGrid.Sheltered c literals none [s]
  | .recheck _ condition body _ => GemGrid.Sheltered c literals (some condition) body
  | .leave _ => True

theorem Task.forall_sheltered_ahead {ss : List Stmt} {rest : List Task}
    (h : GemGrid.Sheltered c literals none ss) (hrest : ∀ t ∈ rest, t.Sheltered c literals) :
    ∀ t ∈ ahead ss rest, t.Sheltered c literals := by
  refine List.forall_mem_append.mpr ⟨fun t ht => ?_, hrest⟩
  obtain ⟨s, hs, rfl⟩ := List.mem_map.mp ht
  exact h.single s hs

end Blocks

namespace Machine

variable {setting : Setting} {m m' : Machine} {task : Task} {rest : List Task} {c : Command}
  {literals : List Literal}

/-! ## What a check leaves alone -/

/-- The charge and everything but a command leaves the sensors as they are. -/
theorem holds_move (setting : Setting) (m : Machine) (task : Task) (rest : List Task)
    (hcommand : ∀ c source, task ≠ .run (.command c source)) :
    (m.move setting task rest).walker.holds setting.map = m.walker.holds setting.map := by
  have hcharge : m.charge.walker.holds setting.map = m.walker.holds setting.map := by
    funext p
    cases p <;> rfl
  rcases move_cases setting m task rest with ⟨_, hmove⟩ | ⟨_, hmove⟩
  · rw [hmove]
    exact hcharge
  · rw [hmove]
    rcases command_or_walker_perform setting m.charge task rest with ⟨c, source, h⟩ | hwalker
    · exact absurd h (hcommand c source)
    · rw [hwalker, hcharge]

theorem Selects.ne_command {condition : Condition} {consequent alternate : List Stmt}
    (h : Selects task condition consequent alternate) (c : Command) (source : SourceRef) :
    task ≠ .run (.command c source) := by
  cases h <;> simp

theorem Checks.ne_command {rounds : Nat} {condition : Condition} {body : List Stmt}
    {source : SourceRef} (h : Checks task rounds condition body source) (c : Command)
    (source' : SourceRef) : task ≠ .run (.command c source') := by
  cases h <;> simp

/-- Where a command is refused, none of its safeguards holds. -/
theorem Refusal.not_holds {map : GridMap} {w : Walker} {fault : Fault}
    (h : Refusal map w c fault) (hcode : fault.code ∈ c.refusals) :
    ¬ ∃ l ∈ c.safeguards, l.Holds (w.holds map) := by
  cases h with
  | offMap hcell =>
      simp [Command.safeguards, Literal.Holds, Walker.holds, GridMap.isBlocked, hcell]
  | wall hcell hwall =>
      simp [Command.safeguards, Literal.Holds, Walker.holds, GridMap.isBlocked, hcell, hwall]
  | portal => simp [Command.refusals, Fault.code] at hcode
  | noGem hgem => simp [Command.safeguards, Literal.Holds, Walker.holds, hgem]
  | noSwitch hswitch => simp [Command.safeguards, Literal.Holds, Walker.holds, hswitch]

/-! ## What a run keeps -/

/-- No command `c` is to be carried out without a check, unless it comes next and one of the
literals holds. -/
inductive Ready (map : GridMap) (c : Command) (literals : List Literal) (m : Machine) : Prop
  | calm : (∀ t ∈ m.agenda, t.Sheltered c literals) → Ready map c literals m
  | armed {source : SourceRef} {rest : List Task} :
      m.agenda = .run (.command c source) :: rest → (∀ t ∈ rest, t.Sheltered c literals) →
      (∃ l ∈ literals, l.Holds (m.walker.holds map)) → Ready map c literals m

/-- The next task is sheltered, or it is a command `c` and one of the literals holds. -/
theorem Ready.of_next? (h : Ready setting.map c literals m)
    (hnext : Task.next? m.agenda = some (task, rest)) :
    (∀ t ∈ rest, t.Sheltered c literals) ∧
      (task.Sheltered c literals ∨ (∃ source, task = .run (.command c source)) ∧
        ∃ l ∈ literals, l.Holds (m.walker.holds setting.map)) := by
  cases h with
  | calm htasks =>
      -- finished tasks in front are dropped, and what is behind them is sheltered as it was
      obtain ⟨idle, hagenda, _, _⟩ := Task.next?_eq_some hnext
      rw [hagenda] at htasks
      obtain ⟨htask, hrest⟩ := List.forall_mem_cons.mp (List.forall_mem_append.mp htasks).2
      exact ⟨hrest, .inl htask⟩
  | armed hagenda hrest hholds =>
      -- the armed command is next
      rw [hagenda] at hnext
      cases hnext
      exact ⟨hrest, .inr ⟨⟨_, rfl⟩, hholds⟩⟩

/-- A block is entered right after its guard has been found true. -/
theorem Ready.enter {condition : Condition} {ss : List Stmt}
    (hss : Sheltered c literals (some condition) ss)
    (hrest : ∀ t ∈ rest, t.Sheltered c literals)
    (htrue : condition.eval (m.walker.holds setting.map) = true)
    (hholds : m'.walker.holds setting.map = m.walker.holds setting.map)
    (hagenda : m'.agenda = Task.ahead ss rest) : Ready setting.map c literals m' := by
  rcases hss.cases_guard with hss | ⟨source, ss, rfl, hentails, hss⟩
  · refine .calm ?_
    rw [hagenda]
    exact Task.forall_sheltered_ahead hss hrest
  · refine .armed hagenda (Task.forall_sheltered_ahead hss hrest) ?_
    rw [hholds]
    exact hentails _ htrue

theorem Selects.sheltered {condition : Condition} {consequent alternate : List Stmt}
    (h : Selects task condition consequent alternate) (htask : task.Sheltered c literals) :
    Sheltered c literals (some condition) consequent ∧ Sheltered c literals none alternate := by
  cases h with
  | ifThen =>
      cases htask with
      | ifThen hcons _ => exact ⟨hcons, .nil⟩
  | ifElse =>
      cases htask with
      | ifElse hcons halt _ => exact ⟨hcons, halt⟩

theorem Checks.sheltered {rounds : Nat} {condition : Condition} {body : List Stmt}
    {source : SourceRef} (h : Checks task rounds condition body source)
    (htask : task.Sheltered c literals) : Sheltered c literals (some condition) body := by
  cases h with
  | first =>
      cases htask with
      | whileDo hbody _ => exact hbody
  | again => exact htask

theorem Leads.of_command {source : SourceRef} {agenda : List Task}
    (h : Leads setting m (.run (.command c source)) rest agenda) : agenda = rest := by
  cases h with
  | command => rfl
  | branch hselects => exact absurd rfl (hselects.ne_command c source)
  | stop hchecks _ => rfl
  | round hchecks _ => exact absurd rfl (hchecks.ne_command c source)

/-- A sheltered task leads to a machine that is ready. -/
theorem Ready.of_leads (hfunctions : ∀ f ∈ setting.functions, Sheltered c literals none f.body)
    (htask : task.Sheltered c literals) (hrest : ∀ t ∈ rest, t.Sheltered c literals)
    (hleads : Leads setting m task rest m'.agenda)
    (hholds : (∀ c source, task ≠ .run (.command c source)) →
      m'.walker.holds setting.map = m.walker.holds setting.map) :
    Ready setting.map c literals m' := by
  -- one case for each way a task leads on
  generalize hagenda : m'.agenda = agenda at hleads
  cases hleads with
  | command => exact .calm (by rwa [hagenda])
  | @loop count body source _ =>
      cases htask with
      | loop hbody _ =>
          have hagain : (Task.run (.loop (count - 1) body source)).Sheltered c literals :=
            .loop hbody .nil
          refine .calm ?_
          rw [hagenda]
          exact Task.forall_sheltered_ahead hbody (List.forall_mem_cons.mpr ⟨hagain, hrest⟩)
  | @branch _ condition consequent alternate _ hselects =>
      obtain ⟨hcons, halt⟩ := hselects.sheltered htask
      cases hresult : condition.eval (m.walker.holds setting.map) with
      | true =>
          rw [hresult] at hagenda
          exact .enter hcons hrest hresult (hholds hselects.ne_command) hagenda
      | false =>
          rw [hresult] at hagenda
          refine .calm ?_
          rw [hagenda]
          exact Task.forall_sheltered_ahead halt hrest
  | stop _ _ => exact .calm (by rwa [hagenda])
  | @round _ rounds condition body source _ hchecks hresult =>
      have hbody := hchecks.sheltered htask
      have hagain : (Task.recheck ((rounds + 1) % (Text.max32 + 1)) condition body
        source).Sheltered c literals := hbody
      exact .enter hbody (List.forall_mem_cons.mpr ⟨hagain, hrest⟩) hresult
        (hholds hchecks.ne_command) hagenda
  | @call name source body _ hbody _ =>
      obtain ⟨f, hf, rfl⟩ := Option.map_eq_some_iff.mp hbody
      refine .calm ?_
      rw [hagenda]
      exact Task.forall_sheltered_ahead (hfunctions f (List.mem_of_find?_eq_some hf))
        (List.forall_mem_cons.mpr ⟨trivial, hrest⟩)
  | leave => exact .calm (by rwa [hagenda])

theorem Ready.move (hfunctions : ∀ f ∈ setting.functions, Sheltered c literals none f.body)
    (h : Ready setting.map c literals m) (hnext : Task.next? m.agenda = some (task, rest)) :
    Ready setting.map c literals (m.move setting task rest) := by
  obtain ⟨hrest, htask⟩ := h.of_next? hnext
  have hmoved := moved_move setting m task rest
  have hholds := holds_move setting m task rest
  generalize m.move setting task rest = m' at hmoved hholds ⊢
  cases hmoved with
  | stopped _ _ => exact .calm (by simp [fail])
  | went hleads _ =>
      rcases htask with htask | ⟨⟨source, rfl⟩, _⟩
      · exact .of_leads hfunctions htask hrest hleads hholds
      · exact .calm (by rwa [hleads.of_command])

theorem Reachable.ready (hfunctions : ∀ f ∈ setting.functions, Sheltered c literals none f.body)
    {start : Machine} (hstart : Ready setting.map c literals start)
    (h : Reachable setting start m) : Ready setting.map c literals m := by
  induction h with
  | start => exact hstart
  | move _ hnext ih => exact ih.move hfunctions hnext

theorem ready_atStart {map : GridMap} {p : Program} (h : p.Shelters c literals) (start : Cell) :
    Ready map c literals (.atStart map p start) :=
  .calm (Task.forall_sheltered_ahead h.main (by simp))

/-! ## Faults -/

/-- A fault with a code of a command has come from carrying it out. -/
theorem Cause.of_refusals {fault : Fault} (h : Cause setting m task rest fault)
    (hcode : fault.code ∈ c.refusals) :
    (∃ source, task = .run (.command c source)) ∧ Refusal setting.map m.walker c fault := by
  cases h with
  | @command other source _ _ hrefusal =>
      have hsame : other = c := by
        cases hrefusal <;> cases c <;> simp [Command.refusals, Fault.code] at hcode ⊢
      subst hsame
      exact ⟨⟨source, rfl⟩, hrefusal⟩
  | _ => cases c <;> simp [Command.refusals, Fault.code] at hcode

/-- A machine that is ready does not carry out a command in vain. -/
theorem Ready.code_of_cause {fault : Fault} (h : Ready setting.map c c.safeguards m)
    (hnext : Task.next? m.agenda = some (task, rest))
    (hcause : Cause setting m task rest fault) : fault.code ∉ c.refusals := by
  intro hcode
  obtain ⟨⟨source, rfl⟩, hrefusal⟩ := hcause.of_refusals hcode
  rcases (h.of_next? hnext).2 with htask | ⟨_, hholds⟩
  · cases htask with
    | command hother _ => exact hother rfl
  · exact hrefusal.not_holds hcode hholds

end Machine

/-! ## Outcomes -/

/-- A program that shelters a command by its safeguards never has it refused. -/
theorem Ends.code_of_shelters {map : GridMap} {p : Program} {limits : Limits} {o : Outcome}
    (h : Ends map p limits o) {c : Command} (hp : p.Shelters c c.safeguards) :
    ∀ d ∈ o.diagnostics, d.code ∉ c.refusals := by
  -- the codes that are no faults of commands
  have hothers : ∀ code ∈ [101, 500, 501], code ∉ c.refusals := by
    cases c <;> simp [Command.refusals]
  intro d hd
  cases hstart : map.start with
  | none =>
      obtain rfl := h.eq_withoutStart hstart
      exact hothers _ (code_of_mem_withoutStart hd)
  | some start =>
      rcases h.cause_of_mem hstart hd with
        ⟨m, task, rest, fault, source, hreach, hnext, hcause, rfl⟩ | hundone
      · rw [Fault.code_toDiagnostic]
        have hready := hreach.ready hp.functions (Machine.ready_atStart hp start)
        exact hready.code_of_cause hnext hcause
      · exact hothers _ (List.mem_cons_of_mem _ hundone)

/-- **Sensors protect commands.**  A program that moves only right after a check which entails that
nothing is ahead never leaves the map and never runs into a wall.  In the same way a check for a
gem protects every collection, and a check for a switch, open or closed or either, every toggle. -/
theorem sensors_protect {map : GridMap} {p : Program} {limits : Limits} {o : Outcome}
    (h : Ends map p limits o) :
    (p.Shelters .moveForward [⟨.isBlocked, false⟩] →
        ∀ d ∈ o.diagnostics, d.code ≠ 400 ∧ d.code ≠ 401) ∧
      (p.Shelters .collectGem [⟨.isOnGem, true⟩] → ∀ d ∈ o.diagnostics, d.code ≠ 402) ∧
      (p.Shelters .toggleSwitch
          [⟨.isOnSwitch, true⟩, ⟨.isOnOpenSwitch, true⟩, ⟨.isOnClosedSwitch, true⟩] →
        ∀ d ∈ o.diagnostics, d.code ≠ 403) := by
  refine ⟨fun hp d hd => ?_, fun hp d hd => ?_, fun hp d hd => ?_⟩
  · have hcode := h.code_of_shelters hp d hd
    simpa [Command.refusals] using hcode
  · have hcode := h.code_of_shelters hp d hd
    simpa [Command.refusals] using hcode
  · have hcode := h.code_of_shelters hp d hd
    simpa [Command.refusals] using hcode

/-- A walk to the edge of the map, with a function that collects and toggles where it can. -/
theorem sensors_protect_to_the_edge :
    let ref (line : Nat) : SourceRef := { line, text := "" }
    let free : Condition := .not (.predicate .isBlocked)
    let onGem : Condition := .logical .and (.not (.predicate .isOnSwitch)) (.predicate .isOnGem)
    let onSwitch : Condition :=
      .logical .or (.predicate .isOnOpenSwitch) (.predicate .isOnClosedSwitch)
    let p : Program :=
      { main := [.whileDo free [.command .moveForward (ref 10), .call "look" (ref 11)] (ref 9)]
        functions := [{
          name := "look"
          body := [.ifThen onGem [.command .collectGem (ref 3)] (ref 2),
            .ifElse onSwitch [.command .toggleSwitch (ref 6)] [] (ref 5)]
          source := ref 1 }]
        metadata := { staticCommandCount := none, hasDynamicControlFlow := true } }
    p.Shelters .moveForward [⟨.isBlocked, false⟩] ∧
      p.Shelters .collectGem [⟨.isOnGem, true⟩] ∧
      p.Shelters .toggleSwitch
        [⟨.isOnSwitch, true⟩, ⟨.isOnOpenSwitch, true⟩, ⟨.isOnClosedSwitch, true⟩] ∧
      ∃ map o, GridMap.read {} "→\t♦\t●" = .ok map ∧ Ends map p {} o ∧
        (o.stepsExecuted, o.gemsCollected, o.switchesOpen) = (4, 1, 1) ∧
        (∀ d ∈ o.diagnostics, d.code ≠ 400 ∧ d.code ≠ 401) ∧
        (∀ d ∈ o.diagnostics, d.code ≠ 402) ∧ ∀ d ∈ o.diagnostics, d.code ≠ 403 := by
  intro ref free onGem onSwitch p
  -- the three conditions, each with what it entails
  have hfree : free.Entails [⟨.isBlocked, false⟩] := by
    intro truth h
    simpa [free, Condition.eval, Literal.Holds] using h
  have honGem : onGem.Entails [⟨.isOnGem, true⟩] := by
    intro truth h
    simp only [onGem, Condition.eval, Bool.and_eq_true] at h
    simpa [Literal.Holds] using h.2
  have honSwitch : onSwitch.Entails
      [⟨.isOnSwitch, true⟩, ⟨.isOnOpenSwitch, true⟩, ⟨.isOnClosedSwitch, true⟩] := by
    intro truth h
    simp only [onSwitch, Condition.eval, Bool.or_eq_true] at h
    simpa [Literal.Holds] using .inr h
  have hmove : p.Shelters .moveForward [⟨.isBlocked, false⟩] :=
    ⟨.whileDo (.guarded hfree (.call .nil)) .nil, List.forall_mem_singleton.mpr
      (.ifThen (.command (by decide) .nil) (.ifElse (.command (by decide) .nil) .nil .nil))⟩
  have hcollect : p.Shelters .collectGem [⟨.isOnGem, true⟩] :=
    ⟨.whileDo (.command (by decide) (.call .nil)) .nil, List.forall_mem_singleton.mpr
      (.ifThen (.guarded honGem .nil) (.ifElse (.command (by decide) .nil) .nil .nil))⟩
  have htoggle : p.Shelters .toggleSwitch
      [⟨.isOnSwitch, true⟩, ⟨.isOnOpenSwitch, true⟩, ⟨.isOnClosedSwitch, true⟩] :=
    ⟨.whileDo (.command (by decide) (.call .nil)) .nil, List.forall_mem_singleton.mpr
      (.ifThen (.command (by decide) .nil) (.ifElse (.guarded honSwitch .nil) .nil .nil))⟩
  have heval : ((GridMap.read {} "→\t♦\t●").toOption.bind fun map =>
      (simulate map p {}).map fun o => (o.stepsExecuted, o.gemsCollected, o.switchesOpen)) =
      some (4, 1, 1) := by
    decide +kernel
  obtain ⟨map, hmap, heval⟩ := Option.bind_eq_some_iff.mp heval
  obtain ⟨o, ho, heval⟩ := Option.map_eq_some_iff.mp heval
  have hends : Ends map p {} o := ⟨_, ho⟩
  obtain ⟨hsafe, hgems, hswitches⟩ := sensors_protect hends
  exact ⟨hmove, hcollect, htoggle, map, o, eq_ok_of_toOption hmap, hends, heval, hsafe hmove,
    hgems hcollect, hswitches htoggle⟩

end GemGrid
