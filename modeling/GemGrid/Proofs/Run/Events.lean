import GemGrid.Proofs.Run.Runs

/-!
# What a run writes down

A run is a sequence of *events*, and each event writes one item: a line of the log alone, or a
frame together with its line.  `Event map s item s'` says that the item can be written when the
scene is `s`, and that the scene is `s'` afterwards.  A scene has, beside the actor, what the next
event depends on: the number of frames so far, the portal that the actor has stepped on and not
yet passed, and the fault.

* `Deed` lists what a command can do; a move onto a portal leaves the portal open.
* A scene with an open portal has no other event than passing it or failing to.
* A scene with a fault has no event.

`exists_writes_move` says what one move of a machine writes, and `Reachable.exists_writes` what a
run has written when it comes by a machine.  With `Ends.exists_path` every statement about logs and
frames becomes one about a `Path` of events, and the machine need not be opened again.
-/

namespace GemGrid

/-! ## Items -/

/-- A line of the log, or a frame with its line. -/
inductive Item where
  | line (entry : LogEntry)
  | frame (frame : Frame)

namespace Item

/-- The line that an item adds to the log. -/
def entry : Item → LogEntry
  | .line e => e
  | .frame f => { message := f.message, kind := f.kind, position := f.position, facing := f.facing }

/-- The frame of an item that has one. -/
def frame? : Item → Option Frame
  | .line _ => none
  | .frame f => some f

end Item

namespace Frame

/-- The frame was taken for a command that was carried out. -/
def Did (f : Frame) (c : Command) : Prop :=
  f.command = some (.command c) ∧ f.kind ≠ .error

instance (f : Frame) (c : Command) : Decidable (f.Did c) :=
  inferInstanceAs (Decidable (_ ∧ _))

theorem Did.not_did {f : Frame} {c c' : Command} (h : f.Did c) (hne : c ≠ c') : ¬ f.Did c' := by
  rintro ⟨h', _⟩
  rw [h.1] at h'
  cases h'
  exact hne rfl

end Frame

/-! ## The actor -/

namespace Walker

/-- The actor without its counters of completed commands and of operations. -/
def stance (w : Walker) : Walker :=
  { w with executed := 0, operations := 0 }

/-- The actor when it has begun a command. -/
def begun (w : Walker) : Walker :=
  { w with attempted := w.attempted + 1 }.visit

/-- The frame that shows the actor. -/
def frame (w : Walker) (index : Nat) (message : String) (kind : LogKind) (note : Note) : Frame :=
  { frameIndex := index, step := w.attempted, row := w.position.row, col := w.position.col,
    facing := w.facing, visited := w.visitedKeys, message, kind, label := note.label,
    command := note.trigger, source := note.source }

theorem stance_visit (w : Walker) : w.visit.stance = w.stance.visit := by
  unfold visit
  split
  · next hseen => rw [if_pos (show w.stance.visited.contains w.stance.position from hseen)]
  · next hnew =>
    rw [if_neg (show ¬ w.stance.visited.contains w.stance.position = true from hnew)]
    rfl

theorem stance_begun (w : Walker) : w.begun.stance = w.stance.begun :=
  stance_visit { w with attempted := w.attempted + 1 }

theorem stance_goTo (w : Walker) (p : Position) : (w.goTo p).stance = w.stance.goTo p :=
  stance_visit { w with position := p }

@[simp] theorem begun_fields (w : Walker) :
    w.begun.position = w.position ∧ w.begun.facing = w.facing ∧ w.begun.gems = w.gems ∧
      w.begun.switches = w.switches ∧ w.begun.collected = w.collected ∧
      w.begun.attempted = w.attempted + 1 := by
  simp [begun]

@[simp] theorem goTo_fields (w : Walker) (p : Position) :
    (w.goTo p).position = p ∧ (w.goTo p).facing = w.facing ∧ (w.goTo p).gems = w.gems ∧
      (w.goTo p).switches = w.switches ∧ (w.goTo p).collected = w.collected ∧
      (w.goTo p).attempted = w.attempted := by
  simp [goTo]

end Walker

theorem Task.note_stance (w : Walker) (task : Task) : task.note w.stance = task.note w := by
  rcases task with s | _ | _
  · cases s <;> rfl
  · rfl
  · rfl

/-! ## Events -/

/-- What a command does to the actor, how the frame is toned, and the portal that it opens. -/
inductive Deed (map : GridMap) (w : Walker) : Command → LogKind → Walker → Option Nat → Prop
  | turnLeft : Deed map w .turnLeft .info { w.begun with facing := w.facing.turnLeft } none
  | turnRight : Deed map w .turnRight .info { w.begun with facing := w.facing.turnRight } none
  | collect : w.gems.contains w.position = true →
      Deed map w .collectGem .success
        { w.begun with gems := w.gems.erase w.position, collected := w.collected + 1 } none
  | toggle {state : SwitchState} : w.switches.get? w.position = some state →
      Deed map w .toggleSwitch .info
        { w.begun with switches := w.switches.insert w.position state.toggled } none
  | move {cell : Cell} : map.neighbor? w.position w.facing = some cell → cell.isWall = false →
      Deed map w .moveForward .info (w.begun.goTo cell.position) cell.warpId

theorem Deed.kind_ne_error {map : GridMap} {w w' : Walker} {c : Command} {kind : LogKind}
    {portal : Option Nat} (h : Deed map w c kind w' portal) : kind ≠ .error := by
  cases h <;> decide

theorem Deed.attempted {map : GridMap} {w w' : Walker} {c : Command} {kind : LogKind}
    {portal : Option Nat} (h : Deed map w c kind w' portal) :
    w'.attempted = w.attempted + 1 := by
  cases h <;> simp

/-- What the next event of a run depends on. -/
structure Scene where
  walker : Walker
  /-- The number of frames so far. -/
  index : Nat
  /-- The number of the portal that has been stepped on and not passed. -/
  portal : Option Nat
  fault : Option Diagnostic

/-- A scene without an open portal and without a fault. -/
def Scene.rest (walker : Walker) (index : Nat) : Scene :=
  { walker, index, portal := none, fault := none }

/-- What a run can write in a scene, and the scene that follows. -/
inductive Event (map : GridMap) : Scene → Item → Scene → Prop
  | check {w : Walker} {i : Nat} (message : String) :
      Event map (.rest w i)
        (.line { message, kind := .info, position := w.position, facing := w.facing }) (.rest w i)
  | deed {w w' : Walker} {i : Nat} {c : Command} {kind : LogKind} {portal : Option Nat}
      (message : String) (source : SourceRef) : Deed map w c kind w' portal →
      Event map (.rest w i) (.frame (w'.frame i message kind (.command w'.attempted c source)))
        { walker := w', index := i + 1, portal, fault := none }
  | pass {w : Walker} {i id : Nat} {exit : Position} (message : String) (source : SourceRef) :
      map.partner? id w.position = some exit →
      Event map { walker := w, index := i, portal := some id, fault := none }
        (.frame ((w.goTo exit).frame i message .success
          { label := some s!"Warp W{id}", trigger := some .warp, source := some source }))
        (.rest (w.goTo exit) (i + 1))
  | strand {w : Walker} {i id : Nat} (source : SourceRef) : map.partner? id w.position = none →
      Event map { walker := w, index := i, portal := some id, fault := none }
        (.frame (w.frame i (Fault.unresolvedPortal w.attempted id).message .error
          (.command w.attempted .moveForward source)))
        { walker := w, index := i + 1, portal := none,
          fault := some ((Fault.unresolvedPortal w.attempted id).toDiagnostic (some source)) }
  | refuse {w : Walker} {i : Nat} (c : Command) (fault : Fault) (source : SourceRef) :
      Event map (.rest w i)
        (.frame (w.begun.frame i fault.message .error (.command w.begun.attempted c source)))
        { walker := w.begun, index := i + 1, portal := none,
          fault := some (fault.toDiagnostic (some source)) }
  | halt {w : Walker} {i : Nat} (task : Task) (fault : Fault) :
      Event map (.rest w i) (.frame (w.frame i fault.message .error (task.note w)))
        { walker := w, index := i + 1, portal := none,
          fault := some (fault.toDiagnostic (task.note w).source) }
  | finish {w : Walker} {i : Nat} :
      Event map (.rest w i) (.frame (w.frame i "All commands executed." .success
        { label := some "Done", trigger := some .finish })) (.rest w (i + 1))

/-- A sequence of events and the items that they write. -/
inductive Path (map : GridMap) : Scene → List Item → Scene → Prop
  | nil {s : Scene} : Path map s [] s
  | cons {s s₁ s' : Scene} {item : Item} {items : List Item} : Event map s item s₁ →
      Path map s₁ items s' → Path map s (item :: items) s'

theorem Path.append {map : GridMap} {s s₁ s' : Scene} {first second : List Item}
    (h : Path map s first s₁) (h' : Path map s₁ second s') :
    Path map s (first ++ second) s' := by
  induction h with
  | nil => exact h'
  | cons hevent _ ih => exact .cons hevent (ih h')

theorem Path.single {map : GridMap} {s s' : Scene} {item : Item} (h : Event map s item s') :
    Path map s [item] s' :=
  .cons h .nil

/-! ## Machines -/

namespace Machine

variable {map : GridMap} {m m' m'' : Machine}

/-- The scene of a machine, which may be in the middle of a move. -/
def sceneAt (m : Machine) (portal : Option Nat) : Scene :=
  { walker := m.walker.stance, index := m.frames.size, portal, fault := m.fault }

/-- The scene of a machine between two moves. -/
def scene (m : Machine) : Scene :=
  m.sceneAt none

theorem scene_eq_rest (hfault : m.fault = none) :
    m.scene = .rest m.walker.stance m.frames.size := by
  rw [scene, sceneAt, hfault, Scene.rest]

/-- The trace of the second machine is that of the first with some items added. -/
structure Adds (m : Machine) (items : List Item) (m' : Machine) : Prop where
  logs : m'.logs.toList = m.logs.toList ++ items.map (·.entry)
  frames : m'.frames.toList = m.frames.toList ++ items.filterMap (·.frame?)

theorem Adds.trans {first second : List Item} (h : Adds m first m') (h' : Adds m' second m'') :
    Adds m (first ++ second) m'' := by
  constructor
  · rw [h'.logs, h.logs, List.map_append, List.append_assoc]
  · rw [h'.frames, h.frames, List.filterMap_append, List.append_assoc]

/-- What is added does not depend on the rest of the machines. -/
theorem Adds.of_traces {m₀ m₁ : Machine} {items : List Item} (h : Adds m items m')
    (hlogs : m₀.logs = m.logs) (hframes : m₀.frames = m.frames) (hlogs' : m₁.logs = m'.logs)
    (hframes' : m₁.frames = m'.frames) : Adds m₀ items m₁ := by
  constructor
  · rw [hlogs, hlogs', h.logs]
  · rw [hframes, hframes', h.frames]

theorem adds_nil (hlogs : m'.logs = m.logs) (hframes : m'.frames = m.frames) : Adds m [] m' :=
  ⟨by simp [hlogs], by simp [hframes]⟩

theorem adds_log (m : Machine) (message : String) (kind : LogKind) :
    Adds m [.line { message, kind, position := m.walker.position, facing := m.walker.facing }]
      (m.log message kind) :=
  ⟨by simp [log, Item.entry], by simp [log, Item.frame?]⟩

theorem adds_record (m : Machine) (message : String) (kind : LogKind) (note : Note) :
    Adds m [.frame (m.walker.frame m.frames.size message kind note)]
      (m.record message kind note) :=
  ⟨by simp [record, snapshot, log, Item.entry, Walker.frame, Frame.position],
    by simp [record, snapshot, log, Item.frame?, Walker.frame]⟩

/-- The second machine comes from the first by events that write these items. -/
structure Writes (map : GridMap) (m : Machine) (items : List Item) (m' : Machine) : Prop where
  path : Path map m.scene items m'.scene
  adds : Adds m items m'

theorem Writes.trans {first second : List Item} (h : Writes map m first m')
    (h' : Writes map m' second m'') : Writes map m (first ++ second) m'' :=
  ⟨h.path.append h'.path, h.adds.trans h'.adds⟩

/-! ## What a command writes -/

theorem sceneAt_record (m : Machine) (message : String) (kind : LogKind) (note : Note)
    (portal : Option Nat) :
    (m.record message kind note).sceneAt portal =
      { walker := m.walker.stance, index := m.frames.size + 1, portal, fault := m.fault } := by
  simp [sceneAt, record, snapshot, log]

theorem scene_fail (m : Machine) (fault : Fault) (note : Note) :
    (m.fail fault note).scene =
      { walker := m.walker.stance, index := m.frames.size + 1, portal := none,
        fault := some (fault.toDiagnostic note.source) } := by
  simp [scene, sceneAt, fail, record, snapshot, log]

theorem adds_fail (m : Machine) (fault : Fault) (note : Note) :
    Adds m [.frame (m.walker.frame m.frames.size fault.message .error note)]
      (m.fail fault note) :=
  (adds_record m fault.message .error note).of_traces rfl rfl rfl rfl

/-- The machine has carried out a command and taken the frame for it. -/
theorem event_deed (hfault : m.fault = none) {w : Walker} {c : Command} {kind : LogKind}
    {portal : Option Nat} (hdeed : Deed map m.walker.stance c kind w.stance portal)
    (message : String) (source : SourceRef) :
    Event map m.scene
      (.frame (w.frame m.frames.size message kind (.command (m.walker.attempted + 1) c source)))
      (((m.begin.withWalker w).record message kind
        (.command (m.walker.attempted + 1) c source)).sceneAt portal) := by
  have hattempted : w.stance.attempted = m.walker.attempted + 1 := hdeed.attempted
  have hevent := Event.deed (i := m.frames.size) message source hdeed
  rw [hattempted] at hevent
  rw [scene_eq_rest hfault, sceneAt_record]
  show Event map _ _ { walker := w.stance, index := m.frames.size + 1, portal, fault := m.fault }
  rw [hfault]
  exact hevent

theorem adds_deed (m : Machine) (w : Walker) (message : String) (kind : LogKind) (note : Note) :
    Adds m [.frame (w.frame m.frames.size message kind note)]
      ((m.begin.withWalker w).record message kind note) :=
  (adds_record (m.begin.withWalker w) message kind note).of_traces rfl rfl rfl rfl

/-- The machine has refused a command. -/
theorem writes_refuse (hfault : m.fault = none) (c : Command) (fault : Fault)
    (source : SourceRef) :
    ∃ item, Writes map m [item]
      (m.begin.fail fault (.command (m.walker.attempted + 1) c source)) := by
  refine ⟨_, .single ?_, (adds_fail m.begin fault _).of_traces rfl rfl rfl rfl⟩
  have hevent : Event map (.rest m.walker.stance m.frames.size) _ _ := .refuse c fault source
  rw [← Walker.stance_begun] at hevent
  rw [scene_eq_rest hfault, scene_fail]
  have hattempted : m.walker.begun.stance.attempted = m.walker.attempted + 1 := by
    simp [Walker.stance]
  rw [hattempted] at hevent
  exact hevent

theorem writes_deed (hfault : m.fault = none) {w : Walker} {c : Command} {kind : LogKind}
    (hdeed : Deed map m.walker.stance c kind w.stance none) (message : String)
    (source : SourceRef) :
    ∃ item, Writes map m [item] ((m.begin.withWalker w).record message kind
      (.command (m.walker.attempted + 1) c source)).complete :=
  ⟨_, .single (event_deed hfault hdeed message source), (adds_deed ..).of_traces rfl rfl rfl rfl⟩

section Commands

variable {step : Nat} {source : SourceRef}

theorem writes_turn (hfault : m.fault = none) {c : Command} {facing : Direction} (side : String)
    (hdeed : Deed map m.walker.stance c .info { m.walker.stance.begun with facing } none) :
    ∃ item, Writes map m [item]
      (m.begin.turn step side facing (.command (m.walker.attempted + 1) c source)) := by
  rw [← Walker.stance_begun] at hdeed
  exact writes_deed hfault (w := { m.walker.begun with facing }) hdeed _ source

theorem writes_collect (hfault : m.fault = none) :
    ∃ item, Writes map m [item]
      (m.begin.collect step (.command (m.walker.attempted + 1) .collectGem source)) := by
  obtain ⟨hposition, _, hgems, _, hcollected, _⟩ := m.walker.begun_fields
  unfold collect Walker.takeGem?
  by_cases hgem : m.begin.walker.gems.contains m.begin.walker.position = true
  · rw [if_pos hgem]
    refine writes_deed hfault ?_ _ source
    -- beginning a command has moved neither the actor nor the gems
    change m.walker.begun.gems.contains m.walker.begun.position = true at hgem
    rw [hgems, hposition] at hgem
    have hdeed : Deed map m.walker.stance .collectGem _ _ _ := .collect hgem
    rw [← Walker.stance_begun] at hdeed
    show Deed map _ _ _ { m.walker.begun.stance with
      gems := m.walker.begun.gems.erase m.walker.begun.position
      collected := m.walker.begun.collected + 1 } none
    rw [hgems, hposition, hcollected]
    exact hdeed
  · rw [if_neg hgem]
    exact writes_refuse hfault .collectGem _ source

theorem writes_toggle (hfault : m.fault = none) :
    ∃ item, Writes map m [item]
      (m.begin.toggle step (.command (m.walker.attempted + 1) .toggleSwitch source)) := by
  obtain ⟨hposition, _, _, hswitches, _, _⟩ := m.walker.begun_fields
  unfold toggle Walker.toggle?
  cases hstate : m.begin.walker.switches.get? m.begin.walker.position with
  | none => exact writes_refuse hfault .toggleSwitch _ source
  | some state =>
      refine writes_deed hfault ?_ _ source
      change m.walker.begun.switches.get? m.walker.begun.position = some state at hstate
      -- beginning a command changes neither the place nor the switches
      rw [hswitches, hposition] at hstate
      have hdeed : Deed map m.walker.stance .toggleSwitch _ _ _ := .toggle hstate
      rw [← Walker.stance_begun] at hdeed
      show Deed map _ _ _ { m.walker.begun.stance with
        switches := m.walker.begun.switches.insert m.walker.begun.position state.toggled } none
      rw [hswitches, hposition]
      exact hdeed

/-- The portal that the actor has stepped on takes it to the other end or strands it. -/
theorem writes_warp {id : Nat} (hfault : m.fault = none) (hstep : m.walker.attempted = step) :
    ∃ item, Path map (m.sceneAt (some id)) [item]
        (m.warp map step id (.command step .moveForward source)).scene ∧
      Adds m [item] (m.warp map step id (.command step .moveForward source)) := by
  subst hstep
  unfold warp
  cases hpartner : map.partner? id m.walker.position with
  | none =>
      refine ⟨_, .single ?_, adds_fail m _ _⟩
      rw [scene_fail, sceneAt, hfault]
      exact .strand (w := m.walker.stance) source hpartner
  | some exit =>
      -- the frame is recorded after the passing, so it shows the other portal
      refine ⟨_, .single ?_,
        (adds_record (m.withWalker (m.walker.goTo exit)) _ _ _).of_traces rfl rfl rfl rfl⟩
      have hevent := Event.pass (w := m.walker.stance) (i := m.frames.size)
        s!"Passed through warp W{id} to {exit.render}." source hpartner
      rw [← Walker.stance_goTo, Scene.rest, ← hfault] at hevent
      show Event map _ _ (sceneAt (record ..) none)
      rw [sceneAt_record]
      exact hevent

/-- A move onto a portal writes a second item. -/
theorem exists_writes_portal {m₁ : Machine} {item : Item} {id : Nat}
    (hmoved : Event map m.scene item (m₁.sceneAt (some id))) (hadds : Adds m [item] m₁)
    (hfault : m₁.fault = none) (hstep : m₁.walker.attempted = step) :
    ∃ items, Writes map m items (m₁.warp map step id (.command step .moveForward source)) ∧
      items.length ≤ 2 := by
  obtain ⟨item', hpath, hadds'⟩ := writes_warp hfault hstep
  exact ⟨[item, item'], ⟨.cons hmoved hpath, hadds.trans hadds'⟩, Nat.le_refl 2⟩

theorem exists_writes_moveForward (hfault : m.fault = none) :
    ∃ items, Writes map m items (m.begin.moveForward map (m.walker.attempted + 1)
        (.command (m.walker.attempted + 1) .moveForward source)) ∧ items.length ≤ 2 := by
  have hposition : m.begin.walker.position = m.walker.position := m.walker.begun_fields.1
  have hfacing : m.begin.walker.facing = m.walker.facing := m.walker.begun_fields.2.1
  -- an edge and a wall refuse the command; on a portal a second event follows the deed
  unfold moveForward
  rw [hposition, hfacing]
  cases hcell : map.neighbor? m.walker.position m.walker.facing with
  | none =>
      obtain ⟨item, hwrites⟩ := writes_refuse hfault .moveForward _ source
      exact ⟨[item], hwrites, Nat.le_succ 1⟩
  | some cell =>
      dsimp only
      by_cases hwall : cell.isWall = true
      · rw [if_pos hwall]
        obtain ⟨item, hwrites⟩ := writes_refuse hfault .moveForward _ source
        exact ⟨[item], hwrites, Nat.le_succ 1⟩
      · rw [if_neg hwall]
        have hdeed := Deed.move (w := m.walker.stance) hcell (Bool.eq_false_iff.mpr hwall)
        rw [← Walker.stance_begun, ← Walker.stance_goTo] at hdeed
        cases hwarp : cell.warpId with
        | none =>
            rw [hwarp] at hdeed
            obtain ⟨item, hwrites⟩ := writes_deed hfault hdeed _ source
            exact ⟨[item], hwrites, Nat.le_succ 1⟩
        | some id =>
            rw [hwarp] at hdeed
            have hattempted : (m.begin.walker.goTo cell.position).attempted =
                m.walker.attempted + 1 := by
              simp [begin]
            exact exists_writes_portal (event_deed hfault hdeed _ source)
              (adds_deed ..) hfault hattempted

theorem exists_writes_execute (hfault : m.fault = none) (c : Command) (source : SourceRef) :
    ∃ items, Writes map m items (m.execute map c source) ∧ items.length ≤ 2 := by
  -- only a move can write twice, when it ends on a portal
  have hone : ∀ {m' : Machine}, (∃ item, Writes map m [item] m') →
      ∃ items, Writes map m items m' ∧ items.length ≤ 2 :=
    fun ⟨item, hwrites⟩ => ⟨[item], hwrites, Nat.le_succ 1⟩
  have hfacing : m.begin.walker.facing = m.walker.facing := m.walker.begun_fields.2.1
  cases c with
  | moveForward => exact exists_writes_moveForward hfault
  | turnLeft =>
      show ∃ items, Writes map m items (m.begin.turn _ _ m.begin.walker.facing.turnLeft _) ∧ _
      rw [hfacing]
      exact hone (writes_turn hfault "left" .turnLeft)
  | turnRight =>
      show ∃ items, Writes map m items (m.begin.turn _ _ m.begin.walker.facing.turnRight _) ∧ _
      rw [hfacing]
      exact hone (writes_turn hfault "right" .turnRight)
  | collectGem => exact hone (writes_collect hfault)
  | toggleSwitch => exact hone (writes_toggle hfault)

end Commands

/-! ## What a move writes -/

section Moves

variable {setting : Setting} {task : Task} {rest : List Task} {items : List Item}

/-- A charge cannot be seen in the trace. -/
theorem Writes.of_charge (h : Writes map m.charge items m') : Writes map m items m' :=
  ⟨h.path, h.adds.of_traces rfl rfl rfl rfl⟩

/-- Neither can the agenda. -/
theorem Writes.withAgenda (h : Writes map m items m') (agenda : List Task) :
    Writes map m items { m' with agenda } :=
  ⟨h.path, h.adds.of_traces rfl rfl rfl rfl⟩

theorem writes_nil (m : Machine) : Writes map m [] m :=
  ⟨.nil, adds_nil rfl rfl⟩

/-- A task that stops the machine writes one frame. -/
theorem writes_halt (hfault : m.fault = none) (task : Task) (fault : Fault) :
    Writes map m [.frame (m.walker.frame m.frames.size fault.message .error (task.note m.walker))]
      (m.fail fault (task.note m.walker)) := by
  refine ⟨.single ?_, adds_fail m fault _⟩
  rw [scene_eq_rest hfault, scene_fail]
  have hevent : Event map (.rest m.walker.stance m.frames.size) _ _ := .halt task fault
  rw [Task.note_stance] at hevent
  exact hevent

/-- A condition that is checked writes one line. -/
theorem writes_log (hfault : m.fault = none) (message : String) :
    Writes map m
      [.line { message, kind := .info, position := m.walker.position, facing := m.walker.facing }]
      (m.log message .info) := by
  refine ⟨.single ?_, adds_log m message .info⟩
  show Event map m.scene _ m.scene
  rw [scene_eq_rest hfault]
  exact .check message

theorem exists_writes_check (hfault : m.fault = none) {rounds : Nat} {condition : Condition}
    {body : List Stmt} {source : SourceRef} (h : Checks task rounds condition body source) :
    ∃ items, Writes map m items (m.check setting rounds condition body source rest) ∧
      items.length ≤ 2 := by
  have hnote : Note.at source = task.note m.walker := by cases h <;> rfl
  have hline : ∀ message, Writes map m _ (m.log message .info) := writes_log hfault
  unfold check
  cases condition.eval (m.walker.holds setting.map) with
  | false => exact ⟨_, (hline _).withAgenda rest, Nat.le_succ 1⟩
  | true =>
      simp only [Bool.not_true, Bool.false_eq_true, if_false]
      split
      · -- the fault comes after the line of the check
        rw [hnote]
        exact ⟨_, (hline _).trans (writes_halt (m := m.log _ .info) hfault task _), Nat.le_refl 2⟩
      · exact ⟨_, (hline _).withAgenda _, Nat.le_succ 1⟩

theorem exists_writes_enter (hfault : m.fault = none) (name : String) (source : SourceRef) :
    ∃ items, Writes map m items (m.enter setting.functions name source rest) ∧
      items.length ≤ 2 := by
  have hhalt : ∀ fault, ∃ items, Writes map m items (m.fail fault (.at source)) ∧
      items.length ≤ 2 :=
    fun fault => ⟨_, writes_halt hfault (.run (.call name source)) fault, Nat.le_succ 1⟩
  unfold enter
  split
  · exact hhalt _
  · split
    · exact hhalt _
    · exact ⟨[], (writes_nil m).withAgenda _, Nat.zero_le 2⟩

/-- A task that is carried out writes at most two items. -/
theorem exists_writes_perform (hfault : m.fault = none) :
    ∃ items, Writes setting.map m items (m.perform setting task rest) ∧ items.length ≤ 2 := by
  unfold perform
  match task with
  | .run (.command c source) =>
      obtain ⟨items, ⟨hpath, hadds⟩, hlength⟩ :=
        exists_writes_execute (m := { m with agenda := rest }) hfault c source
      exact ⟨items, ⟨hpath, hadds.of_traces rfl rfl rfl rfl⟩, hlength⟩
  | .run (.loop count body source) => exact ⟨[], (writes_nil m).withAgenda _, Nat.zero_le 2⟩
  | .run (.ifThen condition consequent source) =>
      exact ⟨_, (writes_log hfault _).withAgenda _, Nat.le_succ 1⟩
  | .run (.ifElse condition consequent alternate source) =>
      exact ⟨_, (writes_log hfault _).withAgenda _, Nat.le_succ 1⟩
  | .run (.whileDo condition body source) => exact exists_writes_check hfault .first
  | .run (.call name source) => exact exists_writes_enter hfault name source
  | .recheck rounds condition body source => exact exists_writes_check hfault .again
  | .leave name => exact ⟨[], (writes_nil m).withAgenda _, Nat.zero_le 2⟩

/-- **What one move writes.**  At most two items, and only one if the budget stops the machine. -/
theorem exists_writes_move (setting : Setting) (hfault : m.fault = none) (task : Task)
    (rest : List Task) :
    ∃ items, Writes setting.map m items (m.move setting task rest) ∧ items.length ≤ 2 ∧
      (setting.limits.operationBudget < min (m.walker.operations + 1) Text.max32 →
        items.length ≤ 1) := by
  rcases move_cases setting m task rest with ⟨_, hmove⟩ | ⟨hwithin, hmove⟩
  · rw [hmove]
    exact ⟨_, (writes_halt (m := m.charge) hfault task _).of_charge, Nat.le_succ 1,
      fun _ => Nat.le_refl 1⟩
  · rw [hmove]
    obtain ⟨items, hwrites, hlength⟩ := exists_writes_perform (m := m.charge) hfault
    exact ⟨items, hwrites.of_charge, hlength, fun hover => absurd hover (Nat.not_lt.mpr hwithin)⟩

end Moves

/-! ## What a run writes -/

variable {setting : Setting} {start : Machine}

/-- **What a run has written.** -/
theorem Reachable.exists_writes (hstart : start.fault = none) (h : Reachable setting start m) :
    ∃ items, Writes setting.map start items m := by
  induction h with
  | start => exact ⟨[], writes_nil start⟩
  | move hreach hnext ih =>
      obtain ⟨before, hbefore⟩ := ih
      obtain ⟨items, hitems, _, _⟩ :=
        exists_writes_move setting (hreach.fault_of_next? hstart hnext) _ _
      exact ⟨before ++ items, hbefore.trans hitems⟩

theorem writes_close (map : GridMap) (hfault : m.fault = none) :
    ∃ item, Writes map m [item] m.close := by
  rw [close_of_no_fault hfault]
  refine ⟨_, .single ?_, adds_record m _ _ _⟩
  show Event map m.scene _ (sceneAt (record ..) none)
  rw [scene_eq_rest hfault, sceneAt_record, hfault]
  exact .finish

theorem exists_writes_close (map : GridMap) (m : Machine) :
    ∃ items, Writes map m items m.close := by
  cases hfault : m.fault with
  | none =>
      obtain ⟨item, hwrites⟩ := writes_close map hfault
      exact ⟨[item], hwrites⟩
  | some d =>
      rw [close_of_fault hfault]
      exact ⟨[], writes_nil m⟩

end Machine

/-! ## Outcomes -/

/-- The scene before the first event of a run. -/
def Scene.atStart (map : GridMap) (start : Cell) : Scene :=
  .rest (Walker.atStart map start).visit 1

/-- The frame that a run starts with. -/
def Frame.atStart (map : GridMap) (start : Cell) : Frame :=
  let w := (Walker.atStart map start).visit
  w.frame 0 s!"Starting at {w.position.render} facing {w.facing.name}." .success
    { label := some "Start", trigger := some .start }

theorem Machine.scene_atStart (map : GridMap) (p : Program) (start : Cell) :
    (Machine.atStart map p start).scene = .atStart map start := by
  show sceneAt (record ..) none = _
  rw [sceneAt_record, Walker.stance_visit]
  rfl

/-- **An outcome tells the story of its run.**  The run ends in a machine that it reaches and that
has nothing left to do, the events lead to the scene of that machine when it is closed, and the log
and the frames of the outcome are what the events have written. -/
theorem Ends.exists_path {map : GridMap} {p : Program} {limits : Limits} {o : Outcome}
    {start : Cell} (hstart : map.start = some start) (h : Ends map p limits o) :
    ∃ m items, Machine.Reachable { map, functions := p.functions, limits }
        (.atStart map p start) m ∧ Task.next? m.agenda = none ∧ o = .ofMachine map m.close ∧
      Path map (.atStart map start) items m.close.scene ∧
      o.logs = (Item.frame (.atStart map start)).entry :: items.map (·.entry) ∧
      o.frames = .atStart map start :: items.filterMap (·.frame?) := by
  obtain ⟨m, hreach, hnext, rfl⟩ := h.exists_machine hstart
  obtain ⟨items, hitems⟩ := hreach.exists_writes rfl
  obtain ⟨last, hlast⟩ := Machine.exists_writes_close map m
  obtain ⟨hpath, hlogs, hframes⟩ := hitems.trans hlast
  rw [Machine.scene_atStart] at hpath
  exact ⟨m, items ++ last, hreach, hnext, rfl, hpath, hlogs, hframes⟩

end GemGrid
