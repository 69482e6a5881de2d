import GemGrid.Proofs.Grid.Keys
import GemGrid.Proofs.Run.Records
import GemGrid.Proofs.Run.Walk

/-!
# Frames replay the log

The frames of a run can be played one after another: they are numbered, the list of visited cells
only grows, and their lines are those of the log, apart from the decisions on conditions.  None of
this depends on the map.  The actor may be taken to a cell that says another place than it stands
at, and still every place that it comes to is listed before the next frame is taken.

The cells visited are marked at several points of a run, before a command as well as after a step.
What makes this come to at most one new cell for a frame is that the actor is always `Settled`: the
place where it stands has been listed.  Then marking it again when a command is begun changes
nothing (`Settled.begun_eq`).  Every event keeps this (`Event.advances`), and `Path.isReplay`
follows the frames of a run with the scene that the last of them shows.
-/

namespace GemGrid

/-! ## The actor -/

namespace Walker

variable {w w' : Walker}

/-- The place where the actor stands has been listed, and no place is listed twice. -/
structure Settled (w : Walker) : Prop where
  stands : w.position ∈ w.visited
  distinct : w.visited.Nodup

/-- At most one command has been begun and at most one place has been listed. -/
structure Advances (w w' : Walker) : Prop where
  attempted : w.attempted ≤ w'.attempted ∧ w'.attempted ≤ w.attempted + 1
  visited : w.visited <+: w'.visited ∧ w'.visited.length ≤ w.visited.length + 1

theorem advances_refl (w : Walker) : w.Advances w :=
  ⟨⟨Nat.le_refl _, Nat.le_succ _⟩, List.prefix_refl _, Nat.le_succ _⟩

/-- Beginning a command lists no new place. -/
theorem Settled.begun_eq (h : w.Settled) :
    w.begun = { w with attempted := w.attempted + 1 } := by
  have hseen : w.visited.contains w.position = true := List.contains_iff_mem.mpr h.stands
  exact if_pos hseen

theorem Settled.begun (h : w.Settled) : w.begun.Settled := by
  rw [h.begun_eq]
  exact ⟨h.stands, h.distinct⟩

theorem Settled.advances_begun (h : w.Settled) : w.Advances w.begun := by
  rw [h.begun_eq]
  exact ⟨⟨Nat.le_succ _, Nat.le_refl _⟩, List.prefix_refl _, Nat.le_succ _⟩

theorem Settled.visit (h : w.visited.Nodup) : w.visit.Settled := by
  unfold Walker.visit
  by_cases hseen : w.visited.contains w.position = true
  · rw [if_pos hseen]
    exact ⟨List.contains_iff_mem.mp hseen, h⟩
  · rw [if_neg hseen]
    have hnew : w.position ∉ w.visited := fun hmem => hseen (List.contains_iff_mem.mpr hmem)
    refine ⟨List.mem_append_right _ (List.mem_singleton_self _), ?_⟩
    show (w.visited ++ [w.position]).Nodup
    rw [← List.concat_eq_append]
    exact h.concat hnew

theorem visited_visit (w : Walker) :
    w.visited <+: w.visit.visited ∧ w.visit.visited.length ≤ w.visited.length + 1 := by
  unfold Walker.visit
  split
  · exact ⟨List.prefix_refl _, Nat.le_succ _⟩
  · exact ⟨List.prefix_append _ _, by simp⟩

theorem advances_goTo (w : Walker) (p : Position) : w.Advances (w.goTo p) := by
  have hattempted : (w.goTo p).attempted = w.attempted := by simp
  refine ⟨⟨hattempted.ge, ?_⟩, visited_visit { w with position := p }⟩
  rw [hattempted]
  exact Nat.le_succ _

end Walker

section Events

variable {map : GridMap} {s s' : Scene} {item : Item} {items : List Item} {f g : Frame}

theorem Deed.advances {w w' : Walker} {c : Command} {kind : LogKind} {portal : Option Nat}
    (h : Deed map w c kind w' portal) (hw : w.Settled) : w.Advances w' ∧ w'.Settled := by
  have hbegun := hw.advances_begun
  cases h with
  | @move cell =>
      -- only the step can list a place
      have hstep := w.begun.advances_goTo cell.position
      rw [hw.begun_eq] at hstep ⊢
      exact ⟨⟨by simp, hstep.visited⟩, .visit hw.distinct⟩
  | _ => exact ⟨⟨hbegun.attempted, hbegun.visited⟩, hw.begun.stands, hw.begun.distinct⟩

/-- Every event lists at most one place, and the place where the actor then stands is listed. -/
theorem Event.advances (h : Event map s item s') (hs : s.walker.Settled) :
    s.walker.Advances s'.walker ∧ s'.walker.Settled := by
  cases h with
  | deed _ _ hdeed => exact hdeed.advances hs
  | pass => exact ⟨Walker.advances_goTo .., .visit hs.distinct⟩
  | refuse => exact ⟨hs.advances_begun, hs.begun⟩
  | _ => exact ⟨Walker.advances_refl _, hs⟩

/-! ## Frames -/

/-- The frame shows the scene. -/
structure Snapshot (s : Scene) (f : Frame) : Prop where
  index : s.index = f.frameIndex + 1
  step : f.step = s.walker.attempted
  position : f.position = s.walker.position
  visited : f.visited = s.walker.visitedKeys

theorem Event.snapshot (h : Event map s (.frame g) s') :
    Snapshot s' g ∧ g.frameIndex = s.index := by
  cases h <;> exact ⟨⟨rfl, rfl, rfl, rfl⟩, rfl⟩

/-- The frame lists the place that it shows, and no place twice. -/
structure Frame.Settled (f : Frame) : Prop where
  stands : f.position.key ∈ f.visited
  distinct : f.visited.Nodup

theorem Snapshot.settled (h : Snapshot s f) (hs : s.walker.Settled) : f.Settled := by
  constructor
  · rw [h.position, h.visited]
    exact List.mem_map_of_mem hs.stands
  · rw [h.visited]
    exact hs.distinct.map Position.key_injective

/-- How a frame goes on from the frame before it. -/
structure Continues (f g : Frame) : Prop where
  index : g.frameIndex = f.frameIndex + 1
  step : f.step ≤ g.step ∧ g.step ≤ f.step + 1
  visited : f.visited <+: g.visited ∧ g.visited.length ≤ f.visited.length + 1

theorem Snapshot.continues (hf : Snapshot s f) (hg : Snapshot s' g)
    (hindex : g.frameIndex = s.index) (hadvances : s.walker.Advances s'.walker) :
    Continues f g := by
  obtain ⟨hstep, hvisited, hlength⟩ := hadvances
  refine ⟨hindex.trans hf.index, ?_, ?_, ?_⟩
  · rw [hf.step, hg.step]
    exact hstep
  · rw [hf.visited, hg.visited]
    exact hvisited.map _
  · rw [hf.visited, hg.visited, Walker.visitedKeys, Walker.visitedKeys, List.length_map,
      List.length_map]
    exact hlength

/-- **The frames of a path.** -/
theorem Path.isReplay (h : Path map s items s') (hf : Snapshot s f) (hs : s.walker.Settled) :
    List.IsChain Continues (f :: items.filterMap (·.frame?)) ∧
      (∀ g ∈ f :: items.filterMap (·.frame?), g.Settled) ∧
      ∃ last, (f :: items.filterMap (·.frame?)).getLast? = some last ∧ Snapshot s' last := by
  induction h generalizing f with
  | nil => exact ⟨.singleton f, List.forall_mem_singleton.mpr (hf.settled hs), f, rfl, hf⟩
  | @cons s s₁ s' item items hevent _ ih =>
      obtain ⟨hadvances, hs₁⟩ := hevent.advances hs
      -- a line moves nothing, so the frame before it still shows the scene
      cases item with
      | line e =>
          obtain rfl := hevent.eq_of_line
          exact ih hf hs₁
      | frame g =>
          obtain ⟨hg, hindex⟩ := hevent.snapshot
          obtain ⟨hchain, hsettled, last, hlast, hshown⟩ := ih hg hs₁
          refine ⟨.cons_cons (hf.continues hg hindex hadvances) hchain, ?_, last, hlast, hshown⟩
          exact List.forall_mem_cons.mpr ⟨hf.settled hs, hsettled⟩

end Events

/-- Frames that go on from one another are numbered. -/
theorem frameIndex_of_isChain {frames : List Frame} (hchain : frames.IsChain Continues)
    (hhead : ∀ f ∈ frames.head?, f.frameIndex = 0) {i : Nat} {f : Frame}
    (hf : frames[i]? = some f) : f.frameIndex = i := by
  induction i generalizing f with
  | zero =>
      rw [← List.head?_eq_getElem?] at hf
      exact hhead f hf
  | succ i ih =>
      obtain ⟨hi, _⟩ := List.getElem?_eq_some_iff.mp hf
      have hprevious := List.getElem?_eq_getElem (Nat.lt_of_succ_lt hi)
      rw [(rel_of_isChain hchain hprevious hf).index, ih hprevious]

/-! ## Lines -/

/-- Calm items that do not tell a decision are those with a frame. -/
theorem filter_entries {items : List Item} (hcalm : ∀ item ∈ items, item.Calm) :
    (items.map (·.entry)).filter (!·.isCheck) = (items.filterMap (·.frame?)).map (·.entry) := by
  induction items with
  | nil => rfl
  | cons item items ih =>
      obtain ⟨hitem, hitems⟩ := List.forall_mem_cons.mp hcalm
      rw [List.map_cons]
      cases hitem with
      | line hverdict _ =>
          rw [List.filter_cons_of_neg (by simp [Item.entry, LogEntry.isCheck, hverdict.tellsCheck])]
          exact ih hitems
      | frame htext _ _ =>
          rw [List.filter_cons_of_pos (by simp [Item.entry, LogEntry.isCheck, htext]), ih hitems]
          rfl

theorem isCheck_iff_of_tellsCheck {e : LogEntry} (h : tellsCheck e.message = false) :
    e.isCheck = true ↔ Decision e.message := by
  refine ⟨fun hcheck => ?_, Decision.tellsCheck⟩
  rw [LogEntry.isCheck, h] at hcheck
  cases hcheck

theorem Item.Calm.isCheck_iff {item : Item} (h : item.Calm) :
    item.entry.isCheck = true ↔ Decision item.entry.message := by
  cases h with
  | line hverdict _ => exact iff_of_true hverdict.tellsCheck hverdict
  | frame htext _ _ => exact isCheck_iff_of_tellsCheck htext

/-! ## Outcomes -/

/-- The frames of an outcome replay its log. -/
structure Replays (start : Cell) (o : Outcome) : Prop where
  indices : ∀ i (f : Frame), o.frames[i]? = some f → f.frameIndex = i
  /-- A frame for each line that is not a check, in order. -/
  lines : o.frames.map (·.entry) = o.logs.filter (!·.isCheck)
  /-- The lines left out tell the decisions on conditions. -/
  checks : ∀ e ∈ o.logs, e.isCheck = true ↔ Decision e.message
  steps : ∀ i f g, o.frames[i]? = some f → o.frames[i + 1]? = some g →
    f.step ≤ g.step ∧ g.step ≤ f.step + 1
  visits : ∀ i f g, o.frames[i]? = some f → o.frames[i + 1]? = some g →
    f.visited <+: g.visited ∧ g.visited.length ≤ f.visited.length + 1
  distinct : ∀ f ∈ o.frames, f.visited.Nodup
  stands : ∀ f ∈ o.frames, f.position.key ∈ f.visited
  first : ∃ f, o.frames.head? = some f ∧ f.visited = [start.position.key]
  last : ∃ f, o.frames.getLast? = some f ∧ f.visited = o.visitedPath

theorem settled_atStart (map : GridMap) (start : Cell) :
    (Scene.atStart map start).walker.Settled :=
  Walker.Settled.visit (w := .atStart map start) List.nodup_nil

/-- **Frames replay the log.**  On any map with a start, even one whose cells say other places than
they stand at, the frames of a run that ends are its log without the decisions, and each adds at most
one command and one cell to the one before it. -/
theorem replays_of_ends {map : GridMap} {start : Cell} (hstart : map.start = some start)
    {p : Program} {limits : Limits} {o : Outcome} (hends : Ends map p limits o) :
    Replays start o := by
  obtain ⟨_, items, f, _, hending, hcalm, _, hlogs, hframes, _⟩ := hends.exists_ending hstart
  obtain ⟨m, events, _, _, rfl, hpath, _, hevents⟩ := hends.exists_path hstart
  have hfirst : Snapshot (.atStart map start) (.atStart map start) := ⟨rfl, rfl, rfl, rfl⟩
  obtain ⟨hchain, hsettled, last, hlast, hshown⟩ :=
    hpath.isReplay hfirst (settled_atStart map start)
  rw [← hevents] at hchain hsettled hlast
  refine
    { indices := fun i f => frameIndex_of_isChain hchain ?_
      lines := ?_
      checks := ?_
      steps := fun i f g hf hg => (rel_of_isChain hchain hf hg).step
      visits := fun i f g hf hg => (rel_of_isChain hchain hf hg).visited
      distinct := fun f hf => (hsettled f hf).distinct
      stands := fun f hf => (hsettled f hf).stands
      first := ⟨.atStart map start, by rw [hevents]; rfl, rfl⟩
      last := ⟨last, hlast, hshown.visited⟩ }
  · rw [hevents]
    rintro f ⟨⟩
    rfl
  · have hcheck : f.entry.isCheck = false := hending.tellsCheck
    -- the line of the last frame is no check, so the filter takes all the checks of the items
    rw [hlogs, hframes, List.filter_append, filter_entries hcalm, List.map_append]
    simp [hcheck]
  · rw [hlogs]
    refine List.forall_mem_append.mpr ⟨?_, List.forall_mem_singleton.mpr ?_⟩
    · exact List.forall_mem_map.mpr fun item hitem => (hcalm item hitem).isCheck_iff
    · exact isCheck_iff_of_tellsCheck hending.tellsCheck

/-- Two cells say other places than they stand at, so that two steps ahead lead back to the start.
Then a condition is checked and there is no gem. -/
theorem replays_of_ends_misplaced_cells :
    let ref (line : Nat) : SourceRef := { line, text := "" }
    let start : Cell := { Cell.floor "→" 0 0 with isStart := true, direction := some .right }
    let map : GridMap :=
      { GridMap.empty with
        grid := [[start, .floor "." 1 0], [.floor "." 1 0, .floor "." 0 0]]
        rows := 2, columns := 2, start := some start }
    let p : Program :=
      { main := [.loop 2 [.command .moveForward (ref 2)] (ref 1),
          .ifThen (.not (.predicate .isBlocked)) [.command .collectGem (ref 4)] (ref 3)]
        functions := []
        metadata := { staticCommandCount := none, hasDynamicControlFlow := true } }
    map.start = some start ∧ ∃ o, Ends map p {} o ∧ Replays start o ∧
      o.frames.map (·.visited) = [["0,0"], ["0,0", "1,0"], ["0,0", "1,0"], ["0,0", "1,0"]] ∧
      o.frames.map (·.step) = [0, 1, 2, 3] ∧ o.logs.length = 5 := by
  intro ref start map p
  have heval : ((simulate map p {}).map fun o =>
      (o.frames.map (·.visited), o.frames.map (·.step), o.logs.length)) =
      some ([["0,0"], ["0,0", "1,0"], ["0,0", "1,0"], ["0,0", "1,0"]], [0, 1, 2, 3], 5) := by
    decide +kernel
  obtain ⟨o, ho, heval⟩ := Option.map_eq_some_iff.mp heval
  simp only [Prod.mk.injEq] at heval
  have hends : Ends map p {} o := ⟨_, ho⟩
  exact ⟨rfl, o, hends, replays_of_ends rfl hends, heval⟩

end GemGrid
