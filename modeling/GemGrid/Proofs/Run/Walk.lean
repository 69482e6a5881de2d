import GemGrid.Proofs.Grid.Layout
import GemGrid.Proofs.Run.Events
import GemGrid.Proofs.Run.Guards

/-!
# Traces are walks on the map

On a map that has been read, the frames of a run replay a walk: each of them is one step of the
kind that it was taken for away from the frame before it (`Follows`), and the actor never leaves
the floor of the grid (`GridMap.Enterable`).

Condition checks write lines between two frames, so a frame is compared with the scene, not with
the item before it.  `Shows map s f` says that `f` is the last frame that was taken when the scene
is `s`: the actor is where it shows, and a portal is open exactly if the frame shows a step onto
it.  Every event keeps this for the frame that it takes (`Event.shows`), and a path of events makes
a chain of frames (`Path.isChain`).  As no portal is open in the end, every step onto one has been
answered.
-/

namespace GemGrid

/-- A place inside the grid where the actor can stand. -/
structure GridMap.Enterable (map : GridMap) (p : Position) : Prop where
  row : p.row < map.rows
  col : p.col < map.columns
  floor : ∃ cell, map.cell? p = some cell ∧ cell.isWall = false

/-! ## One frame after another -/

namespace Frame

/-- The frame was taken for a step onto a portal. -/
def OnPortal (map : GridMap) (f : Frame) (id : Nat) : Prop :=
  f.Did .moveForward ∧ ∃ cell, map.cell? f.position = some cell ∧ cell.warpId = some id

/-- The frame was taken for something that leaves the actor where it is. -/
def Stays (f : Frame) : Prop :=
  f.kind = .error ∨ f.command ∉ [some (.command .moveForward), some .warp,
    some (.command .turnLeft), some (.command .turnRight)]

theorem Did.ne_warp {f : Frame} {c : Command} (h : f.Did c) : f.command ≠ some .warp := by
  rw [h.1]
  simp

theorem Did.not_stays {f : Frame} {c : Command} (h : f.Did c) (hgem : c ≠ .collectGem)
    (hswitch : c ≠ .toggleSwitch) : ¬ f.Stays := by
  rintro (herror | hcommand)
  · exact h.2 herror
  · rw [h.1] at hcommand
    cases c <;> simp at hcommand hgem hswitch

end Frame

/-- How a frame follows the frame before it.  A step goes one cell ahead; that this is one more or
one less in row or column is said for grids whose places fit into signed 64-bit numbers, which a
step counts with. -/
structure Follows (map : GridMap) (f g : Frame) : Prop where
  moved : g.Did .moveForward →
    g.facing = f.facing ∧ f.position.step f.facing = some g.position ∧
      (map.rows ≤ Text.maxSigned64 → map.columns ≤ Text.maxSigned64 →
        (g.row : Int) = f.row + f.facing.rowDelta ∧ (g.col : Int) = f.col + f.facing.colDelta)
  warped : g.command = some .warp →
    g.facing = f.facing ∧ g.position ≠ f.position ∧
      ∃ id cell, f.OnPortal map id ∧ map.partner? id f.position = some g.position ∧
        map.cell? g.position = some cell ∧ cell.warpId = some id
  turnedLeft : g.Did .turnLeft → g.position = f.position ∧ g.facing = f.facing.turnLeft
  turnedRight : g.Did .turnRight → g.position = f.position ∧ g.facing = f.facing.turnRight
  stayed : g.Stays → g.position = f.position ∧ g.facing = f.facing

/-- A step onto a portal is answered by the frame after it: the actor passes, or it is reported
that the portal leads nowhere. -/
def Answers (map : GridMap) (report : Option Diagnostic) (f g : Frame) : Prop :=
  ∀ id, f.OnPortal map id → g.command = some .warp ∨
    g.kind = .error ∧ ∃ d, report = some d ∧ d.code = 404 ∧ d.message = g.message

/-- The last frame that was taken when the scene is this one. -/
structure Shows (map : GridMap) (s : Scene) (f : Frame) : Prop where
  position : f.position = s.walker.position
  facing : f.facing = s.walker.facing
  portal : ∀ id, s.portal = some id ↔ f.OnPortal map id

/-- A frame that shows the actor where it was, and was not taken for a step. -/
theorem Follows.of_stays {map : GridMap} {f g : Frame} (hstays : g.Stays)
    (hposition : g.position = f.position) (hfacing : g.facing = f.facing)
    (hwarp : g.command ≠ some .warp) : Follows map f g where
  moved h := absurd hstays (h.not_stays (by decide) (by decide))
  warped h := absurd h hwarp
  turnedLeft h := absurd hstays (h.not_stays (by decide) (by decide))
  turnedRight h := absurd hstays (h.not_stays (by decide) (by decide))
  stayed _ := ⟨hposition, hfacing⟩

/-- A frame that is no step onto a portal shows a scene without an open one. -/
theorem Shows.of_shut {map : GridMap} {s : Scene} {f : Frame}
    (hshut : ∀ id, ¬ f.OnPortal map id) (hportal : s.portal = none)
    (hposition : f.position = s.walker.position) (hfacing : f.facing = s.walker.facing) :
    Shows map s f := by
  refine ⟨hposition, hfacing, fun id => ?_⟩
  simp [hportal, hshut id]

theorem Shows.of_stays {map : GridMap} {s : Scene} {f : Frame} (hstays : f.Stays)
    (hportal : s.portal = none) (hposition : f.position = s.walker.position)
    (hfacing : f.facing = s.walker.facing) : Shows map s f := by
  refine .of_shut (fun id hon => ?_) hportal hposition hfacing
  exact hon.1.not_stays (by decide) (by decide) hstays

theorem Task.trigger_ne_warp (task : Task) (w : Walker) : (task.note w).trigger ≠ some .warp := by
  rcases task with s | _ | _
  · cases s <;> simp [note, Note.command, Note.at]
  · simp [note, Note.at]
  · simp [note]

theorem Fault.message_toDiagnostic (fault : Fault) (source : Option SourceRef) :
    (fault.toDiagnostic source).message = fault.message := by
  cases source <;> rfl

/-! ## Coordinates -/

theorem Position.shift?_eq_some {n m : Nat} {delta : Int} (hn : n ≤ Text.maxSigned64)
    (h : shift? n delta = some m) : (m : Int) = n + delta := by
  unfold shift? signed at h
  rw [if_pos hn] at h
  dsimp only at h
  split at h
  · next hrange =>
    cases h
    exact Int.toNat_of_nonneg hrange.1
  · cases h

/-- A step goes one cell in its direction. -/
theorem Position.step_eq_some {p q : Position} {d : Direction} (hrow : p.row ≤ Text.maxSigned64)
    (hcol : p.col ≤ Text.maxSigned64) (h : p.step d = some q) :
    (q.row : Int) = p.row + d.rowDelta ∧ (q.col : Int) = p.col + d.colDelta := by
  obtain ⟨row, hr, h⟩ := Option.bind_eq_some_iff.mp h
  obtain ⟨col, hc, h⟩ := Option.bind_eq_some_iff.mp h
  cases h
  exact ⟨shift?_eq_some hrow hr, shift?_eq_some hcol hc⟩

section Drawn

variable {map : GridMap} (hmap : map.Drawn)

include hmap

theorem GridMap.Drawn.enterable {p : Position} {cell : Cell} (hcell : map.cell? p = some cell)
    (hwall : cell.isWall = false) : map.Enterable p :=
  ⟨(hmap.inside hcell).1, (hmap.inside hcell).2, cell, hcell, hwall⟩

/-- The neighbour of a place is the cell that one step leads to. -/
theorem GridMap.Drawn.neighbor_spec {p : Position} {d : Direction} {cell : Cell}
    (hcell : map.neighbor? p d = some cell) :
    p.step d = some cell.position ∧ map.cell? cell.position = some cell := by
  obtain ⟨q, hstep, hq⟩ := Option.bind_eq_some_iff.mp hcell
  obtain rfl := hmap.position hq
  exact ⟨hstep, hq⟩

/-! ## Positions -/

/-- No event takes the actor off the floor. -/
theorem Event.enterable {s s' : Scene} {item : Item} (h : Event map s item s')
    (hs : map.Enterable s.walker.position) :
    map.Enterable item.entry.position ∧ map.Enterable s'.walker.position := by
  cases h with
  | check => exact ⟨hs, hs⟩
  | @deed w w' i c kind portal message source hdeed =>
      -- the frame of a deed stands where the walker does
      suffices hw : map.Enterable w'.position from ⟨hw, hw⟩
      cases hdeed with
      | move hcell hwall =>
          rw [(Walker.goTo_fields ..).1]
          exact hmap.enterable (hmap.neighbor_spec hcell).2 hwall
      | _ => exact (w.begun_fields.1).symm ▸ hs
  | @pass w i id exit message source hpartner =>
      obtain ⟨_, cell, hcell, _, hwall⟩ := hmap.partner_spec hpartner
      have hexit : map.Enterable (w.goTo exit).position := by
        rw [(Walker.goTo_fields ..).1]
        exact hmap.enterable hcell hwall
      exact ⟨hexit, hexit⟩
  | strand => exact ⟨hs, hs⟩
  | @refuse w =>
      have hw : map.Enterable w.begun.position := w.begun_fields.1.symm ▸ hs
      exact ⟨hw, hw⟩
  | halt => exact ⟨hs, hs⟩
  | finish => exact ⟨hs, hs⟩

theorem Path.enterable {s s' : Scene} {items : List Item} (h : Path map s items s')
    (hs : map.Enterable s.walker.position) :
    ∀ item ∈ items, map.Enterable item.entry.position := by
  induction h with
  | nil => simp
  | cons hevent _ ih =>
      obtain ⟨hitem, hnext⟩ := hevent.enterable hmap hs
      exact List.forall_mem_cons.mpr ⟨hitem, ih hnext⟩

/-! ## Frames -/

/-- A command that has been carried out takes the step of its kind. -/
theorem Deed.follows {w w' : Walker} {c : Command} {kind : LogKind} {portal : Option Nat}
    {f g : Frame} (h : Deed map w c kind w' portal) (hw : map.Enterable w.position)
    (hposition : f.position = w.position) (hfacing : f.facing = w.facing) (hg : g.Did c)
    (hposition' : g.position = w'.position) (hfacing' : g.facing = w'.facing) :
    Follows map f g := by
  -- beginning a command keeps the place and the heading
  obtain ⟨hstand, hheading, _⟩ := w.begun_fields
  cases h with
  | turnLeft =>
      have hturned : g.position = f.position ∧ g.facing = f.facing.turnLeft :=
        ⟨hposition'.trans (hstand.trans hposition.symm), by rw [hfacing', hfacing]⟩
      exact
        { moved := fun h => absurd h (hg.not_did (by decide))
          warped := fun h => absurd h hg.ne_warp
          turnedLeft := fun _ => hturned
          turnedRight := fun h => absurd h (hg.not_did (by decide))
          stayed := fun h => absurd h (hg.not_stays (by decide) (by decide)) }
  | turnRight =>
      have hturned : g.position = f.position ∧ g.facing = f.facing.turnRight :=
        ⟨hposition'.trans (hstand.trans hposition.symm), by rw [hfacing', hfacing]⟩
      exact
        { moved := fun h => absurd h (hg.not_did (by decide))
          warped := fun h => absurd h hg.ne_warp
          turnedLeft := fun h => absurd h (hg.not_did (by decide))
          turnedRight := fun _ => hturned
          stayed := fun h => absurd h (hg.not_stays (by decide) (by decide)) }
  | collect =>
      exact .of_stays (.inr (by rw [hg.1]; simp)) (hposition'.trans (hstand.trans hposition.symm))
        (hfacing'.trans (hheading.trans hfacing.symm)) hg.ne_warp
  | toggle =>
      exact .of_stays (.inr (by rw [hg.1]; simp)) (hposition'.trans (hstand.trans hposition.symm))
        (hfacing'.trans (hheading.trans hfacing.symm)) hg.ne_warp
  | @move cell hcell hwall =>
      obtain ⟨hplace, hahead, _⟩ := w.begun.goTo_fields cell.position
      have hstep : f.position.step f.facing = some g.position := by
        rw [hposition, hfacing, hposition', hplace]
        exact (hmap.neighbor_spec hcell).1
      refine
        { moved := fun _ => ⟨?_, hstep, fun hrows hcolumns => ?_⟩
          warped := fun h => absurd h hg.ne_warp
          turnedLeft := fun h => absurd h (hg.not_did (by decide))
          turnedRight := fun h => absurd h (hg.not_did (by decide))
          stayed := fun h => absurd h (hg.not_stays (by decide) (by decide)) }
      · exact hfacing'.trans (hahead.trans (hheading.trans hfacing.symm))
      · -- the actor stands inside the grid, where no coordinate is too large for a step
        rw [← hposition] at hw
        exact Position.step_eq_some (Nat.le_trans (Nat.le_of_lt hw.row) hrows)
          (Nat.le_trans (Nat.le_of_lt hw.col) hcolumns) hstep

/-- A command leaves a portal open exactly if it was a step onto one. -/
theorem Deed.portal_iff {w w' : Walker} {c : Command} {kind : LogKind} {portal : Option Nat}
    {g : Frame} (h : Deed map w c kind w' portal) (hg : g.Did c)
    (hposition : g.position = w'.position) (id : Nat) :
    portal = some id ↔ g.OnPortal map id := by
  cases h with
  | @move cell hcell _ =>
      rw [(Walker.goTo_fields ..).1] at hposition
      have hfound := (hmap.neighbor_spec hcell).2
      rw [← hposition] at hfound
      constructor
      · exact fun hwarp => ⟨hg, cell, hfound, hwarp⟩
      · rintro ⟨_, cell', hcell', hwarp⟩
        -- the cell under the frame is the one that was entered
        rw [hfound] at hcell'
        cases hcell'
        exact hwarp
  | _ =>
      have hnot : ¬ g.OnPortal map id := fun hon => hg.not_did (by decide) hon.1
      simp [hnot]

/-- The frame that an event takes shows the scene after it. -/
theorem Event.shows {s s' : Scene} {f g : Frame} (h : Event map s (.frame g) s')
    (hf : Shows map s f) : Shows map s' g := by
  cases h with
  | @deed w w' i c kind portal message source hdeed =>
      exact ⟨rfl, rfl, hdeed.portal_iff hmap ⟨rfl, hdeed.kind_ne_error⟩ rfl⟩
  | pass => exact .of_shut (fun id hon => hon.1.ne_warp rfl) rfl rfl rfl
  | strand => exact .of_stays (.inl rfl) rfl rfl rfl
  | refuse => exact .of_stays (.inl rfl) rfl rfl rfl
  | halt => exact .of_stays (.inl rfl) rfl rfl rfl
  | finish => exact .of_stays (.inr (by simp [Walker.frame])) rfl rfl rfl

/-- The frame that an event takes follows the last one before it. -/
theorem Event.follows {s s' : Scene} {f g : Frame} (h : Event map s (.frame g) s')
    (hf : Shows map s f) (hs : map.Enterable s.walker.position) : Follows map f g := by
  obtain ⟨hposition, hfacing, hportal⟩ := hf
  cases h with
  | @deed w w' i c kind portal message source hdeed =>
      exact hdeed.follows hmap hs hposition hfacing ⟨rfl, hdeed.kind_ne_error⟩ rfl rfl
  | @pass w i id exit message source hpartner =>
      obtain ⟨hne, cell, hcell, hwarp, _⟩ := hmap.partner_spec hpartner
      obtain ⟨hplace, hahead, _⟩ := w.goTo_fields exit
      -- the frame before stands on the portal whose partner is the exit
      have hid : f.OnPortal map id := (hportal id).mp rfl
      refine
        { moved := fun h => absurd rfl h.ne_warp
          warped := fun _ => ⟨hahead.trans hfacing.symm, ?_, id, cell, hid, ?_, ?_, hwarp⟩
          turnedLeft := fun h => absurd rfl h.ne_warp
          turnedRight := fun h => absurd rfl h.ne_warp
          stayed := fun h => by simp [Frame.Stays, Walker.frame] at h }
      · show (w.goTo exit).position ≠ f.position
        rw [hplace, hposition]
        exact hne
      · show map.partner? id f.position = some (w.goTo exit).position
        rw [hplace, hposition]
        exact hpartner
      · show map.cell? (w.goTo exit).position = some cell
        rw [hplace]
        exact hcell
  | strand =>
      exact .of_stays (.inl rfl) hposition.symm hfacing.symm (by simp [Walker.frame, Note.command])
  | @refuse w =>
      obtain ⟨hstand, hheading, _⟩ := w.begun_fields
      exact .of_stays (.inl rfl) (hstand.trans hposition.symm) (hheading.trans hfacing.symm)
        (by simp [Walker.frame, Note.command])
  | halt task =>
      exact .of_stays (.inl rfl) hposition.symm hfacing.symm (task.trigger_ne_warp _)
  | finish =>
      exact .of_stays (.inr (by simp [Walker.frame])) hposition.symm hfacing.symm
        (by simp [Walker.frame])

end Drawn

/-- A portal is answered by the next event that takes a frame. -/
theorem Event.answers {map : GridMap} {s s' : Scene} {f g : Frame} (h : Event map s (.frame g) s')
    (hf : Shows map s f) : Answers map s'.fault f g := by
  intro id hon
  have hopen := (hf.portal id).mpr hon
  cases h with
  | pass => exact .inl rfl
  | @strand w i id source hpartner =>
      exact .inr ⟨rfl, _, rfl, Fault.code_toDiagnostic .., Fault.message_toDiagnostic ..⟩
  | _ => cases hopen

/-- An event that writes a line only changes nothing. -/
theorem Event.eq_of_line {map : GridMap} {s s' : Scene} {e : LogEntry}
    (h : Event map s (.line e) s') : s' = s := by
  cases h
  rfl

theorem Event.fault_eq_none {map : GridMap} {s s' : Scene} {item : Item}
    (h : Event map s item s') : s.fault = none := by
  cases h <;> rfl

/-- A fault is the end of a path. -/
theorem Path.fault_eq_some {map : GridMap} {s s' : Scene} {items : List Item} {d : Diagnostic}
    (h : Path map s items s') (hfault : s.fault = some d) : s'.fault = some d := by
  cases h with
  | nil => exact hfault
  | cons hevent _ =>
      rw [hevent.fault_eq_none] at hfault
      cases hfault

/-- **The frames of a path.**  Each follows the one before it, a portal is answered at once, and
the last frame shows the scene that the path leads to. -/
theorem Path.isChain {map : GridMap} (hmap : map.Drawn) {s s' : Scene} {items : List Item}
    (h : Path map s items s') {f : Frame} (hf : Shows map s f)
    (hs : map.Enterable s.walker.position) :
    List.IsChain (fun f g => Follows map f g ∧ Answers map s'.fault f g)
        (f :: items.filterMap (·.frame?)) ∧
      ∃ last, (f :: items.filterMap (·.frame?)).getLast? = some last ∧ Shows map s' last := by
  induction h generalizing f with
  | nil => exact ⟨.singleton f, f, rfl, hf⟩
  | @cons s s₁ s' item items hevent hpath ih =>
      have hs₁ := (hevent.enterable hmap hs).2
      cases item with
      | line e =>
          -- a line leaves the scene, so the last frame still shows it
          obtain rfl := hevent.eq_of_line
          exact ih hf hs₁
      | frame g =>
          obtain ⟨hchain, last, hlast, hshows⟩ := ih (hevent.shows hmap hf) hs₁
          -- a portal is answered by the next frame: the passing, or the fault that ends the walk
          have hanswers : Answers map s'.fault f g := by
            intro id hon
            rcases hevent.answers hf id hon with hwarp | ⟨hkind, d, hd, hcode⟩
            · exact .inl hwarp
            · exact .inr ⟨hkind, d, hpath.fault_eq_some hd, hcode⟩
          refine ⟨.cons_cons ⟨hevent.follows hmap hf hs, hanswers⟩ hchain, last, ?_, hshows⟩
          exact hlast

/-! ## Outcomes -/

theorem Item.mem_filterMap_frame? {items : List Item} {f : Frame} :
    f ∈ items.filterMap (·.frame?) ↔ .frame f ∈ items := by
  rw [List.mem_filterMap]
  constructor
  · rintro ⟨item, hitem, hf⟩
    cases item with
    | line e => cases hf
    | frame g =>
        cases hf
        exact hitem
  · exact fun hf => ⟨.frame f, hf, rfl⟩

/-- Consecutive members of a chain are related. -/
theorem rel_of_isChain {α : Type} {R : α → α → Prop} {xs : List α} (h : xs.IsChain R)
    {i : Nat} {x y : α} (hx : xs[i]? = some x) (hy : xs[i + 1]? = some y) : R x y := by
  obtain ⟨hi, rfl⟩ := List.getElem?_eq_some_iff.mp hx
  obtain ⟨hi', rfl⟩ := List.getElem?_eq_some_iff.mp hy
  exact List.isChain_iff_getElem.mp h i hi'

/-- The trace of an outcome is a legal walk on the map. -/
structure LegalWalk (map : GridMap) (o : Outcome) : Prop where
  lines : ∀ e ∈ o.logs, map.Enterable e.position
  frames : ∀ f ∈ o.frames, map.Enterable f.position
  /-- The first frame stands on the start and looks along its arrow. -/
  start : ∃ f start, o.frames.head? = some f ∧ map.start = some start ∧
    f.command = some .start ∧ map.cell? f.position = some start ∧ start.isStart = true ∧
    start.token = f.facing.arrow ∧ start.direction = some f.facing
  steps : ∀ i f g, o.frames[i]? = some f → o.frames[i + 1]? = some g → Follows map f g
  /-- A step onto a portal is followed by exactly one frame for passing it, or by the report that
  it leads nowhere. -/
  portals : ∀ i f id, o.frames[i]? = some f → f.OnPortal map id →
    ∃ g, o.frames[i + 1]? = some g ∧
      (g.command = some .warp ∧ (∀ h, o.frames[i + 2]? = some h → h.command ≠ some .warp) ∨
        g.kind = .error ∧ ∃ d ∈ o.diagnostics, d.code = 404 ∧ d.message = g.message)

theorem shows_atStart (map : GridMap) (start : Cell) :
    Shows map (.atStart map start) (.atStart map start) :=
  .of_stays (.inr (by simp [Frame.atStart, Walker.frame])) rfl rfl rfl

/-- In a chain that does not end on a portal, each step onto one has its answer. -/
theorem exists_answer {map : GridMap} {report : Option Diagnostic} {frames : List Frame}
    (hchain : frames.IsChain fun f g => Follows map f g ∧ Answers map report f g) {last : Frame}
    (hlast : frames.getLast? = some last) (hshut : ∀ id, ¬ last.OnPortal map id) {i id : Nat}
    {f : Frame} (hf : frames[i]? = some f) (hon : f.OnPortal map id) :
    ∃ g, frames[i + 1]? = some g ∧
      (g.command = some .warp ∧ (∀ h, frames[i + 2]? = some h → h.command ≠ some .warp) ∨
        g.kind = .error ∧ ∃ d, report = some d ∧ d.code = 404 ∧ d.message = g.message) := by
  obtain ⟨hi, _⟩ := List.getElem?_eq_some_iff.mp hf
  cases hg : frames[i + 1]? with
  | none =>
      have hend := List.getElem?_eq_none_iff.mp hg
      rw [List.getLast?_eq_getElem?, Nat.le_antisymm hend hi, Nat.add_sub_cancel, hf] at hlast
      cases hlast
      exact absurd hon (hshut id)
  | some g =>
      refine ⟨g, rfl, ?_⟩
      rcases (rel_of_isChain hchain hf hg).2 id hon with hwarp | hreport
      · refine .inl ⟨hwarp, fun h hh hagain => ?_⟩
        -- a second frame for passing would follow a step onto a portal, not the first
        obtain ⟨_, _, _, _, hon', _⟩ := (rel_of_isChain hchain hg hh).1.warped hagain
        exact hon'.1.ne_warp hwarp
      · exact .inr hreport

end GemGrid
