import GemGrid.Proofs.Run.Bounds
import GemGrid.Proofs.Run.Guards
import Mathlib.Logic.Function.Iterate

/-!
# The frames account for the counts

The counts of an outcome can be read off its frames.  A frame for a gem that was collected takes
one member from the gems, and a frame for a switch that was toggled flips the state at its place;
no other frame stands for a change.

`Balanced map frames w` says that the frames so far explain what the actor has found and left: the
places where gems were taken, together with the gems that are left, are the gems of the map, and
the switches are those of the map, each flipped as often as there are frames for it.  Every event
keeps the balance (`Event.balanced`), so it holds of the last scene (`Path.balanced`).  The
diagnostics follow, as they are made from what is left.
-/

namespace GemGrid

/-! ## The balance -/

section Frames

/-- The places where gems were collected, one for each frame. -/
def taken (frames : List Frame) : List Position :=
  (frames.filter (·.Did .collectGem)).map (·.position)

/-- How often the switch at a place was toggled. -/
def flips (frames : List Frame) (p : Position) : Nat :=
  frames.countP fun f => f.Did .toggleSwitch ∧ f.position = p

variable {frames : List Frame} {g : Frame}

theorem taken_concat_of_did (h : g.Did .collectGem) :
    taken (frames ++ [g]) = taken frames ++ [g.position] := by
  simp [taken, h]

theorem taken_concat_of_not_did (h : ¬ g.Did .collectGem) :
    taken (frames ++ [g]) = taken frames := by
  simp [taken, h]

theorem flips_concat_of_did (h : g.Did .toggleSwitch) (p : Position) :
    flips (frames ++ [g]) p = flips frames p + if p = g.position then 1 else 0 := by
  simp [flips, h, eq_comm]

theorem flips_concat_of_not_did (h : ¬ g.Did .toggleSwitch) :
    flips (frames ++ [g]) = flips frames := by
  funext p
  simp [flips, h]

end Frames

/-- The frames so far explain what the actor has found and what is left. -/
structure Balanced (map : GridMap) (frames : List Frame) (w : Walker) : Prop where
  collected : w.collected = (taken frames).length
  gems : (taken frames ++ w.gems.members).Perm map.gems.members
  switches : w.switches = map.switches.mapValues fun p => SwitchState.toggled^[flips frames p]

namespace Balanced

variable {map : GridMap} {frames : List Frame} {w w' : Walker} {g : Frame}

/-- A frame for anything else changes neither side. -/
theorem other (h : Balanced map frames w) (hgem : ¬ g.Did .collectGem)
    (hswitch : ¬ g.Did .toggleSwitch) (hgems : w'.gems = w.gems)
    (hswitches : w'.switches = w.switches) (hcollected : w'.collected = w.collected) :
    Balanced map (frames ++ [g]) w' := by
  constructor
  · rw [hcollected, h.collected, taken_concat_of_not_did hgem]
  · rw [hgems, taken_concat_of_not_did hgem]
    exact h.gems
  · rw [hswitches, h.switches, flips_concat_of_not_did hswitch]

/-- A gem that is collected goes from what is left to what was taken. -/
theorem collect (h : Balanced map frames w) (hg : g.Did .collectGem)
    (hposition : g.position = w.position) (hmember : w.gems.contains w.position = true)
    (hgems : w'.gems = w.gems.erase w.position) (hswitches : w'.switches = w.switches)
    (hcollected : w'.collected = w.collected + 1) : Balanced map (frames ++ [g]) w' := by
  have htaken : taken (frames ++ [g]) = taken frames ++ [w.position] := by
    rw [taken_concat_of_did hg, hposition]
  constructor
  · rw [hcollected, h.collected, htaken, List.length_append, List.length_singleton]
  · rw [hgems, htaken, List.append_assoc, List.singleton_append]
    have hmem : w.position ∈ w.gems.members := List.contains_iff_mem.mp hmember
    have hleft : (w.position :: w.gems.members.erase w.position).Perm w.gems.members :=
      (List.perm_cons_erase hmem).symm
    exact (hleft.append_left _).trans h.gems
  · rw [hswitches, h.switches, flips_concat_of_not_did (hg.not_did (by decide))]

/-- A switch that is toggled is flipped once more than before. -/
theorem toggle (h : Balanced map frames w) (hg : g.Did .toggleSwitch)
    (hposition : g.position = w.position) {state : SwitchState}
    (hstate : w.switches.get? w.position = some state) (hgems : w'.gems = w.gems)
    (hswitches : w'.switches = w.switches.insert w.position state.toggled)
    (hcollected : w'.collected = w.collected) : Balanced map (frames ++ [g]) w' := by
  have htaken : taken (frames ++ [g]) = taken frames :=
    taken_concat_of_not_did (hg.not_did (by decide))
  constructor
  · rw [hcollected, h.collected, htaken]
  · rw [hgems, htaken]
    exact h.gems
  · rw [hswitches, OrderedMap.insert_eq_mapValues hstate SwitchState.toggled, h.switches,
      OrderedMap.mapValues_mapValues]
    congr 1
    funext p s
    rw [flips_concat_of_did hg, hposition]
    -- only the switch that is stood on is flipped once more
    by_cases hp : p = w.position
    · rw [if_pos hp, if_pos hp, Function.iterate_succ_apply']
    · rw [if_neg hp, if_neg hp, Nat.add_zero]

theorem deed (h : Balanced map frames w) {c : Command} {kind : LogKind} {portal : Option Nat}
    (hdeed : Deed map w c kind w' portal) (hg : g.Did c) (hposition : g.position = w'.position) :
    Balanced map (frames ++ [g]) w' := by
  obtain ⟨hstand, _, hgems, hswitches, hcollected, _⟩ := w.begun_fields
  cases hdeed with
  | turnLeft => exact h.other (hg.not_did (by decide)) (hg.not_did (by decide)) hgems hswitches hcollected
  | turnRight => exact h.other (hg.not_did (by decide)) (hg.not_did (by decide)) hgems hswitches hcollected
  | collect hmember => exact h.collect hg (hposition.trans hstand) hmember rfl hswitches rfl
  | toggle hstate => exact h.toggle hg (hposition.trans hstand) hstate hgems rfl hcollected
  | @move cell =>
      obtain ⟨_, _, hgems', hswitches', hcollected', _⟩ := w.begun.goTo_fields cell.position
      exact h.other (hg.not_did (by decide)) (hg.not_did (by decide)) (hgems'.trans hgems)
        (hswitches'.trans hswitches) (hcollected'.trans hcollected)

/-- What was taken and what is left make up the gems of the map. -/
theorem size_gems (h : Balanced map frames w) : w.collected + w.gems.size = map.totalGems := by
  rw [h.collected, OrderedSet.size, ← List.length_append]
  exact h.gems.length_eq

theorem nodup_taken (h : Balanced map frames w) : (taken frames).Nodup :=
  (List.nodup_append.mp (h.gems.nodup_iff.mpr map.gems.nodup)).1

theorem contains_of_mem_taken (h : Balanced map frames w) {p : Position} (hp : p ∈ taken frames) :
    map.gems.contains p = true :=
  List.contains_iff_mem.mpr (h.gems.mem_iff.mp (List.mem_append_left _ hp))

theorem keys_switches (h : Balanced map frames w) : w.switches.keys = map.switches.keys := by
  rw [h.switches]
  simp [OrderedMap.keys, OrderedMap.mapValues]

theorem size_switches (h : Balanced map frames w) : w.switches.size = map.totalSwitches := by
  rw [h.switches]
  simp [OrderedMap.size, OrderedMap.mapValues, GridMap.totalSwitches]

end Balanced

theorem Walker.openSwitches_le (w : Walker) : w.openSwitches ≤ w.switches.size := by
  unfold openSwitches
  refine Nat.le_trans List.countP_le_length (Nat.le_of_eq ?_)
  simp [OrderedMap.values, OrderedMap.size]

section Events

variable {map : GridMap} {frames : List Frame} {s s' : Scene}

/-- Every event keeps the balance. -/
theorem Event.balanced {item : Item} (h : Event map s item s')
    (hs : Balanced map frames s.walker) :
    Balanced map (frames ++ item.frame?.toList) s'.walker := by
  cases h with
  -- a deed is accounted for by what it did, everything else leaves gems and switches as they were
  | check => simpa [Item.frame?] using hs
  | deed _ _ hdeed => exact hs.deed hdeed ⟨rfl, hdeed.kind_ne_error⟩ rfl
  | @pass w i id exit =>
      obtain ⟨_, _, hgems, hswitches, hcollected, _⟩ := w.goTo_fields exit
      exact hs.other (fun h => by cases h.1) (fun h => by cases h.1) hgems hswitches hcollected
  | strand => exact hs.other (fun h => h.2 rfl) (fun h => h.2 rfl) rfl rfl rfl
  | @refuse w =>
      obtain ⟨_, _, hgems, hswitches, hcollected, _⟩ := w.begun_fields
      exact hs.other (fun h => h.2 rfl) (fun h => h.2 rfl) hgems hswitches hcollected
  | halt => exact hs.other (fun h => h.2 rfl) (fun h => h.2 rfl) rfl rfl rfl
  | finish => exact hs.other (fun h => by cases h.1) (fun h => by cases h.1) rfl rfl rfl

theorem Path.balanced {items : List Item} (h : Path map s items s')
    (hs : Balanced map frames s.walker) :
    Balanced map (frames ++ items.filterMap (·.frame?)) s'.walker := by
  induction h generalizing frames with
  | nil => simpa using hs
  | @cons _ _ _ item items hevent _ ih =>
      have hsplit : (item :: items).filterMap (·.frame?) =
          item.frame?.toList ++ items.filterMap (·.frame?) := by
        cases item <;> rfl
      rw [hsplit, ← List.append_assoc]
      exact ih (hevent.balanced hs)

theorem balanced_atStart (map : GridMap) (start : Cell) :
    Balanced map [.atStart map start] (Scene.atStart map start).walker := by
  obtain ⟨_, _, hgems, hswitches, _, _, hcollected, _⟩ := (Walker.atStart map start).visit_fields
  constructor
  · exact hcollected
  · show (Walker.atStart map start).visit.gems.members.Perm map.gems.members
    rw [hgems]
    exact .refl _
  · exact hswitches.trans map.switches.mapValues_id.symm

end Events

/-! ## Diagnostics -/

theorem Fault.code_not_mem_undone (fault : Fault) : fault.code ∉ [500, 501] := by
  cases fault <;> simp [code]

/-- That something was left undone is not reported as a fault. -/
theorem Machine.Reachable.fault_code_not_mem {setting : Setting} {start m : Machine}
    (hstart : start.fault = none) (h : Reachable setting start m) {d : Diagnostic}
    (hfault : m.fault = some d) : d.code ∉ [500, 501] := by
  obtain ⟨_, _, _, fault, source, _, _, _, rfl⟩ := h.exists_cause hstart hfault
  rw [Fault.code_toDiagnostic]
  exact fault.code_not_mem_undone

namespace Outcome

variable (map : GridMap) {m : Machine}

theorem exists_code_iff (hfault : ∀ d, m.fault = some d → d.code ∉ [500, 501]) {code : Nat}
    (hcode : code ∈ [500, 501]) :
    (∃ d ∈ (ofMachine map m).diagnostics, d.code = code) ↔
      code ∈ (leftUndone m.walker.gems.size
        (m.walker.switches.size - m.walker.openSwitches)).map (·.code) := by
  rw [List.mem_map]
  constructor
  · rintro ⟨d, hd, rfl⟩
    rcases List.mem_append.mp hd with hd | hd
    · exact absurd hcode (hfault d (Option.mem_toList.mp hd))
    · exact ⟨d, hd, rfl⟩
  · rintro ⟨d, hd, rfl⟩
    exact ⟨d, List.mem_append_right _ hd, rfl⟩

theorem success_iff (m : Machine) :
    (ofMachine map m).success = true ↔
      m.fault = none ∧ m.walker.gems.size = 0 ∧
        m.walker.switches.size - m.walker.openSwitches = 0 := by
  have hundone : ∀ gems closed, leftUndone gems closed = [] ↔ gems = 0 ∧ closed = 0 := by
    intro gems closed
    rw [← List.map_eq_nil_iff, codes_leftUndone]
    by_cases hgems : gems = 0 <;> by_cases hclosed : closed = 0 <;> simp [hgems, hclosed]
  show (List.map (·.message) (m.fault.toList ++ leftUndone _ _)).isEmpty = true ↔ _
  rw [List.isEmpty_iff, List.map_eq_nil_iff, List.append_eq_nil_iff, hundone]
  simp

end Outcome

/-! ## Outcomes -/

/-- The frames of an outcome account for its counts, and the diagnostics for what is left, when the
switches end up like this. -/
structure Accounted (map : GridMap) (final : OrderedMap Position SwitchState) (o : Outcome) :
    Prop where
  collected : o.gemsCollected = (o.frames.filter (·.Did .collectGem)).length
  /-- The frames for gems stand on different gems of the map. -/
  distinct : ((o.frames.filter (·.Did .collectGem)).map (·.position)).Nodup
  members : ∀ f ∈ o.frames, f.Did .collectGem → map.gems.contains f.position = true
  places : final.keys = map.switches.keys
  /-- Each switch is flipped once for each frame of its place. -/
  flipped : ∀ p state, map.switches.get? p = some state →
    final.get? p = some (SwitchState.toggled^[flips o.frames p] state)
  opened : o.switchesOpen = map.switches.keys.countP fun p => final.get? p == some .opened
  totalGems : o.totalGems = map.gems.size
  totalSwitches : o.totalSwitches = map.switches.size
  gemsLeft : (∃ d ∈ o.diagnostics, d.code = 500) ↔ o.gemsCollected < o.totalGems
  switchesShut : (∃ d ∈ o.diagnostics, d.code = 501) ↔ o.switchesOpen < o.totalSwitches
  success : o.success = true ↔ o.frames.getLast?.bind (·.command) = some .finish ∧
    o.gemsCollected = o.totalGems ∧ o.switchesOpen = o.totalSwitches

/-- The outcome of a machine in balance, which has been closed or stopped by a fault. -/
theorem accounted_ofMachine {map : GridMap} {m : Machine}
    (hbalanced : Balanced map m.frames.toList m.walker)
    (hfault : ∀ d, m.fault = some d → d.code ∉ [500, 501])
    (hlast : m.fault = none ↔ m.lastTrigger = some .finish) :
    Accounted map m.walker.switches (.ofMachine map m) := by
  have hgems := hbalanced.size_gems
  have hsize := hbalanced.size_switches
  have hle := m.walker.openSwitches_le
  have hopen : (Outcome.ofMachine map m).switchesOpen = m.walker.openSwitches := by
    show map.totalSwitches - (m.walker.switches.size - m.walker.openSwitches) = _
    omega
  -- a gem or a switch is missing exactly when something is left on the map
  have hcollected : m.walker.collected < map.totalGems ↔ 0 < m.walker.gems.size := by omega
  have hclosed : m.walker.openSwitches < map.totalSwitches ↔
      0 < m.walker.switches.size - m.walker.openSwitches := by
    omega
  refine
    { collected := hbalanced.collected.trans (List.length_map _)
      distinct := hbalanced.nodup_taken
      members := fun f hf hg => hbalanced.contains_of_mem_taken ?_
      places := hbalanced.keys_switches
      flipped := fun p state hstate => ?_
      opened := ?_
      totalGems := rfl
      totalSwitches := rfl
      gemsLeft := ?_
      switchesShut := ?_
      success := ?_ }
  · exact List.mem_map.mpr ⟨f, List.mem_filter.mpr ⟨hf, decide_eq_true hg⟩, rfl⟩
  · rw [hbalanced.switches, OrderedMap.get?_mapValues, hstate]
    rfl
  · -- the switches of the walk have the places of the map, so the count runs over these
    rw [hopen, ← hbalanced.keys_switches, Walker.openSwitches, OrderedMap.countP_values]
    congr 1
    funext p
    cases m.walker.switches.get? p <;> rfl
  · rw [Outcome.exists_code_iff map hfault (by simp), codes_leftUndone]
    refine Iff.trans ?_ hcollected.symm
    by_cases h : 0 < m.walker.gems.size <;> simp [h]
  · rw [Outcome.exists_code_iff map hfault (by simp), codes_leftUndone, hopen]
    refine Iff.trans ?_ hclosed.symm
    by_cases h : 0 < m.walker.switches.size - m.walker.openSwitches <;> simp [h]
  · rw [Outcome.success_iff, hlast, hopen]
    refine and_congr_right fun _ => ?_
    show _ ↔ m.walker.collected = map.totalGems ∧ m.walker.openSwitches = map.totalSwitches
    omega

end GemGrid
