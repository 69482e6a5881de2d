import GemGrid.Grid.Reader
import GemGrid.Proofs.Results
import GemGrid.Proofs.Run.Guards
import GemGrid.Proofs.Run.Records
import Mathlib.Logic.Basic

/-!
# A run has one ending

A run comes to its end or a fault stops it, and its outcome shows which in four places: the two
lists of errors, the log and the frames.  Nothing is recorded after a fault, so the fault can only
be shown last and only once.

`EndsOnce` collects what the four places say together.  What comes before the last item of the trace
is calm (`Ends.exists_ending`); the last frame decides between `Finished` and `Stopped`, and the
fault of the machine, which is the head of the diagnostics, is the one that the last frame reports.
-/

namespace GemGrid

/-! ## Diagnostics -/

/-- Whether a diagnostic tells of something that stops a run. -/
def Diagnostic.isFault (d : Diagnostic) : Bool :=
  [101, 300, 301].contains d.code || d.code / 100 == 4

theorem Fault.isFault_toDiagnostic (fault : Fault) (source : Option SourceRef) :
    (fault.toDiagnostic source).isFault = true := by
  rw [Diagnostic.isFault, code_toDiagnostic]
  cases fault <;> simp [code]

theorem isFault_of_leftUndone {gems closed : Nat} {d : Diagnostic}
    (h : d ∈ leftUndone gems closed) : d.isFault = false := by
  have hcode := code_mem_of_leftUndone h
  simp only [List.mem_cons, List.not_mem_nil, or_false] at hcode
  unfold Diagnostic.isFault
  rcases hcode with hcode | hcode <;> rw [hcode] <;> decide

theorem code_ne_portal_of_leftUndone {gems closed : Nat} {d : Diagnostic}
    (h : d ∈ leftUndone gems closed) : d.code ≠ 404 := by
  have hcode := code_mem_of_leftUndone h
  simp only [List.mem_cons, List.not_mem_nil, or_false] at hcode
  omega

/-- Gems that are left come before switches that are not open. -/
theorem exists_leftUndone (gems closed : Nat) :
    ∃ undone shut : Option Diagnostic, leftUndone gems closed = undone.toList ++ shut.toList ∧
      (∀ d ∈ undone, d.code = 500) ∧ ∀ d ∈ shut, d.code = 501 := by
  -- both lists are written as a choice between one diagnostic and none
  have hoption : ∀ (p : Prop) [Decidable p] (d : Diagnostic),
      (if p then [d] else []) = (if p then some d else none).toList := by
    intro p _ d
    split <;> rfl
  unfold leftUndone
  dsimp only
  rw [hoption, hoption]
  refine ⟨_, _, rfl, ?_, ?_⟩ <;>
    · intro d hd
      rw [Option.mem_def, Option.ite_none_right_eq_some] at hd
      rw [← Option.some.inj hd.2]
      rfl

/-! ## Endings -/

namespace Outcome

/-- The run has come to its end. -/
structure Finished (o : Outcome) : Prop where
  faultless : ∀ d ∈ o.diagnostics, d.isFault = false
  last : ∃ f, o.frames.getLast? = some f ∧ f.command = some .finish
  frames : ∀ f ∈ o.frames, f.kind ≠ .error
  lines : ∀ e ∈ o.logs, e.kind ≠ .error

/-- A fault has stopped the run, and nothing but the last frame and the last line shows it. -/
structure Stopped (o : Outcome) (d : Diagnostic) : Prop where
  reported : d ∈ o.diagnostics
  fault : d.isFault = true
  frame : ∃ earlier f source, o.frames = earlier ++ [f] ∧ (∀ g ∈ earlier, g.kind ≠ .error) ∧
    f.kind = .error ∧ f.message = d.message ∧ f.source = some source ∧
    d.line = some source.line ∧ d.sourceLine = some source.text
  line : ∃ earlier e, o.logs = earlier ++ [e] ∧ (∀ e' ∈ earlier, e'.kind ≠ .error) ∧
    e.kind = .error ∧ e.message = d.message
  unfinished : ∀ f ∈ o.frames, f.command ≠ some .finish

end Outcome

/-- An outcome shows one ending, and at most one fault. -/
structure EndsOnce (map : GridMap) (o : Outcome) : Prop where
  errors : o.errors = o.diagnostics.map (·.message)
  diagnostics : ∃ fault undone shut : Option Diagnostic,
    o.diagnostics = fault.toList ++ (undone.toList ++ shut.toList) ∧
      (∀ d ∈ fault, d.isFault = true) ∧ (∀ d ∈ undone, d.code = 500) ∧ ∀ d ∈ shut, d.code = 501
  started : map.start.isSome = true → (∃ f, o.frames.head? = some f ∧ f.command = some .start) ∧
    Xor o.Finished (∃ d, o.Stopped d)
  startless : map.start = none → o.frames = [] ∧ o.logs = [] ∧
    ∃ d, o.diagnostics.head? = some d ∧ d.code = 101
  /-- A command that led onto a portal without destination is shown as carried out and is not
  counted. -/
  counted : o.commandFrames.countP (·.kind != .error) =
    o.stepsExecuted + if ∃ d ∈ o.diagnostics, d.code = 404 then 1 else 0

theorem Outcome.Stopped.not_finished {o : Outcome} {d : Diagnostic} (h : o.Stopped d) :
    ¬ o.Finished := by
  intro hfinished
  have hfault := hfinished.faultless d h.reported
  rw [h.fault] at hfault
  cases hfault

section Traces

variable {o : Outcome} {items : List Item} {f : Frame}

theorem calm_frames (hcalm : ∀ item ∈ items, item.Calm) :
    ∀ g ∈ items.filterMap (·.frame?), g.kind ≠ .error ∧ g.command ≠ some .finish := by
  intro g hg
  obtain ⟨item, hitem, hframe⟩ := List.mem_filterMap.mp hg
  cases hcalm item hitem with
  | line => cases hframe
  | frame _ hkind htrigger =>
      cases hframe
      exact ⟨hkind, htrigger⟩

theorem calm_lines (hcalm : ∀ item ∈ items, item.Calm) :
    ∀ e ∈ items.map (·.entry), e.kind ≠ .error :=
  List.forall_mem_map.mpr fun item hitem => (hcalm item hitem).kind_ne_error

theorem finished_of_trace (hcalm : ∀ item ∈ items, item.Calm) (hending : Ending none f)
    (hlogs : o.logs = items.map (·.entry) ++ [f.entry])
    (hframes : o.frames = items.filterMap (·.frame?) ++ [f])
    (hfaultless : ∀ d ∈ o.diagnostics, d.isFault = false) : o.Finished := by
  cases hending with
  | finish hcommand hkind _ =>
      have hne : f.kind ≠ .error := by
        rw [hkind]
        decide
      refine ⟨hfaultless, ⟨f, by simp [hframes], hcommand⟩, ?_, ?_⟩
      · rw [hframes]
        exact List.forall_mem_append.mpr
          ⟨fun g hg => (calm_frames hcalm g hg).1, List.forall_mem_singleton.mpr hne⟩
      · rw [hlogs]
        exact List.forall_mem_append.mpr ⟨calm_lines hcalm, List.forall_mem_singleton.mpr hne⟩

theorem stopped_of_trace {d : Diagnostic} (hcalm : ∀ item ∈ items, item.Calm)
    (hending : Ending (some d) f) (hlogs : o.logs = items.map (·.entry) ++ [f.entry])
    (hframes : o.frames = items.filterMap (·.frame?) ++ [f]) (hreported : d ∈ o.diagnostics) :
    o.Stopped d := by
  cases hending with
  -- the frame and the line of the end tell one and the same fault
  | fault hreports =>
      obtain ⟨fault, source, rfl, hmessage, hsource⟩ := hreports.fault
      refine
        { reported := hreported
          fault := fault.isFault_toDiagnostic _
          frame := ⟨_, f, source, hframes, fun g hg => (calm_frames hcalm g hg).1, hreports.kind,
            hmessage, hsource, rfl, rfl⟩
          line := ⟨_, f.entry, hlogs, calm_lines hcalm, hreports.kind, hmessage⟩
          unfinished := ?_ }
      rw [hframes]
      exact List.forall_mem_append.mpr ⟨fun g hg => (calm_frames hcalm g hg).2,
        List.forall_mem_singleton.mpr hreports.trigger⟩

/-- The last frame decides how the run has ended. -/
theorem finished_xor_stopped {fault : Option Diagnostic} {gems closed : Nat}
    (hcalm : ∀ item ∈ items, item.Calm) (hending : Ending fault f)
    (hlogs : o.logs = items.map (·.entry) ++ [f.entry])
    (hframes : o.frames = items.filterMap (·.frame?) ++ [f])
    (hdiagnostics : o.diagnostics = fault.toList ++ leftUndone gems closed) :
    Xor o.Finished (∃ d, o.Stopped d) := by
  cases fault with
  | none =>
      have hfinished : o.Finished := by
        apply finished_of_trace hcalm hending hlogs hframes
        rw [hdiagnostics]
        exact fun d hd => isFault_of_leftUndone hd
      exact .inl ⟨hfinished, fun ⟨d, hstopped⟩ => hstopped.not_finished hfinished⟩
  | some d =>
      have hstopped : o.Stopped d := by
        apply stopped_of_trace hcalm hending hlogs hframes
        rw [hdiagnostics]
        exact List.mem_cons_self
      exact .inr ⟨⟨d, hstopped⟩, hstopped.not_finished⟩

end Traces

/-- The last frame does not show a command as carried out. -/
theorem Ending.carriedOut_eq_zero {fault : Option Diagnostic} {f : Frame} (h : Ending fault f) :
    carriedOut [f] = 0 := by
  cases h with
  | finish hcommand _ _ => exact carriedOut_singleton_of_other (by simp [hcommand])
  | fault hreports => exact carriedOut_singleton_of_error hreports.kind

/-- What a fault leaves uncounted can be read off the diagnostics. -/
theorem shortfall_eq (fault : Option Diagnostic) (gems closed : Nat) :
    fault.elim 0 shortfall =
      if ∃ d ∈ fault.toList ++ leftUndone gems closed, d.code = 404 then 1 else 0 := by
  have hundone : ¬ ∃ d ∈ leftUndone gems closed, d.code = 404 := by
    rintro ⟨d, hd, hcode⟩
    exact code_ne_portal_of_leftUndone hd hcode
  cases fault with
  | none => exact (if_neg hundone).symm
  | some d =>
      have hiff : (∃ d' ∈ d :: leftUndone gems closed, d'.code = 404) ↔ d.code = 404 := by
        rw [List.exists_mem_cons_iff, or_iff_left hundone]
      exact (if_congr hiff rfl rfl).symm

theorem endsOnce_withoutStart {map : GridMap} (hstart : map.start = none) :
    EndsOnce map (.withoutStart map) := by
  obtain ⟨undone, shut, hundone, hgems, hswitches⟩ :=
    exists_leftUndone map.totalGems (map.switches.values.countP (· != .opened))
  -- without a start the only code of an error is that of the missing start
  have hcodes : ¬ ∃ d ∈ (Outcome.withoutStart map).diagnostics, d.code = 404 := by
    rintro ⟨d, hd, hcode⟩
    have hmem := code_of_mem_withoutStart hd
    rw [hcode] at hmem
    simp at hmem
  refine
    { errors := rfl
      diagnostics := ⟨some (Fault.missingStart.toDiagnostic none), undone, shut, ?_, ?_, hgems,
        hswitches⟩
      started := fun hsome => by rw [hstart] at hsome; cases hsome
      startless := fun _ => ⟨rfl, rfl, _, rfl, rfl⟩
      counted := ?_ }
  · rw [← hundone]
    rfl
  · rintro d ⟨⟩
    rfl
  · rw [if_neg hcodes]
    rfl

/-- **A run has one ending.**  Whatever the map, the program and the limits, a run that ends has
come to its end or was stopped by one fault, and all lists of its outcome agree on it. -/
theorem endsOnce_of_ends {map : GridMap} {p : Program} {limits : Limits} {o : Outcome}
    (hends : Ends map p limits o) : EndsOnce map o := by
  cases hstart : map.start with
  | none =>
      obtain rfl := hends.eq_withoutStart hstart
      exact endsOnce_withoutStart hstart
  | some start =>
      obtain ⟨m, items, f, rfl, hending, hcalm, hhead, hlogs, hframes, hexecuted⟩ :=
        hends.exists_ending hstart
      have hdiagnostics : (Outcome.ofMachine map m.close).diagnostics =
          m.fault.toList ++ leftUndone m.close.walker.gems.size _ :=
        congrArg (·.toList ++ _) m.fault_close
      obtain ⟨undone, shut, hundone, hgems, hswitches⟩ := exists_leftUndone m.close.walker.gems.size
        (m.close.walker.switches.size - m.close.walker.openSwitches)
      refine
        { errors := rfl
          diagnostics := ⟨m.fault, undone, shut, hundone ▸ hdiagnostics, ?_, hgems, hswitches⟩
          started := fun _ => ⟨⟨.atStart map start, ?_, rfl⟩, ?_⟩
          startless := fun hnone => by rw [hstart] at hnone; cases hnone
          counted := ?_ }
      · intro d hd
        -- a fault ends the trace with the frame that reports it
        rw [Option.mem_def.mp hd] at hending
        cases hending with
        | fault hreports =>
            obtain ⟨fault, source, rfl, _, _⟩ := hreports.fault
            exact fault.isFault_toDiagnostic _
      · rw [hframes]
        cases items with
        | nil => cases hhead
        | cons item items =>
            cases hhead
            rfl
      · exact finished_xor_stopped hcalm hending hlogs hframes hdiagnostics
      · show carriedOut (Outcome.ofMachine map m.close).frames = _
        rw [hframes, carriedOut_append, hending.carriedOut_eq_zero, hdiagnostics, ← shortfall_eq]
        exact hexecuted.symm

/-- A condition is checked, and a step leads onto a portal without another end: the step is shown as
carried out and the fault is the last item.  The gem and the switch are left. -/
theorem endsOnce_of_ends_lone_portal :
    let ref (line : Nat) : SourceRef := { line, text := "moveForward()" }
    let p : Program :=
      { main := [.ifElse (.predicate .isBlocked) [] [.command .moveForward (ref 2)] (ref 1),
          .command .turnLeft (ref 3)]
        functions := []
        metadata := { staticCommandCount := none, hasDynamicControlFlow := true } }
    ∃ map o, GridMap.read { allowUnpairedPortals := true } "→\tW2\t♦\t●" = .ok map ∧
      Ends map p {} o ∧ EndsOnce map o ∧ o.diagnostics.map (·.code) = [404, 500, 501] ∧
      o.frames.map (·.kind) = [.success, .info, .error] ∧
      o.logs.map (·.kind) = [.success, .info, .info, .error] ∧ o.stepsExecuted = 0 := by
  intro ref p
  have heval : ((GridMap.read { allowUnpairedPortals := true } "→\tW2\t♦\t●").toOption.bind
      fun map => (simulate map p {}).map fun o => (o.diagnostics.map (·.code),
        o.frames.map (·.kind), o.logs.map (·.kind), o.stepsExecuted)) =
      some ([404, 500, 501], [.success, .info, .error], [.success, .info, .info, .error], 0) := by
    decide +kernel
  obtain ⟨map, hmap, heval⟩ := Option.bind_eq_some_iff.mp heval
  obtain ⟨o, ho, heval⟩ := Option.map_eq_some_iff.mp heval
  simp only [Prod.mk.injEq] at heval
  have hends : Ends map p {} o := ⟨_, ho⟩
  exact ⟨map, o, eq_ok_of_toOption hmap, hends, endsOnce_of_ends hends, heval⟩

end GemGrid
