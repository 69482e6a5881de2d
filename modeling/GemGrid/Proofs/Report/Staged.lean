import GemGrid.Proofs.Run.Runs
import GemGrid.Proofs.Wire.Reading
import GemGrid.Report.Basic

/-!
# One request or several

A host can ask for a report on two texts at once, or go through stages: have the map and the script
read, keep what they were encoded to, and hand that back to have it run.  Both ways lead to the same
answer.

The map and the program come to the run of the last stage through their exchange form, so the stages
can only differ from the report if something is lost there.  Nothing is, as what comes from a text
keeps to the widths of the exchange form (`GridMap.fits_of_read`, `Script.fits_of_read`); the fields
may even come back in another order.
-/

namespace GemGrid

/-! ## The stages -/

/-- The run of what two exchange forms stand for ends with an outcome. -/
def StagedEnds (mapValue programValue : Json) (limits : Limits) (o : Outcome) : Prop :=
  ∃ map program, GridMap.ofJson mapValue = .ok map ∧ Program.ofJson programValue = .ok program ∧
    Ends map program limits o

/-- What was read and handed back is run as if it had never been encoded. -/
theorem stagedEnds_iff {map : GridMap} {program : Program} (hmap : map.Fits)
    (hprogram : program.Fits) {mapValue programValue : Json} (hmapValue : map.toJson.Alike mapValue)
    (hprogramValue : program.toJson.Alike programValue) {limits : Limits} {o : Outcome} :
    StagedEnds mapValue programValue limits o ↔ Ends map program limits o := by
  have hmap' := GridMap.decodes hmap mapValue hmapValue
  have hprogram' := Program.decodes hprogram programValue hprogramValue
  constructor
  · rintro ⟨map', program', hdecoded, hdecoded', hends⟩
    rw [hmap'] at hdecoded
    rw [hprogram'] at hdecoded'
    cases hdecoded
    cases hdecoded'
    exact hends
  · exact fun hends => ⟨map, program, hmap', hprogram', hends⟩

/-! ## Reports -/

namespace Report

/-- The report is about one error that reading a text has found. -/
structure Rejects (r : Report) (d : Diagnostic) : Prop where
  status : r.status = .error
  errors : r.errors = [d]
  errorCount : r.metrics.errorCount = 1
  logs : r.logs = []
  frames : r.frames = []
  visitedPath : r.visitedPath = []

/-- The report says what an outcome says. -/
structure Retells (r : Report) (o : Outcome) : Prop where
  success : r.status = .success ↔ o.errors = []
  failure : r.status = .failure ↔ o.errors ≠ []
  errors : r.errors = o.diagnostics
  metrics : r.metrics = .ofOutcome o
  errorCount : r.metrics.errorCount = r.errors.length
  logs : r.logs = o.logs
  frames : r.frames = o.frames
  visitedPath : r.visitedPath = o.visitedPath

theorem Retells.status_ne_error {r : Report} {o : Outcome} (h : r.Retells o) :
    r.status ≠ .error := by
  by_cases herrors : o.errors = []
  · rw [h.success.mpr herrors]
    decide
  · rw [h.failure.mpr herrors]
    decide

theorem rejects_ofError (d : Diagnostic) (fingerprint : String) :
    (ofError d fingerprint).Rejects d :=
  ⟨rfl, rfl, rfl, rfl, rfl, rfl⟩

theorem retells_ofOutcome {o : Outcome} (h : o.errors = o.diagnostics.map (·.message))
    (metadata : Metadata) (fingerprint : String) :
    (ofOutcome metadata o fingerprint).Retells o := by
  have hstatus : (ofOutcome metadata o fingerprint).status =
      if o.errors = [] then .success else .failure := by
    show (if o.errors.isEmpty = true then Status.success else .failure) = _
    simp only [List.isEmpty_iff]
  refine ⟨?_, ?_, rfl, rfl, ?_, rfl, rfl, rfl⟩
  · rw [hstatus]
    split <;> simp_all
  · rw [hstatus]
    split <;> simp_all
  · show o.errors.length = o.diagnostics.length
    rw [h, List.length_map]

end Report

section Texts

variable {rules : MapRules} {limits : Limits} {mapText scriptText : String} {r : Report}

/-- A report says what the stages say about the same texts. -/
structure AgreesWithStages (rules : MapRules) (limits : Limits) (mapText scriptText : String)
    (r : Report) : Prop where
  status : r.status = .error ↔
    (∃ e, GridMap.read rules mapText = .error e) ∨ ∃ e, Script.read scriptText = .error e
  mapError : ∀ e, GridMap.read rules mapText = .error e → r.Rejects e.toDiagnostic
  scriptError : ∀ map e, GridMap.read rules mapText = .ok map →
    Script.read scriptText = .error e → r.Rejects e.toDiagnostic
  /-- The last stage has exactly one outcome, whichever order the fields have been put in. -/
  run : ∀ map program, GridMap.read rules mapText = .ok map →
    Script.read scriptText = .ok program →
    ∀ mapValue programValue, map.toJson.Alike mapValue → program.toJson.Alike programValue →
      ∃ o, (∀ o', StagedEnds mapValue programValue limits o' ↔ o' = o) ∧ r.Retells o

/-- Reports and stages agree on two texts. -/
structure StagesAgree (rules : MapRules) (limits : Limits) (mapText scriptText : String) :
    Prop where
  reports : ∀ r, Reports rules limits mapText scriptText r →
    AgreesWithStages rules limits mapText scriptText r
  /-- There is a report exactly if the last stage ends, should it be reached. -/
  ends : (∃ r, Reports rules limits mapText scriptText r) ↔
    ∀ map program, GridMap.read rules mapText = .ok map → Script.read scriptText = .ok program →
      ∃ o, StagedEnds map.toJson program.toJson limits o
  /-- Under a budget that the counter of operations can exceed there always is one. -/
  total : limits.operationBudget < Text.max32 →
    ∃ r, validate rules limits mapText scriptText = some r

theorem validateWithin_of_not_blank (rules : MapRules) (limits : Limits) (moves : Nat)
    (hblank : ¬ (Text.allBlank mapText.toList = true ∧ Text.allBlank scriptText.toList = true)) :
    validateWithin moves rules limits mapText scriptText =
      match GridMap.read rules mapText with
      | .error e => some (.ofError e.toDiagnostic (fingerprint mapText scriptText))
      | .ok map =>
        match Script.read scriptText with
        | .error e => some (.ofError e.toDiagnostic (fingerprint mapText scriptText))
        | .ok program => (simulateWithin moves map program limits).map fun o =>
            .ofOutcome program.metadata o (fingerprint mapText scriptText) :=
  if_neg (by rwa [Bool.and_eq_true])

/-! ## Texts that cannot be read -/

/-- The report on a text that cannot be read does not depend on the moves. -/
theorem stagesAgree_of_forall
    (hreport : ∀ moves, validateWithin moves rules limits mapText scriptText = some r)
    (hagrees : AgreesWithStages rules limits mapText scriptText r)
    (hfails : ∀ map program, GridMap.read rules mapText = .ok map →
      Script.read scriptText ≠ .ok program) : StagesAgree rules limits mapText scriptText := by
  refine ⟨fun r' hr' => ?_, iff_of_true ⟨r, 0, hreport 0⟩ ?_, fun _ => ⟨r, hreport _⟩⟩
  · obtain ⟨moves, hr'⟩ := hr'
    rw [hreport] at hr'
    cases hr'
    exact hagrees
  · exact fun map program hmap hprogram => absurd hprogram (hfails map program hmap)

theorem agreesWithStages_of_mapError {e : MapError} (h : GridMap.read rules mapText = .error e)
    (hr : r.Rejects e.toDiagnostic) : AgreesWithStages rules limits mapText scriptText r := by
  refine ⟨iff_of_true hr.status (.inl ⟨e, h⟩), fun e' h' => ?_, fun map e' h' => ?_,
    fun map program h' => ?_⟩
  all_goals
    rw [h] at h'
    cases h'
  exact hr

theorem agreesWithStages_of_scriptError {map : GridMap} {e : ScriptError}
    (hmap : GridMap.read rules mapText = .ok map) (h : Script.read scriptText = .error e)
    (hr : r.Rejects e.toDiagnostic) : AgreesWithStages rules limits mapText scriptText r := by
  refine ⟨iff_of_true hr.status (.inr ⟨e, h⟩), fun e' h' => ?_, fun map e' _ h' => ?_,
    fun map program _ h' => ?_⟩
  · rw [hmap] at h'
    cases h'
  all_goals
    rw [h] at h'
    cases h'
  exact hr

/-! ## Texts that are run -/

section Runs

variable {map : GridMap} {program : Program} (hmap : GridMap.read rules mapText = .ok map)
  (hprogram : Script.read scriptText = .ok program) (hmapFits : map.Fits)
  (hprogramFits : program.Fits)
include hmap hprogram hmapFits hprogramFits

theorem agreesWithStages_of_run {o : Outcome} (hends : Ends map program limits o)
    (hr : r.Retells o) : AgreesWithStages rules limits mapText scriptText r := by
  refine ⟨?_, fun e h => ?_, fun _ e _ h => ?_, fun map' program' h h' mapValue programValue
    hmapValue hprogramValue => ⟨o, fun o' => ?_, hr⟩⟩
  · -- both texts were read, so neither stage can be the one that failed
    refine iff_of_false hr.status_ne_error ?_
    rw [hmap, hprogram]
    rintro (⟨e, he⟩ | ⟨e, he⟩) <;> cases he
  · rw [hmap] at h
    cases h
  · rw [hprogram] at h
    cases h
  · rw [hmap] at h
    rw [hprogram] at h'
    cases h
    cases h'
    rw [stagedEnds_iff hmapFits hprogramFits hmapValue hprogramValue]
    exact ⟨hends.unique, fun heq => heq ▸ hends⟩

/-- The report on texts that can be read retells the run. -/
theorem stagesAgree_of_run {fingerprint : String}
    (hreport : ∀ moves, validateWithin moves rules limits mapText scriptText =
      (simulateWithin moves map program limits).map fun o =>
        .ofOutcome program.metadata o fingerprint) :
    StagesAgree rules limits mapText scriptText := by
  refine ⟨fun r hr => ?_, ⟨?_, fun hstages => ?_⟩, fun hbudget => ?_⟩
  · obtain ⟨moves, hr⟩ := hr
    rw [hreport] at hr
    obtain ⟨o, ho, rfl⟩ := Option.map_eq_some_iff.mp hr
    have hends : Ends map program limits o := ⟨moves, ho⟩
    exact agreesWithStages_of_run hmap hprogram hmapFits hprogramFits hends
      (Report.retells_ofOutcome hends.errors_eq ..)
  · rintro ⟨r, moves, hr⟩ map' program' h h'
    rw [hmap] at h
    rw [hprogram] at h'
    cases h
    cases h'
    rw [hreport] at hr
    obtain ⟨o, ho, rfl⟩ := Option.map_eq_some_iff.mp hr
    exact ⟨o, (stagedEnds_iff hmapFits hprogramFits (.refl _) (.refl _)).mpr ⟨moves, ho⟩⟩
  · -- what the stages end with, the one call that makes the report reaches too
    obtain ⟨o, ho⟩ := hstages map program hmap hprogram
    obtain ⟨moves, ho⟩ := (stagedEnds_iff hmapFits hprogramFits (.refl _) (.refl _)).mp ho
    exact ⟨_, moves, by rw [hreport, ho]; rfl⟩
  · obtain ⟨o, ho⟩ := exists_simulate map program hbudget
    exact ⟨_, by rw [validate, hreport, ← simulate, ho]; rfl⟩

end Runs

/-- **One request or several.**  Of two texts that are not both blank, a report says what the stages
say: it is an error exactly if one of the texts cannot be read, and then it is the error of the map
or else that of the script; otherwise it retells the outcome of running what comes back from the
exchange forms.

Places and lines are counted in words of 64 and 32 bits, which the texts must not be too long
for. -/
theorem stagesAgree_of_not_blank
    (hblank : ¬ (Text.allBlank mapText.toList = true ∧ Text.allBlank scriptText.toList = true))
    (hplaces : mapText.length < Text.max64)
    (hlines : (Source.ofString scriptText).lineCount ≤ Text.max32) :
    StagesAgree rules limits mapText scriptText := by
  have hreport := fun moves => validateWithin_of_not_blank rules limits moves hblank
  -- as the report does: the map first, and the script only for a map that was read
  cases hmap : GridMap.read rules mapText with
  | error e =>
      rw [hmap] at hreport
      refine stagesAgree_of_forall hreport ?_ fun map program h => ?_
      · exact agreesWithStages_of_mapError hmap (Report.rejects_ofError ..)
      · rw [hmap] at h
        cases h
  | ok map =>
      rw [hmap] at hreport
      cases hprogram : Script.read scriptText with
      | error e =>
          rw [hprogram] at hreport
          refine stagesAgree_of_forall hreport ?_ fun map program _ h => ?_
          · exact agreesWithStages_of_scriptError hmap hprogram (Report.rejects_ofError ..)
          · rw [hprogram] at h
            cases h
      | ok program =>
          rw [hprogram] at hreport
          exact stagesAgree_of_run hmap hprogram (GridMap.fits_of_read hmap hplaces)
            (Script.fits_of_read hprogram hlines) hreport

end Texts

/-- A script with a function leads through a portal to a gem and leaves a switch closed. -/
theorem stagesAgree_of_not_blank_closed_switch :
    let mapText := "→\tW1\nW1\t♦\t●"
    let scriptText := "\n".intercalate ["func go() \x7b", "for 2 times \x7b", "moveForward()",
      "\x7d", "\x7d", "go()", "if isOnGem \x7b", "collectGem()", "\x7d"]
    ¬ (Text.allBlank mapText.toList = true ∧ Text.allBlank scriptText.toList = true) ∧
      mapText.length < Text.max64 ∧ (Source.ofString scriptText).lineCount ≤ Text.max32 ∧
      StagesAgree {} {} mapText scriptText ∧
      ∃ r map program o, validate {} {} mapText scriptText = some r ∧
        GridMap.read {} mapText = .ok map ∧ Script.read scriptText = .ok program ∧
        StagedEnds map.toJson program.toJson {} o ∧ r.Retells o ∧ r.status = .failure ∧
        r.errors.map (·.code) = [501] ∧ r.metrics.steps = 3 ∧ r.metrics.gemsCollected = 1 := by
  intro mapText scriptText
  have hblank :
      ¬ (Text.allBlank mapText.toList = true ∧ Text.allBlank scriptText.toList = true) := by
    decide +kernel
  have hplaces : mapText.length < Text.max64 := by decide +kernel
  have hlines : (Source.ofString scriptText).lineCount ≤ Text.max32 := by decide +kernel
  have heval : ((GridMap.read {} mapText).toOption.bind fun map =>
      (Script.read scriptText).toOption.bind fun program =>
        (simulate map program {}).map fun o =>
          (o.diagnostics.map (·.code), o.stepsExecuted, o.gemsCollected, o.errors.isEmpty)) =
      some ([501], 3, 1, false) := by
    decide +kernel
  obtain ⟨map, hmap, heval⟩ := Option.bind_eq_some_iff.mp heval
  obtain ⟨program, hprogram, heval⟩ := Option.bind_eq_some_iff.mp heval
  obtain ⟨o, ho, heval⟩ := Option.map_eq_some_iff.mp heval
  simp only [Prod.mk.injEq] at heval
  obtain ⟨hcodes, hsteps, hgems, herrors⟩ := heval
  replace hmap := eq_ok_of_toOption hmap
  replace hprogram := eq_ok_of_toOption hprogram
  have hagree : StagesAgree {} {} mapText scriptText :=
    stagesAgree_of_not_blank hblank hplaces hlines
  obtain ⟨r, hr⟩ := hagree.total (by decide)
  obtain ⟨o', hstaged, hretells⟩ := (hagree.reports r ⟨_, hr⟩).run map program hmap hprogram _ _
    (.refl _) (.refl _)
  have hends : StagedEnds map.toJson program.toJson {} o :=
    (stagedEnds_iff (GridMap.fits_of_read hmap hplaces) (Script.fits_of_read hprogram hlines)
      (.refl _) (.refl _)).mpr ⟨_, ho⟩
  obtain rfl := (hstaged o).mp hends
  refine ⟨hblank, hplaces, hlines, hagree, r, map, program, o, hr, hmap, hprogram, hends, hretells,
    ?_, ?_, ?_, ?_⟩
  · rw [hretells.failure]
    exact fun hnil => by simp [hnil] at herrors
  · rw [hretells.errors, hcodes]
  · rw [hretells.metrics]
    exact hsteps
  · rw [hretells.metrics]
    exact hgems

end GemGrid
