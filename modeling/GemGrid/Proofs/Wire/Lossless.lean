import GemGrid.Proofs.Wire.Grid
import GemGrid.Proofs.Wire.Script
import GemGrid.Wire.Report

/-!
# Nothing is lost in exchange

Every value that the library exchanges with hosts is decoded from what it is encoded to, however
the fields of its objects are ordered: programs and their parts, maps and their parts, the settings
of a run, and everything that a run or a report leaves behind.

* A diagnostic leaves out the line and the text that it does not have.
* A trigger is written as a name, and the names of commands do not clash with the others
  (`Trigger.ofName?_name`).
-/

namespace GemGrid

open Wire

/-! ## Settings and diagnostics -/

/-- Both limits are 32-bit numbers. -/
def Limits.Fits (l : Limits) : Prop :=
  l.operationBudget ≤ Text.max32 ∧ l.whileLimit ≤ Text.max32

theorem Limits.decodes {l : Limits} (h : l.Fits) : Decodes ofJson l.toJson l := by
  refine decodes_record (by simp) fun f r => ?_
  rw [word32, r.defaulted _ (by simp) (decodes_upTo h.1),
    r.defaulted _ (by simp) (decodes_upTo h.2)]
  rfl

/-- The code is a 16-bit number and the line a 32-bit one. -/
def Diagnostic.Fits (d : Diagnostic) : Prop :=
  d.code ≤ Text.max16 ∧ ∀ line ∈ d.line, line ≤ Text.max32

theorem Category.tellsApart : TellsApart Category.all Category.name := by
  intro c
  cases c <;> decide

theorem Diagnostic.decodes {d : Diagnostic} (h : d.Fits) : Decodes ofJson d.toJson d := by
  refine decodes_record ?_ fun f r => ?_
  · cases d.line <;> cases d.sourceLine <;> simp
  · -- a field without a value is left out, so the reader has to find it absent
    have hline : f.optional "line" (upTo Text.max32) = pure d.line := by
      refine r.optional_of_omitted .nat (by simp [Json.nat]) (fun line hline => ?_)
        (fun hnone => ?_) fun line hline => decodes_upTo (h.2 line hline)
      · simp [Option.mem_def.mp hline]
      · cases d.sourceLine <;> simp [hnone]
    have htext : f.optional "sourceLine" string = pure d.sourceLine := by
      refine r.optional_of_omitted .str (by simp) (fun text htext => ?_)
        (fun hnone => ?_) fun text _ => decodes_string text
      · simp [Option.mem_def.mp htext]
      · cases d.line <;> simp [hnone]
    rw [word16, word32, r.required (by simp) (decodes_upTo h.1),
      r.required (by simp) (decodes_oneOf Category.tellsApart d.category),
      r.required (by simp) (decodes_string d.message), hline, htext]
    rfl

/-! ## Traces -/

theorem LogKind.decodes (k : LogKind) : Decodes ofJson k.toJson k := by
  refine decodes_oneOf (fun k => ?_) k
  cases k <;> decide

/-- The position fits. -/
def LogEntry.Fits (e : LogEntry) : Prop :=
  e.position.Fits

theorem LogEntry.decodes {e : LogEntry} (h : e.Fits) : Decodes ofJson e.toJson e := by
  refine decodes_record (by simp) fun f r => ?_
  rw [r.required (by simp) (decodes_string e.message), r.required (by simp) e.kind.decodes,
    r.required (by simp) (Position.decodes h), r.required (by simp) e.facing.decodes]
  rfl

theorem Trigger.ofName?_name (t : Trigger) : ofName? t.name = some t := by
  cases t with
  | start | warp | finish => decide
  | command c => cases c <;> decide

theorem Trigger.decodes (t : Trigger) : Decodes ofJson (.str t.name) t := by
  rintro _ ⟨⟩
  show ofName t.name = .ok t
  rw [ofName, ofName?_name]

/-- The numbers of a frame are 64-bit ones, and its reference fits. -/
structure Frame.Fits (f : Frame) : Prop where
  frameIndex : f.frameIndex ≤ Text.max64
  step : f.step ≤ Text.max64
  row : f.row ≤ Text.max64
  col : f.col ≤ Text.max64
  source : ∀ s ∈ f.source, s.Fits

theorem decodes_texts (texts : List String) : Decodes (list string) (Json.list .str texts) texts :=
  decodes_list fun text _ => decodes_string text

theorem decodes_text? (text : Option String) :
    Decodes (nullable string) (Json.nullable .str text) text :=
  decodes_nullable (by simp) fun text _ => decodes_string text

theorem Frame.decodes {f : Frame} (h : f.Fits) : Decodes ofJson f.toJson f := by
  refine decodes_record (by simp) fun g r => ?_
  have hcommand : Decodes (nullable Trigger.ofJson)
      (Json.nullable (fun t => .str t.name) f.command) f.command :=
    decodes_nullable (by simp) fun t _ => t.decodes
  have hsource : Decodes (nullable SourceRef.ofJson)
      (Json.nullable SourceRef.toJson f.source) f.source :=
    decodes_nullable (by simp [SourceRef.toJson]) fun s hs => SourceRef.decodes (h.source s hs)
  rw [word64, r.required (by simp) (decodes_upTo h.frameIndex),
    r.required (by simp) (decodes_upTo h.step), r.required (by simp) (decodes_upTo h.row),
    r.required (by simp) (decodes_upTo h.col), r.required (by simp) f.facing.decodes,
    r.required (by simp) (decodes_texts f.visited),
    r.required (by simp) (decodes_string f.message), r.required (by simp) f.kind.decodes,
    r.optional (by simp) (decodes_text? f.label), r.optional (by simp) hcommand,
    r.optional (by simp) hsource]
  rfl

/-- All numbers of an outcome fit. -/
structure Outcome.Fits (o : Outcome) : Prop where
  logs : ∀ e ∈ o.logs, e.Fits
  diagnostics : ∀ d ∈ o.diagnostics, d.Fits
  gemsCollected : o.gemsCollected ≤ Text.max64
  totalGems : o.totalGems ≤ Text.max64
  switchesOpen : o.switchesOpen ≤ Text.max64
  totalSwitches : o.totalSwitches ≤ Text.max64
  stepsExecuted : o.stepsExecuted ≤ Text.max64
  frames : ∀ f ∈ o.frames, f.Fits

theorem Outcome.decodes {o : Outcome} (h : o.Fits) : Decodes ofJson o.toJson o := by
  refine decodes_record (by simp) fun f r => ?_
  rw [word64, r.required (by simp) (decodes_list fun e he => LogEntry.decodes (h.logs e he)),
    r.required (by simp) (decodes_texts o.errors),
    r.required (by simp) (decodes_list fun d hd => Diagnostic.decodes (h.diagnostics d hd)),
    r.required (by simp) (decodes_texts o.visitedPath),
    r.required (by simp) (decodes_upTo h.gemsCollected),
    r.required (by simp) (decodes_upTo h.totalGems),
    r.required (by simp) (decodes_upTo h.switchesOpen),
    r.required (by simp) (decodes_upTo h.totalSwitches),
    r.required (by simp) (decodes_upTo h.stepsExecuted),
    r.required (by simp) (decodes_list fun g hg => Frame.decodes (h.frames g hg))]
  rfl

/-! ## Reports -/

theorem Status.tellsApart : TellsApart Status.all Status.name := by
  intro s
  cases s <;> decide

/-- All counts are 64-bit numbers. -/
structure Metrics.Fits (m : Metrics) : Prop where
  steps : m.steps ≤ Text.max64
  gemsCollected : m.gemsCollected ≤ Text.max64
  totalGems : m.totalGems ≤ Text.max64
  switchesOpen : m.switchesOpen ≤ Text.max64
  totalSwitches : m.totalSwitches ≤ Text.max64
  errorCount : m.errorCount ≤ Text.max64

theorem Metrics.decodes {m : Metrics} (h : m.Fits) : Decodes ofJson m.toJson m := by
  refine decodes_record (by simp) fun f r => ?_
  rw [word64, r.required (by simp) (decodes_upTo h.steps),
    r.required (by simp) (decodes_upTo h.gemsCollected),
    r.required (by simp) (decodes_upTo h.totalGems),
    r.required (by simp) (decodes_upTo h.switchesOpen),
    r.required (by simp) (decodes_upTo h.totalSwitches),
    r.required (by simp) (decodes_upTo h.errorCount)]
  rfl

/-- All numbers of a report fit. -/
structure Report.Fits (r : Report) : Prop where
  errors : ∀ d ∈ r.errors, d.Fits
  metrics : r.metrics.Fits
  logs : ∀ e ∈ r.logs, e.Fits
  frames : ∀ f ∈ r.frames, f.Fits

theorem Report.decodes {p : Report} (h : p.Fits) : Decodes ofJson p.toJson p := by
  refine decodes_record (by simp) fun f r => ?_
  rw [r.required (by simp) (decodes_oneOf Status.tellsApart p.status),
    r.required (by simp) (decodes_string p.summary),
    r.required (by simp) (decodes_string p.detail), r.required (by simp) (decodes_string p.note),
    r.required (by simp) (decodes_list fun d hd => Diagnostic.decodes (h.errors d hd)),
    r.required (by simp) (Metrics.decodes h.metrics),
    r.required (by simp) (decodes_list fun e he => LogEntry.decodes (h.logs e he)),
    r.required (by simp) (decodes_list fun g hg => Frame.decodes (h.frames g hg)),
    r.required (by simp) (decodes_texts p.visitedPath),
    r.optional (by simp) (decodes_text? p.commandCount),
    r.required (by simp) (decodes_string p.fingerprint)]
  rfl

/-! ## All exchange forms -/

/-- Each value whose numbers keep to their widths is decoded from what it is encoded to, in
whatever order the fields come. -/
theorem exchange_lossless :
    (∀ c : Condition, Decodes Condition.ofJson c.toJson c) ∧
    (∀ s : Stmt, s.Fits → Decodes Stmt.ofJson s.toJson s) ∧
    (∀ p : Program, p.Fits → Decodes Program.ofJson p.toJson p) ∧
    (∀ s : SourceRef, s.Fits → Decodes SourceRef.ofJson s.toJson s) ∧
    (∀ c : Cell, c.Fits → Decodes Cell.ofJson c.toJson c) ∧
    (∀ m : GridMap, m.Fits → Decodes GridMap.ofJson m.toJson m) ∧
    (∀ rules : MapRules, Decodes MapRules.ofJson rules.toJson rules) ∧
    (∀ l : Limits, l.Fits → Decodes Limits.ofJson l.toJson l) ∧
    (∀ d : Diagnostic, d.Fits → Decodes Diagnostic.ofJson d.toJson d) ∧
    (∀ e : LogEntry, e.Fits → Decodes LogEntry.ofJson e.toJson e) ∧
    (∀ f : Frame, f.Fits → Decodes Frame.ofJson f.toJson f) ∧
    (∀ o : Outcome, o.Fits → Decodes Outcome.ofJson o.toJson o) ∧
    (∀ r : Report, r.Fits → Decodes Report.ofJson r.toJson r) :=
  ⟨Condition.decodes, fun _ => Stmt.decodes, fun _ => Program.decodes, fun _ => SourceRef.decodes,
    fun _ => Cell.decodes, fun _ => GridMap.decodes, MapRules.decodes, fun _ => Limits.decodes,
    fun _ => Diagnostic.decodes, fun _ => LogEntry.decodes, fun _ => Frame.decodes,
    fun _ => Outcome.decodes, fun _ => Report.decodes⟩

/-- Keys whose texts sort differently from their numbers, the largest numbers of each width, a tagged
statement inside another, and a diagnostic that leaves out its line. -/
theorem exchange_lossless_extremes :
    let cell : Cell :=
      { token := "W07", row := 2, col := 10, ground := .floor, isStart := false,
        direction := none, hasGem := false, switchState := none, warpId := some Text.max32 }
    let map : GridMap :=
      { grid := [[cell]], rows := Text.max64, columns := 0, start := some cell,
        gems := ⟨[⟨2, 10⟩, ⟨10, 2⟩, ⟨Text.max64, 0⟩], by decide⟩,
        switches := ⟨[(⟨2, 0⟩, .opened), (⟨10, 0⟩, .closed)], by decide⟩,
        portals := ⟨[(9, []), (10, [⟨0, 0⟩]), (Text.max32, [⟨2, 10⟩, ⟨0, 1⟩])], by decide⟩ }
    let s : Stmt :=
      .ifElse (.not (.predicate .isOnGem)) [.loop Text.max64 [.call "type" ⟨3, ""⟩] ⟨2, ""⟩] []
        ⟨Text.max32, "if !isOnGem"⟩
    let d : Diagnostic :=
      { code := Text.max16, category := .postcondition, message := "", line := none,
        sourceLine := some "" }
    (map.Fits ∧ GridMap.ofJson map.toJson = .ok map) ∧ (s.Fits ∧ Stmt.ofJson s.toJson = .ok s) ∧
      d.Fits ∧ Diagnostic.ofJson d.toJson = .ok d := by
  intro cell map s d
  have hcell : cell.Fits := ⟨by decide, by decide, by simp [cell]⟩
  have hmap : map.Fits :=
    { grid := by simp [map, hcell]
      rows := by simp [map]
      columns := by simp [map]
      start := by simp [map, hcell]
      gems := by simp [map, Position.Fits, Text.max64]
      switches := by simp [map, OrderedMap.keys, Position.Fits, Text.max64]
      portals := by simp [map, Position.Fits, Text.max32, Text.max64] }
  have hs : s.Fits := by simp [s, Stmt.Fits, Stmt.AllFit, SourceRef.Fits, Text.max32]
  have hd : d.Fits := ⟨by simp [d], by simp [d]⟩
  obtain ⟨-, hstmt, -, -, -, hgrid, -, -, hdiagnostic, -⟩ := exchange_lossless
  exact ⟨⟨hmap, hgrid map hmap _ (.refl _)⟩, ⟨hs, hstmt s hs _ (.refl _)⟩,
    hd, hdiagnostic d hd _ (.refl _)⟩

end GemGrid
