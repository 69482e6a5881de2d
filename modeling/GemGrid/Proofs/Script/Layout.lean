import GemGrid.Condition.Printer
import GemGrid.Proofs.Script.CallGraph

/-!
# How programs are laid out

A program is written one construct a line: first its functions, then its main statements.  A command
or a call has a line of its own; everything with a block has a line for its header and the opening
brace, the lines of the block, and a line for the closing brace, which also carries the `else`.

* `Script.layout` is the list of lines, and `Script.text` joins them.
* `Stmt.placedIn` and `FunctionDef.placed` are the program with every source reference set to where
  its header stands in the layout.
* `Stmt.bareIn` and `FunctionDef.bare` take the source references away, so two programs are the same
  up to source references if they are the same without them.

Placing a program changes nothing but source references (`bareIn_placedIn`, `bare_placed`), and the
check of the calls does not look at them (`wellCalled_bare_iff`).
-/

namespace GemGrid

/-! ## Lines -/

namespace Layout

/-- A command or a call. -/
def call (name : String) : String :=
  name ++ "()"

theorem toList_call (name : String) : (call name).toList = name.toList ++ ['(', ')'] := by
  simp [call]

/-- The header of a counted loop. -/
def loop (count : Nat) : String :=
  "for " ++ count.repr ++ " times"

/-- The header of an `if` or a `while`. -/
def guard (keyword : String) (condition : Condition) : String :=
  keyword ++ " " ++ condition.render

/-- The header of a function. -/
def function (name : String) : String :=
  "func " ++ call name

/-- The line of a header in front of a block. -/
def opening (header : String) : String :=
  header ++ " \x7b"

/-- The line behind a block. -/
def closing : String :=
  "\x7d"

/-- The line between the two blocks of an `if`. -/
def otherwise : String :=
  "\x7d else \x7b"

/-- The lines of a header and its block. -/
def block (header : String) (lines : List String) : List String :=
  opening header :: (lines ++ [closing])

end Layout

namespace Stmt

mutual

/-- The lines of a statement. -/
def lines : Stmt → List String
  | .command c _ => [Layout.call c.name]
  | .loop count body _ => Layout.block (Layout.loop count) (linesIn body)
  | .ifThen condition consequent _ =>
    Layout.block (Layout.guard "if" condition) (linesIn consequent)
  | .ifElse condition consequent alternate _ =>
    Layout.block (Layout.guard "if" condition)
      (linesIn consequent ++ Layout.otherwise :: linesIn alternate)
  | .whileDo condition body _ => Layout.block (Layout.guard "while" condition) (linesIn body)
  | .call name _ => [Layout.call name]

/-- The lines of a list of statements. -/
def linesIn : List Stmt → List String
  | [] => []
  | s :: ss => s.lines ++ linesIn ss

end

end Stmt

/-- The lines of a function. -/
def FunctionDef.lines (f : FunctionDef) : List String :=
  Layout.block (Layout.function f.name) (Stmt.linesIn f.body)

/-- The lines of a program. -/
def Script.layout (main : List Stmt) (functions : List FunctionDef) : List String :=
  functions.flatMap FunctionDef.lines ++ Stmt.linesIn main

/-- The text of a program. -/
def Script.text (main : List Stmt) (functions : List FunctionDef) : String :=
  String.ofList (['\n'].intercalate ((layout main functions).map String.toList))

/-! ## Places -/

namespace Stmt

mutual

/-- A statement whose lines start at line `n`. -/
def placed : Nat → Stmt → Stmt
  | n, .command c _ => .command c ⟨n, Layout.call c.name⟩
  | n, .loop count body _ => .loop count (placedIn (n + 1) body) ⟨n, Layout.loop count⟩
  | n, .ifThen condition consequent _ =>
    .ifThen condition (placedIn (n + 1) consequent) ⟨n, Layout.guard "if" condition⟩
  | n, .ifElse condition consequent alternate _ =>
    .ifElse condition (placedIn (n + 1) consequent)
      (placedIn (n + 1 + (linesIn consequent).length + 1) alternate)
      ⟨n, Layout.guard "if" condition⟩
  | n, .whileDo condition body _ =>
    .whileDo condition (placedIn (n + 1) body) ⟨n, Layout.guard "while" condition⟩
  | n, .call name _ => .call name ⟨n, Layout.call name⟩

/-- Statements whose lines start at line `n`. -/
def placedIn : Nat → List Stmt → List Stmt
  | _, [] => []
  | n, s :: ss => s.placed n :: placedIn (n + s.lines.length) ss

end

end Stmt

/-- Functions whose lines start at line `n`. -/
def FunctionDef.placed : Nat → List FunctionDef → List FunctionDef
  | _, [] => []
  | n, f :: fs =>
    { f with body := Stmt.placedIn (n + 1) f.body, source := ⟨n, Layout.function f.name⟩ } ::
      placed (n + f.lines.length) fs

/-! ## Without source references -/

namespace Stmt

mutual

/-- A statement without its source references. -/
def bare : Stmt → Stmt
  | .command c _ => .command c default
  | .loop count body _ => .loop count (bareIn body) default
  | .ifThen condition consequent _ => .ifThen condition (bareIn consequent) default
  | .ifElse condition consequent alternate _ =>
    .ifElse condition (bareIn consequent) (bareIn alternate) default
  | .whileDo condition body _ => .whileDo condition (bareIn body) default
  | .call name _ => .call name default

/-- Statements without their source references. -/
def bareIn : List Stmt → List Stmt
  | [] => []
  | s :: ss => s.bare :: bareIn ss

end

end Stmt

/-- A function without its source references. -/
def FunctionDef.bare (f : FunctionDef) : FunctionDef :=
  { name := f.name, body := Stmt.bareIn f.body, source := default }

theorem Stmt.bareIn_placedIn (ss : List Stmt) (n : Nat) : bareIn (placedIn n ss) = bareIn ss := by
  induction ss using blockInduction generalizing n with
  | nil => rw [placedIn]
  | command c source ss ih => simp only [placedIn, placed, bareIn, bare, ih]
  | loop count body source ss ihbody ih => simp only [placedIn, placed, bareIn, bare, ihbody, ih]
  | ifThen condition consequent source ss ihthen ih =>
      simp only [placedIn, placed, bareIn, bare, ihthen, ih]
  | ifElse condition consequent alternate source ss ihthen ihelse ih =>
      simp only [placedIn, placed, bareIn, bare, ihthen, ihelse, ih]
  | whileDo condition body source ss ihbody ih =>
      simp only [placedIn, placed, bareIn, bare, ihbody, ih]
  | call name source ss ih => simp only [placedIn, placed, bareIn, bare, ih]

theorem FunctionDef.bare_placed (functions : List FunctionDef) (n : Nat) :
    (placed n functions).map bare = functions.map bare := by
  induction functions generalizing n with
  | nil => rw [placed]
  | cons f functions ih =>
      simp only [placed, List.map_cons, ih, bare, Stmt.bareIn_placedIn]

theorem FunctionDef.names_of_bare {functions functions' : List FunctionDef}
    (h : functions'.map bare = functions.map bare) :
    functions'.map (·.name) = functions.map (·.name) := by
  have hnames := congrArg (List.map (·.name)) h
  rwa [List.map_map, List.map_map] at hnames

/-! ## Calls -/

theorem Stmt.callsIn_bareIn (ss : List Stmt) :
    callsIn (bareIn ss) = (callsIn ss).map fun site => { site with source := default } := by
  -- the sources of the statements do not matter for which names are called
  induction ss using blockInduction with
  | nil => simp only [bareIn, callsIn, List.map_nil]
  | command c source ss ih => simp only [bareIn, bare, callsIn, calls, List.nil_append, ih]
  | loop count body source ss ihbody ih =>
      simp only [bareIn, bare, callsIn, calls, List.map_append, ihbody, ih]
  | ifThen condition consequent source ss ihthen ih =>
      simp only [bareIn, bare, callsIn, calls, List.map_append, ihthen, ih]
  | ifElse condition consequent alternate source ss ihthen ihelse ih =>
      simp only [bareIn, bare, callsIn, calls, List.map_append, ihthen, ihelse, ih]
  | whileDo condition body source ss ihbody ih =>
      simp only [bareIn, bare, callsIn, calls, List.map_append, ihbody, ih]
  | call name source ss ih =>
      simp only [bareIn, bare, callsIn, calls, List.map_append, List.map_cons, List.map_nil, ih]

theorem Stmt.exists_blockHasCall_bareIn {name : String} {ss : List Stmt} :
    (∃ source, BlockHasCall { name, source } (bareIn ss)) ↔
      ∃ source, BlockHasCall { name, source } ss := by
  simp only [← mem_callsIn, callsIn_bareIn, List.mem_map]
  constructor
  · rintro ⟨_, site, hsite, hname⟩
    obtain rfl : site.name = name := congrArg CallSite.name hname
    exact ⟨site.source, hsite⟩
  · rintro ⟨source, hsite⟩
    exact ⟨default, _, hsite, rfl⟩

theorem FunctionDef.body?_bare (functions : List FunctionDef) (name : String) :
    body? (functions.map bare) name = (body? functions name).map Stmt.bareIn := by
  rw [body?, body?, List.find?_map, Option.map_map, Option.map_map]
  rfl

namespace Script

theorem calls_bare (functions : List FunctionDef) :
    Calls (functions.map FunctionDef.bare) = Calls functions := by
  funext caller callee
  simp only [Calls, FunctionDef.body?_bare, eq_iff_iff]
  constructor
  · rintro ⟨_, source, hbare, hcall⟩
    obtain ⟨body, hbody, rfl⟩ := Option.map_eq_some_iff.mp hbare
    obtain ⟨source', hcall⟩ := Stmt.exists_blockHasCall_bareIn.mp ⟨source, hcall⟩
    exact ⟨body, source', hbody, hcall⟩
  · rintro ⟨body, source, hbody, hcall⟩
    obtain ⟨source', hcall⟩ := Stmt.exists_blockHasCall_bareIn.mpr ⟨source, hcall⟩
    exact ⟨Stmt.bareIn body, source', by rw [hbody, Option.map_some], hcall⟩

theorem exists_occurs_bare {main : List Stmt} {functions : List FunctionDef} {name : String} :
    (∃ source, Occurs (Stmt.bareIn main) (functions.map FunctionDef.bare) { name, source }) ↔
      ∃ source, Occurs main functions { name, source } := by
  simp only [Occurs, exists_or, Stmt.exists_blockHasCall_bareIn]
  refine or_congr_right ?_
  have hcalls (functions : List FunctionDef) :
      (∃ source caller body, FunctionDef.body? functions caller = some body ∧
        Stmt.BlockHasCall { name, source } body) ↔ ∃ caller, Calls functions caller name := by
    constructor
    · exact fun ⟨source, caller, body, h⟩ => ⟨caller, body, source, h⟩
    · exact fun ⟨caller, body, source, h⟩ => ⟨source, caller, body, h⟩
  rw [hcalls, hcalls, calls_bare]

/-- Whether the calls are in order does not depend on source references. -/
theorem wellCalled_bare_iff {main : List Stmt} {functions : List FunctionDef} :
    WellCalled (Stmt.bareIn main) (functions.map FunctionDef.bare) ↔ WellCalled main functions := by
  -- undefined names and cycles are told by the names alone
  have hnames : (functions.map FunctionDef.bare).map (·.name) = functions.map (·.name) := by
    rw [List.map_map]
    rfl
  have hdefined (main : List Stmt) (functions : List FunctionDef) :
      (∀ site, Occurs main functions site → site.name ∈ functions.map (·.name)) ↔
        ∀ name, (∃ source, Occurs main functions { name, source }) →
          name ∈ functions.map (·.name) := by
    constructor
    · exact fun h name ⟨source, hoccurs⟩ => h _ hoccurs
    · exact fun h site hoccurs => h site.name ⟨site.source, hoccurs⟩
  constructor
  · rintro ⟨hcalls, hacyclic⟩
    rw [hdefined, hnames] at hcalls
    rw [calls_bare] at hacyclic
    refine ⟨(hdefined main functions).mpr fun name hoccurs => ?_, hacyclic⟩
    exact hcalls name (exists_occurs_bare.mpr hoccurs)
  · rintro ⟨hcalls, hacyclic⟩
    rw [hdefined] at hcalls
    refine ⟨(hdefined _ _).mpr fun name hoccurs => ?_, by rwa [calls_bare]⟩
    rw [hnames]
    exact hcalls name (exists_occurs_bare.mp hoccurs)

end Script

end GemGrid
