import GemGrid.Script.Calls
import Mathlib.Data.List.Perm.Subperm
import Mathlib.Logic.Relation

/-!
# The call graph of a program

Which calls a program makes, said without following them in any order.

* `Stmt.HasCall` says that a call stands somewhere in a statement, inside loops and both branches
  of an `if` as well.  `mem_callsIn` ties it to the list of calls that the checks go through.
* `Calls functions f g`: the body that `f` stands for calls `g`.  A name stands for its first
  definition.
* `WellCalled main functions`: every call of the program has a function, and no function reaches
  itself through one or more calls.

Two recursions follow calls with a bound on their depth: the check of the calls and the count of
the commands.  Both keep the functions they are inside of as a path, and `Trail` says what such a
path is: distinct functions, each of which reaches the call at hand.  When the bound is used up
the path holds every function (`Trail.mem_of_no_spare`), so the bound is never what stops them.

`Stmt.blockInduction` is the induction over a block of statements that all proofs about programs
use: a first statement of one of the six kinds, with the blocks inside it, before a smaller block.
-/

namespace GemGrid

/-! ## Induction over blocks -/

/-- Induction over a list of statements, by the kind of its first statement. -/
@[elab_as_elim]
theorem Stmt.blockInduction {motive : List Stmt → Prop} (nil : motive [])
    (command : ∀ c source ss, motive ss → motive (.command c source :: ss))
    (loop : ∀ count body source ss, motive body → motive ss →
      motive (.loop count body source :: ss))
    (ifThen : ∀ condition consequent source ss, motive consequent → motive ss →
      motive (.ifThen condition consequent source :: ss))
    (ifElse : ∀ condition consequent alternate source ss, motive consequent → motive alternate →
      motive ss → motive (.ifElse condition consequent alternate source :: ss))
    (whileDo : ∀ condition body source ss, motive body → motive ss →
      motive (.whileDo condition body source :: ss))
    (call : ∀ name source ss, motive ss → motive (.call name source :: ss))
    (ss : List Stmt) : motive ss := by
  -- a statement stands for all the blocks that it starts
  refine @Stmt.rec_1 (fun s => ∀ ss, motive ss → motive (s :: ss)) motive
    ?_ ?_ ?_ ?_ ?_ ?_ nil (fun _ ss hs hss => hs ss hss) ss
  · exact command
  · exact fun count body source hbody ss => loop count body source ss hbody
  · exact fun condition consequent source hbody ss => ifThen condition consequent source ss hbody
  · exact fun condition consequent alternate source hthen helse ss =>
      ifElse condition consequent alternate source ss hthen helse
  · exact fun condition body source hbody ss => whileDo condition body source ss hbody
  · exact call

/-! ## Calls inside statements -/

/-- A call stands somewhere in a statement. -/
inductive Stmt.HasCall (site : CallSite) : Stmt → Prop
  | call : HasCall site (.call site.name site.source)
  | loop {count body source s} : s ∈ body → HasCall site s → HasCall site (.loop count body source)
  | ifThen {condition consequent source s} : s ∈ consequent → HasCall site s →
      HasCall site (.ifThen condition consequent source)
  | consequent {condition consequent alternate source s} : s ∈ consequent → HasCall site s →
      HasCall site (.ifElse condition consequent alternate source)
  | alternate {condition consequent alternate source s} : s ∈ alternate → HasCall site s →
      HasCall site (.ifElse condition consequent alternate source)
  | whileDo {condition body source s} : s ∈ body → HasCall site s →
      HasCall site (.whileDo condition body source)

/-- A call stands somewhere in a block. -/
def Stmt.BlockHasCall (site : CallSite) (ss : List Stmt) : Prop :=
  ∃ s ∈ ss, s.HasCall site

namespace Stmt

theorem blockHasCall_cons {site : CallSite} {s : Stmt} {ss : List Stmt} :
    BlockHasCall site (s :: ss) ↔ s.HasCall site ∨ BlockHasCall site ss := by
  simp [BlockHasCall]

theorem hasCall_loop {site : CallSite} {count : Nat} {body : List Stmt} {source : SourceRef} :
    HasCall site (.loop count body source) ↔ BlockHasCall site body := by
  constructor
  · rintro (_ | ⟨hs, h⟩)
    exact ⟨_, hs, h⟩
  · rintro ⟨s, hs, h⟩
    exact .loop hs h

theorem hasCall_ifThen {site : CallSite} {condition : Condition} {consequent : List Stmt}
    {source : SourceRef} :
    HasCall site (.ifThen condition consequent source) ↔ BlockHasCall site consequent := by
  constructor
  · rintro (_ | _ | ⟨hs, h⟩)
    exact ⟨_, hs, h⟩
  · rintro ⟨s, hs, h⟩
    exact .ifThen hs h

theorem hasCall_ifElse {site : CallSite} {condition : Condition}
    {consequent alternate : List Stmt} {source : SourceRef} :
    HasCall site (.ifElse condition consequent alternate source) ↔
      BlockHasCall site consequent ∨ BlockHasCall site alternate := by
  constructor
  · intro h
    cases h with
    | consequent hs h => exact .inl ⟨_, hs, h⟩
    | alternate hs h => exact .inr ⟨_, hs, h⟩
  · rintro (⟨s, hs, h⟩ | ⟨s, hs, h⟩)
    · exact .consequent hs h
    · exact .alternate hs h

theorem hasCall_whileDo {site : CallSite} {condition : Condition} {body : List Stmt}
    {source : SourceRef} :
    HasCall site (.whileDo condition body source) ↔ BlockHasCall site body := by
  constructor
  · intro h
    cases h with
    | whileDo hs h => exact ⟨_, hs, h⟩
  · rintro ⟨s, hs, h⟩
    exact .whileDo hs h

theorem hasCall_call {site : CallSite} {name : String} {source : SourceRef} :
    HasCall site (.call name source) ↔ site = { name, source } := by
  constructor
  · rintro ⟨⟩
    rfl
  · rintro rfl
    exact .call

/-- The list of calls of a block holds exactly the calls that stand in it. -/
theorem mem_callsIn {site : CallSite} {ss : List Stmt} :
    site ∈ callsIn ss ↔ BlockHasCall site ss := by
  -- the calls are listed in the order of the statements, an inner block in its place
  induction ss using blockInduction with
  | nil => simp [callsIn, BlockHasCall]
  | command c source ss ih =>
      have hnone : ¬ HasCall site (.command c source) := by rintro ⟨⟩
      simp [callsIn, calls, blockHasCall_cons, hnone, ih]
  | loop count body source ss ihbody ih =>
      simp [callsIn, calls, blockHasCall_cons, hasCall_loop, ihbody, ih]
  | ifThen condition consequent source ss ihbody ih =>
      simp [callsIn, calls, blockHasCall_cons, hasCall_ifThen, ihbody, ih]
  | ifElse condition consequent alternate source ss ihthen ihelse ih =>
      simp [callsIn, calls, blockHasCall_cons, hasCall_ifElse, ihthen, ihelse, ih, or_assoc]
  | whileDo condition body source ss ihbody ih =>
      simp [callsIn, calls, blockHasCall_cons, hasCall_whileDo, ihbody, ih]
  | call name source ss ih =>
      simp [callsIn, calls, blockHasCall_cons, hasCall_call, ih]

end Stmt

/-! ## Functions and their names -/

/-- A name has a body exactly if a function has that name. -/
theorem FunctionDef.exists_body?_iff {functions : List FunctionDef} {name : String} :
    (∃ body, body? functions name = some body) ↔ name ∈ functions.map (·.name) := by
  simp only [body?, Option.map_eq_some_iff, List.mem_map]
  constructor
  · rintro ⟨_, f, hf, rfl⟩
    exact ⟨f, List.mem_of_find?_eq_some hf, by simpa using List.find?_some hf⟩
  · rintro ⟨f, hf, hname⟩
    have hsome : (functions.find? (·.name == name)).isSome := by
      rw [List.find?_isSome]
      exact ⟨f, hf, by simpa using hname⟩
    obtain ⟨g, hg⟩ := Option.isSome_iff_exists.mp hsome
    exact ⟨g.body, g, hg, rfl⟩

theorem FunctionDef.body?_eq_none_iff {functions : List FunctionDef} {name : String} :
    body? functions name = none ↔ name ∉ functions.map (·.name) := by
  rw [← exists_body?_iff, Option.eq_none_iff_forall_ne_some, not_exists]

namespace Script

/-- The body that the caller's name stands for calls the callee. -/
def Calls (functions : List FunctionDef) (caller callee : String) : Prop :=
  ∃ body source, FunctionDef.body? functions caller = some body ∧
    Stmt.BlockHasCall { name := callee, source } body

/-- A call of the program: in the main statements, or in the body that some name stands for. -/
def Occurs (main : List Stmt) (functions : List FunctionDef) (site : CallSite) : Prop :=
  Stmt.BlockHasCall site main ∨
    ∃ name body, FunctionDef.body? functions name = some body ∧ Stmt.BlockHasCall site body

/-- Every call has a function, and no function reaches itself. -/
structure WellCalled (main : List Stmt) (functions : List FunctionDef) : Prop where
  defined : ∀ site, Occurs main functions site → site.name ∈ functions.map (·.name)
  acyclic : ∀ name, ¬ Relation.TransGen (Calls functions) name name

/-! ## Trails -/

/-- The functions that a search is inside of when it comes to a call: distinct functions that all
reach the callee, with room for the search to enter as many more as there may be. -/
structure Trail (functions : List FunctionDef) (path : List String) (callee : String)
    (spare : Nat) : Prop where
  nodup : path.Nodup
  defined : ∀ name ∈ path, name ∈ functions.map (·.name)
  reaches : ∀ name ∈ path, Relation.TransGen (Calls functions) name callee
  room : functions.length ≤ path.length + spare

variable {functions : List FunctionDef} {path : List String} {callee : String} {spare : Nat}

/-- Nothing has been entered at the main statements. -/
theorem Trail.nil (functions : List FunctionDef) (callee : String) :
    Trail functions [] callee functions.length where
  nodup := .nil
  defined := by simp
  reaches := by simp
  room := by simp

theorem Trail.widen (h : Trail functions path callee spare) :
    Trail functions path callee (spare + 1) :=
  { h with room := Nat.le_succ_of_le h.room }

/-- A search that enters the callee comes to the calls in its body. -/
theorem Trail.enter (h : Trail functions path callee (spare + 1)) (hnew : callee ∉ path)
    {body : List Stmt} (hbody : FunctionDef.body? functions callee = some body)
    {site : CallSite} (hsite : Stmt.BlockHasCall site body) :
    Trail functions (callee :: path) site.name spare := by
  have hstep : Calls functions callee site.name := ⟨body, site.source, hbody, hsite⟩
  refine ⟨List.nodup_cons.mpr ⟨hnew, h.nodup⟩, ?_, ?_, ?_⟩
  · exact List.forall_mem_cons.mpr ⟨FunctionDef.exists_body?_iff.mp ⟨body, hbody⟩, h.defined⟩
  · exact List.forall_mem_cons.mpr ⟨.single hstep, fun name hname => (h.reaches name hname).tail hstep⟩
  · have := h.room
    simp only [List.length_cons]
    omega

/-- A path without room for another function holds them all. -/
theorem Trail.mem_of_no_spare (h : Trail functions path callee 0)
    (hdefined : callee ∈ functions.map (·.name)) : callee ∈ path := by
  by_contra hnew
  -- otherwise the path and the callee would be more names than there are functions
  have hnodup : (callee :: path).Nodup := List.nodup_cons.mpr ⟨hnew, h.nodup⟩
  have hsubset : callee :: path ⊆ functions.map (·.name) :=
    List.cons_subset.mpr ⟨hdefined, h.defined⟩
  have hlength := (List.subperm_of_subset hnodup hsubset).length_le
  have := h.room
  simp only [List.length_cons, List.length_map] at hlength
  omega

end Script

end GemGrid
