import GemGrid.Proofs.Grid.Reading
import GemGrid.Proofs.Run.Runs
import GemGrid.Proofs.Script.CallCheck
import GemGrid.Script.Parser

/-!
# Faults that checked input cannot cause

The machine looks up every function that it calls, refuses to call one that it is inside of, and
asks every portal for its other end.  For a program whose calls have been checked and a map that
has been read, none of these guards ever stops a run.

The agenda of a machine mirrors the call graph: the end marks on it are functions that have been
entered, and every call in front of a mark is reached by the function that the mark belongs to.
This is `Nested`.  It holds at the start, where there are no marks, and every move keeps it
(`nested_of_leads`); a call of a function whose mark is on the agenda would close a cycle.

The diagnostics of an outcome come from the fault that stopped the run, which has a `Cause` at a
machine that the run came by (`Reachable.exists_cause`), and from what was left undone.
-/

namespace GemGrid

open Script

/-! ## Calls on the agenda -/

/-- A call stands somewhere in a task. -/
inductive Task.HasCall (site : CallSite) : Task → Prop
  | run {s : Stmt} : s.HasCall site → HasCall site (.run s)
  | recheck {rounds : Nat} {condition : Condition} {body : List Stmt} {source : SourceRef} :
      Stmt.BlockHasCall site body → HasCall site (.recheck rounds condition body source)

/-- A call of the program that is reached by every function whose end is on the agenda. -/
structure Below (main : List Stmt) (functions : List FunctionDef) (agenda : List Task)
    (site : CallSite) : Prop where
  occurs : Occurs main functions site
  reached : ∀ name ∈ Task.active agenda, Relation.TransGen (Calls functions) name site.name

/-- Every call on an agenda is reached by the functions that end after it. -/
inductive Nested (main : List Stmt) (functions : List FunctionDef) : List Task → Prop
  | nil : Nested main functions []
  | cons {task : Task} {rest : List Task} :
      (∀ site, task.HasCall site → Below main functions rest site) →
      Nested main functions rest → Nested main functions (task :: rest)

@[simp] theorem Task.active_ahead (ss : List Stmt) (agenda : List Task) :
    active (ahead ss agenda) = active agenda := by
  have hruns : active (ss.map .run) = [] := by
    simp [active, List.filterMap_map]
  rw [active, ahead, List.filterMap_append]
  exact congrArg (· ++ active agenda) hruns

section Nesting

variable {main : List Stmt} {functions : List FunctionDef} {rest : List Task}

theorem Nested.of_append {idle : List Task} (h : Nested main functions (idle ++ rest)) :
    Nested main functions rest := by
  induction idle with
  | nil => exact h
  | cons task idle ih =>
      cases h with
      | cons _ h => exact ih h

/-- A block may be put in front of an agenda if its calls may stand there. -/
theorem Nested.ahead {ss : List Stmt}
    (hcalls : ∀ site, Stmt.BlockHasCall site ss → Below main functions rest site)
    (hrest : Nested main functions rest) : Nested main functions (Task.ahead ss rest) := by
  induction ss with
  | nil => exact hrest
  | cons s ss ih =>
      rw [Task.ahead, List.map_cons, List.cons_append]
      refine .cons ?_ (ih fun site hsite => hcalls site (Stmt.blockHasCall_cons.mpr (.inr hsite)))
      rintro site ⟨hsite⟩
      obtain ⟨hoccurs, hreached⟩ := hcalls site (Stmt.blockHasCall_cons.mpr (.inl hsite))
      exact ⟨hoccurs, by rwa [← Task.ahead, Task.active_ahead]⟩

/-- A block may be followed by another round of it, counted or checked. -/
theorem Nested.round {body : List Stmt} {again : Task}
    (hcalls : ∀ site, Stmt.BlockHasCall site body → Below main functions rest site)
    (hagain : ∀ site, again.HasCall site → Stmt.BlockHasCall site body)
    (hmarks : Task.active (again :: rest) = Task.active rest)
    (hrest : Nested main functions rest) :
    Nested main functions (Task.ahead body (again :: rest)) := by
  refine .ahead (fun site hsite => ?_) (.cons (fun site hsite => ?_) hrest)
  · obtain ⟨hoccurs, hreached⟩ := hcalls site hsite
    exact ⟨hoccurs, by rwa [hmarks]⟩
  · exact hcalls site (hagain site hsite)

/-- The calls in the body of a function that is entered are reached by one function more. -/
theorem Below.enter {name : String} {source : SourceRef} {body : List Stmt}
    (h : Below main functions rest { name, source })
    (hbody : FunctionDef.body? functions name = some body) {site : CallSite}
    (hsite : Stmt.BlockHasCall site body) :
    Below main functions (.leave name :: rest) site := by
  have hstep : Calls functions name site.name := ⟨body, site.source, hbody, hsite⟩
  refine ⟨.inr ⟨name, body, hbody, hsite⟩, ?_⟩
  exact List.forall_mem_cons.mpr
    ⟨.single hstep, fun caller hcaller => (h.reached caller hcaller).tail hstep⟩

/-- At the start no function has been entered. -/
theorem nested_start (main : List Stmt) (functions : List FunctionDef) :
    Nested main functions (Task.ahead main []) :=
  .ahead (fun site hsite => ⟨.inl hsite, by simp [Task.active]⟩) .nil

end Nesting

namespace Machine

variable {main : List Stmt} {setting : Setting} {m : Machine} {task : Task} {rest : List Task}

theorem Selects.hasCall {condition : Condition} {consequent alternate : List Stmt}
    (h : Selects task condition consequent alternate) {site : CallSite}
    (hsite : Stmt.BlockHasCall site consequent ∨ Stmt.BlockHasCall site alternate) :
    task.HasCall site := by
  cases h with
  | ifThen =>
      rcases hsite with hsite | ⟨_, hmem, _⟩
      · exact .run (Stmt.hasCall_ifThen.mpr hsite)
      · simp at hmem
  | ifElse => exact .run (Stmt.hasCall_ifElse.mpr hsite)

theorem Checks.hasCall {rounds : Nat} {condition : Condition} {body : List Stmt}
    {source : SourceRef} (h : Checks task rounds condition body source) {site : CallSite}
    (hsite : Stmt.BlockHasCall site body) : task.HasCall site := by
  cases h with
  | first => exact .run (Stmt.hasCall_whileDo.mpr hsite)
  | again => exact .recheck hsite

/-- What a task leads to is nested if the task was. -/
theorem nested_of_leads {agenda : List Task}
    (hnested : Nested main setting.functions (task :: rest))
    (hleads : Leads setting m task rest agenda) : Nested main setting.functions agenda := by
  cases hnested with
  | cons htask hrest =>
      cases hleads with
      | command => exact hrest
      | loop =>
          refine .round (fun site hsite => ?_) ?_ rfl hrest
          · exact htask site (.run (Stmt.hasCall_loop.mpr hsite))
          · rintro site ⟨hsite⟩
            exact Stmt.hasCall_loop.mp hsite
      | branch hselects =>
          refine .ahead (fun site hsite => htask site (hselects.hasCall ?_)) hrest
          split at hsite
          · exact .inl hsite
          · exact .inr hsite
      | stop _ _ => exact hrest
      | round hchecks _ =>
          refine .round (fun site hsite => htask site (hchecks.hasCall hsite)) ?_ rfl hrest
          rintro site ⟨⟩
          assumption
      | call hbody _ =>
          -- the mark adds a function that is entered, and no call
          refine .ahead (fun site hsite => (htask _ (.run .call)).enter hbody hsite) ?_
          exact .cons (fun site hsite => nomatch hsite) hrest
      | leave => exact hrest

/-- The agenda of every machine that a run comes by is nested. -/
theorem Reachable.nested {start : Machine} (hstart : Nested main setting.functions start.agenda)
    (h : Reachable setting start m) : Nested main setting.functions m.agenda := by
  induction h with
  | start => exact hstart
  | @move m task rest _ hnext ih =>
      obtain ⟨idle, hagenda, _, _⟩ := Task.next?_eq_some hnext
      rw [hagenda] at ih
      have hmoved := moved_move setting m task rest
      generalize m.move setting task rest = m' at hmoved ⊢
      cases hmoved with
      | stopped _ _ => exact .nil
      | went hleads _ => exact nested_of_leads ih.of_append hleads

/-! ## Causes -/

/-- The fault that has stopped a run has a cause at a machine that the run came by. -/
theorem Reachable.exists_cause {start : Machine} (hstart : start.fault = none)
    (h : Reachable setting start m) {d : Diagnostic} (hfault : m.fault = some d) :
    ∃ m₀ task rest fault source, Reachable setting start m₀ ∧
      Task.next? m₀.agenda = some (task, rest) ∧ Cause setting m₀ task rest fault ∧
      d = fault.toDiagnostic source := by
  induction h with
  | start => rw [hstart] at hfault; cases hfault
  -- the fault is there already, or it is the one of this move
  | @move m task rest hreach hnext ih =>
      have hmoved := moved_move setting m task rest
      generalize m.move setting task rest = m' at hmoved hfault
      cases hmoved with
      | @stopped m₁ fault note hcause _ =>
          exact ⟨m, task, rest, fault, note.source, hreach, hnext, hcause,
            (Option.some.inj hfault).symm⟩
      | went _ hsame => exact ih (hsame.symm.trans hfault)

/-- In a program whose calls are in order no guard of a call is a cause. -/
theorem Cause.code_mem {fault : Fault} (h : Cause setting m task rest fault)
    (hcalls : WellCalled main setting.functions)
    (hnested : Nested main setting.functions (task :: rest)) :
    fault.code ∈ [400, 401, 402, 403, 404, 405, 406] := by
  cases hnested with
  | cons htask _ =>
      cases h with
      | budget _ => simp [Fault.code]
      | command hrefusal => cases hrefusal <;> simp [Fault.code]
      | whileLimit _ _ _ => simp [Fault.code]
      | @undefined name source _ hnone =>
          have hsite := (htask { name, source } (.run .call)).occurs
          exact absurd (hcalls.defined _ hsite) (FunctionDef.body?_eq_none_iff.mp hnone)
      | @recursion name source _ hactive =>
          -- a function that is still to end reaches this call of itself
          have hcycle := (htask { name, source } (.run .call)).reached name hactive
          exact absurd hcycle (hcalls.acyclic name)

/-- On a sound map no portal is a cause. -/
theorem Cause.code_ne_portal {fault : Fault} (h : Cause setting m task rest fault)
    (hmap : setting.map.Sound) : fault.code ≠ 404 := by
  cases h with
  | command hrefusal =>
      cases hrefusal with
      | portal hcell hwarp hpartner =>
          obtain ⟨p, _, hcell⟩ := Option.bind_eq_some_iff.mp hcell
          obtain ⟨exit, hexit⟩ := hmap.exists_partner hcell hwarp
          rw [hexit] at hpartner
          cases hpartner
      | _ => simp [Fault.code]
  | _ => simp [Fault.code]

end Machine

/-! ## Outcomes -/

@[simp] theorem Fault.code_toDiagnostic (fault : Fault) (source : Option SourceRef) :
    (fault.toDiagnostic source).code = fault.code := by
  cases source <;> rfl

theorem code_mem_of_leftUndone {gems closed : Nat} {d : Diagnostic}
    (h : d ∈ leftUndone gems closed) : d.code ∈ [500, 501] := by
  simp only [leftUndone, List.mem_append, List.mem_ite_nil_right, List.mem_singleton] at h
  rcases h with ⟨_, rfl⟩ | ⟨_, rfl⟩ <;> simp [Diagnostic.plain]

/-- A diagnostic of a run from a start tells of a fault with a cause or of what was left undone. -/
theorem Ends.cause_of_mem {map : GridMap} {program : Program} {limits : Limits} {o : Outcome}
    {start : Cell} (hstart : map.start = some start) (h : Ends map program limits o)
    {d : Diagnostic} (hd : d ∈ o.diagnostics) :
    (∃ m task rest fault source,
      Machine.Reachable { map, functions := program.functions, limits }
        (.atStart map program start) m ∧
      Task.next? m.agenda = some (task, rest) ∧
      Machine.Cause { map, functions := program.functions, limits } m task rest fault ∧
      d = fault.toDiagnostic source) ∨ d.code ∈ [500, 501] := by
  obtain ⟨m, hreach, _, rfl⟩ := h.exists_machine hstart
  rcases List.mem_append.mp hd with hfault | hundone
  · rw [Option.mem_toList, Machine.fault_close] at hfault
    exact .inl (hreach.exists_cause rfl hfault)
  · exact .inr (code_mem_of_leftUndone hundone)

theorem Ends.code_of_mem {map : GridMap} {program : Program} {limits : Limits} {o : Outcome}
    {start : Cell} (hstart : map.start = some start)
    (hcalls : WellCalled program.main program.functions) (h : Ends map program limits o)
    {d : Diagnostic} (hd : d ∈ o.diagnostics) :
    (d.code ∈ [400, 401, 402, 403, 404, 405, 406] ∧ (map.Sound → d.code ≠ 404)) ∨
      d.code ∈ [500, 501] := by
  rcases h.cause_of_mem hstart hd with
    ⟨m, task, rest, fault, source, hreach, hnext, hcause, rfl⟩ | hundone
  · have hnested := hreach.nested (nested_start program.main program.functions)
    obtain ⟨idle, hagenda, _, _⟩ := Task.next?_eq_some hnext
    rw [hagenda] at hnested
    rw [Fault.code_toDiagnostic]
    exact .inl ⟨hcause.code_mem hcalls hnested.of_append, hcause.code_ne_portal⟩
  · exact .inr hundone

/-- On a map without a start a run reports that, and what is left undone. -/
theorem code_of_mem_withoutStart {map : GridMap} {d : Diagnostic}
    (hd : d ∈ (Outcome.withoutStart map).diagnostics) : d.code ∈ [101, 500, 501] := by
  rcases List.mem_cons.mp hd with rfl | hundone
  · simp [Fault.code]
  · exact List.mem_cons_of_mem _ (code_mem_of_leftUndone hundone)

theorem Script.checkCalls_of_assemble {main : List Stmt} {functions : List FunctionDef}
    {dynamic : Bool} {p : Program} (h : assemble main functions dynamic = .ok p) :
    checkCalls p.main p.functions = .ok () := by
  unfold assemble at h
  obtain ⟨_, hchecked, h⟩ := exists_of_bind_eq_ok h
  obtain ⟨_, _, h⟩ := exists_of_bind_eq_ok h
  cases h
  exact eq_ok_of_mapError hchecked

/-- A script that can be read has its calls in order. -/
theorem Script.checkCalls_of_read {text : String} {p : Program} (h : Script.read text = .ok p) :
    checkCalls p.main p.functions = .ok () := by
  have hparse := eq_ok_of_mapError h
  unfold parse at hparse
  split at hparse
  · cases hparse
  · obtain ⟨⟨⟨main, functions⟩, dynamic⟩, _, hparse⟩ := exists_of_bind_eq_ok hparse
    dsimp only at hparse
    split at hparse
    · cases hparse
    · exact checkCalls_of_assemble hparse

/-- **No guard of a checked program is ever reached.**  The calls of a program that has been read
are in order.  A run that ends of a program with its calls in order reports neither a missing
function nor a recursion; on a map that has been read it reports neither a missing start nor a
portal without destination either. -/
theorem guards_unreachable :
    (∀ text p, Script.read text = .ok p → checkCalls p.main p.functions = .ok ()) ∧
    ∀ p : Program, checkCalls p.main p.functions = .ok () →
      ∀ map limits o, Ends map p limits o →
        (∀ d ∈ o.diagnostics, d.code ≠ 300 ∧ d.code ≠ 301) ∧
        ∀ text, GridMap.read {} text = .ok map →
          ∀ d ∈ o.diagnostics, d.code ∈ [400, 401, 402, 403, 405, 406, 500, 501] := by
  refine ⟨fun text p => checkCalls_of_read, fun p hchecked map limits o hends => ?_⟩
  have hcalls := checkCalls_eq_ok_iff.mp hchecked
  cases hstart : map.start with
  | none =>
      obtain rfl := hends.eq_withoutStart hstart
      -- a map that was read has a start, so only the first clause is about this case
      refine ⟨fun d hd => ?_, fun text htext => ?_⟩
      · have hcode := code_of_mem_withoutStart hd
        simp only [List.mem_cons, List.not_mem_nil, or_false] at hcode
        omega
      · have hsome := (GridMap.sound_of_read htext).start
        rw [hstart] at hsome
        cases hsome
  | some start =>
      refine ⟨fun d hd => ?_, fun text htext d hd => ?_⟩
      · have hcode := hends.code_of_mem hstart hcalls hd
        simp only [List.mem_cons, List.not_mem_nil, or_false] at hcode
        omega
      · have hcode := hends.code_of_mem hstart hcalls hd
        have hmap := GridMap.sound_of_read htext
        simp only [List.mem_cons, List.not_mem_nil, or_false, hmap, true_imp_iff] at hcode ⊢
        omega

/-- Two functions, one inside the other, lead through a portal and then into a wall. -/
theorem guards_unreachable_portal_and_wall :
    let script := "\n".intercalate ["func two() \x7b", "for 2 times \x7b", "moveForward()", "\x7d",
      "\x7d", "func go() \x7b", "two()", "\x7d", "go()", "two()"]
    let drawing := "→\tW1\t止\nW1\t♦\t止"
    ∃ p map o, Script.read script = .ok p ∧ GridMap.read {} drawing = .ok map ∧ Ends map p {} o ∧
      o.diagnostics.map (·.code) = [401, 500] ∧
      ∀ d ∈ o.diagnostics, d.code ∈ [400, 401, 402, 403, 405, 406, 500, 501] := by
  intro script drawing
  have hcodes : ((Script.read script).toOption.bind fun p =>
      (GridMap.read {} drawing).toOption.bind fun map =>
        (simulateWithin 20 map p {}).map fun o => o.diagnostics.map (·.code)) =
      some [401, 500] := by
    decide +kernel
  obtain ⟨p, hp, hcodes⟩ := Option.bind_eq_some_iff.mp hcodes
  obtain ⟨map, hmap, hcodes⟩ := Option.bind_eq_some_iff.mp hcodes
  obtain ⟨o, ho, hcodes⟩ := Option.map_eq_some_iff.mp hcodes
  replace hp := eq_ok_of_toOption hp
  replace hmap := eq_ok_of_toOption hmap
  have hends : Ends map p {} o := ⟨20, ho⟩
  have hchecked := guards_unreachable.1 script p hp
  exact ⟨p, map, o, hp, hmap, hends, hcodes,
    (guards_unreachable.2 p hchecked map {} o hends).2 drawing hmap⟩

end GemGrid
