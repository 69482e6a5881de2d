import GemGrid.Proofs.Script.Totals

/-!
# The count of the commands is exact

The count goes through the calls of a program in the order in which the check of the calls does, and
leaves off at the first guarded statement.  Up to there the two keep the same books under different
names: the functions of the tally are the functions that the check has cleared.  A tally says so as
long as no guarded statement has been met (`Complete`), and `Parallel` compares what the two return.

* `parallel_countIn` for a block, given that calls go in parallel,
* `parallel_countCall` for a call, by induction on the room that is left.

A count that meets a guarded statement ends without a number at once, on all levels, so an entry of
the tally without a number is never looked up again.  This is why an error of the count is always
the first error of the check (`checkCalls_of_commandCount_error`).

What the count returns where it succeeds was settled with the unrolling of programs.
-/

namespace GemGrid.Script

variable {functions : List FunctionDef}

/-! ## Two searches in parallel -/

/-- The functions of a tally have been counted to the end, and none of them is still being
counted. -/
structure Complete (functions : List FunctionDef) (path : List String) (tally : Tally) : Prop where
  counted : ∀ entry ∈ tally, ∃ n, entry.2 = some n
  defined : ∀ entry ∈ tally, ∃ body, FunctionDef.body? functions entry.1 = some body
  left : ∀ entry ∈ tally, entry.1 ∉ path

theorem complete_nil (path : List String) : Complete functions path [] :=
  ⟨nofun, nofun, nofun⟩

/-- A count fails as the check does, or it has come by the functions that the check has cleared, or
it has met a guarded statement. -/
def Parallel (functions : List FunctionDef) (path : List String) :
    Counted → Except CallError (List String) → Prop
  | .error e, checked => checked = .error e
  | .ok (some _, tally), checked =>
      checked = .ok (tally.map Prod.fst) ∧ Complete functions path tally
  | .ok (none, _), _ => True

/-- What goes on in parallel after a first part, unless a guarded statement ends the count there. -/
theorem Parallel.bind {inner outer : List String} {counted : Counted}
    {checked : Except CallError (List String)} {f : Option Nat × Tally → Counted}
    {g : List String → Except CallError (List String)}
    (h : Parallel functions inner counted checked)
    (hsome : ∀ n tally, Complete functions inner tally →
      Parallel functions outer (f (some n, tally)) (g (tally.map Prod.fst)))
    (hnone : ∀ tally checked, Parallel functions outer (f (none, tally)) checked) :
    Parallel functions outer (counted >>= f) (checked >>= g) := by
  cases counted with
  | error e =>
      cases h
      rfl
  | ok result =>
      obtain ⟨_ | n, tally⟩ := result
      · exact hnone tally _
      · obtain ⟨rfl, hcomplete⟩ := h
        exact hsome n tally hcomplete

section Blocks

variable {path : List String} {counter : Tally → CallSite → Counted}
  {search : List String → CallSite → Except CallError (List String)}

/-- Blocks go in parallel if their first statements and the rest of them do. -/
theorem parallel_countIn_cons {s : Stmt} {ss : List Stmt} {tally : Tally}
    (hfirst : Parallel functions path (countOne counter tally s)
      (s.calls.foldlM search (tally.map Prod.fst)))
    (hrest : ∀ tally, Complete functions path tally → Parallel functions path
      (countIn counter tally ss) ((Stmt.callsIn ss).foldlM search (tally.map Prod.fst))) :
    Parallel functions path (countIn counter tally (s :: ss))
      ((Stmt.callsIn (s :: ss)).foldlM search (tally.map Prod.fst)) := by
  rw [countIn, Stmt.callsIn, List.foldlM_append]
  refine hfirst.bind (fun n tally₁ hcomplete => ?_) fun _ _ => trivial
  -- the number of the rest is added to that of the first statement
  rw [← bind_pure ((Stmt.callsIn ss).foldlM search (tally₁.map Prod.fst))]
  exact (hrest tally₁ hcomplete).bind (fun m tally₂ hcomplete => ⟨rfl, hcomplete⟩)
    fun _ _ => trivial

/-- Blocks go in parallel if calls do. -/
theorem parallel_countIn
    (hcalls : ∀ tally site, Complete functions path tally →
      Parallel functions path (counter tally site) (search (tally.map Prod.fst) site))
    (ss : List Stmt) :
    ∀ tally, Complete functions path tally → Parallel functions path
      (countIn counter tally ss) ((Stmt.callsIn ss).foldlM search (tally.map Prod.fst)) := by
  induction ss using Stmt.blockInduction with
  | nil => exact fun tally hcomplete => ⟨rfl, hcomplete⟩
  | command c source ss ih =>
      intro tally hcomplete
      exact parallel_countIn_cons ⟨rfl, hcomplete⟩ ih
  | loop count body source ss ihbody ih =>
      intro tally hcomplete
      refine parallel_countIn_cons ?_ ih
      -- the body is counted once and its calls are followed once, whatever the number of rounds
      rw [countOne, Stmt.calls, ← bind_pure ((Stmt.callsIn body).foldlM search _)]
      exact (ihbody tally hcomplete).bind (fun n tally₁ hcomplete => ⟨rfl, hcomplete⟩)
        fun _ _ => trivial
  | ifThen condition consequent source ss _ ih =>
      exact fun tally _ => parallel_countIn_cons trivial ih
  | ifElse condition consequent alternate source ss _ _ ih =>
      exact fun tally _ => parallel_countIn_cons trivial ih
  | whileDo condition body source ss _ ih =>
      exact fun tally _ => parallel_countIn_cons trivial ih
  | call name source ss ih =>
      intro tally hcomplete
      refine parallel_countIn_cons ?_ ih
      have hcall := hcalls tally { name, source } hcomplete
      rwa [← bind_pure (search _ _)] at hcall

end Blocks

/-! ## Calls in parallel -/

/-- A function that has been counted to the end has been cleared. -/
theorem parallel_of_lookup {spare : Nat} {path : List String} {tally : Tally} {site : CallSite}
    {known : Option Nat} (hcomplete : Complete functions path tally)
    (hknown : tally.lookup site.name = some known) :
    Parallel functions path (.ok (known, tally))
      (follow functions spare path (tally.map Prod.fst) site) := by
  obtain ⟨before, after, hsplit, -⟩ := List.lookup_eq_some_iff.mp hknown
  have hmem : (site.name, known) ∈ tally := by simp [hsplit]
  -- what was counted before is defined, off the path, and cleared
  obtain ⟨n, rfl⟩ := hcomplete.counted _ hmem
  obtain ⟨body, hbody⟩ := hcomplete.defined _ hmem
  have hlookup : lookup functions site = .ok body := by rw [lookup, hbody]
  have hpath : site.name ∉ path := hcomplete.left _ hmem
  have hcleared : site.name ∈ tally.map Prod.fst := List.mem_map_of_mem hmem
  refine ⟨?_, hcomplete⟩
  rw [follow, hlookup, ok_bind]
  simp only [List.contains_iff_mem, if_neg hpath, if_pos hcleared]

/-- A function that has been counted inside of a path joins the tally. -/
theorem Complete.enter {path : List String} {tally : Tally} {name : String} {body : List Stmt}
    {n : Nat} (h : Complete functions (name :: path) tally)
    (hbody : FunctionDef.body? functions name = some body) (hpath : name ∉ path) :
    Complete functions path ((name, some n) :: tally) where
  counted := List.forall_mem_cons.mpr ⟨⟨n, rfl⟩, h.counted⟩
  defined := List.forall_mem_cons.mpr ⟨⟨body, hbody⟩, h.defined⟩
  left := List.forall_mem_cons.mpr
    ⟨hpath, fun entry hentry => List.not_mem_of_not_mem_cons (h.left entry hentry)⟩

theorem not_mem_names_of_lookup {tally : Tally} {name : String}
    (h : tally.lookup name = none) : name ∉ tally.map Prod.fst := by
  rintro hmem
  obtain ⟨entry, hentry, rfl⟩ := List.mem_map.mp hmem
  simpa using List.lookup_eq_none_iff.mp h entry hentry

/-- A function that is entered has not been counted before. -/
theorem Complete.push {path : List String} {tally : Tally} {name : String}
    (h : Complete functions path tally) (hnew : name ∉ tally.map Prod.fst) :
    Complete functions (name :: path) tally where
  counted := h.counted
  defined := h.defined
  left := by
    intro entry hentry hmem
    rcases List.mem_cons.mp hmem with rfl | hmem
    · exact hnew (List.mem_map_of_mem hentry)
    · exact h.left entry hentry hmem

/-- Calls go in parallel, whatever room is left. -/
theorem parallel_countCall (spare : Nat) :
    ∀ (path : List String) (tally : Tally) (site : CallSite), Complete functions path tally →
      Parallel functions path (countCall functions spare path tally site)
        (follow functions spare path (tally.map Prod.fst) site) := by
  induction spare using Nat.strongRecOn with
  | ind spare ih =>
      intro path tally site hcomplete
      rw [countCall]
      split
      · next hknown => exact parallel_of_lookup hcomplete hknown
      · next hunknown =>
        have hnew := not_mem_names_of_lookup hunknown
        rw [follow]
        cases hlookup : lookup functions site with
        | error e => rfl
        | ok body =>
            rw [ok_bind, ok_bind]
            simp only [List.contains_iff_mem, if_neg hnew]
            by_cases hpath : site.name ∈ path
            · rw [if_pos hpath, if_pos hpath]
              rfl
            · rw [if_neg hpath, if_neg hpath]
              cases spare with
              | zero => rfl
              | succ spare =>
                  -- with the name on the path the body runs under a smaller bound
                  have hinner := parallel_countIn (ih spare spare.lt_succ_self (site.name :: path))
                    body tally (hcomplete.push hnew)
                  refine hinner.bind (fun n tally₁ hcomplete₁ => ⟨rfl, ?_⟩) fun _ _ => trivial
                  exact hcomplete₁.enter (body?_of_lookup hlookup) hpath

/-! ## The whole count -/

/-- The error of a count is the error of the check. -/
theorem checkCalls_of_commandCount_error {main : List Stmt} {e : CallError}
    (h : commandCount main functions = .error e) : checkCalls main functions = .error e := by
  have hnone : Complete functions [] [] := complete_nil []
  -- the count and the check follow the same calls in the same order
  have hparallel := parallel_countIn (parallel_countCall functions.length []) main [] hnone
  unfold commandCount at h
  cases hcount : countIn (countCall functions functions.length []) [] main with
  | ok result =>
      rw [hcount] at h
      cases h
  | error e' =>
      rw [hcount] at h hparallel
      cases h
      have hchecked : (Stmt.callsIn main).foldlM (follow functions functions.length []) [] =
          .error e := hparallel
      rw [checkCalls, hchecked]
      rfl

/-- There is no number exactly if a guarded statement can be reached. -/
theorem commandCount_eq_none_iff {main : List Stmt} (hchecked : checkCalls main functions = .ok ()) :
    commandCount main functions = .ok none ↔ ∃ s, Reaches functions main s ∧ s.Guarded := by
  obtain ⟨count, hcount⟩ := exists_commandCount (checkCalls_eq_ok_iff.mp hchecked)
  cases count with
  | none =>
      refine ⟨fun _ => ?_, fun _ => hcount⟩
      by_contra hstatic
      obtain ⟨flat, hflat⟩ := exists_unrolls_of_static hchecked hstatic
      exact agrees_of_commandCount hcount flat hflat
  | some n =>
      obtain ⟨flat, hflat, rfl⟩ := exists_unrolls_of_commandCount hcount
      refine ⟨fun hnone => ?_, fun hdynamic => absurd hdynamic hflat.static⟩
      rw [hcount] at hnone
      cases hnone

/-- **The count of the commands is exact.**  For a program whose calls have been checked there is no
number exactly if an `if` or a `while` can be reached from the main statements.  Otherwise it is the
number that comes of inlining every call, cut off at the largest 64-bit word.  Whatever the program,
an error of the count is the error that the check of the calls reports. -/
theorem commandCount_exact (main : List Stmt) (functions : List FunctionDef) :
    (checkCalls main functions = .ok () →
      (commandCount main functions = .ok none ↔ ∃ s, Reaches functions main s ∧ s.Guarded) ∧
      ((¬ ∃ s, Reaches functions main s ∧ s.Guarded) →
        ∃ n, Totals functions 0 main n ∧ (∀ n', Totals functions 0 main n' → n' = n) ∧
          commandCount main functions = .ok (some (min n Text.max64)))) ∧
    ∀ e, commandCount main functions = .error e → checkCalls main functions = .error e := by
  refine ⟨fun hchecked => ?_, fun e => checkCalls_of_commandCount_error⟩
  have hnone := commandCount_eq_none_iff hchecked
  refine ⟨hnone, fun hstatic => ?_⟩
  -- nothing is guarded, so the check leaves a number
  obtain ⟨count, hcount⟩ := exists_commandCount (checkCalls_eq_ok_iff.mp hchecked)
  cases count with
  | none => exact absurd (hnone.mp hcount) hstatic
  | some n =>
      obtain ⟨flat, hflat, rfl⟩ := exists_unrolls_of_commandCount hcount
      have htotals := hflat.totals_zero
      exact ⟨flat.length, htotals, fun n' => htotals.unique, hcount⟩

/-- Two loops in a function that is called twice go beyond the largest number, behind a loop without
rounds; a second definition that asks the sensors does not count.  A condition in a loop without
rounds is reached.  A call without a function is reported before a recursion behind it. -/
theorem commandCount_exact_cut_off :
    let ref : SourceRef := { line := 1, text := "moveForward()" }
    let step : Stmt := .command .moveForward ref
    let ask : Stmt := .ifThen (.predicate .isBlocked) [] ref
    let define (name : String) (body : List Stmt) : FunctionDef := { name, body, source := ref }
    let functions := [define "twice" [.call "long" ref, .call "long" ref],
      define "long" [.loop Text.max64 [step] ref], define "long" [ask],
      define "asking" [step, .loop 0 [ask] ref]]
    let main : List Stmt := [.loop 0 [.call "twice" ref] ref, .call "twice" ref]
    checkCalls main functions = .ok () ∧
      Totals functions 0 main (2 * Text.max64) ∧
      commandCount main functions = .ok (some Text.max64) ∧
      checkCalls [.call "asking" ref] functions = .ok () ∧
      (∃ s, Reaches functions [.call "asking" ref] s ∧ s.Guarded) ∧
      checkCalls [.call "twice" ref, .call "none" ref, .call "cycle" ref]
        (define "cycle" [.call "cycle" ref] :: functions) =
        .error (.undefined { name := "none", source := ref }) := by
  intro ref step ask define functions main
  have hchecked : checkCalls main functions = .ok () := by decide +kernel
  have hcount : commandCount main functions = .ok (some Text.max64) := by decide +kernel
  have hasking : checkCalls [.call "asking" ref] functions = .ok () := by decide +kernel
  obtain ⟨hnone, hsome⟩ := (commandCount_exact main functions).1 hchecked
  have hstatic : ¬ ∃ s, Reaches functions main s ∧ s.Guarded := by
    rw [← hnone, hcount]
    nofun
  obtain ⟨n, hn, hunique, -⟩ := hsome hstatic
  have hlong : Totals functions 0 [.loop Text.max64 [step] ref] _ :=
    .loop (.command .nil) .nil
  have htwice : Totals functions 0 [.call "long" ref, .call "long" ref] _ :=
    .call rfl hlong (.call rfl hlong .nil)
  have hmain := hunique _ (.loop (.call rfl htwice .nil) (.call rfl htwice .nil))
  have hbeyond : n = 2 * Text.max64 := by rw [← hmain]; rfl
  refine ⟨hchecked, hbeyond ▸ hn, hcount, hasking, ?_, ?_⟩
  · exact ((commandCount_exact _ _).1 hasking).1.mp (by decide +kernel)
  · exact (commandCount_exact _ _).2 _ (by decide +kernel)

end GemGrid.Script
