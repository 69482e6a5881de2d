import GemGrid.Proofs.Script.CallGraph

/-!
# The check of the calls is exact

`checkCalls` accepts a program exactly if it is `WellCalled`, and an error it reports is true: the
call it names is a call of the program, and its function is missing or reaches itself.

The functions that the search has cleared are an order in which each function calls only later
ones (`CallOrder`).  Such an order has no cycles, because nothing can be reached from its end.  The
functions on the path of the search form a `Trail`, so a call of one of them closes a cycle.  Both
facts are kept together as a `Verdict` on what the search returns:

* `follow_verdict` for one call, by induction on the room that is left,
* `foldlM_verdict` for the calls of a block, one after the other,
* `followDefs_verdict` for the functions of the program, of which only the first of a name counts.
-/

namespace GemGrid.Script

variable {main : List Stmt} {functions : List FunctionDef}

/-! ## Orders of functions -/

/-- Functions in an order in which each one calls only later ones. -/
inductive CallOrder (functions : List FunctionDef) : List String → Prop
  | nil : CallOrder functions []
  | cons {name : String} {body : List Stmt} {rest : List String} :
      FunctionDef.body? functions name = some body →
      (∀ site, Stmt.BlockHasCall site body → site.name ∈ rest) →
      CallOrder functions rest → CallOrder functions (name :: rest)

theorem CallOrder.defined {order : List String} (h : CallOrder functions order) :
    ∀ name ∈ order, name ∈ functions.map (·.name) := by
  induction h with
  | nil => simp
  | cons hbody _ _ ih =>
      exact List.forall_mem_cons.mpr ⟨FunctionDef.exists_body?_iff.mp ⟨_, hbody⟩, ih⟩

/-- An order holds, with a function, the functions that it calls. -/
theorem CallOrder.callee_mem {order : List String} (h : CallOrder functions order)
    {caller callee : String} (hmem : caller ∈ order) (hcall : Calls functions caller callee) :
    callee ∈ order := by
  induction h with
  | nil => simp at hmem
  | cons hbody hlater _ ih =>
      rcases List.mem_cons.mp hmem with rfl | hmem
      · obtain ⟨body, source, hbody', hsite⟩ := hcall
        obtain rfl : _ = body := Option.some.inj (hbody.symm.trans hbody')
        exact List.mem_cons_of_mem _ (hlater _ hsite)
      · exact List.mem_cons_of_mem _ (ih hmem)

/-- No function of an order reaches itself. -/
theorem CallOrder.acyclic {order : List String} (h : CallOrder functions order) :
    ∀ name ∈ order, ¬ Relation.TransGen (Calls functions) name name := by
  induction h with
  | nil => simp
  | cons hbody hlater _ ih =>
      refine List.forall_mem_cons.mpr ⟨fun hcycle => ?_, ih⟩
      -- the cycle also goes through the callee that it starts with, which comes later
      obtain ⟨callee, hcall, hback⟩ := Relation.TransGen.head'_iff.mp hcycle
      obtain ⟨body, source, hbody', hsite⟩ := id hcall
      obtain rfl : _ = body := Option.some.inj (hbody.symm.trans hbody')
      exact ih callee (hlater _ hsite) (.tail' hback hcall)

/-! ## Verdicts -/

/-- What makes an error about a call true. -/
inductive Justified (main : List Stmt) (functions : List FunctionDef) : CallError → Prop
  | undefined {site : CallSite} : Occurs main functions site →
      site.name ∉ functions.map (·.name) → Justified main functions (.undefined site)
  | recursive {site : CallSite} : Occurs main functions site →
      Relation.TransGen (Calls functions) site.name site.name →
      Justified main functions (.recursive site)

/-- What may come of a search: an order that holds what is wanted, or a true error. -/
def Verdict (main : List Stmt) (functions : List FunctionDef) (wanted : List String) :
    Except CallError (List String) → Prop
  | .ok cleared => CallOrder functions cleared ∧ wanted ⊆ cleared
  | .error e => Justified main functions e

/-- A search goes through its items one after the other, and clears each one. -/
theorem foldlM_verdict {α : Type} {name : α → String}
    {step : List String → α → Except CallError (List String)} {items : List α}
    (hstep : ∀ done item todo cleared, items = done ++ item :: todo →
      CallOrder functions cleared → done.map name ⊆ cleared →
      Verdict main functions (name item :: cleared) (step cleared item))
    {cleared : List String} (horder : CallOrder functions cleared) :
    Verdict main functions (items.map name ++ cleared) (items.foldlM step cleared) := by
  -- the induction is on what is left, and keeps what came before it for the step
  suffices hfrom : ∀ todo done cleared, items = done ++ todo → CallOrder functions cleared →
      done.map name ⊆ cleared →
      Verdict main functions (todo.map name ++ cleared) (todo.foldlM step cleared) from
    hfrom items [] cleared rfl horder (by simp)
  intro todo
  induction todo with
  | nil =>
      intro done cleared _ horder _
      exact ⟨horder, List.Subset.refl _⟩
  | cons item todo ih =>
      intro done cleared hitems horder hdone
      have hfirst := hstep done item todo cleared hitems horder hdone
      rw [List.foldlM_cons]
      cases hresult : step cleared item with
      | error e => rwa [hresult] at hfirst
      | ok cleared₁ =>
          rw [hresult] at hfirst
          obtain ⟨horder₁, hcleared₁⟩ := hfirst
          obtain ⟨hitem, hkept⟩ := List.cons_subset.mp hcleared₁
          have hrest := ih (done ++ [item]) cleared₁ (by simp [hitems]) horder₁
            (by simpa [hitem] using List.Subset.trans hdone hkept)
          change Verdict main functions _ (todo.foldlM step cleared₁)
          cases hresult₂ : todo.foldlM step cleared₁ with
          | error e => rwa [hresult₂] at hrest
          | ok cleared₂ =>
              rw [hresult₂] at hrest
              obtain ⟨horder₂, hcleared₂⟩ := hrest
              obtain ⟨htodo, hkept₂⟩ := List.append_subset.mp hcleared₂
              refine ⟨horder₂, List.append_subset.mpr ⟨?_, List.Subset.trans hkept hkept₂⟩⟩
              exact List.cons_subset.mpr ⟨hkept₂ hitem, htodo⟩

/-- A function whose calls have all been followed is cleared. -/
theorem Verdict.clear {name : String} {body : List Stmt} {cleared : List String}
    {result : Except CallError (List String)}
    (hbody : FunctionDef.body? functions name = some body)
    (h : Verdict main functions ((Stmt.callsIn body).map (·.name) ++ cleared) result) :
    Verdict main functions (name :: cleared) (result >>= fun cleared => .ok (name :: cleared)) := by
  cases result with
  | error e => exact h
  | ok cleared₁ =>
      obtain ⟨horder, hwanted⟩ := h
      obtain ⟨hcallees, hkept⟩ := List.append_subset.mp hwanted
      refine ⟨.cons hbody (fun site hsite => ?_) horder, List.cons_subset_cons _ hkept⟩
      exact hcallees (List.mem_map_of_mem (Stmt.mem_callsIn.mpr hsite))

/-! ## Following calls -/

/-- A call that the search does not enter: its function is missing, on the path or cleared. -/
theorem follow_verdict_of_seen {spare : Nat} {path cleared : List String} {site : CallSite}
    (htrail : Trail functions path site.name spare) (hsite : Occurs main functions site)
    (horder : CallOrder functions cleared)
    (hseen : FunctionDef.body? functions site.name = none ∨ site.name ∈ path ∨
      site.name ∈ cleared) :
    Verdict main functions (site.name :: cleared) (follow functions spare path cleared site) := by
  rw [follow, lookup]
  cases hbody : FunctionDef.body? functions site.name with
  | none => exact .undefined hsite (FunctionDef.body?_eq_none_iff.mp hbody)
  -- a name on the path closes a cycle; off the path it can only be cleared
  | some body =>
      simp only [bind, Except.bind, List.contains_iff_mem]
      by_cases hpath : site.name ∈ path
      · rw [if_pos hpath]
        exact .recursive hsite (htrail.reaches _ hpath)
      · have hcleared : site.name ∈ cleared := by simpa [hbody, hpath] using hseen
        rw [if_neg hpath, if_pos hcleared]
        exact ⟨horder, List.cons_subset.mpr ⟨hcleared, List.Subset.refl _⟩⟩

/-- One call. -/
theorem follow_verdict (spare : Nat) :
    ∀ (path cleared : List String) (site : CallSite),
      Trail functions path site.name spare → Occurs main functions site →
      CallOrder functions cleared →
      Verdict main functions (site.name :: cleared)
        (follow functions spare path cleared site) := by
  induction spare with
  | zero =>
      intro path cleared site htrail hsite horder
      refine follow_verdict_of_seen htrail hsite horder ?_
      -- without room the path holds every function, so this is no call that could be entered
      cases hbody : FunctionDef.body? functions site.name with
      | none => exact .inl rfl
      | some body =>
          exact .inr (.inl (htrail.mem_of_no_spare (FunctionDef.exists_body?_iff.mp ⟨body, hbody⟩)))
  | succ spare ih =>
      intro path cleared site htrail hsite horder
      by_cases hseen : FunctionDef.body? functions site.name = none ∨ site.name ∈ path ∨
          site.name ∈ cleared
      · exact follow_verdict_of_seen htrail hsite horder hseen
      · simp only [not_or] at hseen
        obtain ⟨hbody, hpath, hcleared⟩ := hseen
        obtain ⟨body, hbody⟩ := Option.ne_none_iff_exists'.mp hbody
        rw [follow, lookup, hbody]
        simp only [List.contains_iff_mem, if_neg hpath, if_neg hcleared]
        refine Verdict.clear hbody (foldlM_verdict ?_ horder)
        intro done inner todo cleared₁ hitems horder₁ _
        have hinner : Stmt.BlockHasCall inner body := Stmt.mem_callsIn.mp (by simp [hitems])
        exact ih _ cleared₁ inner (htrail.enter hpath hbody hinner)
          (.inr ⟨site.name, body, hbody, hinner⟩) horder₁

/-- The calls of a block, when the search comes to each of them along the same path. -/
theorem block_verdict {spare : Nat} {path cleared : List String} {ss : List Stmt}
    (htrail : ∀ site, Stmt.BlockHasCall site ss → Trail functions path site.name spare)
    (hoccurs : ∀ site, Stmt.BlockHasCall site ss → Occurs main functions site)
    (horder : CallOrder functions cleared) :
    Verdict main functions ((Stmt.callsIn ss).map (·.name) ++ cleared)
      ((Stmt.callsIn ss).foldlM (follow functions spare path) cleared) := by
  refine foldlM_verdict ?_ horder
  intro done site todo cleared₁ hitems horder₁ _
  have hsite : Stmt.BlockHasCall site ss := Stmt.mem_callsIn.mp (by simp [hitems])
  exact follow_verdict spare path cleared₁ site (htrail site hsite) (hoccurs site hsite) horder₁

/-- Of the functions with one name, the first is the one that the name stands for. -/
theorem body?_of_first {done todo : List FunctionDef} {f : FunctionDef}
    (hfirst : f.name ∉ done.map (·.name)) :
    FunctionDef.body? (done ++ f :: todo) f.name = some f.body := by
  have hdone : done.find? (·.name == f.name) = none := by
    rw [List.find?_eq_none]
    intro g hg hname
    exact hfirst (List.mem_map.mpr ⟨g, hg, by simpa using hname⟩)
  simp [FunctionDef.body?, List.find?_append, hdone]

/-- All functions, in the order of their definitions. -/
theorem followDefs_verdict {cleared : List String} (horder : CallOrder functions cleared) :
    Verdict main functions (functions.map (·.name) ++ cleared)
      (functions.foldlM (followDef functions) cleared) := by
  refine foldlM_verdict ?_ horder
  intro done f todo cleared₁ hitems horder₁ hdone
  unfold followDef
  by_cases hcleared : f.name ∈ cleared₁
  · simp only [List.contains_iff_mem, if_pos hcleared]
    exact ⟨horder₁, List.cons_subset.mpr ⟨hcleared, List.Subset.refl _⟩⟩
  · -- a definition that is followed is the first of its name, since the others are cleared
    have hbody : FunctionDef.body? functions f.name = some f.body := by
      rw [hitems]
      exact body?_of_first fun hmem => hcleared (hdone hmem)
    simp only [List.contains_iff_mem, if_neg hcleared]
    refine Verdict.clear hbody (block_verdict (fun site hsite => ?_) (fun site hsite => ?_) horder₁)
    · exact (Trail.nil functions f.name).widen.enter (by simp) hbody hsite
    · exact .inr ⟨f.name, f.body, hbody, hsite⟩

/-! ## The whole check -/

/-- The check of a program ends in an order of all its functions, or in a true error. -/
theorem checkCalls_verdict (main : List Stmt) (functions : List FunctionDef) :
    match checkCalls main functions with
    | .ok () => ∃ order, CallOrder functions order ∧
        (Stmt.callsIn main).map (·.name) ⊆ order ∧ functions.map (·.name) ⊆ order
    | .error e => Justified main functions e := by
  have hmain : Verdict main functions ((Stmt.callsIn main).map (·.name) ++ [])
      ((Stmt.callsIn main).foldlM (follow functions functions.length []) []) :=
    block_verdict (fun site _ => Trail.nil functions site.name) (fun site hsite => .inl hsite) .nil
  unfold checkCalls
  cases hresult : (Stmt.callsIn main).foldlM (follow functions functions.length []) [] with
  | error e => rwa [hresult] at hmain
  | ok cleared =>
      rw [hresult] at hmain
      obtain ⟨horder, hcalled⟩ := hmain
      -- the main program was followed first, so the definitions start from what it cleared
      have hdefs : Verdict main functions _ _ := followDefs_verdict horder
      simp only [bind, Except.bind]
      cases hresult₂ : functions.foldlM (followDef functions) cleared with
      | error e => rwa [hresult₂] at hdefs
      | ok order =>
          rw [hresult₂] at hdefs
          obtain ⟨horder₂, hwanted⟩ := hdefs
          obtain ⟨hnames, hkept⟩ := List.append_subset.mp hwanted
          exact ⟨order, horder₂, (by simpa using List.Subset.trans hcalled hkept), hnames⟩

/-- A program whose functions can be put in order is well called. -/
theorem wellCalled_of_callOrder {order : List String} (horder : CallOrder functions order)
    (hmain : (Stmt.callsIn main).map (·.name) ⊆ order)
    (hnames : functions.map (·.name) ⊆ order) : WellCalled main functions where
  defined := by
    intro site hsite
    rcases hsite with hsite | ⟨name, body, hbody, hsite⟩
    · exact horder.defined _ (hmain (List.mem_map_of_mem (Stmt.mem_callsIn.mpr hsite)))
    · have hcaller : name ∈ order := hnames (FunctionDef.exists_body?_iff.mp ⟨body, hbody⟩)
      exact horder.defined _ (horder.callee_mem hcaller ⟨body, site.source, hbody, hsite⟩)
  acyclic := by
    intro name hcycle
    obtain ⟨_, ⟨body, _, hbody, _⟩, _⟩ := Relation.TransGen.head'_iff.mp hcycle
    exact horder.acyclic name (hnames (FunctionDef.exists_body?_iff.mp ⟨body, hbody⟩)) hcycle

theorem Justified.not_wellCalled {e : CallError} (h : Justified main functions e) :
    ¬ WellCalled main functions := by
  intro hcalls
  cases h with
  | undefined hsite hnone => exact hnone (hcalls.defined _ hsite)
  | recursive _ hcycle => exact hcalls.acyclic _ hcycle

theorem justified_of_checkCalls {e : CallError} (h : checkCalls main functions = .error e) :
    Justified main functions e := by
  have hverdict := checkCalls_verdict main functions
  rwa [h] at hverdict

/-- The check accepts exactly the programs that are well called. -/
theorem checkCalls_eq_ok_iff :
    checkCalls main functions = .ok () ↔ WellCalled main functions := by
  constructor
  · intro h
    have hverdict := checkCalls_verdict main functions
    rw [h] at hverdict
    obtain ⟨order, horder, hmain, hnames⟩ := hverdict
    exact wellCalled_of_callOrder horder hmain hnames
  · intro hcalls
    cases h : checkCalls main functions with
    | ok _ => rfl
    | error e => exact absurd hcalls (justified_of_checkCalls h).not_wellCalled

/-- **The check of the calls is exact.**  It succeeds exactly if every call of the program has a
function and no function reaches itself; an error names a call of the program and says truly what
is wrong with it. -/
theorem checkCalls_exact (main : List Stmt) (functions : List FunctionDef) :
    (checkCalls main functions = .ok () ↔
      (∀ site, Occurs main functions site → site.name ∈ functions.map (·.name)) ∧
        ∀ name, ¬ Relation.TransGen (Calls functions) name name) ∧
    ∀ e, checkCalls main functions = .error e →
      Occurs main functions e.site ∧
        ((e.code = 300 ∧ e.message = s!"call to undefined function: {e.site.name}()" ∧
            e.site.name ∉ functions.map (·.name)) ∨
          (e.code = 301 ∧
            e.message = s!"recursive function calls are not supported: {e.site.name}()" ∧
            Relation.TransGen (Calls functions) e.site.name e.site.name)) := by
  refine ⟨?_, fun e he => ?_⟩
  · rw [checkCalls_eq_ok_iff]
    exact ⟨fun h => ⟨h.defined, h.acyclic⟩, fun h => ⟨h.1, h.2⟩⟩
  · cases justified_of_checkCalls he with
    | undefined hsite hnone => exact ⟨hsite, .inl ⟨rfl, rfl, hnone⟩⟩
    | recursive hsite hcycle => exact ⟨hsite, .inr ⟨rfl, rfl, hcycle⟩⟩

/-- A cycle below a function that is called twice, behind a second definition that does not count. -/
theorem checkCalls_exact_shared_cycle :
    let call (name : String) : Stmt := .call name { line := 1, text := name }
    let define (name : String) (body : List Stmt) : FunctionDef :=
      { name, body, source := { line := 1, text := name } }
    let functions := [define "top" [call "shared", call "shared"], define "shared" [call "loop"],
      define "loop" [.loop 2 [call "back"] { line := 1, text := "for" }],
      define "back" [call "loop"], define "back" []]
    checkCalls [call "top"] functions =
        .error (.recursive { name := "loop", source := { line := 1, text := "loop" } }) ∧
      Relation.TransGen (Calls functions) "loop" "loop" := by
  intro call define functions
  have herror : checkCalls [call "top"] functions =
      .error (.recursive { name := "loop", source := { line := 1, text := "loop" } }) := by
    decide +kernel
  refine ⟨herror, ?_⟩
  rcases (checkCalls_exact _ _).2 _ herror with ⟨_, ⟨hcode, _⟩ | ⟨_, _, hcycle⟩⟩
  · simp [CallError.code] at hcode
  · exact hcycle

end GemGrid.Script
