import GemGrid.Proofs.Results
import GemGrid.Proofs.Script.CallGraph
import GemGrid.Script.Count

/-!
# Unrolled programs

A block that reaches no `if` and no `while` can be written out as the list of the commands that it
runs: the body of a loop as often as the loop counts, the body of a function in place of a call.
`Unrolls functions ss flat` says that `flat` is that list for the block `ss`; there is at most one
(`Unrolls.unique`), and none if a guarded statement is in the way.

The count of the commands agrees with it.  It keeps the functions that it has counted in a tally,
and cuts off large numbers on the way, so what it keeps true of a tally is `Tallied`: every entry
is what a call of that function unrolls to, cut off.

* `faithful_countIn` for a block, given that calls are counted rightly,
* `faithful_countCall` for a call, by induction on the room that is left,
* `exists_unrolls_of_commandCount` for a program.

A program whose calls are in order is always counted: `exists_commandCount`.
-/

namespace GemGrid.Script

variable {functions : List FunctionDef}

/-- The commands of a block when its loops and calls are written out. -/
inductive Unrolls (functions : List FunctionDef) : List Stmt → List Stmt → Prop
  | nil : Unrolls functions [] []
  | command {c : Command} {source : SourceRef} {ss flat : List Stmt} :
      Unrolls functions ss flat →
      Unrolls functions (.command c source :: ss) (.command c source :: flat)
  | loop {count : Nat} {body : List Stmt} {source : SourceRef} {ss inner flat : List Stmt} :
      Unrolls functions body inner → Unrolls functions ss flat →
      Unrolls functions (.loop count body source :: ss)
        ((List.replicate count inner).flatten ++ flat)
  | call {name : String} {source : SourceRef} {body ss inner flat : List Stmt} :
      FunctionDef.body? functions name = some body →
      Unrolls functions body inner → Unrolls functions ss flat →
      Unrolls functions (.call name source :: ss) (inner ++ flat)

namespace Unrolls

/-- A block has at most one unrolling. -/
theorem unique {ss flat flat' : List Stmt} (h : Unrolls functions ss flat)
    (h' : Unrolls functions ss flat') : flat = flat' := by
  induction h generalizing flat' with
  | nil =>
      cases h'
      rfl
  | command _ ih =>
      cases h' with
      | command h' => rw [ih h']
  | loop _ _ ihbody ih =>
      cases h' with
      | loop hbody h' => rw [ihbody hbody, ih h']
  | call hbody _ _ ihbody ih =>
      cases h' with
      | call hbody' hinner h' =>
          -- a name has one body
          obtain rfl := Option.some.inj (hbody.symm.trans hbody')
          rw [ihbody hinner, ih h']

/-- Only commands are left. -/
theorem eq_command {ss flat : List Stmt} (h : Unrolls functions ss flat) :
    ∀ s ∈ flat, ∃ c source, s = .command c source := by
  induction h with
  | nil => simp
  | command _ ih => exact List.forall_mem_cons.mpr ⟨⟨_, _, rfl⟩, ih⟩
  | loop _ _ ihbody ih =>
      intro s hs
      rcases List.mem_append.mp hs with hs | hs
      · obtain ⟨inner, hinner, hs⟩ := List.mem_flatten.mp hs
        rw [List.eq_of_mem_replicate hinner] at hs
        exact ihbody s hs
      · exact ih s hs
  | call _ _ _ ihbody ih => exact List.forall_mem_append.mpr ⟨ihbody, ih⟩

theorem append {ss ss' flat flat' : List Stmt} (h : Unrolls functions ss flat)
    (h' : Unrolls functions ss' flat') : Unrolls functions (ss ++ ss') (flat ++ flat') := by
  induction h with
  | nil => exact h'
  | command _ ih => exact .command ih
  | loop hbody _ _ ih =>
      rw [List.append_assoc]
      exact .loop hbody ih
  | call hbody hinner _ _ ih =>
      rw [List.append_assoc]
      exact .call hbody hinner ih

end Unrolls

theorem unrolls_cons {s : Stmt} {ss flat : List Stmt} :
    Unrolls functions (s :: ss) flat ↔
      ∃ first rest, Unrolls functions [s] first ∧ Unrolls functions ss rest ∧
        flat = first ++ rest := by
  constructor
  · intro h
    cases h with
    | command h => exact ⟨_, _, .command .nil, h, rfl⟩
    | loop hbody h => exact ⟨_, _, .loop hbody .nil, h, by simp⟩
    | call hbody hinner h => exact ⟨_, _, .call hbody hinner .nil, h, by simp⟩
  · rintro ⟨first, rest, hfirst, hrest, rfl⟩
    exact hfirst.append hrest

theorem unrolls_loop {count : Nat} {body flat : List Stmt} {source : SourceRef} :
    Unrolls functions [.loop count body source] flat ↔
      ∃ inner, Unrolls functions body inner ∧ flat = (List.replicate count inner).flatten := by
  constructor
  · rintro (_ | _ | ⟨hbody, ⟨⟩⟩)
    exact ⟨_, hbody, by simp⟩
  · rintro ⟨inner, hinner, rfl⟩
    simpa using Unrolls.loop hinner .nil

theorem unrolls_call {name : String} {source : SourceRef} {flat : List Stmt} :
    Unrolls functions [.call name source] flat ↔
      ∃ body, FunctionDef.body? functions name = some body ∧ Unrolls functions body flat := by
  constructor
  · intro h
    cases h with
    | call hbody hinner hnil =>
        cases hnil
        exact ⟨_, hbody, by simpa using hinner⟩
  · rintro ⟨body, hbody, hinner⟩
    simpa using Unrolls.call hbody hinner .nil

/-! ## Numbers that are cut off -/

theorem saturate_add (a b : Nat) : saturate (saturate a + saturate b) = saturate (a + b) := by
  unfold saturate
  omega

theorem saturate_mul (a k : Nat) : saturate (saturate a * k) = saturate (a * k) := by
  rcases Nat.le_total a Text.max64 with hsmall | hlarge
  · rw [saturate, saturate, saturate, Nat.min_eq_left hsmall]
  · cases k with
    | zero => rfl
    | succ k =>
        -- one factor alone is beyond the limit, and so are both products
        have hcut : saturate a = Text.max64 := Nat.min_eq_right hlarge
        have hleft : Text.max64 ≤ Text.max64 * (k + 1) := Nat.le_mul_of_pos_right _ (by omega)
        have hright : Text.max64 ≤ a * (k + 1) :=
          Nat.le_trans hlarge (Nat.le_mul_of_pos_right _ (by omega))
        rw [hcut, saturate, saturate, Nat.min_eq_right hleft, Nat.min_eq_right hright]

/-! ## The count -/

/-- A count is the length of the unrolling, cut off, or there is none to count. -/
def Agrees (functions : List FunctionDef) (ss : List Stmt) : Option Nat → Prop
  | some n => ∃ flat, Unrolls functions ss flat ∧ n = saturate flat.length
  | none => ∀ flat, ¬ Unrolls functions ss flat

/-- Every entry of a tally is right for the calls of its function. -/
def Tallied (functions : List FunctionDef) (tally : Tally) : Prop :=
  ∀ name count source, (name, count) ∈ tally → Agrees functions [.call name source] count

/-- What a count returns is right, and so is the tally that comes with it. -/
def Faithful (functions : List FunctionDef) (ss : List Stmt) (result : Counted) : Prop :=
  ∀ count tally, result = .ok (count, tally) → Agrees functions ss count ∧ Tallied functions tally

section Blocks

variable {counter : Tally → CallSite → Counted}

theorem Agrees.cons {s : Stmt} {ss : List Stmt} {n : Nat} {rest : Option Nat}
    (hfirst : Agrees functions [s] (some n)) (hrest : Agrees functions ss rest) :
    Agrees functions (s :: ss) (rest.map fun m => saturate (n + m)) := by
  obtain ⟨first, hfirst, rfl⟩ := hfirst
  cases rest with
  | none =>
      intro flat hflat
      obtain ⟨_, rest, _, hss, _⟩ := unrolls_cons.mp hflat
      exact hrest rest hss
  | some m =>
      obtain ⟨rest, hrest, rfl⟩ := hrest
      refine ⟨first ++ rest, hfirst.append hrest, ?_⟩
      show saturate (saturate first.length + saturate rest.length) = _
      rw [saturate_add, List.length_append]

theorem Agrees.loop {count : Nat} {body : List Stmt} {source : SourceRef} {inner : Option Nat}
    (h : Agrees functions body inner) :
    Agrees functions [.loop count body source] (inner.map fun n => saturate (n * count)) := by
  cases inner with
  | none =>
      intro flat hflat
      obtain ⟨inner, hinner, _⟩ := unrolls_loop.mp hflat
      exact h inner hinner
  | some n =>
      obtain ⟨inner, hinner, rfl⟩ := h
      refine ⟨_, unrolls_loop.mpr ⟨inner, hinner, rfl⟩, ?_⟩
      show saturate (saturate inner.length * count) = _
      rw [saturate_mul]
      simp [Nat.mul_comm]

theorem Agrees.call {name : String} {body : List Stmt} {count : Option Nat}
    (hbody : FunctionDef.body? functions name = some body) (h : Agrees functions body count)
    (source : SourceRef) : Agrees functions [.call name source] count := by
  cases count with
  | none =>
      intro flat hflat
      obtain ⟨body', hbody', hflat⟩ := unrolls_call.mp hflat
      obtain rfl := Option.some.inj (hbody.symm.trans hbody')
      exact h flat hflat
  | some n =>
      obtain ⟨flat, hflat, hn⟩ := h
      exact ⟨flat, unrolls_call.mpr ⟨body, hbody, hflat⟩, hn⟩

/-- A block is counted rightly if its first statement and the rest of it are. -/
theorem faithful_countIn_cons {s : Stmt} {ss : List Stmt} {tally : Tally}
    (hfirst : Faithful functions [s] (countOne counter tally s))
    (hrest : ∀ tally, Tallied functions tally → Faithful functions ss (countIn counter tally ss)) :
    Faithful functions (s :: ss) (countIn counter tally (s :: ss)) := by
  intro count tally' h
  rw [countIn] at h
  obtain ⟨⟨first, tally₁⟩, hone, h⟩ := exists_of_bind_eq_ok h
  obtain ⟨hfirst, htally₁⟩ := hfirst first tally₁ hone
  cases first with
  | none =>
      cases h
      refine ⟨fun flat hflat => ?_, htally₁⟩
      -- an unrolling of the block would contain one of its first statement
      obtain ⟨first, _, hs, _⟩ := unrolls_cons.mp hflat
      exact hfirst first hs
  | some n =>
      obtain ⟨⟨rest, tally₂⟩, hin, h⟩ := exists_of_bind_eq_ok h
      obtain ⟨hrest, htally₂⟩ := hrest tally₁ htally₁ rest tally₂ hin
      cases h
      exact ⟨hfirst.cons hrest, htally₂⟩

/-- A guarded statement is not counted. -/
theorem faithful_guarded {s : Stmt} {tally : Tally} (htally : Tallied functions tally)
    (hguarded : ∀ flat, ¬ Unrolls functions [s] flat) :
    Faithful functions [s] (.ok (none, tally)) := by
  intro count tally' h
  cases h
  exact ⟨hguarded, htally⟩

/-- Blocks are counted rightly if calls are. -/
theorem faithful_countIn
    (hcalls : ∀ tally site, Tallied functions tally →
      Faithful functions [.call site.name site.source] (counter tally site))
    (ss : List Stmt) :
    ∀ tally, Tallied functions tally → Faithful functions ss (countIn counter tally ss) := by
  induction ss using Stmt.blockInduction with
  | nil =>
      intro tally htally count tally' h
      cases h
      exact ⟨⟨[], .nil, rfl⟩, htally⟩
  | command c source ss ih =>
      intro tally htally
      refine faithful_countIn_cons ?_ ih
      intro count tally' h
      cases h
      exact ⟨⟨_, .command .nil, rfl⟩, htally⟩
  | loop count body source ss ihbody ih =>
      intro tally htally
      refine faithful_countIn_cons ?_ ih
      intro total tally' h
      rw [countOne] at h
      obtain ⟨⟨inner, tally₁⟩, hbody, h⟩ := exists_of_bind_eq_ok h
      obtain ⟨hinner, htally₁⟩ := ihbody tally htally inner tally₁ hbody
      cases h
      exact ⟨hinner.loop, htally₁⟩
  | ifThen condition consequent source ss _ ih =>
      intro tally htally
      exact faithful_countIn_cons (faithful_guarded htally fun flat h => nomatch h) ih
  | ifElse condition consequent alternate source ss _ _ ih =>
      intro tally htally
      exact faithful_countIn_cons (faithful_guarded htally fun flat h => nomatch h) ih
  | whileDo condition body source ss _ ih =>
      intro tally htally
      exact faithful_countIn_cons (faithful_guarded htally fun flat h => nomatch h) ih
  | call name source ss ih =>
      intro tally htally
      exact faithful_countIn_cons (hcalls tally { name, source } htally) ih

end Blocks

theorem body?_of_lookup {site : CallSite} {body : List Stmt}
    (h : lookup functions site = .ok body) :
    FunctionDef.body? functions site.name = some body := by
  unfold lookup at h
  split at h
  · next hbody => rwa [← Except.ok.inj h]
  · cases h

theorem faithful_of_tally {site : CallSite} {tally : Tally} {known : Option Nat}
    (htally : Tallied functions tally) (hknown : tally.lookup site.name = some known) :
    Faithful functions [.call site.name site.source] (.ok (known, tally)) := by
  intro count tally' h
  cases h
  obtain ⟨before, after, hsplit, _⟩ := List.lookup_eq_some_iff.mp hknown
  exact ⟨htally site.name known site.source (by simp [hsplit]), htally⟩

/-- Calls are counted rightly, whatever room is left. -/
theorem faithful_countCall (spare : Nat) :
    ∀ (path : List String) (tally : Tally) (site : CallSite), Tallied functions tally →
      Faithful functions [.call site.name site.source]
        (countCall functions spare path tally site) := by
  induction spare with
  | zero =>
      intro path tally site htally
      rw [countCall]
      split
      · next hknown => exact faithful_of_tally htally hknown
      · -- without room there is no count
        intro count tally' h
        obtain ⟨body, _, h⟩ := exists_of_bind_eq_ok h
        split at h <;> cases h
  | succ spare ih =>
      intro path tally site htally
      rw [countCall]
      split
      · next hknown => exact faithful_of_tally htally hknown
      · intro count tally' h
        obtain ⟨body, hlookup, h⟩ := exists_of_bind_eq_ok h
        have hbody := body?_of_lookup hlookup
        split at h
        · cases h
        · obtain ⟨⟨inner, tally₁⟩, hin, h⟩ := exists_of_bind_eq_ok h
          cases h
          obtain ⟨hinner, htally₁⟩ :=
            faithful_countIn (ih (site.name :: path)) body tally htally _ _ hin
          refine ⟨hinner.call hbody site.source, ?_⟩
          -- the new entry holds wherever the function is called
          intro name known source hmem
          rcases List.mem_cons.mp hmem with heq | hmem
          · cases heq
            exact hinner.call hbody source
          · exact htally₁ name known source hmem

/-- The count of a program is right. -/
theorem agrees_of_commandCount {main : List Stmt} {count : Option Nat}
    (h : commandCount main functions = .ok count) : Agrees functions main count := by
  obtain ⟨⟨count, tally⟩, hin, h⟩ := exists_of_bind_eq_ok h
  cases h
  have hempty : Tallied functions [] := fun name count source hmem => nomatch hmem
  exact (faithful_countIn (faithful_countCall functions.length []) main [] hempty _ _ hin).1

/-- **A counted program has an unrolling.**  It holds as many commands as were counted, unless the
count was cut off. -/
theorem exists_unrolls_of_commandCount {main : List Stmt} {n : Nat}
    (h : commandCount main functions = .ok (some n)) :
    ∃ flat, Unrolls functions main flat ∧ n = saturate flat.length :=
  agrees_of_commandCount h

/-! ## Programs that are counted -/

/-- A block is counted if its first statement and the rest of it are. -/
theorem exists_countIn_cons {counter : Tally → CallSite → Counted} {s : Stmt} {ss : List Stmt}
    (hfirst : ∀ tally, ∃ result, countOne counter tally s = .ok result)
    (hrest : ∀ tally, ∃ result, countIn counter tally ss = .ok result) (tally : Tally) :
    ∃ result, countIn counter tally (s :: ss) = .ok result := by
  obtain ⟨⟨first, tally₁⟩, hfirst⟩ := hfirst tally
  obtain ⟨⟨rest, tally₂⟩, hrest⟩ := hrest tally₁
  rw [countIn, hfirst]
  cases first with
  | none => exact ⟨_, rfl⟩
  | some n =>
      simp only [bind, Except.bind, hrest]
      exact ⟨_, rfl⟩

/-- A block is counted if its calls are. -/
theorem exists_countIn {counter : Tally → CallSite → Counted} (ss : List Stmt) :
    (∀ tally site, Stmt.BlockHasCall site ss → ∃ result, counter tally site = .ok result) →
      ∀ tally, ∃ result, countIn counter tally ss = .ok result := by
  -- what holds of the calls of a block holds of those behind its first statement
  have hbehind : ∀ {s ss}, (∀ tally site, Stmt.BlockHasCall site (s :: ss) →
      ∃ result, counter tally site = .ok result) →
      ∀ tally site, Stmt.BlockHasCall site ss → ∃ result, counter tally site = .ok result :=
    fun hcalls tally site hsite => hcalls tally site (Stmt.blockHasCall_cons.mpr (.inr hsite))
  induction ss using Stmt.blockInduction with
  | nil => exact fun _ tally => ⟨_, rfl⟩
  | command c source ss ih =>
      intro hcalls
      exact exists_countIn_cons (fun tally => ⟨_, rfl⟩) (ih (hbehind hcalls))
  | loop count body source ss ihbody ih =>
      intro hcalls
      refine exists_countIn_cons (fun tally => ?_) (ih (hbehind hcalls))
      have hbody : ∀ tally site, Stmt.BlockHasCall site body →
          ∃ result, counter tally site = .ok result := fun tally site hsite =>
        hcalls tally site (Stmt.blockHasCall_cons.mpr (.inl (Stmt.hasCall_loop.mpr hsite)))
      obtain ⟨result, hresult⟩ := ihbody hbody tally
      rw [countOne, hresult]
      exact ⟨_, rfl⟩
  | ifThen condition consequent source ss _ ih =>
      intro hcalls
      exact exists_countIn_cons (fun tally => ⟨_, rfl⟩) (ih (hbehind hcalls))
  | ifElse condition consequent alternate source ss _ _ ih =>
      intro hcalls
      exact exists_countIn_cons (fun tally => ⟨_, rfl⟩) (ih (hbehind hcalls))
  | whileDo condition body source ss _ ih =>
      intro hcalls
      exact exists_countIn_cons (fun tally => ⟨_, rfl⟩) (ih (hbehind hcalls))
  | call name source ss ih =>
      intro hcalls
      refine exists_countIn_cons (fun tally => ?_) (ih (hbehind hcalls))
      exact hcalls tally { name, source } (Stmt.blockHasCall_cons.mpr (.inl .call))

/-- A call is counted where the calls are in order, with the room that a trail has. -/
theorem exists_countCall {main : List Stmt} (hcalls : WellCalled main functions) (spare : Nat) :
    ∀ (path : List String) (tally : Tally) (site : CallSite),
      Trail functions path site.name spare → Occurs main functions site →
      ∃ result, countCall functions spare path tally site = .ok result := by
  induction spare with
  | zero =>
      intro path tally site htrail hsite
      -- without room the path holds every function, and the callee would reach itself
      have hmem := htrail.mem_of_no_spare (hcalls.defined site hsite)
      exact absurd (htrail.reaches _ hmem) (hcalls.acyclic _)
  | succ spare ih =>
      intro path tally site htrail hsite
      have hnew : site.name ∉ path := fun hmem =>
        hcalls.acyclic _ (htrail.reaches _ hmem)
      obtain ⟨body, hbody⟩ := FunctionDef.exists_body?_iff.mpr (hcalls.defined site hsite)
      have hinner : ∀ tally inner, Stmt.BlockHasCall inner body →
          ∃ result, countCall functions spare (site.name :: path) tally inner = .ok result :=
        fun tally inner hinner => ih _ tally inner (htrail.enter hnew hbody hinner)
          (.inr ⟨site.name, body, hbody, hinner⟩)
      obtain ⟨result, hresult⟩ := exists_countIn body hinner tally
      have hlookup : lookup functions site = .ok body := by rw [lookup, hbody]
      rw [countCall]
      split
      · exact ⟨_, rfl⟩
      · simp only [hlookup, bind, Except.bind, List.contains_iff_mem, if_neg hnew, hresult]
        exact ⟨_, rfl⟩

/-- **A program whose calls are in order is counted.** -/
theorem exists_commandCount {main : List Stmt} (hcalls : WellCalled main functions) :
    ∃ count, commandCount main functions = .ok count := by
  have hmain : ∀ tally site, Stmt.BlockHasCall site main →
      ∃ result, countCall functions functions.length [] tally site = .ok result :=
    fun tally site hsite =>
      exists_countCall hcalls functions.length [] tally site (.nil functions site.name) (.inl hsite)
  obtain ⟨⟨count, tally⟩, hcount⟩ := exists_countIn main hmain []
  exact ⟨count, by rw [commandCount, hcount]; rfl⟩

end GemGrid.Script
