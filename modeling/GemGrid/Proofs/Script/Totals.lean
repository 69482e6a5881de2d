import GemGrid.Proofs.Script.CallCheck
import GemGrid.Proofs.Script.Unrolling

/-!
# Programs that do not depend on the map

A block is *static* if no `if` and no `while` can be reached from it through the bodies of loops and
of the functions that it calls.  Loops and calls of a static block can be added up: `Totals` gives a
block its number, where every command counts one and every entry into a body counts a `toll`.
Without a toll this is the number of the commands that a complete run executes, with a toll of one
it is the number of the operations that the run is charged.

* `static_cons` takes a block apart, and is all that the proofs know of what can be reached.
* `Unrolls.static`, `exists_unrolls_of_static`: a block can be written out as commands exactly if it
  is static.  The second needs calls that are in order: functions are written out in a `CallOrder`,
  from the last to the first.
* `Totals.unique`, `Unrolls.exists_totals`: a block that can be written out has one number, whatever
  the toll, and without a toll it is the length of the list (`Unrolls.totals_zero`).
-/

namespace GemGrid

/-! ## What can be reached -/

/-- A statement that asks the sensors what to do next. -/
inductive Stmt.Guarded : Stmt → Prop
  | ifThen {condition : Condition} {consequent : List Stmt} {source : SourceRef} :
      Guarded (.ifThen condition consequent source)
  | ifElse {condition : Condition} {consequent alternate : List Stmt} {source : SourceRef} :
      Guarded (.ifElse condition consequent alternate source)
  | whileDo {condition : Condition} {body : List Stmt} {source : SourceRef} :
      Guarded (.whileDo condition body source)

namespace Script

variable {functions : List FunctionDef}

/-- The body that a loop repeats, or that a call stands for. -/
inductive Enters (functions : List FunctionDef) : Stmt → List Stmt → Prop
  | loop {count : Nat} {body : List Stmt} {source : SourceRef} :
      Enters functions (.loop count body source) body
  | call {name : String} {body : List Stmt} {source : SourceRef} :
      FunctionDef.body? functions name = some body → Enters functions (.call name source) body

/-- A statement can be reached from a block, through the bodies of loops and of functions. -/
inductive Reaches (functions : List FunctionDef) : List Stmt → Stmt → Prop
  | here {ss : List Stmt} {s : Stmt} : s ∈ ss → Reaches functions ss s
  | inside {ss body : List Stmt} {s target : Stmt} : s ∈ ss → Enters functions s body →
      Reaches functions body target → Reaches functions ss target

/-- No guarded statement can be reached. -/
def Static (functions : List FunctionDef) (ss : List Stmt) : Prop :=
  ¬ ∃ s, Reaches functions ss s ∧ s.Guarded

theorem static_nil : Static functions [] := by
  rintro ⟨s, hreach, -⟩
  cases hreach with
  | here hmem => cases hmem
  | inside hmem _ _ => cases hmem

theorem static_cons {s : Stmt} {ss : List Stmt} :
    Static functions (s :: ss) ↔
      ¬ s.Guarded ∧ (∀ body, Enters functions s body → Static functions body) ∧
        Static functions ss := by
  constructor
  · intro h
    refine ⟨fun hguarded => h ⟨s, .here List.mem_cons_self, hguarded⟩, ?_, ?_⟩
    · rintro body henters ⟨target, hreach, hguarded⟩
      exact h ⟨target, .inside List.mem_cons_self henters hreach, hguarded⟩
    · rintro ⟨target, hreach, hguarded⟩
      refine h ⟨target, ?_, hguarded⟩
      cases hreach with
      | here hmem => exact .here (List.mem_cons_of_mem _ hmem)
      | inside hmem henters hreach => exact .inside (List.mem_cons_of_mem _ hmem) henters hreach
  · rintro ⟨hfirst, hbodies, hrest⟩ ⟨target, hreach, hguarded⟩
    cases hreach with
    | here hmem =>
        rcases List.mem_cons.mp hmem with rfl | hmem
        · exact hfirst hguarded
        · exact hrest ⟨target, .here hmem, hguarded⟩
    | inside hmem henters hreach =>
        rcases List.mem_cons.mp hmem with rfl | hmem
        · exact hbodies _ henters ⟨target, hreach, hguarded⟩
        · exact hrest ⟨target, .inside hmem henters hreach, hguarded⟩

/-! ## Static blocks can be written out -/

theorem Unrolls.static {ss flat : List Stmt} (h : Unrolls functions ss flat) :
    Static functions ss := by
  induction h with
  | nil => exact static_nil
  | command _ ih => exact static_cons.mpr ⟨nofun, nofun, ih⟩
  | loop _ _ ihbody ih =>
      refine static_cons.mpr ⟨nofun, ?_, ih⟩
      rintro body ⟨⟩
      exact ihbody
  | call hbody _ _ ihbody ih =>
      refine static_cons.mpr ⟨nofun, ?_, ih⟩
      rintro body (_ | hbody')
      obtain rfl := Option.some.inj (hbody.symm.trans hbody')
      exact ihbody

/-- The body that a name stands for can be written out if it is static. -/
def Expands (functions : List FunctionDef) (name : String) : Prop :=
  ∃ body, FunctionDef.body? functions name = some body ∧
    (Static functions body → ∃ flat, Unrolls functions body flat)

/-- A static block can be written out if the functions that it calls can be. -/
theorem exists_unrolls_of_expands (ss : List Stmt) :
    (∀ site, Stmt.BlockHasCall site ss → Expands functions site.name) →
      Static functions ss → ∃ flat, Unrolls functions ss flat := by
  -- what holds of the calls of a block holds of those behind its first statement
  have hbehind : ∀ {s ss}, (∀ site, Stmt.BlockHasCall site (s :: ss) →
      Expands functions site.name) →
      ∀ site, Stmt.BlockHasCall site ss → Expands functions site.name :=
    fun hcalls site hsite => hcalls site (Stmt.blockHasCall_cons.mpr (.inr hsite))
  induction ss using Stmt.blockInduction with
  | nil => exact fun _ _ => ⟨[], .nil⟩
  | command c source ss ih =>
      intro hcalls hstatic
      obtain ⟨-, -, hrest⟩ := static_cons.mp hstatic
      obtain ⟨flat, hflat⟩ := ih (hbehind hcalls) hrest
      exact ⟨_, .command hflat⟩
  | loop count body source ss ihbody ih =>
      intro hcalls hstatic
      obtain ⟨-, hbody, hrest⟩ := static_cons.mp hstatic
      obtain ⟨inner, hinner⟩ := ihbody (fun site hsite => hcalls site
        (Stmt.blockHasCall_cons.mpr (.inl (Stmt.hasCall_loop.mpr hsite)))) (hbody body .loop)
      obtain ⟨flat, hflat⟩ := ih (hbehind hcalls) hrest
      exact ⟨_, .loop hinner hflat⟩
  | ifThen condition consequent source ss _ _ =>
      exact fun _ hstatic => absurd .ifThen (static_cons.mp hstatic).1
  | ifElse condition consequent alternate source ss _ _ _ =>
      exact fun _ hstatic => absurd .ifElse (static_cons.mp hstatic).1
  | whileDo condition body source ss _ _ =>
      exact fun _ hstatic => absurd .whileDo (static_cons.mp hstatic).1
  | call name source ss ih =>
      intro hcalls hstatic
      obtain ⟨-, hbodies, hrest⟩ := static_cons.mp hstatic
      obtain ⟨body, hbody, hexpands⟩ :=
        hcalls { name, source } (Stmt.blockHasCall_cons.mpr (.inl .call))
      obtain ⟨inner, hinner⟩ := hexpands (hbodies body (.call hbody))
      obtain ⟨flat, hflat⟩ := ih (hbehind hcalls) hrest
      exact ⟨_, .call hbody hinner hflat⟩

theorem CallOrder.expands {order : List String} (h : CallOrder functions order) :
    ∀ name ∈ order, Expands functions name := by
  induction h with
  | nil => simp
  | cons hbody hlater _ ih =>
      refine List.forall_mem_cons.mpr ⟨⟨_, hbody, ?_⟩, ih⟩
      exact exists_unrolls_of_expands _ fun site hsite => ih site.name (hlater site hsite)

/-- **A static program whose calls are in order can be written out.** -/
theorem exists_unrolls_of_static {main : List Stmt} (hchecked : checkCalls main functions = .ok ())
    (hstatic : Static functions main) : ∃ flat, Unrolls functions main flat := by
  have hverdict := checkCalls_verdict main functions
  rw [hchecked] at hverdict
  obtain ⟨order, horder, hmain, -⟩ := hverdict
  refine exists_unrolls_of_expands main (fun site hsite => horder.expands _ (hmain ?_)) hstatic
  exact List.mem_map_of_mem (Stmt.mem_callsIn.mpr hsite)

/-! ## Adding up -/

/-- The number of a block, where every command counts one and every entry into a body counts
`toll`. -/
inductive Totals (functions : List FunctionDef) (toll : Nat) : List Stmt → Nat → Prop
  | nil : Totals functions toll [] 0
  | command {c : Command} {source : SourceRef} {ss : List Stmt} {n : Nat} :
      Totals functions toll ss n → Totals functions toll (.command c source :: ss) (1 + n)
  | loop {count : Nat} {body : List Stmt} {source : SourceRef} {ss : List Stmt} {inner n : Nat} :
      Totals functions toll body inner → Totals functions toll ss n →
      Totals functions toll (.loop count body source :: ss) (count * (toll + inner) + n)
  | call {name : String} {source : SourceRef} {body ss : List Stmt} {inner n : Nat} :
      FunctionDef.body? functions name = some body → Totals functions toll body inner →
      Totals functions toll ss n →
      Totals functions toll (.call name source :: ss) (toll + inner + n)

variable {toll : Nat}

/-- A block has at most one number. -/
theorem Totals.unique {ss : List Stmt} {n n' : Nat} (h : Totals functions toll ss n)
    (h' : Totals functions toll ss n') : n' = n := by
  induction h generalizing n' with
  | nil =>
      cases h'
      rfl
  | command _ ih =>
      -- the body is given by the derivation, and the two parts have one total each
      cases h' with
      | command h' => rw [ih h']
  | loop _ _ ihbody ih =>
      cases h' with
      | loop hbody h' => rw [ihbody hbody, ih h']
  | call hbody _ _ ihbody ih =>
      cases h' with
      | call hbody' hinner h' =>
          obtain rfl := Option.some.inj (hbody.symm.trans hbody')
          rw [ihbody hinner, ih h']

theorem Totals.append {ss ss' : List Stmt} {n n' : Nat} (h : Totals functions toll ss n)
    (h' : Totals functions toll ss' n') : Totals functions toll (ss ++ ss') (n + n') := by
  induction h with
  | nil =>
      rw [Nat.zero_add]
      exact h'
  | command _ ih =>
      rw [Nat.add_assoc]
      exact .command ih
  | loop hbody _ _ ih =>
      rw [Nat.add_assoc]
      exact .loop hbody ih
  | call hbody hinner _ _ ih =>
      rw [Nat.add_assoc]
      exact .call hbody hinner ih

theorem Unrolls.exists_totals (toll : Nat) {ss flat : List Stmt} (h : Unrolls functions ss flat) :
    ∃ n, Totals functions toll ss n := by
  induction h with
  | nil => exact ⟨_, .nil⟩
  | command _ ih =>
      obtain ⟨n, hn⟩ := ih
      exact ⟨_, .command hn⟩
  | loop _ _ ihbody ih =>
      obtain ⟨inner, hinner⟩ := ihbody
      obtain ⟨n, hn⟩ := ih
      exact ⟨_, .loop hinner hn⟩
  | call hbody _ _ ihbody ih =>
      obtain ⟨inner, hinner⟩ := ihbody
      obtain ⟨n, hn⟩ := ih
      exact ⟨_, .call hbody hinner hn⟩

/-- Without a toll the number of a block is the number of its commands. -/
theorem Unrolls.totals_zero {ss flat : List Stmt} (h : Unrolls functions ss flat) :
    Totals functions 0 ss flat.length := by
  induction h with
  | nil => exact .nil
  | command _ ih =>
      rw [List.length_cons, Nat.add_comm]
      exact .command ih
  | @loop count body source ss inner flat _ _ ihbody ih =>
      -- every round unrolls to the same statements
      have hlength : ((List.replicate count inner).flatten ++ flat).length =
          count * (0 + inner.length) + flat.length := by
        simp
      rw [hlength]
      exact .loop ihbody ih
  | @call name source body ss inner flat hbody _ _ ihbody ih =>
      have hlength : (inner ++ flat).length = 0 + inner.length + flat.length := by simp
      rw [hlength]
      exact .call hbody ihbody ih

end Script

end GemGrid
