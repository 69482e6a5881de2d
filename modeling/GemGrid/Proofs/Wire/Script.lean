import GemGrid.Proofs.Script.CallGraph
import GemGrid.Proofs.Wire.Records
import GemGrid.Wire.Script

/-!
# Programs survive their exchange form

Source references, conditions, statements and programs are decoded from what they are encoded to.

Conditions and statements are decoded with a bound on the depth that is left, so what is proved by
induction is that every bound will do that the encoded value keeps (`Condition.decodes_within`,
`Stmt.Returns`).  The two forms of an `if` are one record, whose `alternate` may be absent.

Numbers have a width in the exchange form; `Fits` says that the numbers of a value keep to it.
-/

namespace GemGrid

open Wire

/-! ## Source references -/

/-- The line is a 32-bit number. -/
def SourceRef.Fits (s : SourceRef) : Prop :=
  s.line ≤ Text.max32

theorem SourceRef.decodes {s : SourceRef} (h : s.Fits) : Decodes ofJson s.toJson s := by
  refine decodes_record (by simp) fun f r => ?_
  rw [r.required (by simp) (decodes_string s.text), word32,
    r.required (by simp) (decodes_upTo h)]
  rfl

/-! ## Conditions -/

namespace Condition

theorem tellsApart_predicate : TellsApart Predicate.all Predicate.name := by
  intro p
  cases p <;> decide

theorem tellsApart_op : TellsApart [.and, .or] LogicalOp.symbol := by
  intro op
  cases op <;> decide

theorem decodes_within (c : Condition) : ∀ {n : Nat} (inside : Bool), c.toJson.depth ≤ n →
    Decodes (ofJsonWithin n inside) c.toJson c := by
  induction c with
  | predicate p =>
      intro n inside hdepth j hj
      -- the depth left is one more than what the fields need
      obtain ⟨m, rfl, -⟩ := exists_bound hdepth
      obtain ⟨body, htagged, hbody⟩ := exists_tagged tags inside (by simp [tags]) (by simp) hj
      rw [ofJsonWithin, htagged]
      refine decodes_record (by simp) (fun f r => ?_) body hbody
      rw [r.required (by simp) (decodes_oneOfInside tellsApart_predicate p)]
      rfl
  | not c ih =>
      intro n inside hdepth j hj
      obtain ⟨m, rfl, hfields⟩ := exists_bound hdepth
      obtain ⟨body, htagged, hbody⟩ := exists_tagged tags inside (by simp [tags]) (by simp) hj
      rw [ofJsonWithin, htagged]
      refine decodes_record (by simp) (fun f r => ?_) body hbody
      rw [r.required (by simp) (ih true (hfields "operand" _ (by simp)))]
      rfl
  | logical op left right ihleft ihright =>
      intro n inside hdepth j hj
      obtain ⟨m, rfl, hfields⟩ := exists_bound hdepth
      obtain ⟨body, htagged, hbody⟩ := exists_tagged tags inside (by simp [tags]) (by simp) hj
      rw [ofJsonWithin, htagged]
      refine decodes_record (by simp) (fun f r => ?_) body hbody
      rw [r.required (by simp) (decodes_oneOfInside tellsApart_op op),
        r.required (by simp) (ihleft true (hfields "left" _ (by simp))),
        r.required (by simp) (ihright true (hfields "right" _ (by simp)))]
      rfl

theorem decodes (c : Condition) : Decodes ofJson c.toJson c :=
  decodes_at_depth fun _ => c.decodes_within false

theorem decodes_inside (c : Condition) : Decodes ofJsonInside c.toJson c :=
  decodes_at_depth fun _ => c.decodes_within true

end Condition

/-! ## Statements -/

namespace Stmt

mutual

/-- The counts are 64-bit numbers and the lines 32-bit ones, in the whole statement. -/
def Fits : Stmt → Prop
  | .command _ source => source.Fits
  | .loop count body source => count ≤ Text.max64 ∧ AllFit body ∧ source.Fits
  | .ifThen _ consequent source => AllFit consequent ∧ source.Fits
  | .ifElse _ consequent alternate source => AllFit consequent ∧ AllFit alternate ∧ source.Fits
  | .whileDo _ body source => AllFit body ∧ source.Fits
  | .call _ source => source.Fits

/-- All statements of a block fit. -/
def AllFit : List Stmt → Prop
  | [] => True
  | s :: ss => s.Fits ∧ AllFit ss

end

theorem listToJson_eq_map (ss : List Stmt) : listToJson ss = ss.map toJson := by
  induction ss with
  | nil => rw [listToJson, List.map_nil]
  | cons s ss ih => rw [listToJson, ih, List.map_cons]

theorem toJson_ifWith (condition : Condition) (consequent : List Stmt)
    (alternate : Option (List Stmt)) (source : SourceRef) :
    (ifWith condition consequent alternate source).toJson =
      .obj [("kind", .str "if"), ("condition", condition.toJson),
        ("consequent", Json.list toJson consequent),
        ("alternate", Json.nullable (Json.list toJson) alternate), ("source", source.toJson)] := by
  cases alternate <;>
    simp only [ifWith, toJson, listToJson_eq_map, Json.list, Json.nullable]

theorem tellsApart_command : TellsApart Command.all Command.name := by
  intro c
  cases c <;> decide

/-- A statement is decoded within every bound that it keeps. -/
def Returns (s : Stmt) : Prop :=
  ∀ {n : Nat} (inside : Bool), s.toJson.depth ≤ n → Decodes (ofJsonWithin n inside) s.toJson s

theorem decodes_block {ss : List Stmt} (h : ∀ s ∈ ss, Returns s) {n : Nat}
    (hdepth : (Json.list toJson ss).depth ≤ n) :
    Decodes (list (ofJsonWithin n true)) (Json.list toJson ss) ss := by
  refine decodes_list fun s hs => h s hs true ?_
  have hitem := Json.depth_le_of_mem_items (List.mem_map_of_mem (f := toJson) hs)
  rw [Json.list, Json.depth] at hdepth
  omega

theorem returns_command (c : Command) {source : SourceRef} (hsource : source.Fits) :
    Returns (.command c source) := by
  intro n inside hdepth j hj
  rw [toJson] at hdepth hj
  obtain ⟨m, rfl, -⟩ := exists_bound hdepth
  obtain ⟨body, htagged, hbody⟩ := exists_tagged tags inside (by simp [tags]) (by simp) hj
  rw [ofJsonWithin, htagged]
  refine decodes_record (by simp) (fun f r => ?_) body hbody
  rw [r.required (by simp) (decodes_oneOfInside tellsApart_command c),
    r.required (by simp) (SourceRef.decodes hsource)]
  rfl

theorem returns_loop {count : Nat} {body : List Stmt} {source : SourceRef}
    (hcount : count ≤ Text.max64) (hbody : ∀ s ∈ body, Returns s) (hsource : source.Fits) :
    Returns (.loop count body source) := by
  intro n inside hdepth j hj
  rw [toJson, listToJson_eq_map] at hdepth hj
  obtain ⟨m, rfl, hfields⟩ := exists_bound hdepth
  obtain ⟨rest, htagged, hrest⟩ := exists_tagged tags inside (by simp [tags]) (by simp) hj
  rw [ofJsonWithin, htagged]
  refine decodes_record (by simp) (fun f r => ?_) rest hrest
  rw [word64, r.required (by simp) (decodes_upTo hcount),
    r.required (by simp [Json.list]) (decodes_block hbody (hfields "body" _ (by simp [Json.list]))),
    r.required (by simp) (SourceRef.decodes hsource)]
  rfl

theorem returns_ifWith (condition : Condition) {consequent : List Stmt}
    (alternate : Option (List Stmt)) {source : SourceRef}
    (hconsequent : ∀ s ∈ consequent, Returns s)
    (halternate : ∀ block ∈ alternate, ∀ s ∈ block, Returns s) (hsource : source.Fits) :
    Returns (ifWith condition consequent alternate source) := by
  intro n inside hdepth j hj
  rw [toJson_ifWith] at hdepth hj
  obtain ⟨m, rfl, hfields⟩ := exists_bound hdepth
  obtain ⟨rest, htagged, hrest⟩ := exists_tagged tags inside (by simp [tags]) (by simp) hj
  have hblocks : Decodes (nullable (list (ofJsonWithin m true)))
      (Json.nullable (Json.list toJson) alternate) alternate := by
    -- the reader takes the alternate for a list of statements of the same depth
    refine decodes_nullable (fun _ => by simp [Json.list]) fun block hblock => ?_
    refine decodes_block (halternate block hblock) ?_
    obtain rfl := Option.mem_def.mp hblock
    exact hfields "alternate" _ (by simp [Json.nullable])
  rw [ofJsonWithin, htagged]
  refine decodes_record (by simp) (fun f r => ?_) rest hrest
  rw [r.required (by simp) (Condition.decodes_inside condition),
    r.required (by simp) (decodes_block hconsequent (hfields "consequent" _ (by simp))),
    r.optional (by simp) hblocks, r.required (by simp) (SourceRef.decodes hsource)]
  rfl

theorem returns_whileDo (condition : Condition) {body : List Stmt} {source : SourceRef}
    (hbody : ∀ s ∈ body, Returns s) (hsource : source.Fits) :
    Returns (.whileDo condition body source) := by
  intro n inside hdepth j hj
  rw [toJson, listToJson_eq_map, ← Json.list] at hdepth hj
  obtain ⟨m, rfl, hfields⟩ := exists_bound hdepth
  obtain ⟨rest, htagged, hrest⟩ := exists_tagged tags inside (by simp [tags]) (by simp) hj
  rw [ofJsonWithin, htagged]
  refine decodes_record (by simp) (fun f r => ?_) rest hrest
  rw [r.required (by simp) (Condition.decodes_inside condition),
    r.required (by simp) (decodes_block hbody (hfields "body" _ (by simp))),
    r.required (by simp) (SourceRef.decodes hsource)]
  rfl

theorem returns_call (name : String) {source : SourceRef} (hsource : source.Fits) :
    Returns (.call name source) := by
  intro n inside hdepth j hj
  rw [toJson] at hdepth hj
  obtain ⟨m, rfl, -⟩ := exists_bound hdepth
  obtain ⟨body, htagged, hbody⟩ := exists_tagged tags inside (by simp [tags]) (by simp) hj
  rw [ofJsonWithin, htagged]
  refine decodes_record (by simp) (fun f r => ?_) body hbody
  rw [r.required (by simp) (decodes_string name), r.required (by simp) (SourceRef.decodes hsource)]
  rfl

theorem returns_of_allFit {ss : List Stmt} : AllFit ss → ∀ s ∈ ss, Returns s := by
  -- each case adds the first statement to those of the smaller block
  induction ss using blockInduction with
  | nil => exact fun _ s hs => absurd hs List.not_mem_nil
  | command c source ss ih =>
      rintro ⟨hfirst, hss⟩
      rw [Fits] at hfirst
      exact List.forall_mem_cons.mpr ⟨returns_command c hfirst, ih hss⟩
  | loop count body source ss ihbody ih =>
      rintro ⟨hfirst, hss⟩
      rw [Fits] at hfirst
      obtain ⟨hcount, hbody, hsource⟩ := hfirst
      exact List.forall_mem_cons.mpr ⟨returns_loop hcount (ihbody hbody) hsource, ih hss⟩
  | ifThen condition consequent source ss ihthen ih =>
      rintro ⟨hfirst, hss⟩
      rw [Fits] at hfirst
      obtain ⟨hthen, hsource⟩ := hfirst
      refine List.forall_mem_cons.mpr ⟨?_, ih hss⟩
      exact returns_ifWith condition none (ihthen hthen) (by simp) hsource
  | ifElse condition consequent alternate source ss ihthen ihelse ih =>
      rintro ⟨hfirst, hss⟩
      rw [Fits] at hfirst
      obtain ⟨hthen, helse, hsource⟩ := hfirst
      refine List.forall_mem_cons.mpr ⟨?_, ih hss⟩
      exact returns_ifWith condition (some alternate) (ihthen hthen) (by simpa using ihelse helse)
        hsource
  | whileDo condition body source ss ihbody ih =>
      rintro ⟨hfirst, hss⟩
      rw [Fits] at hfirst
      obtain ⟨hbody, hsource⟩ := hfirst
      exact List.forall_mem_cons.mpr ⟨returns_whileDo condition (ihbody hbody) hsource, ih hss⟩
  | call name source ss ih =>
      rintro ⟨hfirst, hss⟩
      rw [Fits] at hfirst
      exact List.forall_mem_cons.mpr ⟨returns_call name hfirst, ih hss⟩

theorem decodes {s : Stmt} (h : s.Fits) : Decodes ofJson s.toJson s := by
  have hall : AllFit [s] := ⟨h, trivial⟩
  exact decodes_at_depth fun _ => returns_of_allFit hall s (List.mem_singleton_self s) false

theorem decodes_all {ss : List Stmt} (h : AllFit ss) :
    Decodes (list ofJson) (.arr (listToJson ss)) ss := by
  rw [listToJson_eq_map]
  exact decodes_list fun s hs => decodes_at_depth fun _ => returns_of_allFit h s hs false

end Stmt

/-! ## Programs -/

/-- All numbers in the body and of the header fit. -/
def FunctionDef.Fits (f : FunctionDef) : Prop :=
  Stmt.AllFit f.body ∧ f.source.Fits

theorem FunctionDef.decodes {f : FunctionDef} (h : f.Fits) : Decodes ofJson f.toJson f := by
  refine decodes_record (by simp) fun g r => ?_
  rw [r.required (by simp) (decodes_string f.name), r.required (by simp) (Stmt.decodes_all h.1),
    r.required (by simp) (SourceRef.decodes h.2)]
  rfl

/-- A known number of commands is a 64-bit number. -/
def Metadata.Fits (m : Metadata) : Prop :=
  ∀ n ∈ m.staticCommandCount, n ≤ Text.max64

theorem Metadata.decodes {m : Metadata} (h : m.Fits) : Decodes ofJson m.toJson m := by
  refine decodes_record (by simp) fun f r => ?_
  rw [word64, r.optional (by simp) (decodes_nullable_upTo h),
    r.required (by simp) (decodes_bool m.hasDynamicControlFlow)]
  rfl

/-- All numbers of a program fit. -/
structure Program.Fits (p : Program) : Prop where
  main : Stmt.AllFit p.main
  functions : ∀ f ∈ p.functions, f.Fits
  metadata : p.metadata.Fits

theorem Program.decodes {p : Program} (h : p.Fits) : Decodes ofJson p.toJson p := by
  refine decodes_record (by simp) fun f r => ?_
  rw [r.required (by simp) (Stmt.decodes_all h.main),
    r.required (by simp) (decodes_list fun g hg => FunctionDef.decodes (h.functions g hg)),
    r.required (by simp) (Metadata.decodes h.metadata)]
  rfl

end GemGrid
