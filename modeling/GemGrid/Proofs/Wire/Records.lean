import GemGrid.Proofs.Json.Alike
import GemGrid.Wire.Decode
import Mathlib.Data.List.Nodup

/-!
# Decoding what was encoded

`Decodes decode j a` says that `decode` makes `a` from the value `j`, in whatever order the fields of
its objects come.  The statements here cover the ways in which the library encodes values; the
modules for the single types put them together.

* Texts, truth values, numbers within a bound, choices among names, lists, and values that may be
  absent.
* `Record fields f`: the fields `f` are those of an object that holds `fields`, each once and by its
  name.  The value of each field is then read by what reads that value alone (`Record.required`,
  `Record.optional`, `Record.defaulted`), and `decodes_record` makes the record from its fields.
* `exists_tagged`: a record with a tag is its tag and the record without it.
* `exists_bound` and `decodes_at_depth`: nested values are decoded with a bound on their depth, and
  their own depth is enough.
-/

namespace GemGrid.Wire

/-- What is alike to `j` is read as `a`. -/
def Decodes {α : Type} (decode : Json → Except DecodeError α) (j : Json) (a : α) : Prop :=
  ∀ j', j.Alike j' → decode j' = .ok a

/-! ## Values without parts -/

theorem decodes_string (s : String) : Decodes string (.str s) s := by
  rintro _ ⟨⟩
  rfl

theorem decodes_bool (b : Bool) : Decodes bool (.bool b) b := by
  rintro _ ⟨⟩
  rfl

theorem decodes_upTo {bound n : Nat} (h : n ≤ bound) : Decodes (upTo bound) (.nat n) n := by
  rintro _ ⟨⟩
  rw [Json.nat, upTo, if_pos ⟨Int.natCast_nonneg n, Int.ofNat_le.mpr h⟩, Int.toNat_natCast]

/-- The names of a choice tell its members apart. -/
def TellsApart {α : Type} (all : List α) (name : α → String) : Prop :=
  ∀ a, all.find? (fun b => name b == name a) = some a

theorem decodes_oneOf {α : Type} {all : List α} {name : α → String} (h : TellsApart all name)
    (a : α) : Decodes (oneOf all name) (.str (name a)) a := by
  rintro _ ⟨⟩
  rw [oneOf, named, h a]

theorem decodes_oneOfInside {α : Type} {all : List α} {name : α → String}
    (h : TellsApart all name) (a : α) : Decodes (oneOfInside all name) (.str (name a)) a := by
  rintro _ ⟨⟩
  rw [oneOfInside, oneOf, named, h a]
  simp

/-! ## Lists and absent values -/

theorem mapM_eq_ok {α β ε : Type} {decode : α → Except ε β} {as : List α} {bs : List β}
    (h : List.Forall₂ (fun a b => decode a = .ok b) as bs) : as.mapM decode = .ok bs := by
  induction h with
  | nil => rfl
  | cons hfirst _ ih =>
      rw [List.mapM_cons, hfirst, ih]
      rfl

theorem decodes_list {α : Type} {encode : α → Json} {decode : Json → Except DecodeError α}
    {as : List α} (h : ∀ a ∈ as, Decodes decode (encode a) a) :
    Decodes (list decode) (Json.list encode as) as := by
  intro j hj
  obtain ⟨items, rfl, hitems⟩ := Json.exists_of_alike_arr hj
  clear hj
  refine mapM_eq_ok ?_
  induction as generalizing items with
  | nil =>
      cases hitems
      exact .nil
  | cons a as ih =>
      obtain ⟨item, items, hitem, hrest, rfl⟩ := List.forall₂_cons_left_iff.mp hitems
      exact .cons (h a (List.mem_cons_self ..) item hitem)
        (ih (fun b hb => h b (List.mem_cons_of_mem _ hb)) items hrest)

theorem decodes_nullable {α : Type} {encode : α → Json} {decode : Json → Except DecodeError α}
    {o : Option α} (hnull : ∀ a, encode a ≠ .null) (h : ∀ a ∈ o, Decodes decode (encode a) a) :
    Decodes (nullable decode) (Json.nullable encode o) o := by
  intro j hj
  cases o with
  | none =>
      obtain ⟨⟩ := hj
      rfl
  | some a =>
      have hj' : j ≠ .null := hj.ne_null (hnull a)
      rw [nullable, h a rfl j hj]
      · rfl
      · exact hj'

theorem decodes_nullable_upTo {bound : Nat} {o : Option Nat} (h : ∀ n ∈ o, n ≤ bound) :
    Decodes (nullable (upTo bound)) (Json.nullable Json.nat o) o :=
  decodes_nullable (fun _ => by simp [Json.nat]) fun n hn => decodes_upTo (h n hn)

/-! ## Fields of a record -/

/-- The fields of an object that holds `fields`, each once, by name and in some order. -/
structure Record (fields : List (String × Json)) (f : Fields) : Prop where
  byName : f.byName = true
  excess : f.excess = false
  names : (f.entries.map Prod.fst).Perm (fields.map Prod.fst)
  nodup : (fields.map Prod.fst).Nodup
  values : ∀ {name j}, (name, j) ∈ fields → ∃ j', (name, j') ∈ f.entries ∧ j.Alike j'

theorem exists_record (names : List String) {fields : List (String × Json)} {j : Json}
    (h : (Json.obj fields).Alike j) (hnodup : (fields.map Prod.fst).Nodup) :
    ∃ f, Fields.of names j = .ok f ∧ Record fields f := by
  obtain ⟨fields', fields'', rfl, halike, hperm⟩ := Json.exists_of_alike_obj h
  refine ⟨_, rfl, rfl, rfl, ?_, hnodup, fun hmem => ?_⟩
  · rw [← halike.names_eq]
    exact (hperm.map _).symm
  · obtain ⟨value', hmem', hvalue⟩ := halike.exists_of_mem hmem
    exact ⟨value', hperm.subset hmem', hvalue⟩

theorem map_snd_occurrences (f : Fields) (name : String) :
    (f.occurrences name).map Prod.snd =
      (f.entries.filter fun entry => entry.1 = name).map Prod.snd := by
  rw [Fields.occurrences]
  generalize 0 = start
  induction f.entries generalizing start with
  | nil => rfl
  | cons entry entries ih =>
      rw [List.zipIdx_cons, List.filterMap_cons, List.filter_cons]
      by_cases hname : entry.1 = name <;> simp [hname, ih]

namespace Record

variable {fields : List (String × Json)} {f : Fields} {name : String} {j : Json}

theorem filter_entries (r : Record fields f) {value : Json} (hmem : (name, value) ∈ f.entries) :
    f.entries.filter (fun entry => entry.1 = name) = [(name, value)] := by
  have hcount : (f.entries.map Prod.fst).count name = 1 :=
    List.count_eq_one_of_mem (r.names.nodup_iff.mpr r.nodup)
      (List.mem_map.mpr ⟨(name, value), hmem, rfl⟩)
  have hlength : (f.entries.filter fun entry => entry.1 = name).length = 1 := by
    rw [← hcount, ← List.countP_eq_length_filter, List.count, List.countP_map]
    exact List.countP_congr fun entry _ => by simp
  obtain ⟨entry, hentry⟩ := List.length_eq_one_iff.mp hlength
  have hin : (name, value) ∈ f.entries.filter fun entry => entry.1 = name :=
    List.mem_filter.mpr ⟨hmem, by simp⟩
  rw [hentry] at hin ⊢
  rw [List.mem_singleton.mp hin]

/-- A field that is there is given once. -/
theorem exists_occurrence (r : Record fields f) (hmem : (name, j) ∈ fields) :
    ∃ i j', f.occurrences name = [(i, j')] ∧ j.Alike j' := by
  obtain ⟨value, hvalue, halike⟩ := r.values hmem
  have hsnd : (f.occurrences name).map Prod.snd = [value] := by
    rw [map_snd_occurrences, r.filter_entries hvalue]
    rfl
  obtain ⟨⟨i, j'⟩, hoccurrences, rfl⟩ := List.map_eq_singleton_iff.mp hsnd
  exact ⟨i, j', hoccurrences, halike⟩

theorem occurrences_eq_nil (r : Record fields f) (habsent : name ∉ fields.map Prod.fst) :
    f.occurrences name = [] := by
  have hfilter : f.entries.filter (fun entry => entry.1 = name) = [] := by
    rw [List.filter_eq_nil_iff]
    intro entry hentry hname
    refine habsent (r.names.subset (List.mem_map.mpr ⟨entry, hentry, ?_⟩))
    simpa using hname
  have hsnd := map_snd_occurrences f name
  rw [hfilter] at hsnd
  exact List.map_eq_nil_iff.mp hsnd

/-- A field that is there is read by what reads its value, whatever stands for its absence. -/
theorem field {α : Type} (r : Record fields f) {a : α} {decode : Json → Except DecodeError α}
    (absent : Except DecodeError α) (hmem : (name, j) ∈ fields) (h : Decodes decode j a) :
    f.field name absent decode = pure a := by
  obtain ⟨i, j', hoccurrences, halike⟩ := r.exists_occurrence hmem
  simp only [Fields.field, hoccurrences, h j' halike]
  rfl

theorem required {α : Type} (r : Record fields f) {a : α} {decode : Json → Except DecodeError α}
    (hmem : (name, j) ∈ fields) (h : Decodes decode j a) : f.required name decode = pure a :=
  r.field _ hmem h

theorem optional {α : Type} (r : Record fields f) {o : Option α}
    {decode : Json → Except DecodeError α} (hmem : (name, j) ∈ fields)
    (h : Decodes (nullable decode) j o) : f.optional name decode = pure o :=
  r.field _ hmem h

theorem defaulted {α : Type} (r : Record fields f) {a : α}
    {decode : Json → Except DecodeError α} (default : α) (hmem : (name, j) ∈ fields)
    (h : Decodes decode j a) : f.defaulted name default decode = pure a :=
  r.field _ hmem h

/-- A field that is left out when it has no value. -/
theorem optional_of_omitted {α : Type} (r : Record fields f) {o : Option α} (encode : α → Json)
    {decode : Json → Except DecodeError α} (hnull : ∀ a, encode a ≠ .null)
    (hgiven : ∀ a ∈ o, (name, encode a) ∈ fields)
    (habsent : o = none → name ∉ fields.map Prod.fst) (h : ∀ a ∈ o, Decodes decode (encode a) a) :
    f.optional name decode = pure o := by
  cases o with
  | none =>
      simp only [Fields.optional, Fields.field, r.occurrences_eq_nil (habsent rfl), r.byName]
      rfl
  | some a => exact r.optional (hgiven a rfl) (decodes_nullable hnull h)

end Record

/-- A record is read when each of its fields is. -/
theorem decodes_record {α : Type} {names : List String} {fields : List (String × Json)} {a : α}
    {visit : Fields → Visit α} (hnodup : (fields.map Prod.fst).Nodup)
    (h : ∀ f, Record fields f → visit f = pure a) :
    Decodes (fun j => Fields.of names j >>= fun f => f.build (visit f)) (.obj fields) a := by
  intro j hj
  obtain ⟨f, hof, r⟩ := exists_record names hj hnodup
  show (Fields.of names j >>= fun f => f.build (visit f)) = .ok a
  rw [hof]
  show f.build (visit f) = .ok a
  rw [h f r]
  show (if f.excess then _ else _) = _
  rw [r.excess]
  rfl

/-! ## Tables -/

/-- A list in another order gives the results in another order. -/
theorem exists_mapM_of_perm {α β ε : Type} (decode : α → Except ε β) {as as' : List α}
    {bs : List β} (hperm : as'.Perm as) (h : List.Forall₂ (fun a b => decode a = .ok b) as bs) :
    ∃ bs', as'.mapM decode = .ok bs' ∧ bs'.Perm bs := by
  obtain ⟨bs', hbs', hperm'⟩ := List.perm_comp_forall₂ hperm h
  exact ⟨bs', mapM_eq_ok hbs', hperm'⟩

/-- The fields of an object that has one for each member of a list give what the members give, in
some order. -/
theorem exists_mapM_fields {α β : Type} {encode : α → String × Json}
    (decode : String × Json → Except DecodeError β) (result : α → β) {as : List α} {j : Json}
    (hj : (Json.obj (as.map encode)).Alike j)
    (h : ∀ a ∈ as, Decodes (fun j' => decode ((encode a).1, j')) (encode a).2 (result a)) :
    ∃ fields bs, j = .obj fields ∧ fields.mapM decode = .ok bs ∧ bs.Perm (as.map result) := by
  obtain ⟨fields', fields, rfl, halike, hperm⟩ := Json.exists_of_alike_obj hj
  have hresults : List.Forall₂ (fun field b => decode field = .ok b) fields' (as.map result) := by
    clear hj hperm
    -- the names agree entry by entry, so the values can be decoded one by one
    induction as generalizing fields' with
    | nil =>
        cases halike
        exact .nil
    | cons a as ih =>
        obtain ⟨⟨_, j'⟩, rest, ⟨rfl, hvalue⟩, hrest, rfl⟩ := List.forall₂_cons_left_iff.mp halike
        exact .cons (h a (List.mem_cons_self ..) j' hvalue)
          (ih (fun b hb => h b (List.mem_cons_of_mem _ hb)) rest hrest)
  obtain ⟨bs, hbs, hpermbs⟩ := exists_mapM_of_perm decode hperm.symm hresults
  exact ⟨fields, bs, rfl, hbs, hpermbs⟩

/-! ## Tags and depth -/

theorem exists_tagged {tag name : String} (tags : List String) (inside : Bool)
    {fields : List (String × Json)} {j : Json} (hname : name ∈ tags)
    (htag : tag ∉ fields.map Prod.fst) (h : (Json.obj ((tag, .str name) :: fields)).Alike j) :
    ∃ body, tagged tag tags inside j = .ok (name, body) ∧ (Json.obj fields).Alike body := by
  obtain ⟨all, entries, rfl, halike, hperm⟩ := Json.exists_of_alike_obj h
  obtain ⟨⟨_, _⟩, fields', ⟨rfl, ⟨⟩⟩, hfields, rfl⟩ := List.forall₂_cons_left_iff.mp halike
  -- the tag is the name of no other entry
  have hother : ∀ entry ∈ fields', (entry.1 == tag) = false := by
    intro entry hentry
    refine beq_false_of_ne fun heq => htag ?_
    rw [← Json.AlikeFields.names_eq hfields]
    exact List.mem_map.mpr ⟨entry, hentry, heq⟩
  have hfirst : entries.filter (·.1 == tag) = [(tag, .str name)] := by
    have hnone : fields'.filter (·.1 == tag) = [] := by
      rw [List.filter_eq_nil_iff]
      intro entry hentry
      simp [hother entry hentry]
    have hperm' := hperm.filter (·.1 == tag)
    rw [List.filter_cons_of_pos (by simp), hnone] at hperm'
    exact List.perm_singleton.mp hperm'.symm
  have hrest : fields'.Perm (entries.filter (·.1 != tag)) := by
    have hall : fields'.filter (·.1 != tag) = fields' := by
      rw [List.filter_eq_self]
      intro entry hentry
      simp [bne, hother entry hentry]
    have hperm' := hperm.filter (·.1 != tag)
    rwa [List.filter_cons_of_neg (by simp), hall] at hperm'
  refine ⟨.obj (entries.filter (·.1 != tag)), ?_, Json.alike_obj hfields hrest⟩
  simp only [tagged, hfirst, tagOf, List.contains_iff_mem.mpr hname]
  rfl

/-- A bound on the depth of a record leaves a bound for its fields. -/
theorem exists_bound {fields : List (String × Json)} {n : Nat} (h : (Json.obj fields).depth ≤ n) :
    ∃ m, n = m + 1 ∧ ∀ name value, (name, value) ∈ fields → value.depth ≤ m := by
  obtain ⟨m, rfl⟩ : ∃ m, n = m + 1 := by
    rw [Json.depth] at h
    exact Nat.exists_eq_add_one.mpr (by omega)
  refine ⟨m, rfl, fun name value hmem => ?_⟩
  have hlt := Json.depth_lt_of_mem_fields hmem
  omega

theorem decodes_at_depth {α : Type} {decode : Nat → Json → Except DecodeError α} {j : Json} {a : α}
    (h : ∀ n, j.depth ≤ n → Decodes (decode n) j a) :
    Decodes (fun j' => decode j'.depth j') j a :=
  fun j' hj => h j'.depth (Nat.le_of_eq hj.depth_eq.symm) j' hj

end GemGrid.Wire
