import GemGrid.Json.Basic
import Mathlib.Data.List.Forall2
import Mathlib.Data.List.Perm.Basic

/-!
# JSON values up to the order of fields

The fields of an object have no order of their own: a text keeps the one in which they were written,
a host may keep another, and `Json.sortFields` brings them into alphabetical order.  `Json.Alike`
says that two values differ in nothing but the order of the fields of their objects, at any depth.

Only inversions are needed.  A value that is like an array is an array of values like its items, and
one that is like an object is an object whose fields can be brought into the same order
(`exists_of_alike_obj`).
-/

namespace GemGrid.Json

/-- The same value up to the order of fields. -/
inductive Alike : Json → Json → Prop
  | refl (j : Json) : Alike j j
  | arr {items items' : List Json} : List.Forall₂ Alike items items' →
      Alike (.arr items) (.arr items')
  | obj {fields fields' fields'' : List (String × Json)} :
      fields.map Prod.fst = fields'.map Prod.fst →
      List.Forall₂ Alike (fields.map Prod.snd) (fields'.map Prod.snd) →
      fields'.Perm fields'' → Alike (.obj fields) (.obj fields'')

/-- One list of fields has the values of the other under the same names. -/
abbrev AlikeFields : List (String × Json) → List (String × Json) → Prop :=
  List.Forall₂ fun a b => a.1 = b.1 ∧ Alike a.2 b.2

theorem alikeFields_of_map {fields fields' : List (String × Json)}
    (hnames : fields.map Prod.fst = fields'.map Prod.fst)
    (hvalues : List.Forall₂ Alike (fields.map Prod.snd) (fields'.map Prod.snd)) :
    AlikeFields fields fields' := by
  induction fields generalizing fields' with
  | nil =>
      obtain rfl : fields' = [] := List.map_eq_nil_iff.mp hnames.symm
      exact .nil
  | cons field fields ih =>
      cases fields' with
      | nil => cases hnames
      | cons field' fields' =>
          obtain ⟨hname, hnames⟩ := List.cons.inj hnames
          obtain ⟨hvalue, hvalues⟩ := List.forall₂_cons.mp hvalues
          exact .cons ⟨hname, hvalue⟩ (ih hnames hvalues)

theorem exists_of_alike_arr {items : List Json} {j : Json} (h : Alike (.arr items) j) :
    ∃ items', j = .arr items' ∧ List.Forall₂ Alike items items' := by
  cases h with
  | refl => exact ⟨items, rfl, List.forall₂_same.mpr fun item _ => .refl item⟩
  | arr hitems => exact ⟨_, rfl, hitems⟩

theorem exists_of_alike_obj {fields : List (String × Json)} {j : Json}
    (h : Alike (.obj fields) j) :
    ∃ fields' fields'', j = .obj fields'' ∧ AlikeFields fields fields' ∧
      fields'.Perm fields'' := by
  cases h with
  | refl =>
      exact ⟨fields, fields, rfl, List.forall₂_same.mpr fun a _ => ⟨rfl, .refl a.2⟩, .refl _⟩
  | obj hnames hvalues hperm => exact ⟨_, _, rfl, alikeFields_of_map hnames hvalues, hperm⟩

theorem AlikeFields.names_eq {fields fields' : List (String × Json)}
    (h : AlikeFields fields fields') : fields'.map Prod.fst = fields.map Prod.fst := by
  induction h with
  | nil => rfl
  | cons hfirst _ ih => rw [List.map_cons, List.map_cons, ih, hfirst.1]

theorem alike_obj {fields fields' fields'' : List (String × Json)}
    (h : AlikeFields fields fields') (hperm : fields'.Perm fields'') :
    Alike (.obj fields) (.obj fields'') := by
  refine .obj h.names_eq.symm ?_ hperm
  rw [List.forall₂_map_left_iff, List.forall₂_map_right_iff]
  exact h.imp fun a b hab => hab.2

theorem Alike.ne_null {j j' : Json} (h : Alike j j') (hj : j ≠ .null) : j' ≠ .null := by
  cases h with
  | refl => exact hj
  | arr | obj => simp

theorem AlikeFields.exists_of_mem {fields fields' : List (String × Json)}
    (h : AlikeFields fields fields') {name : String} {value : Json}
    (hmem : (name, value) ∈ fields) : ∃ value', (name, value') ∈ fields' ∧ Alike value value' := by
  induction h with
  | nil => cases hmem
  | @cons a b _ _ hfirst _ ih =>
      rcases List.mem_cons.mp hmem with rfl | hmem
      · obtain ⟨rfl, halike⟩ := hfirst
        exact ⟨b.2, List.mem_cons_self .., halike⟩
      · obtain ⟨value', hmem', halike⟩ := ih hmem
        exact ⟨value', List.mem_cons_of_mem _ hmem', halike⟩

/-! ## Depth -/

theorem depthOfFields_eq (fields : List (String × Json)) :
    depthOfFields fields = depthOfItems (fields.map Prod.snd) := by
  induction fields with
  | nil => simp only [depthOfFields, List.map_nil, depthOfItems]
  | cons field fields ih => simp only [depthOfFields, List.map_cons, depthOfItems, ih]

theorem depthOfItems_perm {items items' : List Json} (h : items.Perm items') :
    depthOfItems items = depthOfItems items' := by
  induction h with
  | nil => rfl
  | cons _ _ ih => rw [depthOfItems, depthOfItems, ih]
  | swap => simp only [depthOfItems, Nat.max_left_comm]
  | trans _ _ ih ih' => exact ih.trans ih'

theorem depth_le_of_mem_items {items : List Json} {item : Json} (h : item ∈ items) :
    item.depth ≤ depthOfItems items := by
  induction items with
  | nil => cases h
  | cons first items ih =>
      rw [depthOfItems]
      rcases List.mem_cons.mp h with rfl | h
      · exact Nat.le_max_left ..
      · exact Nat.le_trans (ih h) (Nat.le_max_right ..)

theorem depth_lt_of_mem_fields {fields : List (String × Json)} {name : String} {value : Json}
    (h : (name, value) ∈ fields) : value.depth < (obj fields).depth := by
  rw [depth, depthOfFields_eq]
  exact Nat.lt_succ_of_le (depth_le_of_mem_items (List.mem_map.mpr ⟨_, h, rfl⟩))

theorem depthOfItems_alike {items items' : List Json} (h : List.Forall₂ Alike items items')
    (ih : ∀ item ∈ items, ∀ j, Alike item j → j.depth = item.depth) :
    depthOfItems items' = depthOfItems items := by
  induction h with
  | nil => rfl
  | @cons first first' _ _ hfirst _ hrest =>
      rw [depthOfItems, depthOfItems, ih first (List.mem_cons_self ..) first' hfirst,
        hrest fun item hitem => ih item (List.mem_cons_of_mem _ hitem)]

theorem depth_eq_of_alike_within (n : Nat) :
    ∀ {j j' : Json}, j.depth ≤ n → Alike j j' → j'.depth = j.depth := by
  -- items and fields are less deep than what they stand in
  induction n with
  | zero =>
      intro j j' hdepth h
      cases h with
      | refl => rfl
      | arr | obj => simp [depth] at hdepth
  | succ n ih =>
      intro j j' hdepth h
      cases h with
      | refl => rfl
      | arr hitems =>
          rw [depth] at hdepth
          rw [depth, depth, depthOfItems_alike hitems fun item hitem j hj => ih ?_ hj]
          exact Nat.le_trans (depth_le_of_mem_items hitem) (Nat.le_of_succ_le_succ hdepth)
      | @obj fields fields' fields'' _ hvalues hperm =>
          rw [depth, depthOfFields_eq] at hdepth
          rw [depth, depth, depthOfFields_eq, depthOfFields_eq,
            ← depthOfItems_perm (hperm.map Prod.snd),
            depthOfItems_alike hvalues fun item hitem j hj => ih ?_ hj]
          exact Nat.le_trans (depth_le_of_mem_items hitem) (Nat.le_of_succ_le_succ hdepth)

/-- The order of fields does not change the depth. -/
theorem Alike.depth_eq {j j' : Json} (h : Alike j j') : j'.depth = j.depth :=
  depth_eq_of_alike_within j.depth (Nat.le_refl _) h

end GemGrid.Json
