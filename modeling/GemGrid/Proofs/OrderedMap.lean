import GemGrid.OrderedMap
import Mathlib.Data.List.Nodup
import Mathlib.Data.List.Perm.Basic

/-!
# What ordered maps and sets hold

An ordered map is known by its lookups and an ordered set by its members.

* `get?_eq_some_iff`: the entries are what the lookups find.
* `find?_entries_eq_some_iff`: the first entry with a property has the least key of them.
* `get?_insert`, `get?_mapValues`: lookups after a change.
* `get?_ofList_iff`: a list of entries with different keys gives the map of these entries, in
  whatever order it has them (`ofList_eq_of_perm`).
* `OrderedSet.mem_ofList_iff`: a list of keys gives the set of these keys.
-/

namespace GemGrid

namespace OrderedMap

variable {κ ν : Type} [KeyOrder κ]

/-- Maps that have the same entries in some order have them in the same order. -/
theorem eq_of_perm {m n : OrderedMap κ ν} (h : m.entries.Perm n.entries) : m = n := by
  refine ext (h.eq_of_pairwise (fun a b _ _ hab hba => ?_) m.sorted n.sorted)
  exact absurd (KeyOrder.trans hab hba) (KeyOrder.irrefl a.1)

theorem nodup_keys (m : OrderedMap κ ν) : m.keys.Nodup := by
  rw [keys, List.Nodup, List.pairwise_map]
  refine m.sorted.imp fun {a b} hlt heq => ?_
  rw [heq] at hlt
  exact KeyOrder.irrefl b.1 hlt

theorem mapValues_mapValues (m : OrderedMap κ ν) (f g : κ → ν → ν) :
    (m.mapValues f).mapValues g = m.mapValues fun k v => g k (f k v) :=
  ext (by simp [mapValues])

theorem mapValues_id (m : OrderedMap κ ν) : (m.mapValues fun _ => id) = m :=
  ext (by simp [mapValues])

variable [DecidableEq κ]

/-! ## Lookups -/

theorem lookup_insertEntry (k : κ) (v : ν) (es : List (κ × ν)) (k' : κ) :
    (insertEntry k v es).lookup k' = if k' = k then some v else es.lookup k' := by
  induction es with
  | nil => by_cases h : k' = k <;> simp [insertEntry, List.lookup_cons, h, beq_false_of_ne]
  | cons e es ih =>
      obtain ⟨key, value⟩ := e
      rw [insertEntry]
      split
      · by_cases h : k' = k <;> simp [List.lookup_cons, h, beq_false_of_ne]
      · next hnot =>
        split
        · next hgt =>
          have hne : key ≠ k := fun h => KeyOrder.irrefl k (h ▸ hgt)
          rw [List.lookup_cons, ih, List.lookup_cons]
          by_cases h : k' = key
          · simp [h, hne]
          · simp [beq_false_of_ne h]
        · -- neither key is below the other, so the new entry replaces this one
          next hngt =>
          obtain rfl : k = key := KeyOrder.connected hnot hngt
          by_cases h : k' = k <;> simp [List.lookup_cons, h, beq_false_of_ne]

theorem get?_insert (m : OrderedMap κ ν) (k : κ) (v : ν) (k' : κ) :
    (m.insert k v).get? k' = if k' = k then some v else m.get? k' :=
  lookup_insertEntry k v m.entries k'

theorem mem_entries_of_get? {m : OrderedMap κ ν} {k : κ} {v : ν} (h : m.get? k = some v) :
    (k, v) ∈ m.entries := by
  obtain ⟨before, after, hsplit, _⟩ := List.lookup_eq_some_iff.mp h
  simp [hsplit]

theorem get?_of_mem_entries {m : OrderedMap κ ν} {k : κ} {v : ν} (h : (k, v) ∈ m.entries) :
    m.get? k = some v := by
  obtain ⟨before, after, hsplit⟩ := List.append_of_mem h
  refine List.lookup_eq_some_iff.mpr ⟨before, after, hsplit, fun e he => ?_⟩
  have hlt : e.1 < k := by
    have hsorted := hsplit ▸ m.sorted
    exact (List.pairwise_append.mp hsorted).2.2 e he (k, v) (List.mem_cons_self ..)
  have hne : k ≠ e.1 := fun heq => KeyOrder.irrefl k (heq ▸ hlt)
  simpa using hne

theorem get?_eq_some_iff {m : OrderedMap κ ν} {k : κ} {v : ν} :
    m.get? k = some v ↔ (k, v) ∈ m.entries :=
  ⟨mem_entries_of_get?, get?_of_mem_entries⟩

/-- The first entry whose value has a property is the one with the least key. -/
theorem find?_entries_eq_some_iff {m : OrderedMap κ ν} {P : ν → Bool} {k : κ} {v : ν} :
    m.entries.find? (fun e => P e.2) = some (k, v) ↔
      m.get? k = some v ∧ P v = true ∧
        ∀ k' v', m.get? k' = some v' → P v' = true → ¬ k' < k := by
  have hholds : ∀ {k v}, m.entries.find? (fun e => P e.2) = some (k, v) → P v = true :=
    fun hfind => (List.find?_eq_some_iff_append.mp hfind).1
  have hleast : ∀ {k v}, m.entries.find? (fun e => P e.2) = some (k, v) →
      ∀ k' v', m.get? k' = some v' → P v' = true → ¬ k' < k := by
    intro k v hfind k' v' hget hP hlt
    obtain ⟨-, before, after, hsplit, hbefore⟩ := List.find?_eq_some_iff_append.mp hfind
    have hmem := mem_entries_of_get? hget
    have hsorted := m.sorted
    rw [hsplit] at hmem hsorted
    rcases List.mem_append.mp hmem with hmem | hmem
    · simpa [hP] using hbefore _ hmem
    -- the keys from the found one on are not less than it
    rcases List.mem_cons.mp hmem with heq | hmem
    · cases heq
      exact KeyOrder.irrefl _ hlt
    · have hgt := (List.pairwise_cons.mp (List.pairwise_append.mp hsorted).2.1).1 _ hmem
      exact KeyOrder.irrefl _ (KeyOrder.trans hgt hlt)
  constructor
  · intro hfind
    exact ⟨get?_of_mem_entries (List.mem_of_find?_eq_some hfind), hholds hfind, hleast hfind⟩
  · rintro ⟨hget, hP, hmin⟩
    have hsome : (m.entries.find? fun e => P e.2).isSome = true :=
      List.find?_isSome.mpr ⟨(k, v), mem_entries_of_get? hget, hP⟩
    obtain ⟨⟨k', v'⟩, hfind⟩ := Option.isSome_iff_exists.mp hsome
    have hget' := get?_of_mem_entries (List.mem_of_find?_eq_some hfind)
    obtain rfl : k = k' :=
      KeyOrder.connected (hleast hfind k v hget hP) (hmin k' v' hget' (hholds hfind))
    rw [hfind, Option.some.inj (hget.symm.trans hget')]

theorem insertEntry_eq_map {k : κ} {v : ν} (g : ν → ν) {es : List (κ × ν)}
    (hsorted : es.Pairwise fun a b => a.1 < b.1) (hlookup : es.lookup k = some v) :
    insertEntry k (g v) es = es.map fun e => (e.1, if e.1 = k then g e.2 else e.2) := by
  induction es with
  | nil => cases hlookup
  | cons e es ih =>
      obtain ⟨key, value⟩ := e
      obtain ⟨hhead, htail⟩ := List.pairwise_cons.mp hsorted
      rw [List.lookup_cons] at hlookup
      rw [insertEntry, List.map_cons]
      by_cases hkey : k = key
      · -- no key behind this one is the same
        subst hkey
        have hrest : es.map (fun e => (e.1, if e.1 = k then g e.2 else e.2)) = es := by
          refine (List.map_congr_left fun e he => ?_).trans (List.map_id es)
          have hne : e.1 ≠ k := fun heq => KeyOrder.irrefl k (heq ▸ hhead e he)
          rw [if_neg hne, id]
        have hvalue : value = v := by simpa using hlookup
        rw [if_neg (KeyOrder.irrefl k), if_neg (KeyOrder.irrefl k), hrest, if_pos rfl, hvalue]
      · have hbehind : es.lookup k = some v := by
          simpa [beq_false_of_ne hkey] using hlookup
        obtain ⟨before, after, hsplit, _⟩ := List.lookup_eq_some_iff.mp hbehind
        have hlt : key < k := hhead (k, v) (by simp [hsplit])
        have hnot : ¬ k < key := fun h => KeyOrder.irrefl k (KeyOrder.trans h hlt)
        rw [if_neg hnot, if_pos hlt, ih htail hbehind, if_neg (Ne.symm hkey)]

/-- To set a key that is there is to change its value. -/
theorem insert_eq_mapValues {m : OrderedMap κ ν} {k : κ} {v : ν} (h : m.get? k = some v)
    (g : ν → ν) : m.insert k (g v) = m.mapValues fun k' v' => if k' = k then g v' else v' :=
  ext (insertEntry_eq_map g m.sorted h)

theorem get?_mapValues (m : OrderedMap κ ν) (f : κ → ν → ν) (k : κ) :
    (m.mapValues f).get? k = (m.get? k).map (f k) := by
  show List.lookup k (m.entries.map _) = (List.lookup k m.entries).map (f k)
  induction m.entries with
  | nil => rfl
  | cons e es ih =>
      rw [List.map_cons, List.lookup_cons, List.lookup_cons, ih]
      by_cases hkey : k = e.1
      · simp [hkey]
      · simp [beq_false_of_ne hkey]

/-- The entries with a property of their values, counted by their keys. -/
theorem countP_values (m : OrderedMap κ ν) (P : ν → Bool) :
    m.values.countP P = m.keys.countP fun k => (m.get? k).any P := by
  rw [values, keys, List.countP_map, List.countP_map]
  refine List.countP_congr fun e he => ?_
  rw [Function.comp, Function.comp, get?_of_mem_entries he, Option.any_some]

/-! ## Maps from lists -/

/-- Entries with different keys are found, and so is what was there under other keys. -/
theorem get?_foldl_insert_iff {es : List (κ × ν)} (hnodup : (es.map Prod.fst).Nodup)
    (m : OrderedMap κ ν) {k : κ} {v : ν} :
    (es.foldl (fun m e => m.insert e.1 e.2) m).get? k = some v ↔
      (k, v) ∈ es ∨ k ∉ es.map Prod.fst ∧ m.get? k = some v := by
  induction es generalizing m with
  | nil => simp
  | cons e es ih =>
      obtain ⟨key, value⟩ := e
      obtain ⟨hnew, hnodup⟩ := List.nodup_cons.mp hnodup
      rw [List.foldl_cons, ih hnodup, get?_insert]
      -- the key of the first entry is in no later one, so its value is not overwritten
      by_cases hkey : k = key
      · subst hkey
        have hnew : k ∉ es.map Prod.fst := hnew
        have hnot : (k, v) ∉ es := fun h => hnew (List.mem_map.mpr ⟨(k, v), h, rfl⟩)
        simp [hnot, hnew, eq_comm]
      · simp [hkey]

theorem get?_ofList_iff {es : List (κ × ν)} (hnodup : (es.map Prod.fst).Nodup) {k : κ} {v : ν} :
    (ofList es).get? k = some v ↔ (k, v) ∈ es := by
  have hempty : (empty : OrderedMap κ ν).get? k ≠ some v := by simp [get?, empty]
  rw [ofList, get?_foldl_insert_iff hnodup]
  simp [hempty]

/-- The map of a list has the entries of the list. -/
theorem perm_entries_ofList {es : List (κ × ν)} (hnodup : (es.map Prod.fst).Nodup) :
    (ofList es).entries.Perm es := by
  have hentries : (ofList es).entries.Nodup := List.Nodup.of_map _ (ofList es).nodup_keys
  rw [List.perm_ext_iff_of_nodup hentries (List.Nodup.of_map _ hnodup)]
  rintro ⟨k, v⟩
  rw [← get?_eq_some_iff, get?_ofList_iff hnodup]

theorem ofList_eq_of_perm {es : List (κ × ν)} {m : OrderedMap κ ν} (h : es.Perm m.entries) :
    ofList es = m := by
  have hnodup : (es.map Prod.fst).Nodup := (h.map _).nodup_iff.mpr m.nodup_keys
  exact eq_of_perm ((perm_entries_ofList hnodup).trans h)

end OrderedMap

/-! ## Sets -/

namespace OrderedSet

variable {κ : Type} [KeyOrder κ]

theorem nodup (s : OrderedSet κ) : s.members.Nodup := by
  refine List.Pairwise.imp (fun {a b} hlt => ?_) s.sorted
  rintro rfl
  exact KeyOrder.irrefl a hlt

theorem mem_insertKey_iff {k a : κ} {as : List κ} : a ∈ insertKey k as ↔ a = k ∨ a ∈ as := by
  refine ⟨eq_or_mem_of_mem_insertKey, fun h => ?_⟩
  induction as with
  | nil => simpa [insertKey] using h
  | cons b as ih =>
      rw [insertKey]
      split
      · simpa using h
      · next hnot =>
        split
        · rcases h with h | h
          · exact List.mem_cons_of_mem _ (ih (.inl h))
          · rcases List.mem_cons.mp h with rfl | h
            · exact List.mem_cons_self ..
            · exact List.mem_cons_of_mem _ (ih (.inr h))
        · -- the key is there already
          next hngt =>
          obtain rfl : k = b := KeyOrder.connected hnot hngt
          rcases h with rfl | h
          · exact List.mem_cons_self ..
          · exact h

theorem mem_foldl_insert_iff {ks : List κ} (s : OrderedSet κ) {a : κ} :
    a ∈ (ks.foldl insert s).members ↔ a ∈ ks ∨ a ∈ s.members := by
  induction ks generalizing s with
  | nil => simp
  | cons k ks ih =>
      have hinsert : a ∈ (s.insert k).members ↔ a = k ∨ a ∈ s.members := mem_insertKey_iff
      rw [List.foldl_cons, ih, hinsert, List.mem_cons]
      tauto

theorem mem_ofList_iff {ks : List κ} {a : κ} : a ∈ (ofList ks).members ↔ a ∈ ks := by
  rw [ofList, mem_foldl_insert_iff]
  simp [empty]

/-- Listing a set and collecting the list again changes nothing. -/
theorem ofList_members (s : OrderedSet κ) : ofList s.members = s := by
  have hperm : (ofList s.members).members.Perm s.members := by
    rw [List.perm_ext_iff_of_nodup (nodup _) (nodup s)]
    exact fun a => mem_ofList_iff
  refine ext (hperm.eq_of_pairwise (fun a b _ _ hab hba => ?_) (ofList s.members).sorted s.sorted)
  exact absurd (KeyOrder.trans hab hba) (KeyOrder.irrefl a)

end OrderedSet

end GemGrid
