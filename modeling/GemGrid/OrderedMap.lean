/-!
# Ordered maps and sets

Finite maps whose entries are kept in strictly increasing order of their keys, so that two maps
with the same entries are equal and listing a map needs no sorting.  Maps of the grid use them
for the switches and the portals, and sets of positions for the gems.

* `KeyOrder` is a strict total order that can be decided.
* `OrderedMap κ ν` carries the order of its entries as an invariant; `insert` replaces the value
  of a key that is already there.
* `OrderedSet κ` is the same for keys alone.
-/

namespace GemGrid

/-- A decidable strict total order on keys. -/
class KeyOrder (κ : Type) extends LT κ where
  decide_lt : DecidableRel (fun a b : κ => a < b)
  irrefl : ∀ a : κ, ¬ a < a
  trans : ∀ {a b c : κ}, a < b → b < c → a < c
  connected : ∀ {a b : κ}, ¬ a < b → ¬ b < a → a = b

/-- The order of keys can be decided. -/
instance decidableKeyLT {κ : Type} [KeyOrder κ] (a b : κ) : Decidable (a < b) :=
  KeyOrder.decide_lt a b

instance : KeyOrder Nat where
  decide_lt := inferInstance
  irrefl := Nat.lt_irrefl
  trans := Nat.lt_trans
  connected := by omega

/-! ## Maps -/

/-- A finite map with its entries in strictly increasing order of their keys. -/
structure OrderedMap (κ ν : Type) [KeyOrder κ] where
  entries : List (κ × ν)
  sorted : entries.Pairwise fun a b => a.1 < b.1

namespace OrderedMap

variable {κ ν : Type} [KeyOrder κ]

/-- Maps with the same entries are equal. -/
@[ext] theorem ext {m n : OrderedMap κ ν} (h : m.entries = n.entries) : m = n := by
  cases m; cases n; cases h; rfl

instance [DecidableEq κ] [DecidableEq ν] : DecidableEq (OrderedMap κ ν) := fun m n =>
  if h : m.entries = n.entries then isTrue (ext h)
  else isFalse fun e => h (e ▸ rfl)

/-- The map without entries. -/
def empty : OrderedMap κ ν := ⟨[], .nil⟩

instance : Inhabited (OrderedMap κ ν) := ⟨empty⟩

/-- The keys, in increasing order. -/
def keys (m : OrderedMap κ ν) : List κ :=
  m.entries.map Prod.fst

/-- The values, in the order of their keys. -/
def values (m : OrderedMap κ ν) : List ν :=
  m.entries.map Prod.snd

/-- The number of entries. -/
def size (m : OrderedMap κ ν) : Nat :=
  m.entries.length

/-- The value at a key. -/
def get? [DecidableEq κ] (m : OrderedMap κ ν) (k : κ) : Option ν :=
  m.entries.lookup k

/-- Puts an entry into its place in an increasing list; an entry of the same key gives way. -/
def insertEntry (k : κ) (v : ν) : List (κ × ν) → List (κ × ν)
  | [] => [(k, v)]
  | e :: es =>
    if k < e.1 then (k, v) :: e :: es
    else if e.1 < k then e :: insertEntry k v es
    else (k, v) :: es

/-- The keys after an insertion are the new key and keys that were there. -/
theorem fst_of_mem_insertEntry {k : κ} {v : ν} {es : List (κ × ν)} {e : κ × ν}
    (h : e ∈ insertEntry k v es) : e.1 = k ∨ e ∈ es := by
  induction es with
  | nil => simp [insertEntry] at h; exact .inl (by rw [h])
  | cons d es ih =>
      rw [insertEntry] at h
      split at h
      · rcases List.mem_cons.1 h with rfl | h
        · exact .inl rfl
        · exact .inr h
      · split at h
        · rcases List.mem_cons.1 h with rfl | h
          · exact .inr (by simp)
          · exact (ih h).imp_right (List.mem_cons_of_mem _)
        · rcases List.mem_cons.1 h with rfl | h
          · exact .inl rfl
          · exact .inr (List.mem_cons_of_mem _ h)

/-- An insertion keeps the entries in order. -/
theorem sorted_insertEntry (k : κ) (v : ν) {es : List (κ × ν)}
    (h : es.Pairwise fun a b => a.1 < b.1) :
    (insertEntry k v es).Pairwise fun a b => a.1 < b.1 := by
  induction es with
  | nil => simp [insertEntry]
  | cons e es ih =>
      have hhead : ∀ d ∈ es, e.1 < d.1 := (List.pairwise_cons.1 h).1
      have htail := (List.pairwise_cons.1 h).2
      rw [insertEntry]
      -- the new entry goes in front of the head, somewhere behind it, or on its place
      split
      · next hlt =>
        refine List.pairwise_cons.2 ⟨fun d hd => ?_, h⟩
        rcases List.mem_cons.1 hd with rfl | hd
        · exact hlt
        · exact KeyOrder.trans hlt (hhead d hd)
      · next hnot =>
        split
        · next hgt =>
          refine List.pairwise_cons.2 ⟨fun d hd => ?_, ih htail⟩
          rcases fst_of_mem_insertEntry hd with hk | hd
          · exact hk ▸ hgt
          · exact hhead d hd
        · next hngt =>
          have hk : k = e.1 := KeyOrder.connected hnot hngt
          exact List.pairwise_cons.2 ⟨fun d hd => hk ▸ hhead d hd, htail⟩

/-- Sets the value of a key. -/
def insert (m : OrderedMap κ ν) (k : κ) (v : ν) : OrderedMap κ ν :=
  ⟨insertEntry k v m.entries, sorted_insertEntry k v m.sorted⟩

/-- The map of a list of entries; of entries with one key the last counts. -/
def ofList (es : List (κ × ν)) : OrderedMap κ ν :=
  es.foldl (fun m e => m.insert e.1 e.2) empty

/-- Changes the values and keeps the keys. -/
def mapValues {μ : Type} (f : κ → ν → μ) (m : OrderedMap κ ν) : OrderedMap κ μ :=
  ⟨m.entries.map fun e => (e.1, f e.1 e.2), List.pairwise_map.2 m.sorted⟩

end OrderedMap

/-! ## Sets -/

/-- A finite set with its members in strictly increasing order. -/
structure OrderedSet (κ : Type) [KeyOrder κ] where
  members : List κ
  sorted : members.Pairwise fun a b => a < b

namespace OrderedSet

variable {κ : Type} [KeyOrder κ]

/-- Sets with the same members are equal. -/
@[ext] theorem ext {s t : OrderedSet κ} (h : s.members = t.members) : s = t := by
  cases s; cases t; cases h; rfl

instance [DecidableEq κ] : DecidableEq (OrderedSet κ) := fun s t =>
  if h : s.members = t.members then isTrue (ext h)
  else isFalse fun e => h (e ▸ rfl)

/-- The set without members. -/
def empty : OrderedSet κ := ⟨[], .nil⟩

instance : Inhabited (OrderedSet κ) := ⟨empty⟩

/-- The number of members. -/
def size (s : OrderedSet κ) : Nat :=
  s.members.length

/-- Whether a key is a member. -/
def contains [DecidableEq κ] (s : OrderedSet κ) (k : κ) : Bool :=
  s.members.contains k

/-- Puts a key into its place in an increasing list, unless it is there. -/
def insertKey (k : κ) : List κ → List κ
  | [] => [k]
  | a :: as =>
    if k < a then k :: a :: as
    else if a < k then a :: insertKey k as
    else a :: as

/-- The members after an insertion are the new key and the old members. -/
theorem eq_or_mem_of_mem_insertKey {k a : κ} {as : List κ} (h : a ∈ insertKey k as) :
    a = k ∨ a ∈ as := by
  induction as with
  | nil => exact .inl (by simpa [insertKey] using h)
  | cons b as ih =>
      rw [insertKey] at h
      split at h
      · exact List.mem_cons.1 h
      · split at h
        · rcases List.mem_cons.1 h with rfl | h
          · exact .inr (by simp)
          · exact (ih h).imp_right (List.mem_cons_of_mem _)
        · exact .inr h

/-- An insertion keeps the members in order. -/
theorem sorted_insertKey (k : κ) {as : List κ} (h : as.Pairwise fun a b => a < b) :
    (insertKey k as).Pairwise fun a b => a < b := by
  induction as with
  | nil => simp [insertKey]
  | cons a as ih =>
      have hhead : ∀ b ∈ as, a < b := (List.pairwise_cons.1 h).1
      have htail := (List.pairwise_cons.1 h).2
      rw [insertKey]
      split
      · next hlt =>
        refine List.pairwise_cons.2 ⟨fun b hb => ?_, h⟩
        rcases List.mem_cons.1 hb with rfl | hb
        · exact hlt
        · exact KeyOrder.trans hlt (hhead b hb)
      · split
        · next hgt =>
          refine List.pairwise_cons.2 ⟨fun b hb => ?_, ih htail⟩
          rcases eq_or_mem_of_mem_insertKey hb with hk | hb
          · exact hk ▸ hgt
          · exact hhead b hb
        · -- a key that is there already changes nothing
          exact h

/-- Adds a member. -/
def insert (s : OrderedSet κ) (k : κ) : OrderedSet κ :=
  ⟨insertKey k s.members, sorted_insertKey k s.sorted⟩

/-- Removes a member. -/
def erase [DecidableEq κ] (s : OrderedSet κ) (k : κ) : OrderedSet κ :=
  ⟨s.members.erase k, s.sorted.sublist List.erase_sublist⟩

/-- The set of the keys of a list. -/
def ofList (ks : List κ) : OrderedSet κ :=
  ks.foldl insert empty

end OrderedSet

end GemGrid
