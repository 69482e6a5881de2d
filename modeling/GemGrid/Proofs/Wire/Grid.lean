import GemGrid.Proofs.Grid.Keys
import GemGrid.Proofs.OrderedMap
import GemGrid.Proofs.Results
import GemGrid.Proofs.Text
import GemGrid.Proofs.Wire.Records
import GemGrid.Wire.Grid

/-!
# Maps survive their exchange form

Positions, cells, maps and map rules are decoded from what they are encoded to.

The keys `row,col` of positions are the delicate part.  What reads them is lenient and accepts other
spellings of the same position, but it reads back what `Position.key` writes (`ofKey?_key`).  Gems,
switches and portals are collected in ordered sets and maps again, and the order in which their keys
come does not matter.
-/

namespace GemGrid

open Wire

/-! ## Keys -/

namespace Position

/-- Both coordinates are 64-bit numbers. -/
def Fits (p : Position) : Prop :=
  p.row ≤ Text.max64 ∧ p.col ≤ Text.max64

theorem coordinate?_repr {n : Nat} (h : n ≤ Text.max64) : coordinate? n.repr.toList = some n := by
  rw [coordinate?, (Text.trimmed_repr n).trim_eq, Text.unsigned?_repr h]

theorem ofKey?_key {p : Position} (h : p.Fits) : ofKey? p.key = some p := by
  simp only [ofKey?, takeWhile_key, dropWhile_key, coordinate?_repr h.1, coordinate?_repr h.2]
  rfl

theorem ofKey_key {p : Position} (h : p.Fits) : ofKey p.key = .ok p := by
  rw [ofKey, ofKey?_key h]

theorem decodes {p : Position} (h : p.Fits) : Decodes ofJson p.toJson p := by
  refine decodes_record (by simp) fun f r => ?_
  rw [word64, r.required (by simp) (decodes_upTo h.1), r.required (by simp) (decodes_upTo h.2)]
  rfl

end Position

/-! ## Cells -/

theorem Direction.decodes (d : Direction) : Decodes ofJson d.toJson d := by
  refine decodes_oneOf (fun d => ?_) d
  cases d <;> decide

theorem SwitchState.decodes (s : SwitchState) : Decodes ofJson s.toJson s := by
  refine decodes_oneOf (fun s => ?_) s
  cases s <;> decide

theorem Ground.tellsApart : TellsApart [.floor, .wall] Ground.name := by
  intro g
  cases g <;> decide

/-- The place is in 64-bit numbers, and a portal number is a 32-bit one. -/
structure Cell.Fits (c : Cell) : Prop where
  row : c.row ≤ Text.max64
  col : c.col ≤ Text.max64
  warpId : ∀ id ∈ c.warpId, id ≤ Text.max32

theorem Cell.decodes {c : Cell} (h : c.Fits) : Decodes ofJson c.toJson c := by
  refine decodes_record (by simp) fun f r => ?_
  -- fields that may be null are present in what is written
  have hdirection : Decodes (nullable Direction.ofJson)
      (Json.nullable Direction.toJson c.direction) c.direction :=
    decodes_nullable (fun _ => by simp [Direction.toJson]) fun d _ => d.decodes
  have hswitch : Decodes (nullable SwitchState.ofJson)
      (Json.nullable SwitchState.toJson c.switchState) c.switchState :=
    decodes_nullable (fun _ => by simp [SwitchState.toJson]) fun s _ => s.decodes
  rw [word64, word32, r.required (by simp) (decodes_string c.token),
    r.required (by simp) (decodes_upTo h.row), r.required (by simp) (decodes_upTo h.col),
    r.required (by simp) (decodes_oneOf Ground.tellsApart c.ground),
    r.required (by simp) (decodes_bool c.isStart), r.optional (by simp) hdirection,
    r.required (by simp) (decodes_bool c.hasGem), r.optional (by simp) hswitch,
    r.optional (by simp) (decodes_nullable_upTo h.warpId)]
  rfl

/-! ## Gems, switches and portals -/

theorem decodes_gems {gems : OrderedSet Position} (h : ∀ p ∈ gems.members, p.Fits) :
    Decodes gemsOfJson (gemsToJson gems) gems := by
  intro j hj
  have hkeys : gemsToJson gems = Json.list .str (gems.members.map Position.key) := by
    rw [gemsToJson, Json.list, List.map_map]
    rfl
  have hread : (gems.members.map Position.key).mapM Position.ofKey = .ok gems.members := by
    refine mapM_eq_ok (List.forall₂_map_left_iff.mpr (List.forall₂_same.mpr ?_))
    exact fun p hp => Position.ofKey_key (h p hp)
  rw [hkeys] at hj
  rw [gemsOfJson, decodes_list (fun key _ => decodes_string key) j hj, ok_bind, hread, ok_bind,
    OrderedSet.ofList_members]
  rfl

theorem switchesOfJson_obj (fields : List (String × Json)) :
    switchesOfJson (.obj fields) = (do
      let states ← fields.mapM fun e => do return (e.1, ← SwitchState.ofJson e.2)
      let entries ← (OrderedMap.ofList states).entries.mapM fun e => do
        return (← Position.ofKey e.1, e.2)
      return OrderedMap.ofList entries) :=
  rfl

theorem decodes_switches {switches : OrderedMap Position SwitchState}
    (h : ∀ p ∈ switches.keys, p.Fits) :
    Decodes switchesOfJson (switchesToJson switches) switches := by
  intro j hj
  have hfits : ∀ e ∈ switches.entries, e.1.Fits := fun e he =>
    h e.1 (List.mem_map.mpr ⟨e, he, rfl⟩)
  -- the states under their key texts, in the order in which they come
  obtain ⟨fields, states, rfl, hstates, hperm⟩ :=
    exists_mapM_fields (fun e => do return (e.1, ← SwitchState.ofJson e.2))
      (fun e => (e.1.key, e.2)) hj fun e _ j hj => by
        show (SwitchState.ofJson j >>= fun s => pure (e.1.key, s)) = _
        rw [SwitchState.decodes e.2 j hj]
        rfl
  have hnodup : (states.map Prod.fst).Nodup := by
    have hkeys : (switches.keys.map Position.key).Nodup :=
      switches.nodup_keys.map Position.key_injective
    refine (hperm.map Prod.fst).nodup_iff.mpr ?_
    simpa [OrderedMap.keys, Function.comp_def] using hkeys
  -- the same states under the positions of the keys
  have hread : List.Forall₂ (fun (e : String × SwitchState) e' =>
      (do return (← Position.ofKey e.1, e.2)) = Except.ok e')
      (switches.entries.map fun e => (e.1.key, e.2)) switches.entries := by
    refine List.forall₂_map_left_iff.mpr (List.forall₂_same.mpr fun e he => ?_)
    rw [Position.ofKey_key (hfits e he)]
    rfl
  obtain ⟨entries, hentries, hperm'⟩ :=
    exists_mapM_of_perm _ ((OrderedMap.perm_entries_ofList hnodup).trans hperm) hread
  rw [switchesOfJson_obj, hstates, ok_bind, hentries, ok_bind, OrderedMap.ofList_eq_of_perm hperm']
  rfl

theorem portalId_repr {id : Nat} (h : id ≤ Text.max32) : portalId id.repr = .ok id := by
  rw [portalId, Text.digitsUpTo?_repr h]
  exact if_pos rfl

theorem portalsOfJson_obj (fields : List (String × Json)) :
    portalsOfJson (.obj fields) = (do
      let entries ← fields.mapM fun e => do return (← portalId e.1, ← list Position.ofJson e.2)
      return OrderedMap.ofList entries) :=
  rfl

theorem decodes_portals {portals : OrderedMap Nat (List Position)}
    (h : ∀ e ∈ portals.entries, e.1 ≤ Text.max32 ∧ ∀ p ∈ e.2, p.Fits) :
    Decodes portalsOfJson (portalsToJson portals) portals := by
  intro j hj
  -- the entries come in some order, each under the digits of its key
  obtain ⟨fields, entries, rfl, hentries, hperm⟩ :=
    exists_mapM_fields (fun e => do return (← portalId e.1, ← list Position.ofJson e.2))
      id hj fun e he j hj => by
        have hcells := decodes_list (fun p hp => Position.decodes ((h e he).2 p hp)) j hj
        show (portalId e.1.repr >>= fun id => list Position.ofJson j >>= fun cells =>
          pure (id, cells)) = _
        rw [portalId_repr (h e he).1, hcells]
        rfl
  rw [List.map_id] at hperm
  rw [portalsOfJson_obj, hentries, ok_bind, OrderedMap.ofList_eq_of_perm hperm]
  rfl

/-! ## Maps -/

/-- All numbers of a map fit. -/
structure GridMap.Fits (m : GridMap) : Prop where
  grid : ∀ row ∈ m.grid, ∀ cell ∈ row, cell.Fits
  rows : m.rows ≤ Text.max64
  columns : m.columns ≤ Text.max64
  start : ∀ cell ∈ m.start, cell.Fits
  gems : ∀ p ∈ m.gems.members, p.Fits
  switches : ∀ p ∈ m.switches.keys, p.Fits
  portals : ∀ e ∈ m.portals.entries, e.1 ≤ Text.max32 ∧ ∀ p ∈ e.2, p.Fits

theorem GridMap.decodes {m : GridMap} (h : m.Fits) : Decodes ofJson m.toJson m := by
  refine decodes_record (by simp) fun f r => ?_
  have hgrid : Decodes (list (list Cell.ofJson)) (Json.list (Json.list Cell.toJson) m.grid) m.grid :=
    decodes_list fun row hrow => decodes_list fun cell hcell =>
      Cell.decodes (h.grid row hrow cell hcell)
  have hstart : Decodes (nullable Cell.ofJson) (Json.nullable Cell.toJson m.start) m.start :=
    decodes_nullable (fun _ => by simp [Cell.toJson]) fun cell hcell =>
      Cell.decodes (h.start cell hcell)
  rw [word64, r.required (by simp) hgrid, r.required (by simp) (decodes_upTo h.rows),
    r.required (by simp) (decodes_upTo h.columns), r.optional (by simp) hstart,
    r.required (by simp) (decodes_gems h.gems), r.required (by simp) (decodes_switches h.switches),
    r.required (by simp) (decodes_portals h.portals)]
  rfl

theorem MapRules.decodes (rules : MapRules) : Decodes ofJson rules.toJson rules := by
  refine decodes_record (by simp) fun f r => ?_
  rw [r.defaulted false (by simp) (decodes_bool rules.allowMissingStart),
    r.defaulted false (by simp) (decodes_bool rules.allowUnpairedPortals),
    r.defaulted false (by simp) (decodes_bool rules.allowEmpty)]
  rfl

end GemGrid
