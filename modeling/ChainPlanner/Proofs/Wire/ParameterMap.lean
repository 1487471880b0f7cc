import ChainPlanner.ParameterMap
import ChainPlanner.Proofs.Wire.Data

/-!
# ChainPlanner.Proofs.Wire.ParameterMap

A placement is found again among the data of a task.

Reading is lenient, writing is not: a position is written as a number and a flag as a truth value,
and of these nothing is lost (`position_int`, `flag_bool`).  Reading looks at four names only
(`ofMap?_congr`), and all four are written; so it does not matter what the data held before the
placement was put into them (`ofMap?_setMembers`).
-/

namespace ChainPlanner.PlanningParameters

open ChainPlanner.Json

variable {m m' : Payload} {p : PlanningParameters}

/-! ## a placement by itself -/

/-- The names under which a placement is written, in order. -/
def keys : List String := [assignedUserKey, orderKey, pinnedKey, publishedKey]

theorem map_fst_toMap (p : PlanningParameters) : p.toMap.map Prod.fst = keys := rfl

theorem nodup_keys : keys.Nodup := by decide

@[simp] theorem position_int (i : Int32) : position (some (.int i.toInt)) = i := by
  rw [position, wholeNumber?, Option.bind_some, int32?_toInt, Option.getD_some]

@[simp] theorem flag_bool (b : Bool) : flag (some (.bool b)) = b := rfl

/-- A placement without a worker is the only one that is lost. -/
theorem ofMap?_toMap (p : PlanningParameters) :
    ofMap? p.toMap = if p.assignedUser.name = "" then none else some p := by
  have huser : p.toMap.lookup assignedUserKey = some (.string p.assignedUser.name) := rfl
  have horder : p.toMap.lookup orderKey = some (.int p.index.toInt) := rfl
  have hpinned : p.toMap.lookup pinnedKey = some (.bool p.pinned) := rfl
  have hpublished : p.toMap.lookup publishedKey = some (.bool p.published) := rfl
  rw [ofMap?, huser, horder, hpinned, hpublished, position_int, flag_bool, flag_bool]

/-! ## a placement among other data -/

/-- Only what stands under the names of a placement is read. -/
theorem ofMap?_congr (h : ∀ k ∈ keys, m.lookup k = m'.lookup k) : ofMap? m = ofMap? m' := by
  have huser := h assignedUserKey (by decide)
  have horder := h orderKey (by decide)
  have hpinned := h pinnedKey (by decide)
  have hpublished := h publishedKey (by decide)
  rw [ofMap?, ofMap?, huser, horder, hpinned, hpublished]

/-- Every name of a placement is written. -/
theorem isSome_lookup_toMap {k : String} (hk : k ∈ keys) (p : PlanningParameters) :
    (p.toMap.lookup k).isSome := by
  rw [List.lookup_isSome_iff]
  obtain ⟨e, he, rfl⟩ := List.mem_map.mp (map_fst_toMap p ▸ hk)
  exact ⟨e, he, beq_self_eq_true e.1⟩

/-- A placement that is put into data hides the one that they held. -/
theorem ofMap?_setMembers (m : Payload) (p : PlanningParameters) :
    ofMap? (Value.setMembers m p.toMap) = ofMap? p.toMap := by
  refine ofMap?_congr fun k hk => ?_
  have hnodup : (p.toMap.map Prod.fst).Nodup := map_fst_toMap p ▸ nodup_keys
  obtain ⟨v, hv⟩ := Option.isSome_iff_exists.mp (isSome_lookup_toMap hk p)
  rw [Value.lookup_setMembers k hnodup, hv, Option.some_or]

/-- No placement is read without a worker. -/
theorem name_ne_empty_of_ofMap? (h : ofMap? m = some p) : p.assignedUser.name ≠ "" := by
  rw [ofMap?] at h
  split at h
  next user _ =>
    split at h
    next => cases h
    next hne =>
      cases h
      exact hne
  next => cases h

/-- The data of a task lose no placement.  One that is written is read as it was, unless it names
no worker; that is read as none.  And whatever a placement was read from, be it spelled in texts or
made up of defaults for what could not be read: it names a worker, and it is read again both from
the data that are written for it and from the old data with these put into them. -/
theorem placement_kept_in_data :
    (∀ p : PlanningParameters,
      ofMap? p.toMap = if p.assignedUser.name = "" then none else some p) ∧
    ∀ (m : Payload) (p : PlanningParameters), ofMap? m = some p →
      p.assignedUser.name ≠ "" ∧ ofMap? p.toMap = some p ∧
        ofMap? (Value.setMembers m p.toMap) = some p := by
  refine ⟨ofMap?_toMap, fun m p h => ?_⟩
  have hname := name_ne_empty_of_ofMap? h
  have hagain : ofMap? p.toMap = some p := by rw [ofMap?_toMap, if_neg hname]
  exact ⟨hname, hagain, (ofMap?_setMembers m p).trans hagain⟩

/-- Data with names of their own, a position as a text between blanks, a flag in mixed case and one
that is no flag. -/
theorem placement_kept_in_data_spelled :
    let m : Payload :=
      [("planning_param_order", .string "\u2003-007\n"), ("note", .array [.null, .int 3]),
        ("planning_param_published", .int 1), ("planning_param_assigned_user", .string "jürgen"),
        ("planning_param_pinned", .string "TrUe")]
    let p : PlanningParameters := ⟨⟨"jürgen"⟩, -7, true, false⟩
    ofMap? m = some p ∧ p.assignedUser.name ≠ "" ∧ ofMap? p.toMap = some p ∧
      ofMap? (Value.setMembers m p.toMap) = some p := by
  intro m p
  have hread : ofMap? m = some p := by decide +kernel
  exact ⟨hread, placement_kept_in_data.2 m p hread⟩

/-- A position that is no word of 32 bits counts as unknown, and is written as unknown. -/
example : (ofMap? [(assignedUserKey, .string "ann"), (orderKey, .int 2147483648)]).map toMap =
    some [(assignedUserKey, .string "ann"), (orderKey, .int (-1)), (pinnedKey, .bool false),
      (publishedKey, .bool false)] := by
  decide +kernel

end ChainPlanner.PlanningParameters
