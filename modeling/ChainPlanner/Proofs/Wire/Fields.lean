import ChainPlanner.Proofs.Wire.Data
import ChainPlanner.Wire.Record

/-!
# ChainPlanner.Proofs.Wire.Fields

What was written into a field is read from it.

The atoms come first: each reader gives back what its writer wrote.  An object whose members are
some of the fields of a record, in order, is read as these fields, with everything in them as it is
read again (`fields?_reread`).  So a reader of a record finds under each name what was written
there.
-/

namespace ChainPlanner.Wire

open ChainPlanner.Json

variable {α : Type} {read : Tree → Option α} {write : α → Value} {v : Value} {a : α}
  {name : String} {names : List String} {ms : List (String × Value)}

/-! ## atoms -/

@[simp] theorem text?_string (s : String) : (Value.string s).reread.text? = some s :=
  StringLit.text?_reread s

@[simp] theorem bool?_bool (b : Bool) : (Value.bool b).reread.bool? = some b := rfl

@[simp] theorem int?_int (n : Int) : (Value.int n).reread.int? = some n :=
  NumberLit.int?_ofInt n

@[simp] theorem userId?_string (id : UserId) : userId? (Value.string id.name).reread = some id := by
  rw [userId?, text?_string]
  rfl

@[simp] theorem groupId?_string (id : GroupId) :
    groupId? (Value.string id.name).reread = some id := by
  rw [groupId?, text?_string]
  rfl

@[simp] theorem word64?_int (x : Int64) : word64? (Value.int x.toInt).reread = some x := by
  rw [word64?, int?_int, Option.bind_some, int64?_toInt]

@[simp] theorem word32?_int (x : Int32) : word32? (Value.int x.toInt).reread = some x := by
  rw [word32?, int?_int, Option.bind_some, int32?_toInt]

@[simp] theorem taskId?_ofTaskId (id : TaskId) : taskId? (ofTaskId id).reread = some id := by
  rw [taskId?, ofTaskId, word64?_int]
  rfl

@[simp] theorem minutes?_ofMinutes (m : Minutes) : minutes? (ofMinutes m).reread = some m := by
  rw [minutes?, ofMinutes, int?_int, Option.bind_some, Minutes.toNat, uint32?_toNat]
  rfl

@[simp] theorem priority?_int (p : Priority) : priority? (Value.int p.value).reread = some p := by
  rw [priority?, int?_int]
  simp [Priority.ofInt?_value, Except.toOption]

/-! ## nothing but a missing value is null -/

theorem ofTaskId_ne_null (id : TaskId) : ofTaskId id ≠ .null := by simp [ofTaskId]

theorem ofMinutes_ne_null (m : Minutes) : ofMinutes m ≠ .null := by simp [ofMinutes]

/-! ## lists, missing values and named data -/

/-- A list is read back item by item. -/
theorem list?_array (as : List α) (h : ∀ a ∈ as, read (write a).reread = some a) :
    list? read (Value.array (as.map write)).reread = some as := by
  rw [Value.reread, Value.rereadItems_eq, list?, List.map_map]
  induction as with
  | nil => rfl
  | cons a as ih =>
    rw [List.map_cons, List.mapM_cons, Function.comp_apply, h a List.mem_cons_self,
      ih fun b hb => h b (List.mem_cons_of_mem a hb)]
    rfl

/-- A value that is not written as null is read back where null may stand. -/
theorem nullable?_reread (hnull : v ≠ .null) (h : read v.reread = some a) :
    nullable? read v.reread = some (some a) := by
  cases v with
  | null => exact absurd rfl hnull
  | _ => rw [Value.reread] at h ⊢; simp [nullable?, h]

/-- A value that may be missing is read back. -/
theorem nullable?_ofNullable (write : α → Value) (hnull : ∀ a, write a ≠ .null)
    (h : ∀ a, read (write a).reread = some a) (o : Option α) :
    nullable? read (ofNullable write o).reread = some o := by
  cases o with
  | none => rfl
  | some a => exact nullable?_reread (hnull a) (h a)

/-- Named data is read back, given room enough. -/
theorem payload?_object {room room' : Nat} (hle : room ≤ room')
    (hwhole : (Value.object ms).whole = true) (hfits : (Value.object ms).fits room = true) :
    payload? room' (Value.object ms).reread = some ms := by
  have hread := Value.ofTree?_reread _ room hwhole hfits
  rw [payload?, Value.ofTree?_of_le _ room room' _ hle hread]

/-! ## fields -/

/-- Members of an object as the fields that they are read as. -/
def rereadFields (ms : List (String × Value)) : Fields := ms.map fun m => (m.1, m.2.reread)

/-- What is found in the fields read is what was written there. -/
theorem lookup_rereadFields (name : String) (ms : List (String × Value)) :
    (rereadFields ms).lookup name = (ms.lookup name).map Value.reread := by
  induction ms with
  | nil => rfl
  | cons m ms ih =>
    rw [rereadFields, List.map_cons, List.lookup_cons, List.lookup_cons]
    split
    · rfl
    · exact ih

/-- The fields of an object with known names are read back in their order. -/
theorem namedFields?_reread {found : Fields} (hsub : ∀ m ∈ ms, m.1 ∈ names)
    (hnodup : (found.map Prod.fst ++ ms.map Prod.fst).Nodup) :
    namedFields? names found (Value.rereadMembers ms) = some (found ++ rereadFields ms) := by
  induction ms generalizing found with
  | nil => simp [Value.rereadMembers, namedFields?, rereadFields]
  | cons m ms ih =>
    obtain ⟨k, v⟩ := m
    have hnew : k ∉ found.map Prod.fst := fun hk =>
      (List.nodup_append.mp hnodup).2.2 k hk k (by simp) rfl
    have hlookup : found.lookup k = none := lookup_of_not_mem hnew
    have hrest : ((found ++ [(k, v.reread)]).map Prod.fst ++ ms.map Prod.fst).Nodup := by
      simpa using hnodup
    simp only [Value.rereadMembers, namedFields?, StringLit.text?_reread, bind, Option.bind_some,
      if_pos (hsub (k, v) List.mem_cons_self), hlookup]
    rw [if_neg (by simp), ih (fun m hm => hsub m (List.mem_cons_of_mem _ hm)) hrest]
    simp [rereadFields]

/-- An object with some of the fields of a record, in order, is read as these fields. -/
theorem fields?_reread (hsub : (ms.map Prod.fst).Sublist names) (hnames : names.Nodup) :
    fields? names (Value.object ms).reread = some (rereadFields ms) := by
  have hmem : ∀ m ∈ ms, m.1 ∈ names := fun m hm => hsub.subset (List.mem_map_of_mem hm)
  have hread : namedFields? names [] (Value.rereadMembers ms) = some ([] ++ rereadFields ms) :=
    namedFields?_reread hmem (hsub.nodup hnames)
  rw [Value.reread, fields?, hread, List.nil_append]

/-- A field that has to be there is read back. -/
theorem required_reread (ms : List (String × Value)) (name : String) (read : Tree → Option α) :
    (rereadFields ms).required name read = (ms.lookup name).bind fun v => read v.reread := by
  rw [Fields.required, lookup_rereadFields, Option.bind_map]
  rfl

/-- A field that may be missing is read back, or has its default. -/
theorem optional_reread (ms : List (String × Value)) (name : String) (default : α)
    (read : Tree → Option α) : (rereadFields ms).optional name default read =
      ((ms.lookup name).map fun v => read v.reread).getD (some default) := by
  rw [Fields.optional, lookup_rereadFields]
  cases ms.lookup name <;> rfl

/-- A value that may be missing is written under its name or not at all. -/
theorem lookup_ofPresent (name name' : String) (write : α → Value) (o : Option α) :
    (ofPresent name write o).lookup name' = if name' = name then o.map write else none := by
  cases o with
  | none => simp [ofPresent]
  | some a => exact lookup_members_cons name' name (write a) []

/-- A member that is left out where there is no value is read as a value or none. -/
theorem optional_ofPresent (write : α → Value) (o : Option α)
    (hlookup : ms.lookup name = o.map write) (hnull : ∀ a, write a ≠ .null)
    (h : ∀ a, read (write a).reread = some a) :
    (rereadFields ms).optional name none (nullable? read) = some o := by
  rw [optional_reread, hlookup]
  cases o with
  | none => rfl
  | some a => exact nullable?_reread (hnull a) (h a)

/-! ## what is read stands in the tree -/

/-- Every field that was read stands in the text. -/
theorem mem_of_namedFields? {found fs : Fields} {ts : List (StringLit × Tree)}
    (h : namedFields? names found ts = some fs) {t : Tree} (ht : (name, t) ∈ fs) :
    (name, t) ∈ found ∨ t ∈ ts.map Prod.snd := by
  induction ts generalizing found with
  | nil =>
    cases h
    exact .inl ht
  | cons m ts ih =>
    obtain ⟨k, t'⟩ := m
    simp only [namedFields?, bind, Option.bind_eq_some_iff] at h
    obtain ⟨name', -, h⟩ := h
    split at h
    next =>
      split at h
      next => cases h
      next =>
        rcases ih h with hfound | hts
        · rcases List.mem_append.mp hfound with hfound | hnew
          · exact .inl hfound
          · cases List.mem_singleton.mp hnew
            exact .inr List.mem_cons_self
        · exact .inr (List.mem_cons_of_mem _ hts)
    next => exact (ih h).imp_right (List.mem_cons_of_mem _)

/-- A field of a record stands directly in the tree of the record. -/
theorem mem_children_of_fields? {fs : Fields} {t t' : Tree} (h : fields? names t = some fs)
    (hlookup : fs.lookup name = some t') : t' ∈ t.children := by
  have hmem : (name, t') ∈ fs := by
    obtain ⟨before, after, rfl, -⟩ := List.lookup_eq_some_iff.mp hlookup
    exact List.mem_append_right before List.mem_cons_self
  cases t with
  | object ms => exact (mem_of_namedFields? h hmem).resolve_left nofun
  | array ts =>
    rw [fields?] at h
    split at h
    next =>
      cases h
      exact (List.of_mem_zip hmem).2
    next => cases h
  | _ => cases h

end ChainPlanner.Wire
