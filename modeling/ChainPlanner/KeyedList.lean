/-!
# ChainPlanner.KeyedList

Entries under distinct keys, kept in the order in which their keys first appeared.

Replacing an entry keeps its place and erasing one keeps the order of the others, so the stored
order is a history of insertions.  `get?` is the view that every law goes through:

* `get?_insert`, `get?_modify`, `get?_erase` — what each operation does to the view;
* `keys_insert`, `keys_modify`, `keys_erase` — what each operation does to the stored order;
* `get?_eq_some_iff` — the view and the entries tell the same story;
* `ext_get?` — the stored order and the view are all there is.
-/

namespace ChainPlanner

/-- A finite map that remembers the order of its keys. -/
structure KeyedList (κ α : Type) where
  entries : List (κ × α)
  nodup : (entries.map Prod.fst).Nodup
  deriving DecidableEq

namespace KeyedList

variable {κ α : Type}

/-! ## views -/

/-- The keys in stored order. -/
def keys (m : KeyedList κ α) : List κ := m.entries.map Prod.fst

/-- The values in stored order. -/
def values (m : KeyedList κ α) : List α := m.entries.map Prod.snd

/-- The number of entries. -/
def size (m : KeyedList κ α) : Nat := m.entries.length

@[simp] theorem length_keys (m : KeyedList κ α) : m.keys.length = m.size := by
  simp [keys, size]

/-- No key occurs twice, by construction. -/
theorem nodup_keys (m : KeyedList κ α) : m.keys.Nodup := m.nodup

/-- A keyed list is known from its entries. -/
@[ext] theorem ext_entries {m n : KeyedList κ α} (h : m.entries = n.entries) : m = n := by
  cases m; cases n; cases h; rfl

/-- No entries. -/
def empty : KeyedList κ α := ⟨[], List.nodup_nil⟩

instance : EmptyCollection (KeyedList κ α) := ⟨empty⟩
instance : Inhabited (KeyedList κ α) := ⟨empty⟩

/-- Change every value. -/
def map {β : Type} (m : KeyedList κ α) (f : α → β) : KeyedList κ β where
  entries := m.entries.map fun e => (e.1, f e.2)
  nodup := by
    rw [List.map_map]
    exact m.nodup

@[simp] theorem keys_map {β : Type} (m : KeyedList κ α) (f : α → β) : (m.map f).keys = m.keys := by
  simp [keys, map, Function.comp_def]

private theorem map_fst_map_snd (es : List (κ × α)) (g : κ → α → α) :
    (es.map fun e => (e.1, g e.1 e.2)).map Prod.fst = es.map Prod.fst := by
  induction es with
  | nil => rfl
  | cons e es ih => simp

variable [DecidableEq κ]

/-- The value under a key. -/
def get? (m : KeyedList κ α) (k : κ) : Option α := m.entries.lookup k

/-- Whether a key has a value. -/
def contains (m : KeyedList κ α) (k : κ) : Bool := (m.get? k).isSome

/-! ## operations -/

/-- Change the value under a key, if it has one. -/
def modify (m : KeyedList κ α) (k : κ) (f : α → α) : KeyedList κ α where
  entries := m.entries.map fun e => (e.1, if e.1 = k then f e.2 else e.2)
  nodup := by
    rw [map_fst_map_snd m.entries fun k' v => if k' = k then f v else v]
    exact m.nodup

private theorem lookup_cons_ne {k k' : κ} (h : k ≠ k') (v : α) (es : List (κ × α)) :
    List.lookup k ((k', v) :: es) = es.lookup k := by
  rw [List.lookup_cons, beq_false_of_ne h]

private theorem lookup_eq_none (es : List (κ × α)) (k : κ) :
    es.lookup k = none ↔ k ∉ es.map Prod.fst := by
  induction es with
  | nil => simp
  | cons e es ih => by_cases h : k = e.1 <;> simp_all

/-- Put a value under a key: in its place if the key is there, else at the end. -/
def insert (m : KeyedList κ α) (k : κ) (v : α) : KeyedList κ α :=
  if h : m.get? k = none then
    { entries := m.entries ++ [(k, v)]
      nodup := by
        rw [get?, lookup_eq_none] at h
        rw [List.map_append, List.nodup_append]
        refine ⟨m.nodup, by simp, ?_⟩
        intro a ha b hb heq
        simp only [List.map_cons, List.map_nil, List.mem_singleton] at hb
        exact h (hb ▸ heq ▸ ha) }
  else m.modify k fun _ => v

/-- Drop a key and its value. -/
def erase (m : KeyedList κ α) (k : κ) : KeyedList κ α where
  entries := m.entries.filter fun e => e.1 ≠ k
  nodup := (List.filter_sublist.map Prod.fst).nodup m.nodup

/-- Insert one entry after another. -/
def insertMany (m : KeyedList κ α) (es : List (κ × α)) : KeyedList κ α :=
  es.foldl (fun m e => m.insert e.1 e.2) m

/-- The entries of a list; a repeated key keeps its first place and its last value. -/
def ofList (es : List (κ × α)) : KeyedList κ α := insertMany ∅ es

/-! ## what the operations do to the views -/

@[simp] theorem get?_empty (k : κ) : (∅ : KeyedList κ α).get? k = none := rfl

/-- Nothing is found under a key exactly if the key does not occur. -/
theorem get?_eq_none_iff {m : KeyedList κ α} {k : κ} : m.get? k = none ↔ k ∉ m.keys :=
  lookup_eq_none m.entries k

/-- Asking for a key is asking whether it is listed. -/
theorem contains_iff {m : KeyedList κ α} {k : κ} : m.contains k = true ↔ k ∈ m.keys := by
  rw [contains, Option.isSome_iff_ne_none, ne_eq, get?_eq_none_iff, Decidable.not_not]

private theorem lookup_eq_some {es : List (κ × α)} (h : (es.map Prod.fst).Nodup) {k : κ} {v : α} :
    es.lookup k = some v ↔ (k, v) ∈ es := by
  induction es with
  | nil => simp
  | cons e es ih =>
    obtain ⟨k', v'⟩ := e
    rw [List.map_cons, List.nodup_cons] at h
    by_cases hk : k = k'
    · subst hk
      have hne : (k, v) ∉ es := fun hm => h.1 (List.mem_map.2 ⟨_, hm, rfl⟩)
      simp [hne, eq_comm]
    · rw [lookup_cons_ne hk, ih h.2]
      simp [hk]

/-- The view and the entries tell the same story. -/
theorem get?_eq_some_iff {m : KeyedList κ α} {k : κ} {v : α} :
    m.get? k = some v ↔ (k, v) ∈ m.entries :=
  lookup_eq_some m.nodup

/-- What is found under a key shows that the key is listed. -/
theorem mem_keys_of_get? {m : KeyedList κ α} {k : κ} {v : α} (h : m.get? k = some v) :
    k ∈ m.keys :=
  List.mem_map.2 ⟨_, get?_eq_some_iff.1 h, rfl⟩

@[simp] theorem keys_modify (m : KeyedList κ α) (k : κ) (f : α → α) :
    (m.modify k f).keys = m.keys :=
  map_fst_map_snd m.entries fun k' v => if k' = k then f v else v

@[simp] theorem size_modify (m : KeyedList κ α) (k : κ) (f : α → α) :
    (m.modify k f).size = m.size := by
  simp [size, modify]

/-- A change under one key is seen under that key only. -/
theorem get?_modify (m : KeyedList κ α) (k k' : κ) (f : α → α) :
    (m.modify k f).get? k' = if k' = k then (m.get? k').map f else m.get? k' := by
  simp only [get?, modify]
  induction m.entries with
  | nil => by_cases h : k' = k <;> simp [h]
  | cons e es ih =>
    obtain ⟨k₀, v₀⟩ := e
    by_cases he : k' = k₀
    · subst he; by_cases hk : k' = k <;> simp [hk]
    · simp only [List.map_cons, lookup_cons_ne he, ih]

/-- A new key goes to the end, a known one stays in its place. -/
theorem keys_insert (m : KeyedList κ α) (k : κ) (v : α) :
    (m.insert k v).keys = if k ∈ m.keys then m.keys else m.keys ++ [k] := by
  unfold insert
  by_cases h : m.get? k = none
  · have hk : k ∉ m.keys := get?_eq_none_iff.1 h
    rw [dif_pos h, if_neg hk]
    simp [keys]
  · have hk : k ∈ m.keys := by rwa [get?_eq_none_iff, Decidable.not_not] at h
    rw [dif_neg h, if_pos hk, keys_modify]

/-- What was inserted is found under its key, everything else as before. -/
theorem get?_insert (m : KeyedList κ α) (k k' : κ) (v : α) :
    (m.insert k v).get? k' = if k' = k then some v else m.get? k' := by
  unfold insert
  by_cases h : m.get? k = none
  · rw [dif_pos h]
    unfold get? at h ⊢
    rw [List.lookup_append]
    by_cases hk : k' = k
    · subst hk; simp [h]
    · simp [hk, lookup_cons_ne]
  · rw [dif_neg h, get?_modify]
    by_cases hk : k' = k
    · subst hk
      obtain ⟨w, hw⟩ := Option.ne_none_iff_exists'.1 h
      simp [hw]
    · simp [hk]

/-- An entry with a new key goes to the end. -/
theorem entries_insert_of_not_mem {m : KeyedList κ α} {k : κ} (h : k ∉ m.keys) (v : α) :
    (m.insert k v).entries = m.entries ++ [(k, v)] := by
  rw [insert, dif_pos (get?_eq_none_iff.2 h)]

/-- Entries under new distinct keys are stored behind the others. -/
theorem entries_insertMany {m : KeyedList κ α} {es : List (κ × α)}
    (h : (m.keys ++ es.map Prod.fst).Nodup) : (m.insertMany es).entries = m.entries ++ es := by
  unfold insertMany
  induction es generalizing m with
  | nil => simp
  | cons e es ih =>
    have hnew : e.1 ∉ m.keys := fun hmem =>
      (List.nodup_append.1 h).2.2 e.1 hmem e.1 (by simp) rfl
    have hkeys : ((m.insert e.1 e.2).keys ++ es.map Prod.fst).Nodup := by
      rw [keys_insert, if_neg hnew, List.append_assoc]
      exact h
    rw [List.foldl_cons, ih hkeys, entries_insert_of_not_mem hnew, List.append_assoc]
    rfl

/-- Entries without a repeated key are kept as they are. -/
theorem entries_ofList {es : List (κ × α)} (h : (es.map Prod.fst).Nodup) :
    (ofList es).entries = es :=
  entries_insertMany h

/-- Every value was inserted or was there before. -/
theorem get?_insertMany {m : KeyedList κ α} {es : List (κ × α)} {k : κ} {v : α}
    (h : (m.insertMany es).get? k = some v) : m.get? k = some v ∨ (k, v) ∈ es := by
  unfold insertMany at h
  induction es generalizing m with
  | nil => exact .inl h
  | cons e es ih =>
    rcases ih h with hm | hes
    · rw [get?_insert] at hm
      split at hm
      next hk =>
        cases hm
        exact .inr (hk ▸ List.mem_cons_self)
      next => exact .inl hm
    · exact .inr (List.mem_cons_of_mem e hes)

/-- Whatever is found was given. -/
theorem mem_of_get?_ofList {es : List (κ × α)} {k : κ} {v : α}
    (h : (ofList es).get? k = some v) : (k, v) ∈ es :=
  (get?_insertMany h).resolve_left nofun

/-- The other keys keep their order. -/
theorem keys_erase (m : KeyedList κ α) (k : κ) : (m.erase k).keys = m.keys.filter (· ≠ k) := by
  simp only [keys, erase, List.filter_map]
  rfl

/-- Nothing is found under an erased key, everything else as before. -/
theorem get?_erase (m : KeyedList κ α) (k k' : κ) :
    (m.erase k).get? k' = if k' = k then none else m.get? k' := by
  simp only [get?, erase]
  induction m.entries with
  | nil => by_cases h : k' = k <;> simp [h]
  | cons e es ih =>
    obtain ⟨k₀, v₀⟩ := e
    by_cases he : k₀ = k
    · subst he
      by_cases hk : k' = k₀
      · simpa [hk] using ih
      · simpa [hk, lookup_cons_ne] using ih
    · by_cases hk : k' = k₀
      · subst hk; simp [he]
      · simpa [he, hk, lookup_cons_ne] using ih

@[simp] theorem get?_map {β : Type} (m : KeyedList κ α) (f : α → β) (k : κ) :
    (m.map f).get? k = (m.get? k).map f := by
  simp only [get?, map]
  induction m.entries with
  | nil => rfl
  | cons e es ih =>
    obtain ⟨k', v⟩ := e
    by_cases h : k = k'
    · simp [h]
    · rw [List.map_cons, lookup_cons_ne h, lookup_cons_ne h, ih]

/-- Which keys occur is known from the keys. -/
theorem contains_eq_of_keys {β : Type} {m : KeyedList κ α} {n : KeyedList κ β}
    (h : m.keys = n.keys) (k : κ) : m.contains k = n.contains k := by
  rw [Bool.eq_iff_iff, contains_iff, contains_iff, h]

/-- The values are what is found under some key. -/
theorem mem_values_iff {m : KeyedList κ α} {v : α} : v ∈ m.values ↔ ∃ k, m.get? k = some v := by
  simp [values, get?_eq_some_iff]

/-! ## when two are equal -/

private theorem entries_eq_of_keys {es fs : List (κ × α)} (hk : es.map Prod.fst = fs.map Prod.fst)
    (hn : (es.map Prod.fst).Nodup) (hg : ∀ k, es.lookup k = fs.lookup k) : es = fs := by
  induction es generalizing fs with
  | nil =>
    cases fs with
    | nil => rfl
    | cons f fs => simp at hk
  | cons e es ih =>
    cases fs with
    | nil => simp at hk
    | cons f fs =>
      obtain ⟨k, v⟩ := e
      obtain ⟨k', v'⟩ := f
      simp only [List.map_cons, List.cons.injEq] at hk
      obtain ⟨rfl, hk⟩ := hk
      rw [List.map_cons, List.nodup_cons] at hn
      have hv : v = v' := by simpa [List.lookup_cons] using hg k
      have htail : ∀ j, es.lookup j = fs.lookup j := fun j => by
        by_cases h : j = k
        · have hes : es.lookup k = none := (lookup_eq_none es k).2 hn.1
          have hfs : fs.lookup k = none := (lookup_eq_none fs k).2 (hk ▸ hn.1)
          rw [h, hes, hfs]
        · rw [← lookup_cons_ne h v es, ← lookup_cons_ne h v' fs]
          exact hg j
      rw [hv, ih hk hn.2 htail]

/-- Two with the same keys in the same order and the same view are equal. -/
theorem ext_get? {m n : KeyedList κ α} (hk : m.keys = n.keys) (hg : ∀ k, m.get? k = n.get? k) :
    m = n :=
  ext_entries (entries_eq_of_keys hk m.nodup hg)

/-- Erasing an absent key changes nothing. -/
theorem erase_of_get?_eq_none {m : KeyedList κ α} {k : κ} (h : m.get? k = none) :
    m.erase k = m := by
  refine ext_get? ?_ fun j => ?_
  · rw [keys_erase, List.filter_eq_self]
    intro j hj
    have hne : j ≠ k := fun he => get?_eq_none_iff.1 h (he ▸ hj)
    simpa using hne
  · rw [get?_erase]
    split
    · next hj => exact hj ▸ h.symm
    · rfl

/-- A change under an absent key changes nothing. -/
theorem modify_of_get?_eq_none {m : KeyedList κ α} {k : κ} (h : m.get? k = none) (f : α → α) :
    m.modify k f = m := by
  refine ext_get? (keys_modify m k f) fun j => ?_
  rw [get?_modify]
  split
  · next hj => rw [hj, h, Option.map_none]
  · rfl

/-- Changing a value is lost on a map that does not see the change. -/
theorem map_modify_of_eq {β : Type} (m : KeyedList κ α) (k : κ) {f : α → α} {g : α → β}
    (h : ∀ v, g (f v) = g v) : (m.modify k f).map g = m.map g := by
  refine ext_get? (by simp) fun j => ?_
  rw [get?_map, get?_map, get?_modify]
  split
  · next hj =>
    subst hj
    rw [Option.map_map]
    exact congrArg (Option.map · _) (funext h)
  · rfl

/-- Changing a value before a map or after it. -/
theorem map_modify_comm {β : Type} (m : KeyedList κ α) (k : κ) {f : α → α} {f' : β → β} {g : α → β}
    (h : ∀ v, g (f v) = f' (g v)) : (m.modify k f).map g = (m.map g).modify k f' := by
  refine ext_get? (by simp) fun j => ?_
  simp only [get?_map, get?_modify]
  split
  · rw [Option.map_map, Option.map_map]
    exact congrArg (Option.map · _) (funext h)
  · rfl

/-- Inserting and then mapping is mapping and then inserting. -/
theorem map_insert {β : Type} (m : KeyedList κ α) (k : κ) (v : α) (g : α → β) :
    (m.insert k v).map g = (m.map g).insert k (g v) := by
  refine ext_get? (by simp [keys_insert]) fun j => ?_
  rw [get?_map, get?_insert, get?_insert, get?_map]
  split <;> rfl

/-- Erasing and then mapping is mapping and then erasing. -/
theorem map_erase {β : Type} (m : KeyedList κ α) (k : κ) (g : α → β) :
    (m.erase k).map g = (m.map g).erase k := by
  refine ext_get? (by simp [keys_erase]) fun j => ?_
  rw [get?_map, get?_erase, get?_erase, get?_map]
  split <;> rfl

end KeyedList

end ChainPlanner
