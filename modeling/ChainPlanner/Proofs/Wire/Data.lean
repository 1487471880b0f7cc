import ChainPlanner.Proofs.Wire.Trees

/-!
# ChainPlanner.Proofs.Wire.Data

Data are found again in the tree that their text is read as (`Value.ofTree?_reread`), if their
numbers are whole, their names are distinct and they are not nested too deep (`Value.fits`).  All
data that have been read fit.

How much may be nested decides whether a tree can be read, not what it is read as
(`Value.ofTree?_of_le`), and what stands in a tree that can be read can be read by itself with one
level less.

What is found under a name after members were put into an object is said by
`Value.lookup_setMembers`.
-/

namespace ChainPlanner.Json

/-- What stands directly in an array or object. -/
def Tree.children : Tree → List Tree
  | array ts => ts
  | object ms => ms.map Prod.snd
  | _ => []

/-! ## looking up a name -/

theorem lookup_members_cons {α : Type} (k name : String) (a : α) (ms : List (String × α)) :
    ((name, a) :: ms).lookup k = if k = name then some a else ms.lookup k := by
  rw [List.lookup_cons]
  by_cases hk : k = name
  · simp [hk]
  · simp [hk, beq_false_of_ne hk]

/-- Nothing is found under a name that is not listed. -/
theorem lookup_of_not_mem {α : Type} {name : String} {ms : List (String × α)}
    (h : name ∉ ms.map Prod.fst) : ms.lookup name = none := by
  rw [List.lookup_eq_none_iff]
  intro m hm
  simpa using fun hname => h (List.mem_map.mpr ⟨m, hm, hname.symm⟩)

namespace Value

/-! ## members under distinct names -/

variable {name : String} {v : Value} {ms more : List (String × Value)} {room room' : Nat} {t : Tree}

/-- A member with a new name goes to the end. -/
theorem setMember_of_not_mem (h : name ∉ ms.map Prod.fst) (v : Value) :
    setMember name v ms = ms ++ [(name, v)] := by
  induction ms with
  | nil => rfl
  | cons m ms ih =>
    rw [List.map_cons, List.mem_cons, not_or] at h
    rw [setMember, if_neg (Ne.symm h.1), ih h.2, List.cons_append]

/-- Members with new names go to the end in their order. -/
theorem setMembers_of_nodup (h : ((ms ++ more).map Prod.fst).Nodup) :
    setMembers ms more = ms ++ more := by
  induction more generalizing ms with
  | nil => exact (List.append_nil ms).symm
  | cons m more ih =>
    have hnew : m.1 ∉ ms.map Prod.fst := by
      rw [List.map_append, List.map_cons, List.nodup_append] at h
      exact fun hm => h.2.2 _ hm _ List.mem_cons_self rfl
    have hassoc : ms ++ m :: more = ms ++ [m] ++ more := by simp
    rw [setMembers, List.foldl_cons, setMember_of_not_mem hnew, hassoc]
    exact ih (hassoc ▸ h)

/-- Whatever is in an object afterwards was there or was put in. -/
theorem mem_setMember {m : String × Value} (h : m ∈ setMember name v ms) :
    m = (name, v) ∨ m ∈ ms := by
  induction ms with
  | nil => exact .inl (List.mem_singleton.mp h)
  | cons m' ms ih =>
    obtain ⟨k, w⟩ := m'
    rw [setMember] at h
    split at h
    next hk =>
      subst hk
      exact (List.mem_cons.mp h).imp_right (List.mem_cons_of_mem _)
    next =>
      rcases List.mem_cons.mp h with rfl | h
      · exact .inr List.mem_cons_self
      · exact (ih h).imp_right (List.mem_cons_of_mem _)

/-- A new name goes to the end, a known one stays in its place. -/
theorem map_fst_setMember (name : String) (v : Value) (ms : List (String × Value)) :
    (setMember name v ms).map Prod.fst =
      if name ∈ ms.map Prod.fst then ms.map Prod.fst else ms.map Prod.fst ++ [name] := by
  induction ms with
  | nil => rfl
  | cons m ms ih =>
    obtain ⟨k, w⟩ := m
    rw [setMember]
    split
    next hk => simp [hk]
    next hk =>
      rw [List.map_cons, ih]
      by_cases hname : name ∈ ms.map Prod.fst <;> simp_all [eq_comm]

/-- Putting members in makes no name occur twice. -/
theorem nodup_setMembers (ms more : List (String × Value)) (h : (ms.map Prod.fst).Nodup) :
    ((setMembers ms more).map Prod.fst).Nodup := by
  induction more generalizing ms with
  | nil => exact h
  | cons m more ih =>
    refine ih _ ?_
    rw [map_fst_setMember]
    split
    next => exact h
    next hnew =>
      exact List.nodup_append.mpr ⟨h, by simp, fun a ha b hb =>
        List.mem_singleton.mp hb ▸ fun hab => hnew (hab ▸ ha)⟩

/-- Whatever is in an object afterwards was there or was put in. -/
theorem mem_setMembers {m : String × Value} (h : m ∈ setMembers ms more) : m ∈ ms ∨ m ∈ more := by
  induction more generalizing ms with
  | nil => exact .inl h
  | cons m' more ih =>
    rcases ih h with h | h
    · rcases mem_setMember h with rfl | h
      · exact .inr List.mem_cons_self
      · exact .inl h
    · exact .inr (List.mem_cons_of_mem _ h)

/-- What was put in is found under its name, everything else as before. -/
theorem lookup_setMember (k name : String) (v : Value) (ms : List (String × Value)) :
    (setMember name v ms).lookup k = if k = name then some v else ms.lookup k := by
  induction ms with
  | nil => exact lookup_members_cons k name v []
  | cons m ms ih =>
    obtain ⟨j, w⟩ := m
    rw [setMember]
    split
    next hj =>
      rw [hj, lookup_members_cons, lookup_members_cons]
      split <;> rfl
    next hj =>
      rw [lookup_members_cons, lookup_members_cons, ih]
      by_cases hk : k = j
      · rw [if_pos hk, if_neg (hk ▸ hj), if_pos hk]
      · rw [if_neg hk, if_neg hk]

/-- Members put into an object hide what it held under their names, and nothing else. -/
theorem lookup_setMembers (k : String) (h : (more.map Prod.fst).Nodup) :
    (setMembers ms more).lookup k = (more.lookup k).or (ms.lookup k) := by
  induction more generalizing ms with
  | nil => rfl
  | cons m more ih =>
    obtain ⟨name, v⟩ := m
    obtain ⟨hnew, hrest⟩ := List.nodup_cons.mp h
    rw [setMembers, List.foldl_cons, ← setMembers, ih hrest, lookup_setMember, lookup_members_cons]
    by_cases hk : k = name
    · -- What is put in first would be hidden by a later member of its name; there is none.
      have hmore : more.lookup k = none := lookup_of_not_mem (hk ▸ hnew)
      rw [if_pos hk, if_pos hk, hmore, Option.none_or, Option.some_or]
    · rw [if_neg hk, if_neg hk]

/-! ## data that fit -/

mutual

/-- Whether data nest at most `room` levels and no object repeats a name. -/
def fits (room : Nat) : Value → Bool
  | array vs => room ≠ 0 && fitsItems (room - 1) vs
  | object ms => room ≠ 0 && fitsMembers (room - 1) ms && (ms.map Prod.fst).Nodup
  | _ => true

/-- Whether all items fit. -/
def fitsItems (room : Nat) : List Value → Bool
  | [] => true
  | v :: vs => fits room v && fitsItems room vs

/-- Whether all members fit. -/
def fitsMembers (room : Nat) : List (String × Value) → Bool
  | [] => true
  | (_, v) :: ms => fits room v && fitsMembers room ms

end

/-- Items fit if each does. -/
theorem fitsItems_eq_all (vs : List Value) : fitsItems room vs = vs.all (fits room) := by
  induction vs with
  | nil => rfl
  | cons v vs ih => rw [fitsItems, ih, List.all_cons]

/-- Members fit if each does. -/
theorem fitsMembers_eq_all (ms : List (String × Value)) :
    fitsMembers room ms = ms.all fun m => m.2.fits room := by
  induction ms with
  | nil => rfl
  | cons m ms ih => rw [fitsMembers, ih, List.all_cons]

theorem fitsMembers_iff : fitsMembers room ms = true ↔ ∀ m ∈ ms, m.2.fits room = true := by
  rw [fitsMembers_eq_all, List.all_eq_true]

mutual

/-- Data are read in the tree that their text is read as. -/
theorem ofTree?_reread (v : Value) (room : Nat) (hwhole : v.whole = true)
    (hfits : v.fits room = true) : ofTree? room v.reread = some v :=
  match v with
  | null | bool _ => rfl
  | int n => by
    rw [whole] at hwhole
    simp [reread, ofTree?, ofNumber?, NumberLit.int?_ofInt, hwhole]
  | real d => by cases hwhole
  | string s => by simp [reread, ofTree?]
  | array vs => by
    simp only [fits, Bool.and_eq_true, decide_eq_true_eq] at hfits
    obtain ⟨hroom, hitems⟩ := hfits
    rw [reread, ofTree?, if_neg hroom, ofItems?_reread vs (room - 1) hwhole hitems, Option.map_some]
  | object ms => by
    simp only [fits, Bool.and_eq_true, decide_eq_true_eq] at hfits
    obtain ⟨⟨hroom, hmembers⟩, hnames⟩ := hfits
    have hkept : setMembers [] ms = [] ++ ms := setMembers_of_nodup hnames
    rw [reread, ofTree?, if_neg hroom, ofMembers?_reread ms (room - 1) hwhole hmembers,
      Option.map_some, hkept, List.nil_append]

/-- Items that are written are read back. -/
theorem ofItems?_reread (vs : List Value) (room : Nat) (hwhole : wholeItems vs = true)
    (hfits : fitsItems room vs = true) : ofItems? room (rereadItems vs) = some vs :=
  match vs with
  | [] => rfl
  | v :: vs => by
    obtain ⟨hv, hvs⟩ := (Bool.and_eq_true _ _).mp hwhole
    obtain ⟨hv', hvs'⟩ := (Bool.and_eq_true _ _).mp hfits
    simp [rereadItems, ofItems?, ofTree?_reread v room hv hv', ofItems?_reread vs room hvs hvs']

/-- Members that are written are read back. -/
theorem ofMembers?_reread (ms : List (String × Value)) (room : Nat)
    (hwhole : wholeMembers ms = true) (hfits : fitsMembers room ms = true) :
    ofMembers? room (rereadMembers ms) = some ms :=
  match ms with
  | [] => rfl
  | (k, v) :: ms => by
    obtain ⟨hv, hms⟩ := (Bool.and_eq_true _ _).mp hwhole
    obtain ⟨hv', hms'⟩ := (Bool.and_eq_true _ _).mp hfits
    simp [rereadMembers, ofMembers?, ofTree?_reread v room hv hv',
      ofMembers?_reread ms room hms hms']

end

/-- A number is read as a whole number or as a double. -/
theorem ofNumber?_cases {l : NumberLit} (h : ofNumber? l = some v) :
    (∃ n, v = int n) ∨ ∃ d, v = real d := by
  have hreal : l.double?.map real = some v → ∃ d, v = real d := by
    intro h
    obtain ⟨d, -, hd⟩ := Option.map_eq_some_iff.mp h
    exact ⟨d, hd.symm⟩
  unfold ofNumber? at h
  split at h
  next n _ =>
    split at h
    · exact .inl ⟨n, (Option.some.inj h).symm⟩
    · exact .inr (hreal h)
  next => exact .inr (hreal h)

mutual

/-- Data that have been read fit. -/
theorem fits_of_ofTree? (t : Tree) (room : Nat) (v : Value) (h : ofTree? room t = some v) :
    v.fits room = true :=
  match t with
  | .null | .bool _ => by cases h; rfl
  | .number n => by
    obtain ⟨n, rfl⟩ | ⟨d, rfl⟩ := ofNumber?_cases h <;> rfl
  | .string s => by
    obtain ⟨s, -, rfl⟩ := Option.map_eq_some_iff.mp h
    rfl
  | .array ts => by
    rw [ofTree?] at h
    split at h
    · cases h
    next hroom =>
      obtain ⟨vs, hvs, rfl⟩ := Option.map_eq_some_iff.mp h
      simp [fits, hroom, fitsItems_of_ofItems? ts (room - 1) vs hvs]
  | .object ms => by
    rw [ofTree?] at h
    split at h
    · cases h
    next hroom =>
      obtain ⟨ms', hms', rfl⟩ := Option.map_eq_some_iff.mp h
      have hmembers := fitsMembers_iff.mp (fitsMembers_of_ofMembers? ms (room - 1) ms' hms')
      have hkept : fitsMembers (room - 1) (setMembers [] ms') = true :=
        fitsMembers_iff.mpr fun m hm => hmembers m ((mem_setMembers hm).resolve_left nofun)
      simp [fits, hroom, hkept, nodup_setMembers [] ms' List.nodup_nil]

/-- Items that have been read fit the room they were read in. -/
theorem fitsItems_of_ofItems? (ts : List Tree) (room : Nat) (vs : List Value)
    (h : ofItems? room ts = some vs) : fitsItems room vs = true :=
  match ts with
  | [] => by cases h; rfl
  | t :: ts => by
    simp only [ofItems?, bind, Option.bind_eq_some_iff] at h
    obtain ⟨v, hv, vs, hvs, h⟩ := h
    cases h
    simp [fitsItems, fits_of_ofTree? t room v hv, fitsItems_of_ofItems? ts room vs hvs]

/-- Members that have been read fit the room they were read in. -/
theorem fitsMembers_of_ofMembers? (ts : List (StringLit × Tree)) (room : Nat)
    (ms : List (String × Value)) (h : ofMembers? room ts = some ms) :
    fitsMembers room ms = true :=
  match ts with
  | [] => by cases h; rfl
  | (k, t) :: ts => by
    simp only [ofMembers?, bind, Option.bind_eq_some_iff] at h
    obtain ⟨name, -, v, hv, ms, hms, h⟩ := h
    cases h
    simp [fitsMembers, fits_of_ofTree? t room v hv, fitsMembers_of_ofMembers? ts room ms hms]

end

/-! ## how much may be nested -/

mutual

/-- What can be read is read the same where more may be nested. -/
theorem ofTree?_of_le (t : Tree) (room room' : Nat) (v : Value) (hle : room ≤ room')
    (h : ofTree? room t = some v) : ofTree? room' t = some v :=
  match t with
  | .null | .bool _ | .number _ | .string _ => h
  | .array ts => by
    rw [ofTree?] at h ⊢
    split at h
    · cases h
    next hroom =>
      obtain ⟨vs, hvs, rfl⟩ := Option.map_eq_some_iff.mp h
      rw [if_neg (by omega), ofItems?_of_le ts (room - 1) (room' - 1) vs (by omega) hvs,
        Option.map_some]
  | .object ms => by
    rw [ofTree?] at h ⊢
    split at h
    · cases h
    next hroom =>
      obtain ⟨ms', hms', rfl⟩ := Option.map_eq_some_iff.mp h
      rw [if_neg (by omega), ofMembers?_of_le ms (room - 1) (room' - 1) ms' (by omega) hms',
        Option.map_some]

/-- More room changes nothing for items that have been read. -/
theorem ofItems?_of_le (ts : List Tree) (room room' : Nat) (vs : List Value)
    (hle : room ≤ room') (h : ofItems? room ts = some vs) : ofItems? room' ts = some vs :=
  match ts with
  | [] => h
  | t :: ts => by
    simp only [ofItems?, bind, Option.bind_eq_some_iff] at h ⊢
    obtain ⟨v, hv, vs, hvs, h⟩ := h
    exact ⟨v, ofTree?_of_le t room room' v hle hv, vs, ofItems?_of_le ts room room' vs hle hvs, h⟩

/-- More room changes nothing for members that have been read. -/
theorem ofMembers?_of_le (ts : List (StringLit × Tree)) (room room' : Nat)
    (ms : List (String × Value)) (hle : room ≤ room') (h : ofMembers? room ts = some ms) :
    ofMembers? room' ts = some ms :=
  match ts with
  | [] => h
  | (k, t) :: ts => by
    simp only [ofMembers?, bind, Option.bind_eq_some_iff] at h ⊢
    obtain ⟨name, hname, v, hv, ms, hms, h⟩ := h
    exact ⟨name, hname, v, ofTree?_of_le t room room' v hle hv, ms,
      ofMembers?_of_le ts room room' ms hle hms, h⟩

end

/-- If an array can be read, so can each item. -/
theorem exists_of_ofItems? {ts : List Tree} {vs : List Value} (h : ofItems? room ts = some vs)
    (ht : t ∈ ts) : ∃ v, ofTree? room t = some v := by
  induction ts generalizing vs with
  | nil => cases ht
  | cons t' ts ih =>
    simp only [ofItems?, bind, Option.bind_eq_some_iff] at h
    obtain ⟨v, hv, vs, hvs, -⟩ := h
    rcases List.mem_cons.mp ht with rfl | ht
    · exact ⟨v, hv⟩
    · exact ih hvs ht

/-- If an object can be read, so can each member. -/
theorem exists_of_ofMembers? {ts : List (StringLit × Tree)} (h : ofMembers? room ts = some ms)
    (ht : t ∈ ts.map Prod.snd) : ∃ v, ofTree? room t = some v := by
  induction ts generalizing ms with
  | nil => cases ht
  | cons m ts ih =>
    simp only [ofMembers?, bind, Option.bind_eq_some_iff] at h
    obtain ⟨-, -, v, hv, ms, hms, -⟩ := h
    rcases List.mem_cons.mp ht with rfl | ht
    · exact ⟨v, hv⟩
    · exact ih hms ht

/-- What stands in a tree that can be read can be read, with one level less. -/
theorem exists_of_children (h : (ofTree? room t).isSome = true) {t' : Tree}
    (ht' : t' ∈ t.children) : (ofTree? (room - 1) t').isSome = true := by
  rw [Option.isSome_iff_exists] at h ⊢
  obtain ⟨v, hv⟩ := h
  cases t with
  | null | bool | number | string => cases ht'
  | array ts =>
    rw [ofTree?] at hv
    split at hv
    · cases hv
    next =>
      obtain ⟨vs, hvs, -⟩ := Option.map_eq_some_iff.mp hv
      exact exists_of_ofItems? hvs ht'
  | object ms =>
    rw [ofTree?] at hv
    split at hv
    · cases hv
    next =>
      obtain ⟨ms', hms', -⟩ := Option.map_eq_some_iff.mp hv
      exact exists_of_ofMembers? hms' ht'

end Value

end ChainPlanner.Json
