import ChainPlanner.Proofs.Wire.Fields
import ChainPlanner.Proofs.Wire.Written

/-!
# ChainPlanner.Proofs.Wire.Records

Every record is found again in the tree that its written form is read as.

What a task or a reported task carries has to survive as data (`Value.whole`, `Value.fits`); all
other fields always do.  A change is read from what was held back, after all of it was read as data,
so there the whole of the written form has to fit (`fits_ofMutation`).  The keys of a solution are
read by how they are spelled: as names for workers, as numbers for tasks (`taskKey?_text`).
-/

namespace ChainPlanner.Wire

open ChainPlanner.Json ChainPlanner.Text

variable {reading : Reading} {room room' : Nat}

/-! ## owners, anchors and workers -/

@[simp] theorem owner?_ofOwner (o : OwnerRef) : owner? (ofOwner o).reread = some o := by
  rw [owner?, ofOwner, text?_string, Option.map_some, OwnerRef.parse_text]

/-- The kind of an anchor is read by its name. -/
theorem namedKind?_string (reading : Reading) (s : String) :
    namedKind? reading (Value.string s).reread = AnchorKind.ofName? s := by
  rw [Value.reread, namedKind?, StringLit.text?_reread, Option.bind_some]

@[simp] theorem anchor?_ofAnchor (reading : Reading) (a : Anchor) :
    anchor? reading (ofAnchor a).reread = some a := by
  have hlisted : ∀ ms, (Value.object ms).reread.items? = none := fun _ => rfl
  cases a with
  | user id =>
    rw [anchor?, ofAnchor, fields?_reread (by simp) (by decide)]
    simp [required_reread, List.lookup_cons, hlisted, namedKind?_string, AnchorKind.ofName?]
  | task id =>
    rw [anchor?, ofAnchor, fields?_reread (by simp) (by decide)]
    simp [required_reread, List.lookup_cons, hlisted, namedKind?_string, AnchorKind.ofName?]

/-- No anchor is written as null. -/
theorem ofAnchor_ne_null (a : Anchor) : ofAnchor a ≠ .null := by
  cases a <;> simp [ofAnchor]

/-- A worker is read back. -/
theorem user?_ofUser (u : User) : user? (ofUser u).reread = some u := by
  have hsub := (List.Sublist.refl ["id", "groups"]).append (keys_ofPresent "next" ofTaskId u.next)
  have hgroups := list?_array u.groups.toList fun g _ => groupId?_string g
  have hset : SortedSet.ofList u.groups.toList = u.groups :=
    SortedSet.ext_mem fun _ => SortedSet.mem_ofList
  rw [user?, ofUser, fields?_reread (by simpa using hsub) (by decide), Option.bind_eq_bind,
    Option.bind_some,
    optional_ofPresent ofTaskId u.next (by simp [lookup_ofPresent, List.lookup_cons])
      ofTaskId_ne_null taskId?_ofTaskId]
  simp [required_reread, optional_reread, List.lookup_cons, hgroups, hset]

/-! ## tasks -/

/-- A task is read back if its data is, given room enough. -/
theorem task?_ofTask {t : Task} (hle : room + 1 ≤ room')
    (hwhole : (Value.object t.payload).whole = true)
    (hfits : (Value.object t.payload).fits room = true) :
    task? reading room' (ofTask t).reread = some t := by
  have howners := list?_array t.potentialOwners fun o _ => owner?_ofOwner o
  have hpayload : payload? (room' - 1) (Value.object t.payload).reread = some t.payload :=
    payload?_object (by omega) hwhole hfits
  rw [task?, ofTask, fields?_reread (keys_ofTask rfl) (by decide), Option.bind_eq_bind,
    Option.bind_some,
    optional_ofPresent ofAnchor t.previous
      (by simp [lookup_ofPresent, List.lookup_append, List.lookup_cons])
      ofAnchor_ne_null (anchor?_ofAnchor reading),
    optional_ofPresent ofTaskId t.next
      (by simp [lookup_ofPresent, List.lookup_append, List.lookup_cons])
      ofTaskId_ne_null taskId?_ofTaskId,
    optional_ofPresent ofMinutes t.startTime
      (by simp [lookup_ofPresent, List.lookup_append, List.lookup_cons])
      ofMinutes_ne_null minutes?_ofMinutes,
    optional_ofPresent ofMinutes t.endTime
      (by simp [lookup_ofPresent, List.lookup_append, List.lookup_cons])
      ofMinutes_ne_null minutes?_ofMinutes]
  simp only [List.cons_append, required_reread, optional_reread, List.lookup_cons_self,
    List.lookup_cons, String.reduceBEq, Option.bind_eq_bind, Option.bind_some, Option.map_some,
    Option.getD_some, Option.pure_def, taskId?_ofTaskId, text?_string, priority?_int,
    minutes?_ofMinutes, word64?_int, bool?_bool, howners, hpayload]

/-! ## the runtime and the directory -/

/-- A placement is read back. -/
theorem parameters?_ofParameters (p : PlanningParameters) :
    parameters? (ofParameters p).reread = some p := by
  rw [parameters?, ofParameters, fields?_reread (by simp) (by decide)]
  simp [required_reread, List.lookup_cons]

/-- A result is read back. -/
theorem result?_ofResult (r : PlanningResult) : result? (ofResult r).reread = some r := by
  rw [result?, ofResult, fields?_reread (by simp) (by decide)]
  simp [required_reread, List.lookup_cons, parameters?_ofParameters]

@[simp] theorem status?_ofStatus (status : TaskStatus) :
    status? (ofStatus status).reread = some status := by
  rw [status?, ofStatus, Value.reread, name?, StringLit.text?_reread, Option.bind_some,
    TaskStatus.ofText?_text]

/-- A record is read back if its data is. -/
theorem record?_ofRecord {r : TaskRecord} (hwhole : (Value.object r.inputData).whole = true)
    (hfits : (Value.object r.inputData).fits (Value.maxDepth - 1) = true) :
    record? (ofRecord r).reread = some r := by
  have howner := nullable?_ofNullable (fun id : UserId => .string id.name) nofun
    userId?_string r.actualOwner
  have howners := list?_array r.potentialOwners fun o _ => owner?_ofOwner o
  have hinput := payload?_object (Nat.le_refl _) hwhole hfits
  have hparameters := nullable?_ofNullable ofParameters nofun parameters?_ofParameters
    r.planningParameters
  rw [record?, ofRecord, fields?_reread (by simp [recordFields]) (by decide), Option.bind_eq_bind,
    Option.bind_some]
  simp only [required_reread, optional_reread, List.lookup_cons_self, List.lookup_cons,
    String.reduceBEq, Option.bind_eq_bind, Option.bind_some, Option.map_some, Option.getD_some,
    Option.pure_def, taskId?_ofTaskId, word64?_int, word32?_int, text?_string, status?_ofStatus,
    howner, howners, hinput, hparameters]

/-- A listed worker is read back. -/
theorem directoryUser?_ofDirectoryUser (u : DirectoryUser) :
    directoryUser? (ofDirectoryUser u).reread = some u := by
  have hgroups := list?_array u.groups fun g _ => groupId?_string g
  rw [directoryUser?, ofDirectoryUser, fields?_reread (by simp) (by decide)]
  simp [required_reread, optional_reread, List.lookup_cons, hgroups]

/-! ## changes -/

/-- The kind of a change stands first. -/
theorem tagged?_object {kind : String} {ms : List (String × Value)}
    (h : "op" ∉ ms.map Prod.fst) :
    tagged? (Value.object (("op", .string kind) :: ms)).reread =
      some (kind, (Value.object ms).reread) := by
  have htag : ∀ m ∈ Value.rereadMembers ms, m.1.text? ≠ some "op" := by
    intro m hm
    rw [Value.rereadMembers_eq] at hm
    obtain ⟨w, hw, rfl⟩ := List.mem_map.mp hm
    have hne : w.1 ≠ "op" := fun hop => h (List.mem_map.mpr ⟨w, hw, hop⟩)
    simpa using hne
  have htags : (Value.rereadMembers ms).filter (fun m => m.1.text? = some "op") = [] := by
    simpa using htag
  have hrest : (Value.rereadMembers ms).filter (fun m => !(m.1.text? = some "op")) =
      Value.rereadMembers ms := by
    simpa using htag
  simp [tagged?, Value.reread, Value.rereadMembers, htags, hrest]

/-- A change is read back if the data of its task is. -/
theorem mutation?_ofMutation {m : Mutation}
    (hwhole : ∀ data ∈ taskData m, (Value.object data).whole = true)
    (hfits : ∀ data ∈ taskData m, (Value.object data).fits (Value.maxDepth - 2) = true) :
    mutation? (ofMutation m).reread = some m := by
  have hheld : Value.ofTree? Value.maxDepth (ofMutation m).reread = some (ofMutation m) :=
    Value.ofTree?_reread _ _ (whole_ofMutation hwhole) (fits_ofMutation hfits)
  have htask : ∀ t : Task, t.payload ∈ taskData m →
      task? .held Value.maxDepth (ofTask t).reread = some t := fun t ht =>
    task?_ofTask (by decide) (hwhole _ ht) (hfits _ ht)
  rw [mutation?, hheld]
  simp only [bind, Option.bind_some]
  cases m with
  | add task | assign task user =>
    rw [ofMutation, tagged?_object (by simp)]
    simp only [Option.bind_some]
    rw [fields?_reread (by simp) (by decide)]
    simp [required_reread, List.lookup_cons, htask task List.mem_cons_self]
  | remove task | release task =>
    rw [ofMutation, tagged?_object (by simp)]
    simp only [Option.bind_some]
    rw [fields?_reread (by simp) (by decide)]
    simp [required_reread]

/-! ## solutions -/

/-- The text of a task's number is its literal. -/
theorem toList_text (id : TaskId) : id.text.toList = (NumberLit.ofInt id.val.toInt).render := by
  rw [NumberLit.render_ofInt, TaskId.text]
  cases id.val.toInt with
  | ofNat n => simp [Decimal.digits, toString, Int.repr, Nat.repr]
  | negSucc n => simp [Decimal.digits, toString, Int.repr, Nat.repr]

/-- The signs and digits of a key are neither blanks nor control characters. -/
theorem le_toNat_of_mem_text {id : TaskId} {c : Char} (h : c ∈ id.text.toList) :
    45 ≤ c.toNat := by
  rw [toList_text, NumberLit.render_ofInt, List.mem_append] at h
  rcases h with hsign | hdigit
  · split at hsign
    · rw [List.mem_singleton.mp hsign]
      decide
    · cases hsign
  · have hc := Nat.isDigit_of_mem_toDigits (by decide) (by decide) hdigit
    simp only [Char.isDigit, Bool.and_eq_true, decide_eq_true_eq] at hc
    exact Nat.le_trans (by decide) hc.1

/-- A key without control characters is read without escapes. -/
theorem plainChars?_reread {s : String} (h : ∀ c ∈ s.toList, 0x20 ≤ c.toNat) :
    plainChars? (.reread s) = some s.toList := by
  rw [plainChars?, StringLit.reread]
  generalize s.toList = cs at h ⊢
  induction cs with
  | nil => rfl
  | cons c cs ih =>
    have hc := h c List.mem_cons_self
    have hplain : StringUnit.reread c = .plain c := if_neg fun hlow => by omega
    rw [List.map_cons, List.mapM_cons, hplain, ih fun c hc => h c (List.mem_cons_of_mem _ hc)]
    simp

/-- A task's number is read back from a key. -/
theorem taskKey?_text (id : TaskId) : taskKey? (.reread id.text) = some id := by
  have hchars : plainChars? (.reread id.text) = some id.text.toList :=
    plainChars?_reread fun c hc => Nat.le_trans (by decide) (le_toNat_of_mem_text hc)
  have htokens : tokens? id.text.toList = some [.number (.ofInt id.val.toInt)] := by
    have hends : Ends [] := trivial
    have h := tokensFrom?_ofInt id.val.toInt hends
    rw [List.append_nil] at h
    rw [tokens?, toList_text]
    exact h
  have hblank : ¬(id.text.toList.any Mode.isSpace = true) := by
    rw [List.any_eq_true]
    rintro ⟨c, hc, hspace⟩
    have hle := le_toNat_of_mem_text hc
    have hne : ∀ d : Char, d.toNat < 45 → c ≠ d := fun d hd heq => by rw [heq] at hle; omega
    simp [Mode.isSpace, hne] at hspace
  rw [taskKey?, hchars, Option.bind_eq_bind, Option.bind_some, htokens, Option.bind_eq_bind,
    Option.bind_some]
  simp only [if_neg hblank, NumberLit.int?_ofInt, Option.bind_some, int64?_toInt, Option.map_some]

/-- A keyed list is read back if its keys and values are. -/
theorem keyed?_object {κ α : Type} [DecidableEq κ] {read : Tree → Option α}
    {write : α → Value} (key : StringLit → Option κ) (text : κ → String) (m : KeyedList κ α)
    (hkey : ∀ k, key (.reread (text k)) = some k)
    (hread : ∀ e ∈ m.entries, read (write e.2).reread = some e.2) :
    keyed? key read (Value.object (m.entries.map fun e => (text e.1, write e.2))).reread =
      some m := by
  have hentries : ∀ es : List (κ × α), (∀ e ∈ es, read (write e.2).reread = some e.2) →
      ((es.map fun e => (StringLit.reread (text e.1), (write e.2).reread)).mapM fun m => do
        let k ← key m.1
        let a ← read m.2
        return (k, a)) = some es := by
    intro es h
    induction es with
    | nil => rfl
    | cons e es ih =>
      rw [List.map_cons, List.mapM_cons, ih fun e he => h e (List.mem_cons_of_mem _ he)]
      simp [hkey, h e List.mem_cons_self]
  have hsame : KeyedList.ofList m.entries = m :=
    KeyedList.ext_entries (KeyedList.entries_ofList m.nodup)
  rw [Value.reread, Value.rereadMembers_eq, List.map_map, keyed?]
  simp only [Function.comp_def]
  rw [hentries _ hread]
  simp [hsame]

/-- A solution is read back if the data of its tasks is. -/
theorem solution?_ofSolution {s : Solution}
    (hwhole : ∀ t ∈ s.tasks.values, (Value.object t.payload).whole = true)
    (hfits : ∀ t ∈ s.tasks.values, (Value.object t.payload).fits (Value.maxDepth - 3) = true) :
    solution? (ofSolution s).reread = some s := by
  have hname : ∀ id : UserId, (StringLit.reread id.name).text?.map UserId.mk = some id :=
    fun id => by rw [StringLit.text?_reread, Option.map_some]
  have htask : ∀ e ∈ s.tasks.entries,
      task? .straight (Value.maxDepth - 2) (ofTask e.2).reread = some e.2 := fun e he =>
    have hvalue := List.mem_map_of_mem he
    task?_ofTask (by decide) (hwhole e.2 hvalue) (hfits e.2 hvalue)
  have husers := keyed?_object (fun k => k.text?.map .mk) UserId.name s.users hname
    fun e _ => user?_ofUser e.2
  have htasks := keyed?_object taskKey? TaskId.text s.tasks taskKey?_text htask
  rw [solution?, ofSolution, fields?_reread (by simp) (by decide)]
  simp [required_reread, List.lookup_cons, husers, htasks]

end ChainPlanner.Wire
