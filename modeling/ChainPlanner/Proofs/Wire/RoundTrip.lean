import ChainPlanner.Proofs.Wire.Records

/-!
# ChainPlanner.Proofs.Wire.RoundTrip

The wire forms lose nothing (`wire_forms_lossless`).

A form says how values are written and read and which named data they carry (`WireForm`).  What is
written is read as itself, if the data hold whole numbers only and do not nest too deep.  Of a value
that was read the latter need not be asked.  Its data stand in the tree that was read (`StandsIn`),
in place of the data that are then written, so they nest no deeper than they did there.
-/

namespace ChainPlanner.Wire

open ChainPlanner.Json

/-- How values of a type stand in a text. -/
structure WireForm (α : Type) where
  write : α → Value
  read : Tree → Option α
  /-- The named data that stand in a value as they are. -/
  carried : α → List Payload
  /-- How many levels such data may nest. -/
  room : Nat

namespace WireForm

variable {α : Type}

/-- The text of a value. -/
def encode (f : WireForm α) (a : α) : String := (f.write a).render

/-- The value in a text. -/
def decode? (f : WireForm α) (text : String) : Option α := Wire.decode? f.read text

/-- All numbers that are carried are whole and have 64 bits. -/
def Whole (f : WireForm α) (a : α) : Prop :=
  ∀ data ∈ f.carried a, (Value.object data).whole = true

/-- What is carried does not nest too deep, and each name stands once. -/
def Fits (f : WireForm α) (a : α) : Prop :=
  ∀ data ∈ f.carried a, (Value.object data).fits f.room = true

/-- Values are found again in their texts, and so are those that were read from any text. -/
structure Lossless (f : WireForm α) : Prop where
  written : ∀ a, f.Whole a → f.Fits a → f.decode? (f.encode a) = some a
  again : ∀ text a, f.decode? text = some a → f.Whole a → f.decode? (f.encode a) = some a

/-- A form is lossless if what is written is whole and read back, and what is read fits. -/
theorem lossless {f : WireForm α} (hwhole : ∀ a, f.Whole a → (f.write a).whole = true)
    (hread : ∀ a, f.Whole a → f.Fits a → f.read (f.write a).reread = some a)
    (hfits : ∀ t a, f.read t = some a → f.Fits a) : f.Lossless := by
  have hwritten : ∀ a, f.Whole a → f.Fits a → f.decode? (f.encode a) = some a := by
    intro a hw hf
    rw [decode?, Wire.decode?, encode, Value.parse?_render (hwhole a hw), Option.bind_some,
      hread a hw hf]
  refine ⟨hwritten, fun text a h hw => hwritten a hw ?_⟩
  obtain ⟨t, -, ht⟩ := Option.bind_eq_some_iff.mp h
  exact hfits t a ht

/-- A form whose values carry no data. -/
def plain (write : α → Value) (read : Tree → Option α) : WireForm α :=
  ⟨write, read, fun _ => [], 0⟩

/-- A form that carries no data is lossless if what is written is read back. -/
theorem lossless_plain {write : α → Value} {read : Tree → Option α}
    (hwhole : ∀ a, (write a).whole = true) (hread : ∀ a, read (write a).reread = some a) :
    (plain write read).Lossless :=
  lossless (fun a _ => hwhole a) (fun a _ _ => hread a) fun _ _ _ => nofun

end WireForm

/-! ## what was read fits -/

section Fits

variable {names : List String} {name : String} {room room' : Nat} {t : Tree} {data : Payload}

/-- Where the named data of a record come from: they were missing, or stand in its tree and nest at
most `room` levels. -/
def StandsIn (room : Nat) (t : Tree) (data : Payload) : Prop :=
  data = [] ∨ ∃ t' ∈ t.children, Value.ofTree? room t' = some (.object data)

/-- The data of a field stands in the text, or is empty. -/
theorem standsIn_of_optional {fs : Fields} (hfields : fields? names t = some fs)
    (h : fs.optional name [] (payload? room) = some data) : StandsIn room t data := by
  rw [Fields.optional] at h
  cases hlookup : fs.lookup name with
  | none =>
    rw [hlookup] at h
    exact .inl (Option.some.inj h).symm
  | some t' =>
    simp only [hlookup, payload?] at h
    split at h
    next ms hms =>
      cases h
      exact .inr ⟨t', mem_children_of_fields? hfields hlookup, hms⟩
    next => cases h

/-- The data of a task stands in its text. -/
theorem standsIn_of_task? {reading : Reading} {task : Task}
    (h : task? reading room t = some task) : StandsIn (room - 1) t task.payload := by
  -- nine fields are read before the data, and four after them
  obtain ⟨fs, hfs, h⟩ := Option.bind_eq_some_iff.mp h
  iterate 9 obtain ⟨_, -, h⟩ := Option.bind_eq_some_iff.mp h
  obtain ⟨data, hdata, h⟩ := Option.bind_eq_some_iff.mp h
  iterate 4 obtain ⟨_, -, h⟩ := Option.bind_eq_some_iff.mp h
  cases h
  exact standsIn_of_optional hfs hdata

/-- The data of a record stands in its text. -/
theorem standsIn_of_record? {record : TaskRecord} (h : record? t = some record) :
    StandsIn (Value.maxDepth - 1) t record.inputData := by
  -- nine fields are read before the data, and one after them
  obtain ⟨fs, hfs, h⟩ := Option.bind_eq_some_iff.mp h
  iterate 9 obtain ⟨_, -, h⟩ := Option.bind_eq_some_iff.mp h
  obtain ⟨data, hdata, h⟩ := Option.bind_eq_some_iff.mp h
  obtain ⟨_, -, h⟩ := Option.bind_eq_some_iff.mp h
  cases h
  exact standsIn_of_optional hfs hdata

/-- Data that stands in a text fits the room it was read in. -/
theorem StandsIn.fits (h : StandsIn room t data) (hroom : room ≠ 0) :
    (Value.object data).fits room = true := by
  rcases h with rfl | ⟨t', -, hdata⟩
  · simp [Value.fits, Value.fitsMembers, hroom]
  · exact Value.fits_of_ofTree? t' room _ hdata

/-- Data nest less if all of the tree around them does. -/
theorem StandsIn.of_le (h : StandsIn room' t data) (hle : room ≤ room')
    (htree : (Value.ofTree? (room + 1) t).isSome = true) : StandsIn room t data := by
  refine h.imp_right fun ⟨t', ht', hdata⟩ => ⟨t', ht', ?_⟩
  obtain ⟨v, hv⟩ := Option.isSome_iff_exists.mp (Value.exists_of_children htree ht')
  have hsame := Value.ofTree?_of_le t' room room' v hle hv
  rw [hdata] at hsame
  cases hsame
  exact hv

/-- The fields of a change stand in its tree. -/
theorem children_of_tagged? {kind : String} {rest : Tree} (h : tagged? t = some (kind, rest)) :
    rest.children ⊆ t.children := by
  unfold tagged? at h
  split at h
  next ms =>
    simp only at h
    split at h
    next =>
      obtain ⟨_, -, h⟩ := Option.bind_eq_some_iff.mp h
      cases h
      exact List.map_subset Prod.snd List.filter_sublist.subset
    next => cases h
  next ts =>
    obtain ⟨_, -, h⟩ := Option.bind_eq_some_iff.mp h
    cases h
    exact List.subset_cons_self _ ts
  next => cases h

/-- The data of a change that has been read fits. -/
theorem fits_of_mutation? {m : Mutation} (h : mutation? t = some m) :
    ∀ data ∈ taskData m, (Value.object data).fits (Value.maxDepth - 2) = true := by
  obtain ⟨v, hv, h⟩ := Option.bind_eq_some_iff.mp h
  obtain ⟨⟨kind, rest⟩, htagged, h⟩ := Option.bind_eq_some_iff.mp h
  have htask : ∀ {names fs task}, fields? names rest = some fs →
      fs.required "task" (task? .held Value.maxDepth) = some task →
      (Value.object task.payload).fits (Value.maxDepth - 2) = true := by
    intro names fs task hfs htask
    obtain ⟨t', hlookup, ht'⟩ := Option.bind_eq_some_iff.mp htask
    have hchild := children_of_tagged? htagged (mem_children_of_fields? hfs hlookup)
    have hread : (Value.ofTree? (Value.maxDepth - 1) t').isSome = true :=
      Value.exists_of_children (Option.isSome_iff_exists.mpr ⟨v, hv⟩) hchild
    exact ((standsIn_of_task? ht').of_le (by decide) hread).fits (by decide)
  simp only at h
  split at h
  next =>
    obtain ⟨fs, hfs, h⟩ := Option.bind_eq_some_iff.mp h
    obtain ⟨task, ht, h⟩ := Option.bind_eq_some_iff.mp h
    cases h
    simpa [taskData] using htask hfs ht
  next =>
    obtain ⟨fs, hfs, h⟩ := Option.bind_eq_some_iff.mp h
    obtain ⟨task, ht, h⟩ := Option.bind_eq_some_iff.mp h
    obtain ⟨user, -, h⟩ := Option.bind_eq_some_iff.mp h
    cases h
    simpa [taskData] using htask hfs ht
  next =>
    obtain ⟨fs, -, h⟩ := Option.bind_eq_some_iff.mp h
    obtain ⟨id, -, h⟩ := Option.bind_eq_some_iff.mp h
    cases h
    exact nofun
  next =>
    obtain ⟨fs, -, h⟩ := Option.bind_eq_some_iff.mp h
    obtain ⟨id, -, h⟩ := Option.bind_eq_some_iff.mp h
    cases h
    exact nofun
  next => cases h

/-- Every item of a list that was read has been read from one of the text. -/
theorem exists_of_mapM {α β : Type} {f : α → Option β} {as : List α} {bs : List β}
    (h : as.mapM f = some bs) {b : β} (hb : b ∈ bs) : ∃ a ∈ as, f a = some b := by
  induction as generalizing bs with
  | nil =>
    cases h
    cases hb
  | cons a as ih =>
    rw [List.mapM_cons] at h
    obtain ⟨b', hb', h⟩ := Option.bind_eq_some_iff.mp h
    obtain ⟨bs', hbs', h⟩ := Option.bind_eq_some_iff.mp h
    cases h
    rcases List.mem_cons.mp hb with rfl | hb
    · exact ⟨a, List.mem_cons_self, hb'⟩
    · obtain ⟨a', ha', hfa'⟩ := ih hbs' hb
      exact ⟨a', List.mem_cons_of_mem a ha', hfa'⟩

/-- Every value of a keyed list that was read has been read from one of the text. -/
theorem exists_of_keyed? {κ α : Type} [DecidableEq κ] {key : StringLit → Option κ}
    {read : Tree → Option α} {m : KeyedList κ α} (h : keyed? key read t = some m) {a : α}
    (ha : a ∈ m.values) : ∃ t', read t' = some a := by
  unfold keyed? at h
  split at h
  next ms =>
    obtain ⟨entries, hentries, h⟩ := Option.bind_eq_some_iff.mp h
    cases h
    obtain ⟨k, hk⟩ := KeyedList.mem_values_iff.mp ha
    obtain ⟨m, -, hm⟩ := exists_of_mapM hentries (KeyedList.mem_of_get?_ofList hk)
    obtain ⟨_, -, hm⟩ := Option.bind_eq_some_iff.mp hm
    obtain ⟨_, hread, hm⟩ := Option.bind_eq_some_iff.mp hm
    cases hm
    exact ⟨m.2, hread⟩
  next => cases h

/-- The data of a solution that has been read fits. -/
theorem fits_of_solution? {s : Solution} (h : solution? t = some s) :
    ∀ task ∈ s.tasks.values, (Value.object task.payload).fits (Value.maxDepth - 3) = true := by
  intro task hmem
  obtain ⟨fs, -, h⟩ := Option.bind_eq_some_iff.mp h
  obtain ⟨users, -, h⟩ := Option.bind_eq_some_iff.mp h
  obtain ⟨tasks, htasks, h⟩ := Option.bind_eq_some_iff.mp h
  cases h
  obtain ⟨t', -, ht'⟩ := Option.bind_eq_some_iff.mp htasks
  obtain ⟨t'', ht''⟩ := exists_of_keyed? ht' hmem
  exact (standsIn_of_task? ht'').fits (by decide)

end Fits

/-! ## the forms -/

namespace WireForm

/-- Workers. -/
def user : WireForm User := plain ofUser user?

/-- Tasks, which nest one level more than their data. -/
def task : WireForm Task :=
  ⟨ofTask, task? .straight Value.maxDepth, fun t => [t.payload], Value.maxDepth - 1⟩

/-- Anchors. -/
def anchor : WireForm Anchor := plain ofAnchor (anchor? .straight)

/-- Owners. -/
def owner : WireForm OwnerRef := plain ofOwner owner?

/-- Changes, which nest one level more than their tasks. -/
def mutation : WireForm Mutation := ⟨ofMutation, mutation?, taskData, Value.maxDepth - 2⟩

/-- Stored placements. -/
def parameters : WireForm PlanningParameters := plain ofParameters parameters?

/-- Placements to store. -/
def result : WireForm PlanningResult := plain ofResult result?

/-- Reported tasks. -/
def record : WireForm TaskRecord :=
  ⟨ofRecord, record?, fun r => [r.inputData], Value.maxDepth - 1⟩

/-- Workers of the directory. -/
def directoryUser : WireForm DirectoryUser := plain ofDirectoryUser directoryUser?

/-- Solutions, in which tasks stand two levels down. -/
def solution : WireForm Solution :=
  ⟨ofSolution, solution?, fun s => s.tasks.values.map (·.payload), Value.maxDepth - 3⟩

/-- Tasks are written and read without loss. -/
theorem lossless_task : task.Lossless := by
  refine lossless (fun t hwhole => ?whole) (fun t hwhole hfits => ?read) (fun t a h => ?fits)
  case whole => exact (whole_ofTask t).trans (hwhole _ List.mem_cons_self)
  case read =>
    exact task?_ofTask (by decide) (hwhole _ List.mem_cons_self) (hfits _ List.mem_cons_self)
  case fits => simpa [Fits, task] using (standsIn_of_task? h).fits (by decide)

/-- Records are written and read without loss. -/
theorem lossless_record : record.Lossless := by
  refine lossless (fun r hwhole => ?whole) (fun r hwhole hfits => ?read) (fun t a h => ?fits)
  case whole => exact (whole_ofRecord r).trans (hwhole _ List.mem_cons_self)
  case read => exact record?_ofRecord (hwhole _ List.mem_cons_self) (hfits _ List.mem_cons_self)
  case fits => simpa [Fits, record] using (standsIn_of_record? h).fits (by decide)

/-- Changes are written and read without loss. -/
theorem lossless_mutation : mutation.Lossless :=
  lossless (fun _ => whole_ofMutation) (fun _ => mutation?_ofMutation) fun _ _ => fits_of_mutation?

/-- Solutions are written and read without loss. -/
theorem lossless_solution : solution.Lossless := by
  refine lossless (fun s hwhole => ?whole) (fun s hwhole hfits => ?read) (fun t s h => ?fits)
  case whole => exact whole_ofSolution (List.forall_mem_map.mp hwhole)
  case read =>
    exact solution?_ofSolution (List.forall_mem_map.mp hwhole) (List.forall_mem_map.mp hfits)
  case fits => exact List.forall_mem_map.mpr (fits_of_solution? h)

end WireForm

/-- Nothing is lost in the wire forms.  Every value is found again in the text that is written for
it, the entries of a solution in the same order, if the data that it carries hold whole numbers and
do not nest too deep.  Any text from which a value is read may spell it otherwise: the text that is
then written for it is read as the same value again. -/
theorem wire_forms_lossless :
    WireForm.user.Lossless ∧ WireForm.task.Lossless ∧ WireForm.anchor.Lossless ∧
      WireForm.owner.Lossless ∧ WireForm.mutation.Lossless ∧ WireForm.parameters.Lossless ∧
      WireForm.result.Lossless ∧ WireForm.record.Lossless ∧ WireForm.directoryUser.Lossless ∧
      WireForm.solution.Lossless := by
  refine ⟨?user, WireForm.lossless_task, ?anchor, ?owner, WireForm.lossless_mutation, ?parameters,
    ?result, WireForm.lossless_record, ?directoryUser, WireForm.lossless_solution⟩
  case user => exact WireForm.lossless_plain whole_ofUser user?_ofUser
  case anchor => exact WireForm.lossless_plain whole_ofAnchor (anchor?_ofAnchor .straight)
  case owner => exact WireForm.lossless_plain (fun _ => rfl) owner?_ofOwner
  case parameters => exact WireForm.lossless_plain whole_ofParameters parameters?_ofParameters
  case result => exact WireForm.lossless_plain whole_ofResult result?_ofResult
  case directoryUser =>
    exact WireForm.lossless_plain whole_ofDirectoryUser directoryUser?_ofDirectoryUser

/-- A task whose data are nested and whose owners bear the names of kinds. -/
theorem wire_forms_lossless_nested :
    let t : Task := { Task.ofId ⟨-7⟩ "say \"hi\"" .lowest with
      potentialOwners := [.user ⟨"group:a"⟩, .group ⟨"user:b"⟩]
      payload := [("at", .array [.int (-1), .object [("", .null)]]), ("user:", .string "\n")] }
    WireForm.task.Whole t ∧ WireForm.task.Fits t ∧
      WireForm.task.decode? (WireForm.task.encode t) = some t := by
  intro t
  have hwhole : WireForm.task.Whole t := List.forall_mem_singleton.mpr (by decide)
  have hfits : WireForm.task.Fits t := List.forall_mem_singleton.mpr (by decide)
  exact ⟨hwhole, hfits, wire_forms_lossless.2.1.written t hwhole hfits⟩

/-- A text without a kind names a worker, and is written with the kind. -/
example : (WireForm.owner.decode? "\"anna\"").map WireForm.owner.encode = some "\"user:anna\"" := by
  decide +kernel

end ChainPlanner.Wire
