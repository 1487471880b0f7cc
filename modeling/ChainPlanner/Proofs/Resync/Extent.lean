import ChainPlanner.Proofs.Resync.Records

/-!
# ChainPlanner.Proofs.Resync.Extent

How far a comparison gets, and what it has done by then.

A comparison takes records into account up to the first that does not fit, that one included:
these are the records that it has `heard`.  `Heard` says what it has kept of them, task by task and
in terms of the first heard record of each task.  It holds of any solution and any records, whether
the comparison comes to its end or not, because a record touches nothing but its own task.

* `resync_cases` — a comparison hears all records, or stops at one that is `Unfit`;
* `mem_published_of_resync` — the published tasks that it leaves behind in either case;
* `mem_of_resync_ok` — the changes that it asks for if it comes to its end.

Whether a record fits depends on the solution alone, so the published tasks never decide whether a
comparison succeeds (`resync_isOk_iff`).
-/

namespace ChainPlanner.Assembly

open Comparison

variable {s : Solution} {c c' : Comparison} {r : TaskRecord} {p p' : PublishedTasks}
  {records done : List TaskRecord} {x : TaskId} {m : Mutation} {ms : List Mutation}
  {first : TaskId → Option TaskRecord}

/-! ## the first record of a task -/

/-- The task that the first record of an id is judged against. -/
def subject? (s : Solution) (id : TaskId) : Option Task :=
  if id ∈ (start s ∅).remaining then s.task? id else none

/-- A record does not fit: its task would have to be added, and it cannot be read. -/
structure Unfit (s : Solution) (r : TaskRecord) : Prop where
  new : subject? s r.taskId = none
  asks : r.status = .ready ∨ r.holder?.isSome = true
  unreadable : ∀ t, r.task? ≠ .ok t

/-- No first record of a task is unfit. -/
def AllFit (s : Solution) (first : TaskId → Option TaskRecord) : Prop :=
  ∀ x r, first x = some r → ¬ Unfit s r

/-- A record is unfit exactly if judging it fails. -/
theorem unfit_iff : Unfit s r ↔ ∃ e, (judge s (subject? s r.taskId) r p).2 = .error e := by
  rw [judge_eq_error_iff]
  exact ⟨fun h => ⟨h.new, h.asks, h.unreadable⟩, fun ⟨hnew, hasks, hread⟩ => ⟨hnew, hasks, hread⟩⟩

/-! ## one record -/

/-- The change that an answer asks for, if it asks for one. -/
def asked : Except AssemblyError (Option Mutation) → List Mutation
  | .ok (some m) => [m]
  | _ => []

/-- What an answer asks for. -/
theorem mem_asked_iff {answer : Except AssemblyError (Option Mutation)} :
    m ∈ asked answer ↔ answer = .ok (some m) := by
  unfold asked
  split <;> simp_all [eq_comm]

/-- A second record of a task is not heard. -/
theorem add_of_seen (h : r.taskId ∈ c.seen) : c.add s r = (c, .ok ()) := if_pos h

/-- What a record of a task that no record has named yet does to a comparison. -/
theorem add_of_new {known : Option Task} (hseen : r.taskId ∉ c.seen)
    (hknown : (if r.taskId ∈ c.remaining then s.task? r.taskId else none) = known) :
    c.add s r = (⟨if r.status.isTerminal then c.remaining else c.remaining.erase r.taskId,
      r.taskId :: c.seen, (judge s known r c.published).1,
      c.mutations ++ asked (judge s known r c.published).2⟩,
      (judge s known r c.published).2.map fun _ => ()) := by
  unfold Comparison.add
  rw [if_neg hseen, hknown]
  cases hterm : r.status.isTerminal with
  | true =>
    obtain ⟨hready, hholder⟩ := idle_of_isTerminal hterm
    simp [judge_of_idle hready hholder, asked, Except.map]
  | false =>
    cases hjudge : judge s known r c.published with
    | mk published answer =>
      rw [if_neg (by simp)]
      simp only [hjudge]
      cases answer with
      | error e => simp [asked, Except.map]
      | ok answer => cases answer <;> simp [asked, Except.map]

/-- What a comparison has kept of the records heard so far, given the first of them for each
task. -/
structure Heard (s : Solution) (p : PublishedTasks) (first : TaskId → Option TaskRecord)
    (c : Comparison) : Prop where
  seen : ∀ x, x ∈ c.seen ↔ (first x).isSome = true
  remaining : ∀ x, x ∈ c.remaining ↔
    x ∈ (start s p).remaining ∧ ∀ r, first x = some r → r.status.isTerminal = true
  nodup_remaining : c.remaining.Nodup
  published : ∀ x, x ∈ c.published ↔ (∃ r, first x = some r ∧ r.holder?.isSome = true) ∨
    (x ∈ p ∧ ¬ ∃ r, first x = some r ∧ r.status = .ready ∧ (subject? s x).isSome = true)
  mutations : ∀ m, m ∈ c.mutations ↔
    ∃ x r, first x = some r ∧ (judge s (subject? s x) r p).2 = .ok (some m)

/-- Without repetitions nothing is repeated. -/
theorem nodup_eraseDups {α : Type} [DecidableEq α] (as : List α) : as.eraseDups.Nodup := by
  generalize hn : as.length = n
  induction n using Nat.strongRecOn generalizing as with
  | ind n ih =>
    cases as with
    | nil => simp
    | cons a as =>
      rw [List.eraseDups_cons, List.nodup_cons, List.mem_eraseDups]
      have hlen := List.length_filter_le (fun b => !b == a) as
      rw [List.length_cons] at hn
      exact ⟨by simp, ih _ (by omega) _ rfl⟩

/-- At first nothing has been heard. -/
theorem heard_start (s : Solution) (p : PublishedTasks) :
    Heard s p (firstRecord? []) (start s p) where
  seen x := by simp [start, firstRecord?]
  remaining x := by simp [firstRecord?]
  nodup_remaining := nodup_eraseDups _
  published x := by simp [start, firstRecord?]
  mutations m := by simp [start, firstRecord?]

/-- A new record is judged against its subject. -/
theorem Heard.known_eq (h : Heard s p first c) (hnew : first r.taskId = none) :
    (if r.taskId ∈ c.remaining then s.task? r.taskId else none) = subject? s r.taskId := by
  have hremaining : r.taskId ∈ c.remaining ↔ r.taskId ∈ (start s ∅).remaining := by
    rw [h.remaining, hnew]
    simp [start]
  simp only [subject?, hremaining]

/-- Whether a task is published does not change before its record is heard. -/
theorem Heard.published_iff (h : Heard s p first c) (hnew : first x = none) :
    x ∈ c.published ↔ x ∈ p := by
  rw [h.published, hnew]
  simp

/-- A new record is answered as it would be at the start, and the comparison has heard it. -/
theorem Heard.add_new (h : Heard s p first c) (hnew : first r.taskId = none) :
    Heard s p (Function.update first r.taskId (some r)) (c.add s r).1 ∧
      (c.add s r).2 = (judge s (subject? s r.taskId) r p).2.map fun _ => () := by
  have hseen : r.taskId ∉ c.seen := by simp [h.seen, hnew]
  -- whether the task is published is as it was at the start, and no more of the set is asked for
  have hanswer : (judge s (subject? s r.taskId) r c.published).2 =
      (judge s (subject? s r.taskId) r p).2 := judge_congr (h.published_iff hnew)
  have hother : ∀ x, x ≠ r.taskId → Function.update first r.taskId (some r) x = first x :=
    fun x hx => Function.update_of_ne hx _ _
  have hself : Function.update first r.taskId (some r) r.taskId = some r := Function.update_self ..
  rw [add_of_new hseen (h.known_eq hnew), hanswer]
  refine ⟨⟨fun x => ?_, fun x => ?_, ?_, fun x => ?_, fun m => ?_⟩, rfl⟩
  · by_cases hx : x = r.taskId
    · simp [hx]
    · simp [hx, h.seen]
  · by_cases hx : x = r.taskId
    · subst hx
      rw [hself]
      cases hterm : r.status.isTerminal with
      | true => simp [h.remaining, hnew, hterm]
      | false => simp [h.nodup_remaining.mem_erase_iff, hterm]
    · rw [hother x hx, ← h.remaining]
      simp only
      split
      · rfl
      · exact List.mem_erase_of_ne hx
  · simp only
    split
    · exact h.nodup_remaining
    · exact h.nodup_remaining.erase _
  · simp only [mem_judge]
    by_cases hx : x = r.taskId
    · subst hx
      rw [hself, h.published_iff hnew]
      simp
    · rw [hother x hx, ← h.published]
      simp [hx]
  · rw [List.mem_append, h.mutations, mem_asked_iff]
    constructor
    · rintro (⟨x, r₁, hr₁, hm⟩ | hm)
      · have hx : x ≠ r.taskId := by
          rintro rfl
          rw [hnew] at hr₁
          cases hr₁
        exact ⟨x, r₁, by rw [hother x hx, hr₁], hm⟩
      · exact ⟨r.taskId, r, hself, hm⟩
    · rintro ⟨x, r₁, hr₁, hm⟩
      by_cases hx : x = r.taskId
      · rw [hx, hself, Option.some.injEq] at hr₁
        subst hr₁
        rw [hx] at hm
        exact .inr hm
      · exact .inl ⟨x, r₁, by rw [← hother x hx, hr₁], hm⟩

/-- The next record, of whatever task, is heard; it is answered with an error exactly if it is the
first of its task and unfit. -/
theorem Heard.add (h : Heard s p (firstRecord? done) c) (r : TaskRecord) :
    Heard s p (firstRecord? (done ++ [r])) (c.add s r).1 ∧
      ((∃ e, (c.add s r).2 = .error e) ↔ firstRecord? done r.taskId = none ∧ Unfit s r) := by
  cases hfirst : firstRecord? done r.taskId with
  | none =>
    obtain ⟨hheard, hanswer⟩ := h.add_new hfirst
    rw [firstRecord?_append_of_new hfirst, hanswer, unfit_iff (p := p)]
    refine ⟨hheard, ?_⟩
    cases (judge s (subject? s r.taskId) r p).2 <;> simp [Except.map]
  | some r₁ =>
    have hseen : (firstRecord? done r.taskId).isSome = true := by rw [hfirst]; rfl
    rw [firstRecord?_append_of_seen hseen, add_of_seen ((h.seen r.taskId).2 hseen)]
    exact ⟨h, by simp⟩

/-! ## all records -/

/-- The records that a comparison takes into account. -/
def Comparison.heard (s : Solution) (c : Comparison) : List TaskRecord → List TaskRecord
  | [] => []
  | r :: rs => match c.add s r with
    | (c, .ok ()) => r :: c.heard s rs
    | (_, .error _) => [r]

/-- Where a comparison comes to its end and where it stops. -/
theorem Heard.addAll (h : Heard s p (firstRecord? done) c) (hfit : AllFit s (firstRecord? done))
    (records : List TaskRecord) :
    Heard s p (firstRecord? (done ++ c.heard s records)) (c.addAll s records).1 ∧
      (((c.addAll s records).2 = .ok () ∧ c.heard s records = records ∧
          AllFit s (firstRecord? (done ++ records))) ∨
        ∃ e before bad after, (c.addAll s records).2 = .error e ∧
          records = before ++ bad :: after ∧ c.heard s records = before ++ [bad] ∧
          AllFit s (firstRecord? (done ++ before)) ∧
          firstRecord? (done ++ before) bad.taskId = none ∧ Unfit s bad) := by
  induction records generalizing done c with
  | nil =>
    rw [Comparison.heard, List.append_nil]
    exact ⟨h, .inl ⟨rfl, rfl, hfit⟩⟩
  | cons r records ih =>
    obtain ⟨hheard, hunfit⟩ := h.add r
    cases hadd : c.add s r with
    | mk c₁ answer =>
      rw [hadd] at hheard hunfit
      rw [Comparison.addAll, Comparison.heard, hadd]
      cases answer with
      | error e =>
        obtain ⟨hnew, hbad⟩ := hunfit.1 ⟨e, rfl⟩
        refine ⟨hheard, .inr ⟨e, [], r, records, rfl, rfl, rfl, ?_, ?_, hbad⟩⟩
        · simpa using hfit
        · simpa using hnew
      | ok _ =>
        -- the comparison went on, so this record is fit or a second one of its task
        have hfit₁ : AllFit s (firstRecord? (done ++ [r])) := by
          have hno : ¬ (firstRecord? done r.taskId = none ∧ Unfit s r) := fun hbad => by
            obtain ⟨e, he⟩ := hunfit.2 hbad
            cases he
          intro x r₁ hr₁
          cases hfirst : firstRecord? done r.taskId with
          | none =>
            rw [firstRecord?_append_of_new hfirst] at hr₁
            by_cases hx : x = r.taskId
            · rw [hx, Function.update_self, Option.some.injEq] at hr₁
              exact fun hbad => hno ⟨hfirst, hr₁ ▸ hbad⟩
            · rw [Function.update_of_ne hx] at hr₁
              exact hfit x r₁ hr₁
          | some r₂ =>
            rw [firstRecord?_append_of_seen (by rw [hfirst]; rfl)] at hr₁
            exact hfit x r₁ hr₁
        obtain ⟨hrest, hend⟩ := ih hheard hfit₁
        simp only [List.append_assoc, List.singleton_append] at hrest hend ⊢
        refine ⟨hrest, hend.imp ?_ ?_⟩
        · rintro ⟨hok, hall, hfits⟩
          exact ⟨hok, by rw [hall], hfits⟩
        · rintro ⟨e, before, bad, after, he, hsplit, hstop, hfits, hnew, hbad⟩
          exact ⟨e, r :: before, bad, after, he, by rw [hsplit]; rfl, by rw [hstop]; rfl, hfits,
            hnew, hbad⟩

/-- The records that a comparison with a solution takes into account. -/
def heard (s : Solution) (p : PublishedTasks) (records : List TaskRecord) : List TaskRecord :=
  (start s p).heard s records

/-- A comparison judges the records in turn and then has what remains removed. -/
theorem resync_eq (s : Solution) (records : List TaskRecord) (p : PublishedTasks) :
    resync s records p = (((start s p).addAll s records).2.map fun _ =>
      ((start s p).addAll s records).1.mutations ++
        ((start s p).addAll s records).1.remaining.map .remove,
      ((start s p).addAll s records).1.published) := by
  unfold resync
  cases (start s p).addAll s records with
  | mk c answer => cases answer <;> rfl

/-- A comparison has heard the records up to the one at which it stops. -/
theorem heard_addAll (s : Solution) (p : PublishedTasks) (records : List TaskRecord) :
    Heard s p (firstRecord? (heard s p records)) ((start s p).addAll s records).1 := by
  have hend := ((heard_start s p).addAll (by simp [AllFit, firstRecord?]) records).1
  rwa [List.nil_append] at hend

/-- A comparison comes to its end and has heard all records, each of them fit, or it stops at the
first that is unfit. -/
theorem resync_cases (s : Solution) (records : List TaskRecord) (p : PublishedTasks) :
    ((∃ ms, (resync s records p).1 = .ok ms) ∧ heard s p records = records ∧
        AllFit s (firstRecord? records)) ∨
      ∃ e before bad after, (resync s records p).1 = .error e ∧
        records = before ++ bad :: after ∧ heard s p records = before ++ [bad] ∧
        AllFit s (firstRecord? before) ∧ firstRecord? before bad.taskId = none ∧
        Unfit s bad := by
  have hend := ((heard_start s p).addAll (by simp [AllFit, firstRecord?]) records).2
  simp only [List.nil_append] at hend
  rw [resync_eq]
  refine hend.imp ?_ ?_
  · rintro ⟨hok, hall, hfits⟩
    exact ⟨⟨_, by rw [hok]; rfl⟩, hall, hfits⟩
  · rintro ⟨e, before, bad, after, he, hrest⟩
    exact ⟨e, before, bad, after, by rw [he]; rfl, hrest⟩

/-- The published tasks after a comparison, whether it comes to its end or not: those that somebody
holds, and those of before without the ones that are ready and known. -/
theorem mem_published_of_resync (s : Solution) (records : List TaskRecord) (p : PublishedTasks)
    (x : TaskId) : x ∈ (resync s records p).2 ↔
      (∃ r, firstRecord? (heard s p records) x = some r ∧ r.holder?.isSome = true) ∨
      (x ∈ p ∧ ¬ ∃ r, firstRecord? (heard s p records) x = some r ∧ r.status = .ready ∧
        (subject? s x).isSome = true) := by
  rw [resync_eq]
  exact (heard_addAll s p records).published x

/-- A comparison that succeeds has heard every record. -/
theorem heard_of_ok (h : (resync s records p).1 = .ok ms) : heard s p records = records := by
  rcases resync_cases s records p with ⟨-, hall, -⟩ | ⟨e, -, -, -, he, -⟩
  · exact hall
  · rw [he] at h
    cases h

/-- A comparison succeeds exactly if all records fit, whatever is published. -/
theorem resync_isOk_iff : (∃ ms, (resync s records p).1 = .ok ms) ↔
    AllFit s (firstRecord? records) := by
  rcases resync_cases s records p with ⟨hok, -, hfits⟩ |
    ⟨e, before, bad, after, he, hsplit, -, -, hnew, hbad⟩
  · exact ⟨fun _ => hfits, fun _ => hok⟩
  · constructor
    · rintro ⟨ms, hok⟩
      rw [he] at hok
      cases hok
    · intro hfits
      have hfirst : firstRecord? records bad.taskId = some bad := by
        rw [hsplit, firstRecord?_append, hnew]
        simp [firstRecord?]
      exact absurd hbad (hfits bad.taskId bad hfirst)

/-- A comparison that comes to its end asks for what the first record of each task asks for, and
for the removal of each task that no record shows alive. -/
theorem mem_of_resync_ok (h : (resync s records p).1 = .ok ms) : m ∈ ms ↔
    (∃ x r, firstRecord? records x = some r ∧
      (judge s (subject? s x) r p).2 = .ok (some m)) ∨
    ∃ x, m = .remove x ∧ x ∈ (start s p).remaining ∧
      ∀ r, firstRecord? records x = some r → r.status.isTerminal = true := by
  have hheard := heard_addAll s p records
  rw [heard_of_ok h] at hheard
  rw [resync_eq] at h
  cases hanswer : ((start s p).addAll s records).2 with
  | error e =>
    rw [hanswer] at h
    cases h
  | ok _ =>
    rw [hanswer] at h
    cases h
    rw [List.mem_append, hheard.mutations, List.mem_map]
    simp only [hheard.remaining, and_assoc, eq_comm (a := m)]
    refine or_congr_right (exists_congr fun x => ?_)
    tauto

end ChainPlanner.Assembly
