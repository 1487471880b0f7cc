import ChainPlanner.Optimizer.Recorder

/-!
# ChainPlanner.Proofs.Interleaving.Lifecycle

The life of a driver and of its loop, with a log of it.

Calls of the driver, reports of the optimizer and the moves of the loop come in any order.  The loop
is cut into the moves between which something else can happen: it waits for a permit, looks at the
driver with the permit in hand, lets the optimizer solve, and ends.  So a driver may be destroyed
before it is initialized, before it is started, before the loop has its permit, before the loop has
looked, and while the optimizer solves.

The log notes what has come about, and determines what may come about next (`LifeNote.Due`).  The
invariant is `Lawful`: the stage of the driver can be read off the log, and a permit is there, or
the loop has taken it, exactly if the driver has been started or destroyed.
-/

namespace ChainPlanner

namespace Driver

/-- What a loop that has a permit does, and what it leaves. -/
def look (d : Driver) : Release × Driver :=
  if d.isDestroyed then (.quit, d)
  else match d.initial with
    | none => (.quit, d)
    | some s => (if d.built then .solve s else .quit, { d with initial := none })

/-- A loop takes a permit and then looks. -/
theorem release?_eq (d : Driver) : d.release? = match d.permits with
    | 0 => none
    | permits + 1 => some (look { d with permits }) := by
  unfold release? look
  cases d.permits with
  | zero => rfl
  | succ permits =>
    by_cases hd : d.state = .destroyed <;> cases d.initial <;> simp [isDestroyed, hd]

/-- A loop either ends, or lets the optimizer solve from the solution that was kept for it. -/
theorem look_cases (d : Driver) :
    (∃ kept, d.look = (.quit, { d with initial := kept }) ∧ (kept = d.initial ∨ kept = none)) ∨
    ∃ s, d.initial = some s ∧ d.look = (.solve s, { d with initial := none }) := by
  unfold look
  obtain ⟨state, built, initial, permits⟩ := d
  split
  · exact .inl ⟨initial, rfl, .inl rfl⟩
  · cases initial with
    | none => exact .inl ⟨none, rfl, .inl rfl⟩
    | some s => cases built with
      | false => exact .inl ⟨none, rfl, .inr rfl⟩
      | true => exact .inr ⟨s, rfl, rfl⟩

/-- Building the optimizer succeeds only on a fresh driver, and otherwise leaves it as it is. -/
theorem init_cases (d : Driver) (failure : Option String) :
    (d.state = .created ∧ failure = none ∧
      d.init failure = (.ok (), { d with state := .initialized, built := true })) ∨
    ∃ e, d.init failure = (.error e, d) := by
  unfold init
  by_cases hd : d.state = .created
  · rw [if_neg (not_not_intro hd)]
    cases failure with
    | none => exact .inl ⟨hd, rfl, rfl⟩
    | some reason => exact .inr ⟨_, rfl⟩
  · rw [if_pos hd]
    exact .inr ⟨_, rfl⟩

/-- Starting succeeds only on a driver that is initialized, and otherwise leaves it as it is. -/
theorem start_cases (d : Driver) (initial : Solution) :
    (d.state = .initialized ∧ d.start initial = (.ok (), { d with
      state := .started, initial := some initial, permits := d.permits + 1 })) ∨
    ∃ e, d.start initial = (.error e, d) := by
  unfold start
  cases hd : d.state with
  | initialized => exact .inl ⟨rfl, rfl⟩
  | created => exact .inr ⟨_, rfl⟩
  | started => exact .inr ⟨_, rfl⟩
  | destroyed => exact .inr ⟨_, rfl⟩

/-- Building the optimizer succeeds on a fresh driver, unless there is a reason for it to fail. -/
theorem init_eq_ok_iff {d : Driver} {failure : Option String} :
    (d.init failure).1 = .ok () ↔ failure = none ∧ d.state = .created := by
  unfold init
  cases failure <;> by_cases hd : d.state = .created <;> simp [hd]

/-- Starting succeeds exactly on a driver that is initialized. -/
theorem start_eq_ok_iff {d : Driver} {initial : Solution} :
    (d.start initial).1 = .ok () ↔ d.state = .initialized := by
  unfold start
  cases hd : d.state <;> simp

/-- A batch reaches an optimizer that has been built and started. -/
theorem submit_eq_ok_iff {d : Driver} :
    d.submit = .ok () ↔ d.state = .started ∧ d.built = true := by
  unfold submit
  cases hd : d.state <;> simp

/-- Destroying adds a permit unless one has been given. -/
theorem destroy_snd (d : Driver) : d.destroy.2 = { d with
    state := .destroyed
    permits := d.permits + (d.state ≠ .started && d.state ≠ .destroyed : Bool).toNat } := by
  obtain ⟨state, built, initial, permits⟩ := d
  cases state <;> rfl

end Driver

/-! ## the log -/

/-- What is noted of the life of a driver. -/
inductive LifeNote where
  | initialized
  | started (initial : Solution)
  /-- The optimizer has begun to solve. -/
  | solved (initial : Solution)
  /-- A batch has reached the optimizer. -/
  | submitted (batch : Batch)
  | destroyed
  /-- A report of the optimizer has been passed on. -/
  | forwarded (event : BestSolution)

namespace LifeNote

/-- Whether the driver has built the optimizer. -/
@[simp] def isInitialized : LifeNote → Bool
  | initialized => true
  | _ => false

/-- Whether the driver has been destroyed. -/
@[simp] def isDestroyed : LifeNote → Bool
  | destroyed => true
  | _ => false

/-- The solution that the driver has been started with. -/
@[simp] def start? : LifeNote → Option Solution
  | started s => some s
  | _ => none

/-- The solution that the optimizer has begun to solve from. -/
@[simp] def solve? : LifeNote → Option Solution
  | solved s => some s
  | _ => none

/-- Whether the driver built the optimizer. -/
def wasInitialized (log : List LifeNote) : Bool := log.any isInitialized

/-- Whether the driver was destroyed. -/
def wasDestroyed (log : List LifeNote) : Bool := log.any isDestroyed

/-- The solution that the driver was first started with. -/
def started? (log : List LifeNote) : Option Solution := log.findSome? start?

/-- The solution that the optimizer first began to solve from. -/
def solved? (log : List LifeNote) : Option Solution := log.findSome? solve?

/-- What may come about after a log, if the driver was made with an optimizer or without. -/
def Due (readyMade : Bool) (before : List LifeNote) : LifeNote → Prop
  | initialized =>
    readyMade = false ∧ wasInitialized before = false ∧ wasDestroyed before = false
  | started _ => (readyMade || wasInitialized before) = true ∧ started? before = none ∧
    wasDestroyed before = false
  | solved s => started? before = some s ∧ solved? before = none
  | submitted _ => (started? before).isSome = true ∧ wasDestroyed before = false
  | destroyed => True
  | forwarded _ => (solved? before).isSome = true ∧ wasDestroyed before = false

/-- The stage of a driver whose log is given. -/
def stage (readyMade : Bool) (log : List LifeNote) : DriverState :=
  if wasDestroyed log then .destroyed
  else if (started? log).isSome then .started
  else if readyMade || wasInitialized log then .initialized
  else .created

/-- Each note was due when it was made. -/
def InTurn (readyMade : Bool) (log : List LifeNote) : Prop :=
  ∀ before note after, log = before ++ note :: after → note.Due readyMade before

variable {readyMade : Bool} {log : List LifeNote} {note : LifeNote}

@[simp] theorem wasInitialized_concat :
    wasInitialized (log ++ [note]) = (wasInitialized log || note.isInitialized) := by
  simp [wasInitialized]

@[simp] theorem wasDestroyed_concat :
    wasDestroyed (log ++ [note]) = (wasDestroyed log || note.isDestroyed) := by
  simp [wasDestroyed]

@[simp] theorem started?_concat : started? (log ++ [note]) = (started? log).or note.start? := by
  simp [started?]

@[simp] theorem solved?_concat : solved? (log ++ [note]) = (solved? log).or note.solve? := by
  simp [solved?]

/-- A note that is due keeps the order. -/
theorem InTurn.concat (h : InTurn readyMade log) (hnote : note.Due readyMade log) :
    InTurn readyMade (log ++ [note]) := by
  intro before note' after hlog
  rcases List.eq_nil_or_concat after with rfl | ⟨after, last, rfl⟩
  · obtain ⟨rfl, hlast⟩ := List.append_inj' hlog rfl
    cases hlast
    exact hnote
  · have hlog : log ++ [note] = (before ++ note' :: after) ++ [last] := by simpa using hlog
    exact h before note' after (List.append_inj' hlog rfl).1

end LifeNote

open LifeNote

/-! ## steps -/

/-- Where the loop of a driver is. -/
inductive LoopStage where
  /-- Nobody runs it. -/
  | absent
  /-- It waits for a permit. -/
  | waiting
  /-- It has taken a permit and is about to look at the driver. -/
  | permitted
  /-- It is about to let the optimizer solve. -/
  | chosen (initial : Solution)
  | solving
  | ended

/-- Whether the loop has taken a permit. -/
def LoopStage.hasPermit : LoopStage → Bool
  | absent | waiting => false
  | _ => true

/-- Whether the loop is past the moment at which it lets the optimizer solve. -/
def LoopStage.isPast : LoopStage → Bool
  | solving | ended => true
  | _ => false

/-- A driver and its loop, with a log. -/
structure Life where
  driver : Driver
  loop : LoopStage
  log : List LifeNote

/-- A call of a driver, a report of its optimizer, or a move of its loop. -/
inductive LifeStep where
  /-- Build the optimizer, which fails for a given reason or not. -/
  | init (failure : Option String)
  | start (initial : Solution)
  | submit (batch : Batch)
  | destroy
  | report (event : BestSolution)
  /-- The loop begins to run. -/
  | run
  | acquire
  | look
  | solve
  | finish

/-- The note of a call. -/
def LifeStep.note? : LifeStep → Option LifeNote
  | .init _ => some .initialized
  | .start initial => some (.started initial)
  | .submit batch => some (.submitted batch)
  | .destroy => some .destroyed
  | _ => none

namespace Life

/-- Nothing has happened to a driver that was made with an optimizer or without. -/
def fresh (readyMade : Bool) : Life :=
  ⟨if readyMade then .withOptimizer else .created, .absent, []⟩

/-- What is noted of a call with a given answer: one that fails is not noted. -/
def noteOf (answer : Except DriverError Unit) (note : LifeNote) : List LifeNote :=
  match answer with
  | .ok () => [note]
  | .error _ => []

/-- One step, and what it leaves.  Only calls can fail; a report that nobody hears and a move that
the loop is not about to make do nothing. -/
def attempt (l : Life) : LifeStep → Except DriverError Unit × Life
  | .init failure =>
    let (answer, driver) := l.driver.init failure
    (answer, { l with driver, log := l.log ++ noteOf answer .initialized })
  | .start initial =>
    let (answer, driver) := l.driver.start initial
    (answer, { l with driver, log := l.log ++ noteOf answer (.started initial) })
  | .submit batch =>
    let answer := l.driver.submit
    (answer, { l with log := l.log ++ noteOf answer (.submitted batch) })
  | .destroy => (.ok (), { l with driver := l.driver.destroy.2, log := l.log ++ [.destroyed] })
  | .report event =>
    if (solved? l.log).isSome && l.driver.forwards then
      (.ok (), { l with log := l.log ++ [.forwarded event] })
    else (.ok (), l)
  | .run => match l.loop with
    | .absent => (.ok (), { l with loop := .waiting })
    | _ => (.ok (), l)
  | .acquire => match l.loop, l.driver.permits with
    | .waiting, permits + 1 =>
      (.ok (), { l with driver := { l.driver with permits }, loop := .permitted })
    | _, _ => (.ok (), l)
  | .look => match l.loop with
    | .permitted => match l.driver.look with
      | (.quit, driver) => (.ok (), { l with driver, loop := .ended })
      | (.solve initial, driver) => (.ok (), { l with driver, loop := .chosen initial })
    | _ => (.ok (), l)
  | .solve => match l.loop with
    | .chosen initial => (.ok (), { l with loop := .solving, log := l.log ++ [.solved initial] })
    | _ => (.ok (), l)
  | .finish => match l.loop with
    | .solving => (.ok (), { l with loop := .ended })
    | _ => (.ok (), l)

/-- What a step leaves. -/
def step (l : Life) (m : LifeStep) : Life := (l.attempt m).2

/-- Steps in order. -/
def run (l : Life) (steps : List LifeStep) : Life := steps.foldl step l

/-! ## the invariant -/

/-- The driver and the loop are as the log says. -/
structure Lawful (readyMade : Bool) (l : Life) : Prop where
  inTurn : InTurn readyMade l.log
  stage : l.driver.state = stage readyMade l.log
  built : l.driver.built = (readyMade || wasInitialized l.log)
  /-- Only an optimizer that has been built is started. -/
  made : (started? l.log).isSome = true → (readyMade || wasInitialized l.log) = true
  initial : ∀ s, l.driver.initial = some s → started? l.log = some s
  /-- There is one permit for the loop, from the start or from the end. -/
  permits : l.driver.permits + l.loop.hasPermit.toNat =
    ((started? l.log).isSome || wasDestroyed l.log).toNat
  chosen : ∀ s, l.loop = .chosen s → started? l.log = some s
  unsolved : l.loop.isPast = false → solved? l.log = none

variable {readyMade : Bool} {l : Life} {m : LifeStep}

/-- A life that has just begun is lawful. -/
theorem lawful_fresh (readyMade : Bool) : (fresh readyMade).Lawful readyMade := by
  refine ⟨fun before note after h => by simp [fresh] at h, ?_, ?_, nofun, ?_, ?_, nofun,
    fun _ => rfl⟩
  · cases readyMade <;> rfl
  · cases readyMade <;> rfl
  · cases readyMade <;> exact nofun
  · cases readyMade <;> rfl

/-- The driver is created exactly while it can be initialized. -/
theorem stage_eq_created_iff (h : l.Lawful readyMade) :
    l.driver.state = .created ↔ Due readyMade l.log .initialized := by
  rw [h.stage, LifeNote.stage, Due]
  have hmade := h.made
  cases hdestroyed : wasDestroyed l.log <;> cases hstarted : started? l.log <;>
    cases readyMade <;> cases hinit : wasInitialized l.log <;> simp_all

/-- The driver is initialized exactly while it can be started. -/
theorem stage_eq_initialized_iff (h : l.Lawful readyMade) (s : Solution) :
    l.driver.state = .initialized ↔ Due readyMade l.log (.started s) := by
  rw [h.stage, LifeNote.stage, Due]
  cases hdestroyed : wasDestroyed l.log <;> cases hstarted : started? l.log <;>
    cases hinit : readyMade || wasInitialized l.log <;> simp

/-- The driver is started exactly while a batch is taken. -/
theorem stage_eq_started_iff (h : l.Lawful readyMade) (batch : Batch) :
    l.driver.state = .started ↔ Due readyMade l.log (.submitted batch) := by
  rw [h.stage, LifeNote.stage, Due]
  cases hdestroyed : wasDestroyed l.log <;> cases hstarted : started? l.log <;>
    cases hinit : readyMade || wasInitialized l.log <;> simp

/-- The driver is destroyed exactly if that has been noted. -/
theorem stage_eq_destroyed_iff (h : l.Lawful readyMade) :
    l.driver.state = .destroyed ↔ wasDestroyed l.log = true := by
  rw [h.stage, LifeNote.stage]
  cases hdestroyed : wasDestroyed l.log <;> cases hstarted : started? l.log <;>
    cases hinit : readyMade || wasInitialized l.log <;> simp

/-! ## what each step preserves -/

/-- A driver builds its optimizer when that is due, and not otherwise. -/
theorem Lawful.init (h : l.Lawful readyMade) (failure : Option String) :
    (l.step (.init failure)).Lawful readyMade := by
  simp only [Life.step, attempt]
  rcases l.driver.init_cases failure with ⟨hcreated, -, hinit⟩ | ⟨e, hinit⟩
  · rw [hinit]
    have hdue := (stage_eq_created_iff h).mp hcreated
    obtain ⟨rfl, hinitialized, hdestroyed⟩ := id hdue
    have hstarted : started? l.log = none := by
      have hmade := h.made
      cases hs : started? l.log <;> simp_all
    exact
      { inTurn := h.inTurn.concat hdue
        stage := by simp [noteOf, LifeNote.stage, hdestroyed, hstarted]
        built := by simp [noteOf]
        made := by simp [noteOf]
        initial := by simpa [noteOf] using h.initial
        permits := by simpa [noteOf] using h.permits
        chosen := by simpa [noteOf] using h.chosen
        unsolved := by simpa [noteOf] using h.unsolved }
  · rw [hinit]
    simpa only [noteOf, List.append_nil] using h

/-- A driver is started when that is due, and not otherwise. -/
theorem Lawful.start (h : l.Lawful readyMade) (s : Solution) :
    (l.step (.start s)).Lawful readyMade := by
  simp only [Life.step, attempt]
  rcases l.driver.start_cases s with ⟨hinitialized, hstart⟩ | ⟨e, hstart⟩
  · rw [hstart]
    have hdue := (stage_eq_initialized_iff h s).mp hinitialized
    obtain ⟨hmade, hstarted, hdestroyed⟩ := id hdue
    have hpermits := h.permits
    exact
      { inTurn := h.inTurn.concat hdue
        stage := by simp [noteOf, LifeNote.stage, hdestroyed]
        built := by simpa [noteOf] using h.built
        made := by simpa [noteOf] using hmade
        initial := by simp [noteOf, hstarted]
        permits := by simp_all [noteOf]
        chosen := fun t ht => by simpa [noteOf, hstarted] using h.chosen t ht
        unsolved := by simpa [noteOf] using h.unsolved }
  · rw [hstart]
    simpa only [noteOf, List.append_nil] using h

/-- A note of a batch or of a report says nothing about the stage of the driver. -/
theorem Lawful.concat (h : l.Lawful readyMade) {note : LifeNote} (hdue : note.Due readyMade l.log)
    (hinitialized : note.isInitialized = false) (hdestroyed : note.isDestroyed = false)
    (hstart : note.start? = none) (hsolve : note.solve? = none) :
    Lawful readyMade { l with log := l.log ++ [note] } := by
  have hi : wasInitialized (l.log ++ [note]) = wasInitialized l.log := by
    rw [wasInitialized_concat, hinitialized, Bool.or_false]
  have hd : wasDestroyed (l.log ++ [note]) = wasDestroyed l.log := by
    rw [wasDestroyed_concat, hdestroyed, Bool.or_false]
  have hs : started? (l.log ++ [note]) = started? l.log := by
    rw [started?_concat, hstart, Option.or_none]
  have hv : solved? (l.log ++ [note]) = solved? l.log := by
    rw [solved?_concat, hsolve, Option.or_none]
  exact
    { inTurn := h.inTurn.concat hdue
      stage := by rw [LifeNote.stage, hi, hd, hs]; exact h.stage
      built := by rw [hi]; exact h.built
      made := by rw [hi, hs]; exact h.made
      initial := by rw [hs]; exact h.initial
      permits := by rw [hd, hs]; exact h.permits
      chosen := by rw [hs]; exact h.chosen
      unsolved := by rw [hv]; exact h.unsolved }

/-- A batch reaches the optimizer of a driver that has been started and not destroyed. -/
theorem Lawful.submit (h : l.Lawful readyMade) (batch : Batch) :
    (l.step (.submit batch)).Lawful readyMade := by
  simp only [Life.step, attempt]
  cases hsubmit : l.driver.submit with
  | ok =>
    exact h.concat ((stage_eq_started_iff h batch).mp (Driver.submit_eq_ok_iff.mp hsubmit).1)
      rfl rfl rfl rfl
  | error e => simpa only [noteOf, List.append_nil] using h

/-- A report is passed on only while the driver has not been destroyed. -/
theorem Lawful.report (h : l.Lawful readyMade) (event : BestSolution) :
    (l.step (.report event)).Lawful readyMade := by
  simp only [Life.step, attempt]
  split
  next hheard =>
    obtain ⟨hsolved, hforwards⟩ := (Bool.and_eq_true _ _).mp hheard
    have hdestroyed : wasDestroyed l.log = false := by
      rw [← Bool.not_eq_true, ← stage_eq_destroyed_iff h]
      simpa [Driver.forwards, Driver.isDestroyed] using hforwards
    exact h.concat ⟨hsolved, hdestroyed⟩ rfl rfl rfl rfl
  next => exact h

/-- A driver that is destroyed before it was started gives its loop a permit. -/
theorem Lawful.destroy (h : l.Lawful readyMade) : (l.step .destroy).Lawful readyMade := by
  have hpermits := h.permits
  -- the first permit is there as soon as the driver has been started or destroyed
  have hfirst : (l.driver.state ≠ .started && l.driver.state ≠ .destroyed : Bool) =
      !((started? l.log).isSome || wasDestroyed l.log) := by
    rw [h.stage, LifeNote.stage]
    cases wasDestroyed l.log <;> cases started? l.log <;>
      cases readyMade || wasInitialized l.log <;> simp
  exact
    { inTurn := h.inTurn.concat trivial
      stage := by simp [Life.step, Life.attempt, Driver.destroy_snd, LifeNote.stage]
      built := by simpa [Life.step, Life.attempt, Driver.destroy_snd] using h.built
      made := by simpa [Life.step, Life.attempt] using h.made
      initial := by simpa [Life.step, Life.attempt, Driver.destroy_snd] using h.initial
      permits := by
        simp only [Life.step, Life.attempt, Driver.destroy_snd, hfirst]
        cases hd : (started? l.log).isSome || wasDestroyed l.log <;> simp_all
      chosen := by simpa [Life.step, Life.attempt] using h.chosen
      unsolved := by simpa [Life.step, Life.attempt] using h.unsolved }

/-- A loop that begins to run waits for a permit. -/
theorem Lawful.runLoop (h : l.Lawful readyMade) : (l.step .run).Lawful readyMade := by
  simp only [Life.step, attempt]
  split
  next hloop =>
    exact
      { h with
        permits := by simpa [hloop, LoopStage.hasPermit] using h.permits
        chosen := nofun
        unsolved := fun _ => h.unsolved (by rw [hloop]; rfl) }
  next => exact h

/-- The permit that the loop takes is one less for the driver. -/
theorem Lawful.acquire (h : l.Lawful readyMade) : (l.step .acquire).Lawful readyMade := by
  simp only [Life.step, attempt]
  split
  next permits hloop hpermit =>
    exact
      { h with
        permits := by simpa [hloop, hpermit, LoopStage.hasPermit] using h.permits
        chosen := nofun
        unsolved := fun _ => h.unsolved (by rw [hloop]; rfl) }
  next => exact h

/-- A loop that looks at the driver takes at most the solution that was kept for it. -/
theorem Lawful.look (h : l.Lawful readyMade) : (l.step .look).Lawful readyMade := by
  simp only [Life.step, attempt]
  split
  next hloop =>
    have hpermits : l.driver.permits + 1 =
        ((started? l.log).isSome || wasDestroyed l.log).toNat := by
      simpa [hloop, LoopStage.hasPermit] using h.permits
    have hunsolved : solved? l.log = none := h.unsolved (by rw [hloop]; rfl)
    rcases l.driver.look_cases with ⟨kept, hlook, hkept⟩ | ⟨s, hs, hlook⟩
    · have hinitial : ∀ s, kept = some s → started? l.log = some s := by
        rcases hkept with rfl | rfl
        · exact h.initial
        · exact nofun
      rw [hlook]
      exact
        { h with
          initial := hinitial
          permits := hpermits
          chosen := nofun
          unsolved := nofun }
    · rw [hlook]
      exact
        { h with
          initial := nofun
          permits := hpermits
          chosen := fun t ht => by cases ht; exact h.initial s hs
          unsolved := fun _ => hunsolved }
  next => exact h

/-- The optimizer solves once, from the solution of the start. -/
theorem Lawful.solve (h : l.Lawful readyMade) : (l.step .solve).Lawful readyMade := by
  simp only [Life.step, attempt]
  split
  next initial hloop =>
    have hstarted : started? l.log = some initial := h.chosen initial hloop
    have hunsolved : solved? l.log = none := h.unsolved (by rw [hloop]; rfl)
    exact
      { inTurn := h.inTurn.concat ⟨hstarted, hunsolved⟩
        stage := by simpa [LifeNote.stage] using h.stage
        built := by simpa using h.built
        made := by simpa using h.made
        initial := by simpa using h.initial
        permits := by simpa [hloop, LoopStage.hasPermit] using h.permits
        chosen := nofun
        unsolved := nofun }
  next => exact h

/-- A loop that has ended keeps its permit. -/
theorem Lawful.finish (h : l.Lawful readyMade) : (l.step .finish).Lawful readyMade := by
  simp only [Life.step, attempt]
  split
  next hloop =>
    exact
      { h with
        permits := by simpa [hloop, LoopStage.hasPermit] using h.permits
        chosen := nofun
        unsolved := nofun }
  next => exact h

/-- Every step keeps the invariant. -/
theorem Lawful.step (h : l.Lawful readyMade) (m : LifeStep) : (l.step m).Lawful readyMade := by
  cases m with
  | init failure => exact h.init failure
  | start s => exact h.start s
  | submit batch => exact h.submit batch
  | destroy => exact h.destroy
  | report event => exact h.report event
  | run => exact h.runLoop
  | acquire => exact h.acquire
  | look => exact h.look
  | solve => exact h.solve
  | finish => exact h.finish

/-- And so does every run. -/
theorem Lawful.run (h : l.Lawful readyMade) (steps : List LifeStep) :
    (l.run steps).Lawful readyMade := by
  induction steps generalizing l with
  | nil => exact h
  | cons m steps ih => exact ih (h.step m)

/-! ## what calls leave -/

/-- A call that fails leaves everything as it was. -/
theorem step_of_error {e : DriverError} (h : (l.attempt m).1 = .error e) : l.step m = l := by
  cases m with
  | init failure =>
    simp only [attempt] at h
    rcases l.driver.init_cases failure with ⟨-, -, hinit⟩ | ⟨e', hinit⟩
    · rw [hinit] at h
      cases h
    · simp only [step, attempt, hinit, noteOf, List.append_nil]
  | start s =>
    simp only [attempt] at h
    rcases l.driver.start_cases s with ⟨-, hstart⟩ | ⟨e', hstart⟩
    · rw [hstart] at h
      cases h
    · simp only [step, attempt, hstart, noteOf, List.append_nil]
  | submit batch =>
    simp only [attempt] at h
    simp only [step, attempt, h, noteOf, List.append_nil]
  | destroy => cases h
  | report | run | acquire | look | solve | finish =>
    simp only [attempt] at h
    repeat' split at h
    all_goals cases h

/-- A call that succeeds is noted. -/
theorem log_of_ok {note : LifeNote} (hnote : m.note? = some note)
    (h : (l.attempt m).1 = .ok ()) : (l.step m).log = l.log ++ [note] := by
  cases m with
  | init failure =>
    cases hnote
    simp only [step, attempt] at h ⊢
    rw [h, noteOf]
  | start s =>
    cases hnote
    simp only [step, attempt] at h ⊢
    rw [h, noteOf]
  | submit batch =>
    cases hnote
    simp only [step, attempt] at h ⊢
    rw [h, noteOf]
  | destroy =>
    cases hnote
    rfl
  | report | run | acquire | look | solve | finish => cases hnote

/-- A call that succeeds takes effect: the driver is then at the stage that the log says, with its
note behind the others. -/
theorem Lawful.stage_of_ok (h : l.Lawful readyMade) {note : LifeNote}
    (hnote : m.note? = some note) (hok : (l.attempt m).1 = .ok ()) :
    (l.step m).driver.state = LifeNote.stage readyMade (l.log ++ [note]) := by
  rw [(h.step m).stage, log_of_ok hnote hok]

/-! ## runs -/

/-- The log only grows. -/
theorem log_prefix_step (l : Life) (m : LifeStep) : l.log <+: (l.step m).log := by
  cases m with
  | init | start | submit | destroy => exact List.prefix_append ..
  | report | run | acquire | look | solve | finish =>
    simp only [step, attempt]
    repeat' split
    all_goals simp

/-- Nothing is struck from the log. -/
theorem log_prefix_run (l : Life) (steps : List LifeStep) : l.log <+: (l.run steps).log := by
  induction steps generalizing l with
  | nil => exact List.prefix_rfl
  | cons m steps ih => exact (log_prefix_step l m).trans (ih (l.step m))

/-- A loop that takes its permit and then looks does what `release?` says. -/
theorem look_step_acquire (l : Life) (hloop : l.loop = .waiting) :
    (l.step .acquire).step .look = match l.driver.release? with
      | none => l
      | some (.quit, driver) => { l with driver, loop := .ended }
      | some (.solve initial, driver) => { l with driver, loop := .chosen initial } := by
  obtain ⟨driver, loop, log⟩ := l
  subst hloop
  rw [Driver.release?_eq]
  cases hp : driver.permits with
  | zero => simp [Life.step, Life.attempt, hp]
  | succ permits =>
    simp only [Life.step, Life.attempt, hp]
    rcases hlook : Driver.look { driver with permits } with ⟨_ | initial, driver'⟩ <;> rfl

/-- Once the driver has been destroyed, nothing but its end and a solve that the loop had already
chosen is noted any more. -/
theorem Lawful.log_after_destroy (h : l.Lawful readyMade) (hdestroyed : wasDestroyed l.log = true)
    (steps : List LifeStep) : ∃ added, (l.run steps).log = l.log ++ added ∧
      ∀ note ∈ added, note = .destroyed ∨ ∃ initial, note = .solved initial := by
  obtain ⟨added, hadded⟩ := log_prefix_run l steps
  refine ⟨added, hadded.symm, fun note hnote => ?_⟩
  obtain ⟨before, after, rfl⟩ := List.append_of_mem hnote
  have hdue := (h.run steps).inTurn (l.log ++ before) note after (by simp [← hadded])
  have hbefore : wasDestroyed (l.log ++ before) = true := by
    rw [wasDestroyed, List.any_append, Bool.or_eq_true]
    exact .inl hdestroyed
  cases note <;> simp_all [Due]

/-- A driver and its loop, under any calls, reports and moves in any order.  Everything that comes
about comes about in turn: the optimizer is built and the driver is started at most once, both
before the end; the optimizer solves at most once, from the solution of that start; batches reach
it, and its reports are passed on, only between the start and the end.  A call succeeds exactly if
its turn has come; then it is noted and the driver is at the next stage, and otherwise nothing
changes.  After the end every other call fails, for ever.  And from the start or the end on, a loop
that waits gets its permit. -/
theorem starts_and_solves_once (readyMade : Bool) (steps : List LifeStep) :
    let l := (fresh readyMade).run steps
    (∀ before note after, l.log = before ++ note :: after → note.Due readyMade before) ∧
    (∀ failure, (l.attempt (.init failure)).1 = .ok () ↔
      failure = none ∧ Due readyMade l.log .initialized) ∧
    (∀ s, (l.attempt (.start s)).1 = .ok () ↔ Due readyMade l.log (.started s)) ∧
    (∀ batch, (l.attempt (.submit batch)).1 = .ok () ↔
      Due readyMade l.log (.submitted batch)) ∧
    (∀ m note, m.note? = some note → (l.attempt m).1 = .ok () →
      (l.step m).log = l.log ++ [note] ∧
        (l.step m).driver.state = LifeNote.stage readyMade (l.log ++ [note])) ∧
    (∀ m e, (l.attempt m).1 = .error e → l.step m = l) ∧
    (wasDestroyed l.log = true → ∀ more, let l' := l.run more
      l'.driver.state = .destroyed ∧
      (∀ failure, (l'.attempt (.init failure)).1 = .error (.alreadyInitialized .destroyed)) ∧
      (∀ s, (l'.attempt (.start s)).1 = .error .destroyed) ∧
      (∀ batch, (l'.attempt (.submit batch)).1 = .error .destroyed) ∧
      ∃ added, l'.log = l.log ++ added ∧
        ∀ note ∈ added, note = .destroyed ∨ ∃ initial, note = .solved initial) ∧
    ((started? l.log).isSome = true ∨ wasDestroyed l.log = true → l.loop = .waiting →
      (l.step .acquire).loop = .permitted) := by
  intro l
  have h : l.Lawful readyMade := (lawful_fresh readyMade).run steps
  refine ⟨h.inTurn, fun failure => ?init, fun s => ?start, fun batch => ?submit,
    fun m note hnote hok => ⟨log_of_ok hnote hok, h.stage_of_ok hnote hok⟩,
    fun m e => step_of_error, fun hdestroyed more => ?destroyed, fun hgiven hloop => ?permit⟩
  case init => exact Driver.init_eq_ok_iff.trans (and_congr_right' (stage_eq_created_iff h))
  case start => exact Driver.start_eq_ok_iff.trans (stage_eq_initialized_iff h s)
  case submit =>
    refine Driver.submit_eq_ok_iff.trans ((and_iff_left_of_imp fun hstarted => ?_).trans
      (stage_eq_started_iff h batch))
    exact h.built.trans (h.made ((stage_eq_started_iff h batch).mp hstarted).1)
  case destroyed =>
    obtain ⟨added, hlog, hadded⟩ := h.log_after_destroy hdestroyed more
    have hstate : (l.run more).driver.state = .destroyed := by
      rw [stage_eq_destroyed_iff (h.run more), hlog, wasDestroyed, List.any_append,
        Bool.or_eq_true]
      exact .inl hdestroyed
    refine ⟨hstate, fun failure => ?_, fun s => ?_, fun batch => ?_, added, hlog, hadded⟩
    · simp [Life.attempt, Driver.init, hstate]
    · simp [Life.attempt, Driver.start, hstate]
    · simp [Life.attempt, Driver.submit, hstate]
  case permit =>
    have hpermits := h.permits
    have hpermit : l.driver.permits = 1 := by
      rcases hgiven with hgiven | hgiven <;>
        simpa [hgiven, hloop, LoopStage.hasPermit] using hpermits
    simp [Life.step, Life.attempt, hloop, hpermit]

/-- The driver is destroyed after the loop has chosen to solve and before it does.  So the optimizer
still solves, from the solution of the start, but its report is not passed on, and the driver is
never started again. -/
theorem starts_and_solves_once_cut_short :
    let s : Solution := .ofUsers [.ofId ⟨"ann"⟩]
    let event : BestSolution := ⟨s, true, true⟩
    let l := (fresh false).run [.init (some "no room"), .run, .acquire, .init none, .start s,
      .start s, .acquire, .look, .submit [], .destroy, .submit [], .solve, .report event]
    l.log = [.initialized, .started s, .submitted [], .destroyed, .solved s] ∧
      Due false [.initialized, .started s, .submitted [], .destroyed] (.solved s) ∧
      wasDestroyed l.log = true ∧
      ∀ more, ((l.run more).attempt (.start s)).1 = .error .destroyed := by
  intro s event l
  have hlog : l.log = [.initialized, .started s, .submitted [], .destroyed, .solved s] := rfl
  have hdestroyed : wasDestroyed l.log = true := by rw [hlog]; rfl
  obtain ⟨hturn, -, -, -, -, -, hend, -⟩ := starts_and_solves_once false
    [.init (some "no room"), .run, .acquire, .init none, .start s, .start s, .acquire, .look,
      .submit [], .destroy, .submit [], .solve, .report event]
  exact ⟨hlog, hturn [.initialized, .started s, .submitted [], .destroyed] (.solved s) [] hlog,
    hdestroyed, fun more => (hend hdestroyed more).2.2.1 s⟩

end Life

end ChainPlanner
