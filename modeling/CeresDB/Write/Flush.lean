import CeresDB.Write.Writer

/-!
# Flush triggers of concurrent writers

Model of the locking in `Writer::handle_memtable_flush` as `preprocess_write` runs it in many
writers at once. Every writer is inside `Writer::write` for its own table and holds that table's
serial executor; it hands the tables its flush triggers picked to `handle_memtable_flush` one at a
time. The writer's own table is flushed through the executor it holds; another table's executor
is taken with `try_lock`, held while `schedule_flush` is awaited and dropped after, and on
contention the writer gives up at once. Tasks that are not writers (flushes, other table
operations) may lock a free executor or unlock one they hold at any point.

A `FlushWorld` holds the writers (at most one per table, since each holds its table's executor,
so a writer is named by its table), the holder of every executor, and a log of the `try_lock`
calls that gave up. Any interleaving is a list of `Event`s. The invariant `FlushWorld.Inv` says
that the executors writers hold are exactly their own and, while a flush of it is awaited,
another table's; and that a `try_lock` gave up only on another table's executor held by someone
else. The measure `Task.work` counts what a writer still has to do: each of its steps lowers it
whoever holds what (`FlushWorld.writerStep_work_lt`) and nothing else changes it, so no writer
ever waits (`FlushWorld.run_waitFree`). Run without interleaving, a writer's steps compute what
the sequential model `handleMemtableFlush` returns (`FlushWorld.handle_eq`).
-/

namespace CeresDB.Write

/-- Who holds a table's serial executor: the writer of a table, or another task. -/
inductive Holder where
  | writer (table : Nat)
  | other (id : Nat)
  deriving DecidableEq, Repr

/-- A writer inside `preprocess_write`. -/
structure Task where
  /-- The flush targets (table id, name) it has still to hand to `handle_memtable_flush`. -/
  targets : List (Nat × String)
  /-- Another table whose executor it holds while it awaits `schedule_flush` on it. -/
  flushing : Option (Nat × String)
  /-- `Ok` so far, or the `FlushTable` error that ended the preprocessing. -/
  result : Except Error Unit

/-- Writers in `preprocess_write` and the tables' serial executors. -/
structure FlushWorld where
  /-- The writer of each table, if one is in `preprocess_write`. -/
  writers : Nat → Option Task
  /-- The holder of each table's serial executor. -/
  owner : Nat → Option Holder
  /-- The `try_lock` calls that gave up: the writer, the target table, its holder then. -/
  gaveUp : List (Nat × Nat × Holder)

/-- A step: the writer of a table moves on (`answer` is what `schedule_flush` returns if it is
called), or another task locks a free executor or unlocks one it holds. -/
inductive Event where
  | writer (table : Nat) (answer : Except String Unit)
  | lock (id : Nat) (table : Nat)
  | unlock (table : Nat)

/-- The writer after `schedule_flush` on table `name` answered: on to `rest`, or stopped by the
error, which `?` returns from `preprocess_write`. -/
def Task.afterSchedule (task : Task) (rest : List (Nat × String)) (name : String) :
    Except String Unit → Task
  | .ok () => { task with targets := rest, flushing := none }
  | .error e => { task with targets := [], flushing := none, result := .error (.flushTable name e) }

namespace FlushWorld

/-- Writers entering `preprocess_write`, each holding its own table's executor, with the flush
targets its triggers pick; other tasks hold some other executors. -/
def init (writers : Nat → Option (List (Nat × String))) (others : Nat → Option Nat) :
    FlushWorld where
  writers x := (writers x).map fun targets => ⟨targets, none, .ok ()⟩
  owner x := if (writers x).isSome then some (.writer x) else (others x).map .other
  gaveUp := []

/-- One step of the writer of table `x` (`Writer::handle_memtable_flush`): finish the flush it
awaits on another table and drop that executor, or take its next target: its own table through
the executor it holds, another table through `try_lock`, giving up when that fails. -/
def writerStep (s : FlushWorld) (x : Nat) (answer : Except String Unit) : FlushWorld :=
  match s.writers x with
  | none => s
  | some task =>
    match task.flushing with
    | some (y, name) =>
      { s with
        writers := Function.update s.writers x (some (task.afterSchedule task.targets name answer))
        owner := Function.update s.owner y none }
    | none =>
      match task.targets with
      | [] => s
      | (y, name) :: rest =>
        if y = x then
          { s with writers := Function.update s.writers x (some (task.afterSchedule rest name answer)) }
        else
          match s.owner y with
          | none =>
            { s with
              writers := Function.update s.writers x
                (some { task with targets := rest, flushing := some (y, name) })
              owner := Function.update s.owner y (some (.writer x)) }
          | some h =>
            { s with
              writers := Function.update s.writers x (some { task with targets := rest })
              gaveUp := s.gaveUp ++ [(x, y, h)] }

/-- One step of the system. -/
def step (s : FlushWorld) : Event → FlushWorld
  | .writer x answer => s.writerStep x answer
  | .lock j y =>
    if s.owner y = none then { s with owner := Function.update s.owner y (some (.other j)) } else s
  | .unlock y =>
    match s.owner y with
    | some (.other _) => { s with owner := Function.update s.owner y none }
    | _ => s

/-- A run: the steps in the order they happen. -/
def run (s : FlushWorld) (es : List Event) : FlushWorld := es.foldl step s

end FlushWorld

/-- What a writer still has to do: two steps at most per target, one to finish a flush. -/
def Task.work (task : Task) : Nat :=
  2 * task.targets.length + if task.flushing.isSome then 1 else 0

/-- Whether an event is a step of the writer of table `x`. -/
def Event.isStepOf (x : Nat) : Event → Bool
  | .writer y _ => y == x
  | _ => false

namespace FlushWorld

/-- What the writer of table `x` still has to do; nothing if there is none. -/
def work (s : FlushWorld) (x : Nat) : Nat := ((s.writers x).map Task.work).getD 0

/-- The executors the writer of table `x` holds: its own, and the one of the table whose flush it
awaits. -/
def WriterHolds (s : FlushWorld) (x y : Nat) : Prop :=
  ∃ task, s.writers x = some task ∧ (y = x ∨ ∃ name, task.flushing = some (y, name))

/-- The lock discipline of the writers. -/
structure Inv (s : FlushWorld) : Prop where
  holds : ∀ x y, s.owner y = some (.writer x) ↔ s.WriterHolds x y
  flushing_ne : ∀ x task y name, s.writers x = some task → task.flushing = some (y, name) → y ≠ x
  gaveUp : ∀ g ∈ s.gaveUp, g.2.1 ≠ g.1 ∧ g.2.2 ≠ .writer g.1

/-- The writer of table `x` waits for the holder `h` of table `y`'s executor: its next target is
`y`, held by `h`, and no step lets it move on. -/
def WaitsFor (s : FlushWorld) (x y : Nat) (h : Holder) : Prop :=
  ∃ task, s.writers x = some task ∧ task.flushing = none ∧ task.targets.head?.map Prod.fst = some y ∧
    s.owner y = some h ∧ ∀ answer, (s.writerStep x answer).writers x = s.writers x

/-- A writer awaiting a flush on `y` finishes it and drops `y`'s executor. -/
lemma writerStep_finish {s : FlushWorld} {x y : Nat} {task : Task} {name : String}
    (hx : s.writers x = some task) (hf : task.flushing = some (y, name))
    (answer : Except String Unit) :
    s.writerStep x answer =
      { s with
        writers := Function.update s.writers x (some (task.afterSchedule task.targets name answer))
        owner := Function.update s.owner y none } := by
  simp only [writerStep, hx, hf]

/-- A writer with no flush awaited takes its next target. -/
lemma writerStep_target {s : FlushWorld} {x y : Nat} {task : Task} {name : String}
    {rest : List (Nat × String)} (hx : s.writers x = some task) (hf : task.flushing = none)
    (ht : task.targets = (y, name) :: rest) (answer : Except String Unit) :
    s.writerStep x answer =
      if y = x then
        { s with writers := Function.update s.writers x (some (task.afterSchedule rest name answer)) }
      else match s.owner y with
        | none =>
          { s with
            writers := Function.update s.writers x
              (some { task with targets := rest, flushing := some (y, name) })
            owner := Function.update s.owner y (some (.writer x)) }
        | some h =>
          { s with
            writers := Function.update s.writers x (some { task with targets := rest })
            gaveUp := s.gaveUp ++ [(x, y, h)] } := by
  simp only [writerStep, hx, hf, ht]

@[simp] lemma afterSchedule_flushing (task : Task) (rest : List (Nat × String)) (name : String)
    (answer : Except String Unit) : (task.afterSchedule rest name answer).flushing = none := by
  cases answer <;> rfl

lemma work_afterSchedule_le (task : Task) (rest : List (Nat × String)) (name : String)
    (answer : Except String Unit) : (task.afterSchedule rest name answer).work ≤ 2 * rest.length := by
  cases answer <;> simp [Task.afterSchedule, Task.work]

@[simp] lemma work_update (s : FlushWorld) (x : Nat) (task : Task) (o : Nat → Option Holder)
    (g : List (Nat × Nat × Holder)) :
    (⟨Function.update s.writers x (some task), o, g⟩ : FlushWorld).work x = task.work := by
  simp [work]

/-- A writer's step changes no other writer. -/
lemma writerStep_writers_ne (s : FlushWorld) {x z : Nat} (answer : Except String Unit)
    (h : z ≠ x) : (s.writerStep x answer).writers z = s.writers z := by
  unfold writerStep
  split
  · rfl
  · split
    · exact Function.update_noteq h _ _
    · split
      · rfl
      · split
        · exact Function.update_noteq h _ _
        · split <;> exact Function.update_noteq h _ _

/-- Every step of a writer with something left to do lowers what it has left, whoever holds
which executor: `try_lock` never waits. -/
lemma writerStep_work_lt (s : FlushWorld) (x : Nat) (answer : Except String Unit)
    (h : 0 < s.work x) : (s.writerStep x answer).work x < s.work x := by
  unfold writerStep
  split
  · next hx => simp [work, hx] at h
  · next task hx =>
    have hw : s.work x = task.work := by simp [work, hx]
    rw [hw] at h ⊢
    split
    · next y name hf =>
      have := work_afterSchedule_le task task.targets name answer
      have ht : task.work = 2 * task.targets.length + 1 := by simp [Task.work, hf]
      simp only [work_update]
      omega
    · next hf =>
      split
      · next ht => simp [Task.work, hf, ht] at h
      · next y name rest ht =>
        have hw' : task.work = 2 * rest.length + 2 := by simp [Task.work, hf, ht]; omega
        split
        · have := work_afterSchedule_le task rest name answer
          simp only [work_update]
          omega
        · split <;> simp [Task.work, ht]; omega

/-- A writer with nothing left to do does not move. -/
lemma writerStep_of_work_eq_zero (s : FlushWorld) (x : Nat) (answer : Except String Unit)
    (h : s.work x = 0) : s.writerStep x answer = s := by
  unfold writerStep
  split
  · rfl
  · next task hx =>
    have hw : task.work = 0 := by simpa [work, hx] using h
    have hf : task.flushing = none := by
      cases hf : task.flushing with
      | none => rfl
      | some p => simp [Task.work, hf] at hw
    have ht : task.targets = [] := by
      cases ht : task.targets with
      | nil => rfl
      | cons p ps =>
        have := hw
        simp only [Task.work, ht, List.length_cons] at this
        omega
    simp [hf, ht]

/-- Steps of other writers and of other tasks leave a writer's work as it is. -/
lemma work_step_of_not_isStepOf (s : FlushWorld) {x : Nat} {e : Event}
    (he : e.isStepOf x = false) : (s.step e).work x = s.work x := by
  cases e with
  | writer y answer =>
    have hxy : x ≠ y := fun h => by simp [Event.isStepOf, h] at he
    simp only [step, work, writerStep_writers_ne s answer hxy]
  | lock j y => simp only [step]; split <;> rfl
  | unlock y => simp only [step]; split <;> rfl

/-- Along any run, each step of the writer of `x` takes one off what it has left. -/
lemma run_work_le (x : Nat) : ∀ (s : FlushWorld) (es : List Event),
    (s.run es).work x ≤ s.work x - es.countP (Event.isStepOf x)
  | s, [] => by simp [run]
  | s, e :: es => by
    have ih := run_work_le x (s.step e) es
    simp only [run, List.foldl_cons] at ih ⊢
    rw [List.countP_cons]
    cases he : e.isStepOf x
    · rw [work_step_of_not_isStepOf s he] at ih
      simp only [Bool.false_eq_true, if_false]
      omega
    · obtain ⟨answer, rfl⟩ : ∃ answer, e = .writer x answer := by
        cases e <;> simp_all [Event.isStepOf]
      have hlt : (s.writerStep x answer).work x ≤ s.work x - 1 := by
        by_cases h0 : s.work x = 0
        · rw [writerStep_of_work_eq_zero s x answer h0, h0]
        · have := writerStep_work_lt s x answer (Nat.pos_of_ne_zero h0); omega
      simp only [step, if_true] at ih ⊢
      omega

/-- A writer with a target left always moves on: no writer waits for another executor's holder. -/
lemma not_waitsFor (s : FlushWorld) (x y : Nat) (h : Holder) : ¬ s.WaitsFor x y h := by
  rintro ⟨task, hx, hf, hy, -, hstay⟩
  have hpos : 0 < s.work x := by
    cases ht : task.targets with
    | nil => simp [ht] at hy
    | cons t ts =>
      simp only [work, hx, Task.work, ht, Option.map_some', Option.getD_some, List.length_cons]
      omega
  have := writerStep_work_lt s x (.ok ()) hpos
  rw [work, hstay (.ok ())] at this
  exact Nat.lt_irrefl _ this

lemma init_inv (writers : Nat → Option (List (Nat × String))) (others : Nat → Option Nat) :
    (init writers others).Inv where
  holds x y := by
    simp only [init, WriterHolds]
    constructor
    · intro h
      split at h
      · next hy =>
        obtain rfl : y = x := by simpa using h
        obtain ⟨targets, ht⟩ := Option.isSome_iff_exists.1 hy
        exact ⟨_, by rw [ht]; rfl, .inl rfl⟩
      · cases hy : others y <;> simp [hy] at h
    · rintro ⟨task, hx, rfl | ⟨name, hf⟩⟩
      · obtain ⟨targets, ht, -⟩ := Option.map_eq_some'.1 hx
        simp [ht]
      · obtain ⟨targets, -, rfl⟩ := Option.map_eq_some'.1 hx
        cases hf
  flushing_ne x task y name hx hf := by
    obtain ⟨targets, -, rfl⟩ := Option.map_eq_some'.1 hx
    cases hf
  gaveUp g hg := by cases hg

section Preservation

variable {s : FlushWorld}

/-- A writer's move keeps the invariant when afterwards the executors it holds are its own and
that of its new flushing target, every other writer holds what it held, and the new `try_lock`
give-ups are on other tables' executors held by someone else. -/
lemma Inv.writer (hs : s.Inv) {x : Nat} (task' : Task) (owner' : Nat → Option Holder)
    (gaveUp' : List (Nat × Nat × Holder))
    (hx : ∀ w, owner' w = some (.writer x) ↔ w = x ∨ ∃ n, task'.flushing = some (w, n))
    (hz : ∀ z w, z ≠ x → (owner' w = some (.writer z) ↔ s.owner w = some (.writer z)))
    (hne : ∀ w n, task'.flushing = some (w, n) → w ≠ x)
    (hg : ∀ g ∈ gaveUp', g ∈ s.gaveUp ∨ (g.2.1 ≠ g.1 ∧ g.2.2 ≠ .writer g.1)) :
    (⟨Function.update s.writers x (some task'), owner', gaveUp'⟩ : FlushWorld).Inv where
  holds z w := by
    by_cases hzx : z = x
    · subst hzx; simp [WriterHolds, hx w]
    · rw [hz z w hzx, hs.holds z w]; simp [WriterHolds, Function.update_noteq hzx]
  flushing_ne z t w n hz hn := by
    simp only [Function.update_apply] at hz
    split at hz
    · next hzx => cases hz; exact hzx ▸ hne w n hn
    · exact hs.flushing_ne z t w n hz hn
  gaveUp g hg' := (hg g hg').elim (hs.gaveUp g) id

/-- Another task's lock or unlock of an executor no writer holds keeps the invariant. -/
lemma Inv.other (hs : s.Inv) (y : Nat) (v : Option Holder) (hv : ∀ z, v ≠ some (.writer z))
    (hy : ∀ z, s.owner y ≠ some (.writer z)) :
    ({ s with owner := Function.update s.owner y v } : FlushWorld).Inv where
  holds z w := by
    simp only [Function.update_apply]
    split
    · next hw =>
      subst hw
      refine ⟨fun h => absurd h (hv z), fun h => absurd ((hs.holds z w).2 h) (hy z)⟩
    · exact hs.holds z w
  flushing_ne := hs.flushing_ne
  gaveUp := hs.gaveUp

lemma Inv.writerStep (hs : s.Inv) (x : Nat) (answer : Except String Unit) :
    (s.writerStep x answer).Inv := by
  cases hx : s.writers x with
  | none => simp only [FlushWorld.writerStep, hx]; exact hs
  | some task =>
    have hkeep : ∀ w, s.owner w = some (.writer x) ↔ w = x ∨ ∃ n, task.flushing = some (w, n) :=
      fun w => (hs.holds x w).trans ⟨fun ⟨t, ht, h⟩ => by rw [hx] at ht; cases ht; exact h,
        fun h => ⟨task, hx, h⟩⟩
    have hother : ∀ z w, z ≠ x → s.owner w = some (.writer x) → s.owner w ≠ some (.writer z) :=
      fun z w hz h h' => hz (by simpa using h'.symm.trans h)
    cases hf : task.flushing with
    | some p =>
      obtain ⟨y, name⟩ := p
      have hyx := hs.flushing_ne x task y name hx hf
      have hy := (hkeep y).2 (.inr ⟨name, hf⟩)
      rw [writerStep_finish hx hf]
      refine hs.writer _ _ _ (fun w => ?_) (fun z w hz => ?_) (by simp) (fun g hg => .inl hg)
      · by_cases hw : w = y
        · subst hw; simp [hyx]
        · rw [Function.update_noteq hw, hkeep w, hf]; simp [Ne.symm hw]
      · by_cases hw : w = y
        · subst hw; simpa using hother z w hz hy
        · rw [Function.update_noteq hw]
    | none =>
      cases ht : task.targets with
      | nil => simp only [FlushWorld.writerStep, hx, hf, ht]; exact hs
      | cons target rest =>
        obtain ⟨y, name⟩ := target
        rw [writerStep_target hx hf ht]
        by_cases hyx : y = x
        · rw [if_pos hyx]
          refine hs.writer _ _ _ (fun w => ?_) (fun _ _ _ => Iff.rfl) (by simp)
            (fun g hg => .inl hg)
          rw [hkeep w, hf]; simp
        · rw [if_neg hyx]
          cases hy : s.owner y with
          | none =>
            refine hs.writer _ _ _ (fun w => ?_) (fun z w hz => ?_) ?_ (fun g hg => .inl hg)
            · by_cases hw : w = y
              · subst hw; simp
              · rw [Function.update_noteq hw, hkeep w, hf]; simp [Ne.symm hw]
            · by_cases hw : w = y
              · subst hw; simp [hy, Ne.symm hz]
              · rw [Function.update_noteq hw]
            · simp only [Option.some.injEq, Prod.mk.injEq]
              rintro w n ⟨rfl, -⟩; exact hyx
          | some h =>
            refine hs.writer _ _ _ (fun w => ?_) (fun _ _ _ => Iff.rfl) (by simp [hf])
              (fun g hg => ?_)
            · rw [hkeep w, hf]
            · rcases List.mem_append.1 hg with hg | hg
              · exact .inl hg
              · simp only [List.mem_singleton] at hg
                subst hg
                refine .inr ⟨hyx, fun hh => ?_⟩
                simp only at hh
                subst hh
                simpa [hf, hyx] using (hkeep y).1 hy

/-- Every step of the system keeps the invariant. -/
lemma Inv.step (hs : s.Inv) : ∀ e, (s.step e).Inv
  | .writer x answer => hs.writerStep x answer
  | .lock j y => by
    simp only [FlushWorld.step]
    split
    · next h => exact hs.other y _ (by simp) (by simp [h])
    · exact hs
  | .unlock y => by
    simp only [FlushWorld.step]
    split
    · next j h => exact hs.other y none (by simp) (by simp [h])
    · exact hs

lemma Inv.run (hs : s.Inv) (es : List Event) : (s.run es).Inv := by
  induction es generalizing s with
  | nil => exact hs
  | cons e es ih => exact ih (hs.step e)

end Preservation

/-- The `FlushEnv` the writers' world gives `handleMemtableFlush`: `try_lock` succeeds on a free
executor and `schedule_flush` answers `answer`; the triggers are not read. -/
def flushEnv (s : FlushWorld) (answer : Except String Unit) : FlushEnv :=
  ⟨false, none, false, none, false, fun y => (s.owner y).isNone, fun _ => answer⟩

/-- A writer handles its next target with no step of anyone else in between: one step, or two
when it took another table's executor. -/
def handle (s : FlushWorld) (x : Nat) (answer : Except String Unit) : FlushWorld :=
  if ((s.writerStep x answer).writers x).bind Task.flushing |>.isSome then
    (s.writerStep x answer).writerStep x answer
  else s.writerStep x answer

/-- Handled without interleaving, a target ends as `handleMemtableFlush` says: the writer goes on
with the rest when it returns `Ok`, stops with its error otherwise, and every executor is back
with its holder. -/
lemma handle_eq (s : FlushWorld) {x y : Nat} {task : Task} {name : String}
    {rest : List (Nat × String)} (hx : s.writers x = some task) (hf : task.flushing = none)
    (ht : task.targets = (y, name) :: rest) (hr : task.result = .ok ())
    (answer : Except String Unit) :
    (s.handle x answer).owner = s.owner ∧
    (s.handle x answer).writers x =
      match handleMemtableFlush (s.flushEnv answer) x (y, name) with
      | .ok () => some ⟨rest, none, .ok ()⟩
      | .error e => some ⟨[], none, .error e⟩ := by
  have hstep := writerStep_target hx hf ht answer
  obtain ⟨targets, flushing, result⟩ := task
  simp only at hf ht hr
  subst hf ht hr
  by_cases hyx : y = x
  · subst hyx
    rw [if_pos rfl] at hstep
    simp only [handle, hstep, Function.update_same, Option.some_bind, afterSchedule_flushing,
      Option.isSome_none, Bool.false_eq_true, if_false, handleMemtableFlush, true_and]
    cases answer <;> rfl
  · cases hy : s.owner y with
    | none =>
      simp only [if_neg hyx, hy] at hstep
      have h₁ : (s.writerStep x answer).writers x = some ⟨rest, some (y, name), .ok ()⟩ := by
        rw [hstep]; exact Function.update_same _ _ _
      have hfin := writerStep_finish h₁ rfl answer
      simp only [handle, hstep, Function.update_same, Option.some_bind, Option.isSome_some,
        if_true] at hfin ⊢
      rw [hfin]
      simp only [Function.update_idem, Function.update_same, handleMemtableFlush, hyx, if_false,
        flushEnv, hy, Option.isNone_none, if_true]
      refine ⟨by rw [← hy, Function.update_eq_self], ?_⟩
      cases answer <;> rfl
    | some h =>
      simp only [if_neg hyx, hy] at hstep
      simp only [handle, hstep, Function.update_same, Option.some_bind, Option.isSome_none,
        Bool.false_eq_true, if_false, handleMemtableFlush, hyx, flushEnv, hy, Option.isNone_some,
        true_and]

/-- Concurrent flush triggers never wait (Rust `Writer::handle_memtable_flush`). -/
theorem run_waitFree (writers : Nat → Option (List (Nat × String)))
    (others : Nat → Option Nat) (es : List Event) :
    ((init writers others).run es).Inv ∧
    (∀ x answer, 0 < ((init writers others).run es).work x →
      (((init writers others).run es).writerStep x answer).work x <
        ((init writers others).run es).work x) ∧
    (∀ x, ((init writers others).run es).work x ≤
      (init writers others).work x - es.countP (Event.isStepOf x)) ∧
    ∀ x y h, ¬ ((init writers others).run es).WaitsFor x y h :=
  ⟨(init_inv writers others).run es, fun x answer => writerStep_work_lt _ x answer,
    fun x => run_work_le x _ es, fun x y h => not_waitsFor _ x y h⟩

end FlushWorld

end CeresDB.Write
