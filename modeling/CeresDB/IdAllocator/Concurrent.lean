import CeresDB.IdAllocator.Basic

/-!
# Concurrent id allocation

Model of `IdAllocator::alloc_id`, `self.inner.write().await.alloc_id(persist).await`. A call
takes the `RwLock` write guard, runs `Inner::alloc_id` up to its only await (the persist
future) and, on the slow path, keeps the guard across that await. Tasks interleave at the lock
and at the await: `Event.acquire` is a waiting call that gets the guard (its fast path finishes
on the spot), `Event.resume` is the persist future of the guard holder completing, and
`Event.cancel` drops the holder while it awaits, which releases the guard. A call still waiting
for the lock has taken no step, so dropping it needs no event; an event that is not enabled
leaves the world as it is. Finished calls are recorded in completion order.

`World.Inv` is the run invariant: replaying the finished calls one after another with
`Inner.allocAll` gives exactly the recorded outcomes and the allocator's current state, and a
holder awaits the persist of the ceiling that state makes it ask for. `World.step_inv` is its
step lemma and `World.run_inv` its run lemma. Progress is one step each: a `resume` completes the
holder's call as the sequential call from the current state (`World.Inv.resume_eq`), and a call
that takes a free lock and is resumed once completes the same way (`World.acquire_resume`). The
headline `World.run_linearizable` reads the ids off the replay and states both progress facts in
every reachable world.
-/

namespace CeresDB.IdAllocator

variable {ε : Type}

/-- A call that keeps the write guard across its persist await. -/
structure Holder (ε : Type) where
  persist : Nat → Except ε Unit
  nextMaxId : Nat

/-- A finished call: its callback and what it did. -/
structure Completion (ε : Type) where
  persist : Nat → Except ε Unit
  alloc : Alloc ε

/-- The allocator behind its lock, the call holding the guard across an await, and the calls
finished so far. -/
structure World (ε : Type) where
  inner : Inner
  holder : Option (Holder ε)
  completed : List (Completion ε)

/-- One scheduling step of the tasks calling `IdAllocator::alloc_id`. -/
inductive Event (ε : Type) where
  | acquire (persist : Nat → Except ε Unit)
  | resume
  | cancel

/-- `IdAllocator::new`: a free lock and no call finished. -/
def World.init (s : Inner) : World ε := ⟨s, none, []⟩

/-- One step; `acquire` runs `Inner::alloc_id` up to its await, `resume` runs the rest. -/
def World.step (w : World ε) : Event ε → World ε
  | .acquire persist =>
    match w.holder with
    | some _ => w
    | none =>
      if w.inner.lastId < w.inner.maxId then
        { w with
          inner := { w.inner with lastId := w.inner.lastId + 1 }
          completed := w.completed ++ [⟨persist, ⟨none, .ok (w.inner.lastId + 1)⟩⟩] }
      else { w with holder := some ⟨persist, w.inner.lastId + w.inner.allocStep⟩ }
  | .resume =>
    match w.holder with
    | none => w
    | some h =>
      match h.persist h.nextMaxId with
      | .error e =>
        { w with
          holder := none
          completed := w.completed ++ [⟨h.persist, ⟨some h.nextMaxId, .error e⟩⟩] }
      | .ok () =>
        { inner := { w.inner with maxId := h.nextMaxId, lastId := w.inner.lastId + 1 }
          holder := none
          completed := w.completed ++ [⟨h.persist, ⟨some h.nextMaxId, .ok (w.inner.lastId + 1)⟩⟩] }
  | .cancel => { w with holder := none }

/-- The world after a schedule of steps. -/
def World.run (w : World ε) (es : List (Event ε)) : World ε := es.foldl World.step w

/-- The finished calls replay sequentially to the recorded outcomes and the current state, and the
holder awaits the persist that state asks for. -/
structure World.Inv (s : Inner) (w : World ε) : Prop where
  replay : s.allocAll (w.completed.map Completion.persist) =
    (w.completed.map Completion.alloc, w.inner)
  holder : ∀ h, w.holder = some h →
    w.inner.maxId ≤ w.inner.lastId ∧ h.nextMaxId = w.inner.lastId + w.inner.allocStep

section Steps

variable {s : Inner} {w : World ε}

/-- Finishing a call that the sequential allocator would make from the current state keeps the
replay exact. -/
lemma World.Inv.replay_concat (hw : w.Inv s) (p : Nat → Except ε Unit) :
    s.allocAll ((w.completed ++ [(⟨p, (w.inner.allocId p).1⟩ : Completion ε)]).map
        Completion.persist) =
      ((w.completed ++ [(⟨p, (w.inner.allocId p).1⟩ : Completion ε)]).map Completion.alloc,
        (w.inner.allocId p).2) := by
  simp [Inner.allocAll_concat, hw.replay]

/-- A `resume` completes the holder's call as the sequential `Inner::alloc_id` from the current
state, and frees the lock. -/
lemma World.Inv.resume_eq (hw : w.Inv s) {h : Holder ε} (hh : w.holder = some h) :
    w.step .resume = ⟨(w.inner.allocId h.persist).2, none,
      w.completed ++ [⟨h.persist, (w.inner.allocId h.persist).1⟩]⟩ := by
  obtain ⟨hge, hnext⟩ := hw.holder h hh
  rcases w.inner.allocId_cases h.persist with ⟨hlt, -⟩ | ⟨-, e, he, hc⟩ | ⟨-, he, hc⟩
  · omega
  all_goals simp [World.step, hh, hnext, he, hc]

/-- Every step keeps the invariant. -/
lemma World.step_inv (hw : w.Inv s) (e : Event ε) : (w.step e).Inv s := by
  cases e with
  | acquire p =>
    cases hh : w.holder with
    | some _ => simpa [World.step, hh] using hw
    | none =>
      rcases w.inner.allocId_cases p with ⟨hlt, h⟩ | ⟨hge, -⟩ | ⟨hge, -⟩
      · simpa [World.step, hh, hlt, h] using
          (⟨hw.replay_concat p, by simp⟩ : World.Inv s ⟨_, none, _⟩)
      all_goals
        refine ⟨by simpa [World.step, hh, Nat.not_lt.2 hge] using hw.replay, fun h' => ?_⟩
        simp only [World.step, hh, Nat.not_lt.2 hge, if_false, Option.some.injEq]
        rintro rfl
        exact ⟨hge, rfl⟩
  | resume =>
    cases hh : w.holder with
    | none => simpa [World.step, hh] using hw
    | some h =>
      rw [hw.resume_eq hh]
      exact ⟨hw.replay_concat h.persist, by simp⟩
  | cancel => exact ⟨hw.replay, by simp [World.step]⟩

/-- The invariant holds after every schedule from a world that satisfies it. -/
lemma World.run_inv (hw : w.Inv s) (es : List (Event ε)) : (w.run es).Inv s := by
  induction es generalizing w with
  | nil => exact hw
  | cons e es ih => exact ih (World.step_inv hw e)

end Steps

/-- With the lock free, a call that takes it and is resumed once completes as the sequential
`Inner::alloc_id` from the current state. -/
lemma World.acquire_resume (w : World ε) (hh : w.holder = none) (p : Nat → Except ε Unit) :
    w.run [.acquire p, .resume] =
      ⟨(w.inner.allocId p).2, none, w.completed ++ [⟨p, (w.inner.allocId p).1⟩]⟩ := by
  rcases w.inner.allocId_cases p with ⟨hlt, hc⟩ | ⟨hge, e, he, hc⟩ | ⟨hge, he, hc⟩
  · simp [World.run, World.step, hh, hc, hlt]
  all_goals simp [World.run, World.step, hh, hc, he, Nat.not_lt.2 hge]

/-- Linearizability and progress of concurrent `IdAllocator::alloc_id` calls. -/
theorem World.run_linearizable (s : Inner) (es : List (Event ε)) :
    (okIds (((World.init s).run es).completed.map Completion.alloc)).Nodup ∧
    okIds (((World.init s).run es).completed.map Completion.alloc) =
      List.range' (s.lastId + 1)
        (okIds (((World.init s).run es).completed.map Completion.alloc)).length ∧
    s.allocAll (((World.init s).run es).completed.map Completion.persist) =
      (((World.init s).run es).completed.map Completion.alloc, ((World.init s).run es).inner) ∧
    (∀ h, ((World.init s).run es).holder = some h →
      ((World.init s).run es).step .resume =
        ⟨(((World.init s).run es).inner.allocId h.persist).2, none,
          ((World.init s).run es).completed ++
            [⟨h.persist, (((World.init s).run es).inner.allocId h.persist).1⟩]⟩) ∧
    ∀ p, ((World.init s).run es).holder = none →
      ((World.init s).run es).run [.acquire p, .resume] =
        ⟨(((World.init s).run es).inner.allocId p).2, none,
          ((World.init s).run es).completed ++
            [⟨p, (((World.init s).run es).inner.allocId p).1⟩]⟩ := by
  have hw := World.run_inv (⟨rfl, by simp [World.init]⟩ : (World.init s : World ε).Inv s) es
  have hids := (s.allocAll_okIds (((World.init s).run es).completed.map Completion.persist)).1
  rw [hw.replay] at hids
  exact ⟨hids ▸ List.nodup_range' _ _, hids, hw.replay, fun _ hh => hw.resume_eq hh,
    fun p hh => World.acquire_resume _ hh p⟩

end CeresDB.IdAllocator
