import Mathlib.Data.List.Sort

/-!
# Id allocator

Model of `common_util/src/id_allocator.rs`: the allocator state `Inner` (the constructor's
`assert!(alloc_step > 0)` is a field of the structure), one call of `Inner::alloc_id` as a
function of what its `persist_next_max_id` callback answers, and a sequential run of calls. A
call reports the argument it handed to the callback, when it got that far, next to what it
returned; ids are `Nat`, so the runs are those without `u64` overflow.

What is durable is read off the callbacks' own answers: `acceptedPersists` keeps the argument of
each call that reached the callback when the callback answered `Ok` for it, whatever the call then
returned. `Inner.allocId_cases` says everything one call can do; the run lemmas follow from it:
`allocAll_append` splits a run, `allocAll_maxId` identifies the in-memory `max_id` with the last
ceiling of a successful call, `allocAll_acceptedPersists` shows those are exactly the values the
callbacks accepted, and `allocAll_okIds` shows that the successful calls return
`l0 + 1, l0 + 2, …` whatever the callbacks do. When `l0 ≤ m0`, `AlignedCeiling` pins `max_id` to
`m0` plus a whole number of steps, which decides where the persists fall. The durability law
`allocAll_durable` and the sequential contract `allocAll_contract` close the file.
-/

namespace CeresDB.IdAllocator

/-- Allocator state (Rust `Inner`). -/
structure Inner where
  lastId : Nat
  maxId : Nat
  allocStep : Nat
  allocStep_pos : 0 < allocStep

/-- What one `alloc_id` call did: the argument it passed to `persist_next_max_id`, if it reached
that call, and what it returned. -/
structure Alloc (ε : Type) where
  persisted : Option Nat
  result : Except ε Nat

variable {ε ε' : Type}

/-- `Inner::alloc_id`; `persist` gives the output of the callback's future for each argument. -/
def Inner.allocId (s : Inner) (persist : Nat → Except ε Unit) : Alloc ε × Inner :=
  if s.lastId < s.maxId then
    (⟨none, .ok (s.lastId + 1)⟩, { s with lastId := s.lastId + 1 })
  else
    let nextMaxId := s.lastId + s.allocStep
    match persist nextMaxId with
    | .error e => (⟨some nextMaxId, .error e⟩, s)
    | .ok () => (⟨some nextMaxId, .ok (s.lastId + 1)⟩,
        { s with maxId := nextMaxId, lastId := s.lastId + 1 })

/-- Sequential `alloc_id` calls, one callback each, and the state after the last one. -/
def Inner.allocAll : Inner → List (Nat → Except ε Unit) → List (Alloc ε) × Inner
  | s, [] => ([], s)
  | s, p :: ps => ((s.allocId p).1 :: ((s.allocId p).2.allocAll ps).1,
      ((s.allocId p).2.allocAll ps).2)

/-- The id a call returned, if it succeeded. -/
def Alloc.id? (a : Alloc ε) : Option Nat :=
  match a.result with
  | .ok id => some id
  | .error _ => none

/-- The ceiling a call made durable: its persist argument, when the call succeeded. -/
def Alloc.durable? (a : Alloc ε) : Option Nat :=
  match a.result with
  | .ok _ => a.persisted
  | .error _ => none

@[simp] lemma Alloc.id?_ok (v : Option Nat) (id : Nat) :
    (⟨v, .ok id⟩ : Alloc ε).id? = some id := rfl

@[simp] lemma Alloc.id?_error (v : Option Nat) (e : ε) : Alloc.id? ⟨v, .error e⟩ = none := rfl

@[simp] lemma Alloc.durable?_ok (v : Option Nat) (id : Nat) :
    (⟨v, .ok id⟩ : Alloc ε).durable? = v := rfl

@[simp] lemma Alloc.durable?_error (v : Option Nat) (e : ε) : Alloc.durable? ⟨v, .error e⟩ = none :=
  rfl

/-- The ids a run returned, in order. -/
def okIds (calls : List (Alloc ε)) : List Nat := calls.filterMap Alloc.id?

/-- The calls of a run that succeeded. -/
def okCalls (calls : List (Alloc ε)) : List (Alloc ε) := calls.filter fun a => a.id?.isSome

/-- The persist arguments of the calls that succeeded, in order. -/
def durablePersists (calls : List (Alloc ε)) : List Nat := calls.filterMap Alloc.durable?

/-- The last persist argument of a successful call after a run from `max_id = m0`, else `m0`. -/
def durableCeiling (m0 : Nat) (calls : List (Alloc ε)) : Nat :=
  (durablePersists calls).getLast?.getD m0

/-- The value a call's callback accepted: the argument the call passed to
`persist_next_max_id`, when the callback answered `Ok` for it. -/
def Alloc.accepted? (a : Alloc ε) (persist : Nat → Except ε Unit) : Option Nat :=
  a.persisted.filter fun v => (persist v).toBool

/-- The values the callbacks `ps` accepted, in call order. -/
def acceptedPersists (ps : List (Nat → Except ε Unit)) (calls : List (Alloc ε)) : List Nat :=
  (calls.zip ps).filterMap fun c => c.1.accepted? c.2

/-- The durable ceiling by the callbacks' answers: the last value accepted, else `m0`. -/
def acceptedCeiling (m0 : Nat) (ps : List (Nat → Except ε Unit)) (calls : List (Alloc ε)) : Nat :=
  (acceptedPersists ps calls).getLast?.getD m0

/-- The persist the call that finds `last_id = x` makes, when `max_id` started at `m0`. -/
def persistAt (m0 step x : Nat) : Option Nat :=
  if m0 ≤ x ∧ step ∣ x - m0 then some (x + step) else none

/-- Everything one call can do (Rust `Inner::alloc_id`). -/
lemma Inner.allocId_cases (s : Inner) (p : Nat → Except ε Unit) :
    (s.lastId < s.maxId ∧
      s.allocId p = (⟨none, .ok (s.lastId + 1)⟩, { s with lastId := s.lastId + 1 })) ∨
    (s.maxId ≤ s.lastId ∧ ∃ e, p (s.lastId + s.allocStep) = .error e ∧
      s.allocId p = (⟨some (s.lastId + s.allocStep), .error e⟩, s)) ∨
    (s.maxId ≤ s.lastId ∧ p (s.lastId + s.allocStep) = .ok () ∧
      s.allocId p = (⟨some (s.lastId + s.allocStep), .ok (s.lastId + 1)⟩,
        { s with maxId := s.lastId + s.allocStep, lastId := s.lastId + 1 })) := by
  unfold Inner.allocId
  split
  · exact .inl ⟨‹_›, rfl⟩
  · cases h : p (s.lastId + s.allocStep) with
    | error e => exact .inr (.inl ⟨by omega, e, rfl, by simp only [h]⟩)
    | ok u => exact .inr (.inr ⟨by omega, rfl, by simp only [h]⟩)

@[simp] lemma Inner.allocId_allocStep (s : Inner) (p : Nat → Except ε Unit) :
    (s.allocId p).2.allocStep = s.allocStep := by
  rcases s.allocId_cases p with ⟨-, h⟩ | ⟨-, e, -, h⟩ | ⟨-, -, h⟩ <;> rw [h]

/-- A call either fails and changes nothing, or returns `last_id + 1` and moves `last_id` there;
`max_id` moves exactly to the ceiling the call made durable. -/
lemma Inner.allocId_spec (s : Inner) (p : Nat → Except ε Unit) :
    ((s.allocId p).1.id? = none ∧ (s.allocId p).2 = s ∨
      (s.allocId p).1.id? = some (s.lastId + 1) ∧ (s.allocId p).2.lastId = s.lastId + 1) ∧
    (s.allocId p).2.maxId = ((s.allocId p).1.durable?).getD s.maxId := by
  rcases s.allocId_cases p with ⟨-, h⟩ | ⟨-, e, -, h⟩ | ⟨-, -, h⟩ <;>
    simp [h, Alloc.id?, Alloc.durable?]

/-- The id a call returns lies below the `max_id` it leaves. -/
lemma Inner.allocId_id_le (s : Inner) (p : Nat → Except ε Unit) {id : Nat}
    (h : (s.allocId p).1.id? = some id) : id ≤ (s.allocId p).2.maxId := by
  have := s.allocStep_pos
  rcases s.allocId_cases p with ⟨hlt, e⟩ | ⟨-, _, -, e⟩ | ⟨-, -, e⟩ <;>
    simp only [e, Alloc.id?, Option.some.injEq, reduceCtorEq] at h ⊢ <;> omega

/-- A persist that succeeds lifts the ceiling strictly above `max_id`. -/
lemma Inner.allocId_durable_gt (s : Inner) (p : Nat → Except ε Unit) {v : Nat}
    (h : (s.allocId p).1.durable? = some v) : s.maxId < v := by
  have := s.allocStep_pos
  rcases s.allocId_cases p with ⟨-, e⟩ | ⟨-, _, -, e⟩ | ⟨hle, -, e⟩
  · simp [e, Alloc.durable?] at h
  · simp [e, Alloc.durable?] at h
  · simp only [e, Alloc.durable?, Option.some.injEq] at h
    omega

@[simp] lemma Inner.allocAll_nil (s : Inner) : s.allocAll ([] : List (Nat → Except ε Unit)) = ([], s) :=
  rfl

@[simp] lemma Inner.allocAll_cons (s : Inner) (p : Nat → Except ε Unit) (ps) :
    s.allocAll (p :: ps) = ((s.allocId p).1 :: ((s.allocId p).2.allocAll ps).1,
      ((s.allocId p).2.allocAll ps).2) := rfl

/-- A run of `ps ++ qs` is the run of `ps` followed by the run of `qs` from where it stopped. -/
lemma Inner.allocAll_append (s : Inner) (ps qs : List (Nat → Except ε Unit)) :
    s.allocAll (ps ++ qs) = ((s.allocAll ps).1 ++ ((s.allocAll ps).2.allocAll qs).1,
      ((s.allocAll ps).2.allocAll qs).2) := by
  induction ps generalizing s with
  | nil => rfl
  | cons p ps ih => simp [ih]

/-- A run extended by one call ends with that call, made from where the run stopped. -/
lemma Inner.allocAll_concat (s : Inner) (ps : List (Nat → Except ε Unit)) (p : Nat → Except ε Unit) :
    s.allocAll (ps ++ [p]) = ((s.allocAll ps).1 ++ [((s.allocAll ps).2.allocId p).1],
      ((s.allocAll ps).2.allocId p).2) := by
  simp [Inner.allocAll_append]

@[simp] lemma Inner.allocAll_length (s : Inner) (ps : List (Nat → Except ε Unit)) :
    (s.allocAll ps).1.length = ps.length := by
  induction ps generalizing s <;> simp [*]

@[simp] lemma Inner.allocAll_allocStep (s : Inner) (ps : List (Nat → Except ε Unit)) :
    (s.allocAll ps).2.allocStep = s.allocStep := by
  induction ps generalizing s <;> simp [*]

/-- The `i`-th call of a run is the call made from the state the first `i` calls left. -/
lemma Inner.allocAll_getElem? (s : Inner) (ps : List (Nat → Except ε Unit)) {i : Nat}
    (hi : i < ps.length) :
    (s.allocAll ps).1[i]? = some ((s.allocAll (ps.take i)).2.allocId ps[i]).1 := by
  conv_lhs => rw [← List.take_append_drop i ps, List.drop_eq_getElem_cons hi]
  rw [Inner.allocAll_append, Inner.allocAll_cons, List.getElem?_append_right (by simp)]
  simp [Nat.min_eq_left hi.le]

/-- Returned ids are `l0 + 1, l0 + 2, …`, and `last_id` ends at the last of them. -/
lemma Inner.allocAll_okIds (s : Inner) (ps : List (Nat → Except ε Unit)) :
    okIds (s.allocAll ps).1 = List.range' (s.lastId + 1) (okIds (s.allocAll ps).1).length ∧
    (s.allocAll ps).2.lastId = s.lastId + (okIds (s.allocAll ps).1).length := by
  induction ps generalizing s with
  | nil => simp [okIds]
  | cons p ps ih =>
    obtain ⟨ih1, ih2⟩ := ih (s.allocId p).2
    rcases (s.allocId_spec p).1 with ⟨hn, hs⟩ | ⟨hid, hl⟩
    · simp only [okIds, Inner.allocAll_cons, List.filterMap_cons, hn] at ih1 ih2 ⊢
      rw [hs] at ih1 ih2 ⊢
      exact ⟨ih1, ih2⟩
    · simp only [okIds, Inner.allocAll_cons, List.filterMap_cons, hid, List.length_cons,
        List.range'_succ] at ih1 ih2 ⊢
      rw [hl] at ih1 ih2
      exact ⟨congrArg _ ih1, by omega⟩

/-- Every id of a run lies strictly above the `last_id` it started from. -/
lemma Inner.allocAll_okIds_gt (s : Inner) (ps : List (Nat → Except ε Unit)) :
    ∀ id ∈ okIds (s.allocAll ps).1, s.lastId < id := by
  intro id hid
  rw [(s.allocAll_okIds ps).1, List.mem_range'_1] at hid
  omega

/-- `max_id` after a run is the durable ceiling of the run. -/
lemma Inner.allocAll_maxId (s : Inner) (ps : List (Nat → Except ε Unit)) :
    (s.allocAll ps).2.maxId = durableCeiling s.maxId (s.allocAll ps).1 := by
  induction ps generalizing s with
  | nil => rfl
  | cons p ps ih =>
    rw [Inner.allocAll_cons, ih, (s.allocId_spec p).2]
    cases h : (s.allocId p).1.durable? <;>
      simp [durableCeiling, durablePersists, List.filterMap_cons, h, List.getLast?_cons]

/-- A call's callback accepted exactly the ceiling the call made durable. -/
lemma Inner.allocId_accepted? (s : Inner) (p : Nat → Except ε Unit) :
    (s.allocId p).1.accepted? p = (s.allocId p).1.durable? := by
  rcases s.allocId_cases p with ⟨-, e⟩ | ⟨-, er, he, e⟩ | ⟨-, he, e⟩ <;> rw [e]
  · rfl
  all_goals simp [Alloc.accepted?, Option.filter, he, Except.toBool]

/-- The callbacks accepted exactly the ceilings of the calls that succeeded. -/
lemma Inner.allocAll_acceptedPersists (s : Inner) (ps : List (Nat → Except ε Unit)) :
    acceptedPersists ps (s.allocAll ps).1 = durablePersists (s.allocAll ps).1 := by
  induction ps generalizing s with
  | nil => rfl
  | cons p ps ih =>
    have h := ih (s.allocId p).2
    rw [acceptedPersists, durablePersists] at h
    rw [Inner.allocAll_cons, acceptedPersists, durablePersists, List.zip_cons_cons,
      List.filterMap_cons, List.filterMap_cons, Inner.allocId_accepted?, h]

/-- Successful persists strictly increase, all above the starting `max_id`. -/
lemma Inner.allocAll_durable_sorted (s : Inner) (ps : List (Nat → Except ε Unit)) :
    (durablePersists (s.allocAll ps).1).Sorted (· < ·) ∧
    ∀ v ∈ durablePersists (s.allocAll ps).1, s.maxId < v := by
  induction ps generalizing s with
  | nil => simp [durablePersists]
  | cons p ps ih =>
    obtain ⟨ih1, ih2⟩ := ih (s.allocId p).2
    have hmax := (s.allocId_spec p).2
    simp only [durablePersists, Inner.allocAll_cons, List.filterMap_cons] at ih1 ih2 ⊢
    cases h : (s.allocId p).1.durable? with
    | none =>
      simp only [h, Option.getD_none] at hmax ⊢
      exact ⟨ih1, fun v hv => hmax ▸ ih2 v hv⟩
    | some v =>
      have hv := s.allocId_durable_gt p h
      simp only [h, Option.getD_some] at hmax ⊢
      refine ⟨List.sorted_cons.2 ⟨fun w hw => hmax ▸ ih2 w hw, ih1⟩, ?_⟩
      rintro w (_ | ⟨_, hw⟩)
      · exact hv
      · exact hv.trans (hmax ▸ ih2 w hw)

/-- The starting `max_id` never exceeds the one a run leaves. -/
lemma Inner.allocAll_maxId_ge (s : Inner) (ps : List (Nat → Except ε Unit)) :
    s.maxId ≤ (s.allocAll ps).2.maxId := by
  rw [s.allocAll_maxId ps, durableCeiling]
  cases h : (durablePersists (s.allocAll ps).1).getLast? with
  | none => rfl
  | some v =>
    exact ((s.allocAll_durable_sorted ps).2 v (List.mem_of_getLast?_eq_some h)).le

/-- Every id a run returned lies below the `max_id` it leaves. -/
lemma Inner.allocAll_okIds_le (s : Inner) (ps : List (Nat → Except ε Unit)) :
    ∀ id ∈ okIds (s.allocAll ps).1, id ≤ (s.allocAll ps).2.maxId := by
  induction ps generalizing s with
  | nil => simp [okIds]
  | cons p ps ih =>
    intro id hid
    simp only [okIds, Inner.allocAll_cons, List.filterMap_cons] at hid ⊢
    cases h : (s.allocId p).1.id? with
    | none => simp only [h] at hid; exact ih _ id hid
    | some id₀ =>
      simp only [h, List.mem_cons] at hid
      rcases hid with rfl | hid
      · exact (s.allocId_id_le p h).trans ((s.allocId p).2.allocAll_maxId_ge ps)
      · exact ih _ id hid

/-- Durability of a run of `Inner::alloc_id` calls, by what the callbacks accepted. -/
theorem allocAll_durable (s : Inner) (ps : List (Nat → Except ε Unit)) :
    (∀ k, ∀ id ∈ okIds (s.allocAll (ps.take k)).1,
      id ≤ acceptedCeiling s.maxId (ps.take k) (s.allocAll (ps.take k)).1) ∧
    (acceptedPersists ps (s.allocAll ps).1).Sorted (· < ·) ∧
    ∀ (t : Inner) (qs : List (Nat → Except ε' Unit)),
      acceptedCeiling s.maxId ps (s.allocAll ps).1 ≤ t.lastId →
      ∀ id ∈ okIds (s.allocAll ps).1, ∀ id' ∈ okIds (t.allocAll qs).1, id < id' := by
  have hc : ∀ qs : List (Nat → Except ε Unit),
      acceptedCeiling s.maxId qs (s.allocAll qs).1 = (s.allocAll qs).2.maxId := fun qs => by
    rw [acceptedCeiling, Inner.allocAll_acceptedPersists, s.allocAll_maxId]; rfl
  refine ⟨fun k id hid => hc _ ▸ s.allocAll_okIds_le _ id hid,
    s.allocAll_acceptedPersists ps ▸ (s.allocAll_durable_sorted ps).1,
    fun t qs hcl id hid id' hid' => ?_⟩
  have h1 := s.allocAll_okIds_le ps id hid
  have h2 := t.allocAll_okIds_gt qs id' hid'
  rw [hc] at hcl
  omega

/-- `max_id` is `m0` plus `c` whole steps, at or above `last_id`, and, once it has moved, less
than a step above it. -/
structure AlignedCeiling (m0 c : Nat) (s : Inner) : Prop where
  le : s.lastId ≤ s.maxId
  eq : s.maxId = m0 + c * s.allocStep
  tight : c = 0 ∨ s.maxId < s.lastId + s.allocStep

section Aligned

variable {m0 c : Nat} {s : Inner}

/-- Under an aligned ceiling a call persists exactly when `last_id` is `m0` plus whole steps. -/
lemma AlignedCeiling.persists_iff (h : AlignedCeiling m0 c s) :
    s.maxId ≤ s.lastId ↔ m0 ≤ s.lastId ∧ s.allocStep ∣ s.lastId - m0 := by
  have ⟨hle, heq, ht⟩ := h
  constructor
  · intro hge
    exact ⟨by omega, ⟨c, by rw [Nat.mul_comm]; omega⟩⟩
  · rintro ⟨hm, q, hq⟩
    rcases ht with rfl | ht
    · omega
    · have hcq : c < q + 1 := Nat.lt_of_mul_lt_mul_right (a := s.allocStep) (by
        rw [Nat.succ_mul, Nat.mul_comm q]; omega)
      have := Nat.mul_le_mul_right s.allocStep (Nat.le_of_lt_succ hcq)
      rw [Nat.mul_comm q] at this
      omega

/-- A call that takes the fast path keeps the ceiling aligned. -/
lemma AlignedCeiling.fast (h : AlignedCeiling m0 c s) (hlt : s.lastId < s.maxId) :
    AlignedCeiling m0 c { s with lastId := s.lastId + 1 } :=
  ⟨hlt, h.eq, h.tight.imp_right fun ht => by simp only; omega⟩

/-- A call whose persist succeeds moves the ceiling up by one step. -/
lemma AlignedCeiling.slow (h : AlignedCeiling m0 c s) (hge : s.maxId ≤ s.lastId) :
    AlignedCeiling m0 (c + 1)
      { s with maxId := s.lastId + s.allocStep, lastId := s.lastId + 1 } := by
  have := s.allocStep_pos
  have ⟨hle, heq, _⟩ := h
  exact ⟨by simp only; omega, by simp only [Nat.succ_mul]; omega, .inr (by simp only; omega)⟩

/-- The successful calls of a run persist exactly at the `last_id` values that `persistAt` picks. -/
lemma AlignedCeiling.okCalls_persisted (h : AlignedCeiling m0 c s) (ps : List (Nat → Except ε Unit)) :
    (okCalls (s.allocAll ps).1).map Alloc.persisted =
      (List.range (okCalls (s.allocAll ps).1).length).map fun k =>
        persistAt m0 s.allocStep (s.lastId + k) := by
  induction ps generalizing s c with
  | nil => rfl
  | cons p ps ih =>
    have hp := h.persists_iff
    rcases s.allocId_cases p with ⟨hlt, e⟩ | ⟨-, _, -, e⟩ | ⟨hge, -, e⟩
    · have ih' := ih (h.fast hlt)
      simp only [okCalls, Inner.allocAll_cons, e, Alloc.id?_ok, List.filter_cons,
        Option.isSome_some, if_true, List.map_cons, List.length_cons,
        List.range_succ_eq_map, List.map_map] at ih' ⊢
      rw [ih']
      refine congrArg₂ _ (by simp [persistAt, ← hp, Nat.not_le.2 hlt])
        (List.map_inj_left.2 fun k _ => congrArg _ (by omega))
    · simpa [okCalls, e] using ih h
    · have ih' := ih (h.slow hge)
      simp only [okCalls, Inner.allocAll_cons, e, Alloc.id?_ok, List.filter_cons,
        Option.isSome_some, if_true, List.map_cons, List.length_cons,
        List.range_succ_eq_map, List.map_map] at ih' ⊢
      rw [ih']
      refine congrArg₂ _ (by simp [persistAt, ← hp, hge])
        (List.map_inj_left.2 fun k _ => congrArg _ (by omega))

/-- The successful persists of a run carry `m0 + (c + 1)·step, m0 + (c + 2)·step, …`. -/
lemma AlignedCeiling.durablePersists_eq (h : AlignedCeiling m0 c s)
    (ps : List (Nat → Except ε Unit)) :
    durablePersists (s.allocAll ps).1 =
      (List.range (durablePersists (s.allocAll ps).1).length).map fun i =>
        m0 + (c + i + 1) * s.allocStep := by
  induction ps generalizing s c with
  | nil => rfl
  | cons p ps ih =>
    rcases s.allocId_cases p with ⟨hlt, e⟩ | ⟨-, _, -, e⟩ | ⟨hge, -, e⟩
    · simpa [durablePersists, e] using ih (h.fast hlt)
    · simpa [durablePersists, e] using ih h
    · have ih' := ih (h.slow hge)
      simp only [durablePersists, Inner.allocAll_cons, e, List.filterMap_cons,
        Alloc.durable?_ok, List.length_cons, List.range_succ_eq_map, List.map_cons,
        List.map_map] at ih' ⊢
      conv_lhs => rw [ih']
      have ⟨hle, heq, _⟩ := h
      congr 1
      · rw [Nat.add_zero, Nat.succ_mul]; omega
      · exact List.map_inj_left.2 fun k _ => congrArg (fun x => m0 + x * s.allocStep) (by
          simp only [Nat.succ_eq_add_one]; omega)

end Aligned

/-- The sequential contract of `Inner::alloc_id` (Rust `Inner::alloc_id`, `test_alloc_id`). -/
theorem allocAll_contract (s : Inner) (ps : List (Nat → Except ε Unit)) :
    (∀ (i : Nat) (hi : i < ps.length) (a : Alloc ε), (s.allocAll ps).1[i]? = some a → ∀ e,
      (a.result = .error e ↔ ∃ v, a.persisted = some v ∧ ps[i] v = .error e) ∧
      (a.result = .error e →
        (s.allocAll (ps.take (i + 1))).2 = (s.allocAll (ps.take i)).2)) ∧
    okIds (s.allocAll ps).1 = List.range' (s.lastId + 1) (okIds (s.allocAll ps).1).length ∧
    (s.lastId ≤ s.maxId →
      (okCalls (s.allocAll ps).1).map Alloc.persisted =
        (List.range (okCalls (s.allocAll ps).1).length).map (fun k =>
          persistAt s.maxId s.allocStep (s.lastId + k)) ∧
      acceptedPersists ps (s.allocAll ps).1 =
        (List.range (acceptedPersists ps (s.allocAll ps).1).length).map fun i =>
          s.maxId + (i + 1) * s.allocStep) := by
  refine ⟨fun i hi a ha e => ?_, (s.allocAll_okIds ps).1, fun hl => ?_⟩
  · rw [s.allocAll_getElem? ps hi, Option.some.injEq] at ha
    subst ha
    rw [List.take_succ, List.getElem?_eq_getElem hi, Option.toList_some, Inner.allocAll_append]
    rcases (s.allocAll (ps.take i)).2.allocId_cases ps[i] with ⟨-, h⟩ | ⟨-, e', he, h⟩ | ⟨-, he, h⟩
    · simp [h]
    all_goals rw [Inner.allocAll_allocStep] at he; simp [h, he]
  · have h0 : AlignedCeiling s.maxId 0 s := ⟨hl, by simp, .inl rfl⟩
    rw [s.allocAll_acceptedPersists]
    exact ⟨h0.okCalls_persisted ps, by simpa using h0.durablePersists_eq ps⟩

end CeresDB.IdAllocator
