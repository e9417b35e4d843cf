import CeresDB.Cluster.ShardTables

/-!
# Topology cache and `fetch_nodes`

Model of `Inner::fetch_nodes` in `cluster_impl.rs` over the `ClusterTopology` cache it keeps under
a readers-writer lock. The cache's own source is not among the sources: `maybe_update_nodes` is
modelled from the spec, storing the fetched pair and answering true iff the fetched version is
strictly greater than the stored one (or nothing is stored).

A call reads the cache and returns it if there is one; otherwise it awaits `get_nodes`, offers the
answer to `maybe_update_nodes` under the write lock, and returns the answer if it was stored or
else reads the cache again under the read lock. Each lock section and the meta service's answer
are one step of a `TopologyWorld`, so calls interleave at every await and between the write lock
and the second read lock. The meta service may answer anything, in any order. A ghost clock
stamps when each call began and returned, and a ghost log keeps every answer the meta service
gave.

The invariant `TopologyWorld.Inv` says the cache holds an answer of the meta service, a returned
topology is one too and is at most the cached version, a call that fetched began before any call
returned a topology, and returned versions are ordered like the calls' real-time order. Progress
is a few steps of the call itself, whatever state it meets: a call the meta service answered
returns once it offers the answer and, if refused, reads the cache again (`served_returns`), and a
call that begins returns after its own four steps (`fetch_returns`). The headline
`TopologyWorld.run_fetchNodes` states both in every reachable world.
-/

namespace CeresDB.Cluster

variable {N : Type}

/-- A node topology: the cluster topology version and the node list of that version. -/
structure NodeTopology (N : Type) where
  version : Nat
  nodes : List N

/-- Modelled from the spec: `ClusterTopology`, the cached node topology, if any. -/
structure ClusterTopology (N : Type) where
  nodes : Option (NodeTopology N)

/-- Modelled from the spec: `maybe_update_nodes(nodes, version)` stores the pair and returns true
iff the version is strictly greater than the stored one, or nothing is stored. -/
def ClusterTopology.maybeUpdateNodes (t : ClusterTopology N) (nodes : List N) (version : Nat) :
    Bool × ClusterTopology N :=
  match t.nodes with
  | some cached =>
    if cached.version < version then (true, ⟨some ⟨version, nodes⟩⟩) else (false, t)
  | none => (true, ⟨some ⟨version, nodes⟩⟩)

/-- A `fetch_nodes` call past its first read: awaiting `get_nodes`, answered, or, after
`maybe_update_nodes` returned false, about to read the cache again. -/
inductive FetchPhase (N : Type) where
  | awaiting
  | served (resp : Except String (NodeTopology N))
  | rereading (version : Nat)

/-- A returned `fetch_nodes` call: the steps at which it began and returned, and its result. -/
structure FetchReturn (N : Type) where
  began : Nat
  returned : Nat
  result : Except Error (NodeTopology N)

/-- The topology cache, the calls in flight with the step they began at, the ghost clock, every
answer of the meta service, and the returned calls. -/
structure TopologyWorld (N : Type) where
  topology : ClusterTopology N
  calls : Nat → Option (Nat × FetchPhase N)
  clock : Nat
  served : List (NodeTopology N)
  returns : List (FetchReturn N)

/-- A step: a call begins (and returns the cache if there is one), the meta service answers a call,
a call offers its answer to `maybe_update_nodes`, or a call reads the cache again. -/
inductive TopologyEvent (N : Type) where
  | fetchNodes (call : Nat)
  | serve (call : Nat) (resp : Except String (NodeTopology N))
  | update (call : Nat)
  | reread (call : Nat)

namespace TopologyWorld

/-- `Inner::new`: an empty cache. -/
def init : TopologyWorld N := ⟨⟨none⟩, fun _ => none, 0, [], []⟩

/-- Call `i`, begun at step `began`, returns `result` now. -/
def finishCall (w : TopologyWorld N) (i began : Nat) (result : Except Error (NodeTopology N)) :
    TopologyWorld N :=
  { w with
    calls := Function.update w.calls i none
    returns := w.returns ++ [⟨began, w.clock, result⟩] }

/-- What a step does to the cache, the calls and the logs. -/
def act (w : TopologyWorld N) : TopologyEvent N → TopologyWorld N
  | .fetchNodes i =>
    match w.calls i, w.topology.nodes with
    | none, some cached => w.finishCall i w.clock (.ok cached)
    | none, none => { w with calls := Function.update w.calls i (some (w.clock, .awaiting)) }
    | some _, _ => w
  | .serve i resp =>
    match w.calls i with
    | some (b, .awaiting) =>
      { w with
        calls := Function.update w.calls i (some (b, .served resp))
        served := match resp with
          | .ok t => w.served ++ [t]
          | .error _ => w.served }
    | _ => w
  | .update i =>
    match w.calls i with
    | some (b, .served (.error e)) => w.finishCall i b (.error (.metaClientFailure e))
    | some (b, .served (.ok t)) =>
      match w.topology.maybeUpdateNodes t.nodes t.version with
      | (true, topology) => { w with topology := topology }.finishCall i b (.ok t)
      | (false, topology) =>
        { w with
          topology := topology
          calls := Function.update w.calls i (some (b, .rereading t.version)) }
    | _ => w
  | .reread i =>
    match w.calls i with
    | some (b, .rereading v) =>
      match w.topology.nodes with
      | some cached => w.finishCall i b (.ok cached)
      | none => w.finishCall i b (.error (.clusterNodesNotFound v))
    | _ => w

/-- One step, the ghost clock ticking. -/
def step (w : TopologyWorld N) (e : TopologyEvent N) : TopologyWorld N :=
  { w.act e with clock := w.clock + 1 }

/-- A run: the steps in the order they happen. -/
def run (w : TopologyWorld N) (es : List (TopologyEvent N)) : TopologyWorld N := es.foldl step w

/-- What every reachable state satisfies. -/
structure Inv (w : TopologyWorld N) : Prop where
  cached : ∀ t, w.topology.nodes = some t → t ∈ w.served
  pending : ∀ i b t, w.calls i = some (b, .served (.ok t)) → t ∈ w.served
  began : ∀ i b p, w.calls i = some (b, p) → b < w.clock
  empty : ∀ i b p, w.calls i = some (b, p) →
    ∀ r ∈ w.returns, r.returned < b → ∀ t, r.result ≠ .ok t
  rereading : ∀ i b v, w.calls i = some (b, .rereading v) → w.topology.nodes.isSome
  ok_served : ∀ r ∈ w.returns, ∀ t, r.result = .ok t → t ∈ w.served
  ok_le : ∀ r ∈ w.returns, ∀ t, r.result = .ok t →
    ∃ c, w.topology.nodes = some c ∧ t.version ≤ c.version
  time : ∀ r ∈ w.returns, r.began ≤ r.returned ∧ r.returned < w.clock
  mono : ∀ a ∈ w.returns, ∀ b ∈ w.returns, ∀ ta tb, a.result = .ok ta → b.result = .ok tb →
    b.returned < a.began → tb.version ≤ ta.version
  notFound : ∀ r ∈ w.returns, ∀ v, r.result ≠ .error (.clusterNodesNotFound v)

/-- A stored answer is the fetched pair, above whatever was stored. -/
lemma maybeUpdateNodes_true {t t' : ClusterTopology N} {nodes : List N} {version : Nat}
    (h : t.maybeUpdateNodes nodes version = (true, t')) :
    t' = ⟨some ⟨version, nodes⟩⟩ ∧ ∀ c, t.nodes = some c → c.version < version := by
  unfold ClusterTopology.maybeUpdateNodes at h
  split at h
  · next c hc =>
    split at h
    · next hlt => cases h; exact ⟨rfl, fun c' hc' => by rw [hc] at hc'; cases hc'; exact hlt⟩
    · cases h
  · next hc => cases h; exact ⟨rfl, fun c' hc' => by rw [hc] at hc'; cases hc'⟩

/-- A refused answer leaves the cache as it was, holding a version at least as high. -/
lemma maybeUpdateNodes_false {t t' : ClusterTopology N} {nodes : List N} {version : Nat}
    (h : t.maybeUpdateNodes nodes version = (false, t')) :
    t' = t ∧ ∃ c, t.nodes = some c ∧ version ≤ c.version := by
  unfold ClusterTopology.maybeUpdateNodes at h
  split at h
  · next c hc =>
    split at h
    · cases h
    · next hlt => cases h; exact ⟨rfl, c, hc, Nat.le_of_not_lt hlt⟩
  · cases h

section Invariant

variable {w : TopologyWorld N}

lemma init_inv : (init : TopologyWorld N).Inv where
  cached t h := by cases h
  pending i b t h := by cases h
  began i b p h := by cases h
  empty i b p h := by cases h
  rereading i b v h := by cases h
  ok_served r h := by cases h
  ok_le r h := by cases h
  time r h := by cases h
  mono a h := by cases h
  notFound r h := by cases h

/-- The clock ticking keeps the invariant. -/
lemma Inv.tick (hs : w.Inv) : ({ w with clock := w.clock + 1 } : TopologyWorld N).Inv where
  cached := hs.cached
  pending := hs.pending
  began i b p h := Nat.lt_succ_of_lt (hs.began i b p h)
  empty := hs.empty
  rereading := hs.rereading
  ok_served := hs.ok_served
  ok_le := hs.ok_le
  time r hr := ⟨(hs.time r hr).1, Nat.lt_succ_of_lt (hs.time r hr).2⟩
  mono := hs.mono
  notFound := hs.notFound

/-- A call still in flight after call `i` returned was in flight before. -/
lemma calls_of_update_none {calls : Nat → Option (Nat × FetchPhase N)} {i j : Nat}
    {c : Nat × FetchPhase N} (h : Function.update calls i none j = some c) : calls j = some c := by
  by_cases hj : j = i
  · subst hj; simp at h
  · rwa [Function.update_noteq hj] at h

/-- A returned call is one of those returned before, or the one returning now. -/
lemma mem_returns_finishCall {w : TopologyWorld N} (i : Nat) {b : Nat}
    {result : Except Error (NodeTopology N)} {r : FetchReturn N}
    (h : r ∈ (w.finishCall i b result).returns) : r ∈ w.returns ∨ r = ⟨b, w.clock, result⟩ := by
  simpa [finishCall] using h

/-- A call begun at `b` returning `result` keeps the invariant when a returned topology is an
answer of the meta service, at most the cached version, and at least the version of every call
that returned before `b`. -/
lemma Inv.finish (hs : w.Inv) {i b : Nat} {result : Except Error (NodeTopology N)}
    (hb : b ≤ w.clock)
    (hok : ∀ t, result = .ok t → t ∈ w.served ∧
      (∃ c, w.topology.nodes = some c ∧ t.version ≤ c.version) ∧
      ∀ x ∈ w.returns, ∀ tx, x.result = .ok tx → x.returned < b → tx.version ≤ t.version)
    (hnf : ∀ v, result ≠ .error (.clusterNodesNotFound v)) :
    ({ w.finishCall i b result with clock := w.clock + 1 } : TopologyWorld N).Inv where
  cached := hs.cached
  pending j b' t h := hs.pending j b' t (calls_of_update_none h)
  began j b' p h := Nat.lt_succ_of_lt (hs.began j b' p (calls_of_update_none h))
  empty j b' p h r hr := by
    have hj := calls_of_update_none h
    rcases mem_returns_finishCall i hr with hr | rfl
    · exact hs.empty j b' p hj r hr
    · exact fun hlt => absurd (hs.began j b' p hj) (Nat.not_lt_of_gt hlt)
  rereading j b' v h := hs.rereading j b' v (calls_of_update_none h)
  ok_served r hr t ht := by
    rcases mem_returns_finishCall i hr with hr | rfl
    · exact hs.ok_served r hr t ht
    · exact (hok t ht).1
  ok_le r hr t ht := by
    rcases mem_returns_finishCall i hr with hr | rfl
    · exact hs.ok_le r hr t ht
    · exact (hok t ht).2.1
  time r hr := by
    rcases mem_returns_finishCall i hr with hr | rfl
    · exact ⟨(hs.time r hr).1, Nat.lt_succ_of_lt (hs.time r hr).2⟩
    · exact ⟨hb, Nat.lt_succ_self _⟩
  mono a ha x hx ta tx hta htx hlt := by
    rcases mem_returns_finishCall i ha with ha | rfl <;>
      rcases mem_returns_finishCall i hx with hx | rfl
    · exact hs.mono a ha x hx ta tx hta htx hlt
    · have := hs.time a ha; simp only at hlt; omega
    · exact (hok ta hta).2.2 x hx tx htx hlt
    · simp only at hlt; omega
  notFound r hr v := by
    rcases mem_returns_finishCall i hr with hr | rfl
    · exact hs.notFound r hr v
    · exact hnf v

/-- Storing an answer of the meta service at least as high as the cached one keeps the
invariant. -/
lemma Inv.store (hs : w.Inv) {c : NodeTopology N} (hc : c ∈ w.served)
    (hle : ∀ c₀, w.topology.nodes = some c₀ → c₀.version ≤ c.version) :
    ({ w with topology := ⟨some c⟩ } : TopologyWorld N).Inv where
  cached t h := by cases h; exact hc
  pending := hs.pending
  began := hs.began
  empty := hs.empty
  rereading _ _ _ _ := rfl
  ok_served := hs.ok_served
  ok_le r hr t ht := by
    obtain ⟨c₀, h₀, hle₀⟩ := hs.ok_le r hr t ht
    exact ⟨c, rfl, Nat.le_trans hle₀ (hle c₀ h₀)⟩
  time := hs.time
  mono := hs.mono
  notFound := hs.notFound

/-- A call in flight after call `i` moved to phase `c` is call `i` in that phase, or was in
flight before. -/
lemma calls_of_update_some {calls : Nat → Option (Nat × FetchPhase N)} {i j : Nat}
    {c c' : Nat × FetchPhase N} (h : Function.update calls i (some c) j = some c') :
    (j = i ∧ c' = c) ∨ calls j = some c' := by
  by_cases hj : j = i
  · subst hj; simp only [Function.update_same, Option.some.injEq] at h; exact .inl ⟨rfl, h.symm⟩
  · rw [Function.update_noteq hj] at h; exact .inr h

/-- A call moving on to a new phase keeps the invariant when it began before now and before any
call returned a topology, an answer it holds is logged, and it rereads only a filled cache. -/
lemma Inv.setCall (hs : w.Inv) (i b : Nat) (p : FetchPhase N) (log : List (NodeTopology N))
    (hsub : ∀ t ∈ w.served, t ∈ log) (hb : b ≤ w.clock)
    (hempty : ∀ r ∈ w.returns, r.returned < b → ∀ t, r.result ≠ .ok t)
    (hpend : ∀ t, p = .served (.ok t) → t ∈ log)
    (hre : ∀ v, p = .rereading v → w.topology.nodes.isSome) :
    ({ w with
        calls := Function.update w.calls i (some (b, p))
        served := log
        clock := w.clock + 1 } : TopologyWorld N).Inv where
  cached t h := hsub t (hs.cached t h)
  pending j b' t h := by
    rcases calls_of_update_some h with ⟨-, h⟩ | h
    · cases h; exact hpend t rfl
    · exact hsub t (hs.pending j b' t h)
  began j b' p' h := by
    rcases calls_of_update_some h with ⟨-, h⟩ | h
    · cases h; exact Nat.lt_succ_of_le hb
    · exact Nat.lt_succ_of_lt (hs.began j b' p' h)
  empty j b' p' h := by
    rcases calls_of_update_some h with ⟨-, h⟩ | h
    · cases h; exact hempty
    · exact hs.empty j b' p' h
  rereading j b' v h := by
    rcases calls_of_update_some h with ⟨-, h⟩ | h
    · cases h; exact hre v rfl
    · exact hs.rereading j b' v h
  ok_served r hr t ht := hsub t (hs.ok_served r hr t ht)
  ok_le := hs.ok_le
  time r hr := ⟨(hs.time r hr).1, Nat.lt_succ_of_lt (hs.time r hr).2⟩
  mono := hs.mono
  notFound := hs.notFound

/-- Every step keeps the invariant. -/
lemma Inv.step (hs : w.Inv) (e : TopologyEvent N) : (w.step e).Inv := by
  cases e with
  | fetchNodes i =>
    simp only [TopologyWorld.step, TopologyWorld.act]
    split
    · next cached hc =>
      refine hs.finish (Nat.le_refl _) (fun t ht => ?_) (by simp)
      cases ht
      refine ⟨hs.cached _ hc, ⟨_, hc, Nat.le_refl _⟩, fun x hx tx htx _ => ?_⟩
      obtain ⟨c, h, hle⟩ := hs.ok_le x hx tx htx
      rw [hc] at h; cases h; exact hle
    · next hc =>
      refine hs.setCall i _ .awaiting _ (fun _ h => h) (Nat.le_refl _) (fun r hr _ t ht => ?_)
        (by simp) (by simp)
      obtain ⟨c, h, -⟩ := hs.ok_le r hr t ht
      rw [hc] at h; cases h
    · exact hs.tick
  | serve i resp =>
    simp only [TopologyWorld.step, TopologyWorld.act]
    split
    · next b h =>
      refine hs.setCall i b _ _ ?_ (Nat.le_of_lt (hs.began i b _ h)) (hs.empty i b _ h) ?_ (by simp)
      · intro t ht; split <;> simp [ht]
      · intro t ht; cases ht; simp
    · exact hs.tick
  | update i =>
    simp only [TopologyWorld.step, TopologyWorld.act]
    split
    · next b e h =>
      exact hs.finish (Nat.le_of_lt (hs.began i b _ h)) (by simp) (by simp)
    · next b t h =>
      have ht := hs.pending i b t h
      split
      · next topology hu =>
        obtain ⟨rfl, hlt⟩ := maybeUpdateNodes_true hu
        have hw := hs.store (c := t) ht fun c₀ h₀ => Nat.le_of_lt (hlt c₀ h₀)
        refine hw.finish (Nat.le_of_lt (hs.began i b _ h)) (fun t' ht' => ?_) (by simp)
        cases ht'
        refine ⟨ht, ⟨t, rfl, Nat.le_refl _⟩, fun x hx tx htx hlt => ?_⟩
        exact absurd htx (hs.empty i b _ h x hx hlt tx)
      · next topology hu =>
        obtain ⟨rfl, c, hc, -⟩ := maybeUpdateNodes_false hu
        exact hs.setCall i b (.rereading t.version) w.served (fun _ h => h)
          (Nat.le_of_lt (hs.began i b _ h)) (hs.empty i b _ h) (by simp) (fun _ _ => by simp [hc])
    · exact hs.tick
  | reread i =>
    simp only [TopologyWorld.step, TopologyWorld.act]
    split
    · next b v h =>
      split
      · next cached hc =>
        refine hs.finish (Nat.le_of_lt (hs.began i b _ h)) (fun t ht => ?_) (by simp)
        cases ht
        refine ⟨hs.cached _ hc, ⟨_, hc, Nat.le_refl _⟩, fun x hx tx htx hlt => ?_⟩
        exact absurd htx (hs.empty i b _ h x hx hlt tx)
      · next hc =>
        have := hs.rereading i b v h
        simp [hc] at this
    · exact hs.tick

lemma Inv.run (hs : w.Inv) (es : List (TopologyEvent N)) : (w.run es).Inv := by
  induction es generalizing w with
  | nil => exact hs
  | cons e es ih => exact ih (hs.step e)

end Invariant

/-- A call the meta service has answered returns once it offers the answer to
`maybe_update_nodes` and, if that refuses it, reads the cache again. -/
lemma served_returns (w : TopologyWorld N) {i b : Nat} {resp : Except String (NodeTopology N)}
    (hi : w.calls i = some (b, .served resp)) :
    (w.run [.update i, .reread i]).calls i = none ∧
    ∃ r, (w.run [.update i, .reread i]).returns = w.returns ++ [r] ∧ r.began = b := by
  rcases resp with e | t
  · simp [run, step, act, hi, finishCall]
  · rcases hm : w.topology.maybeUpdateNodes t.nodes t.version with ⟨_ | _, topology⟩
    · simp only [run, List.foldl, step, act, hi, hm, Function.update_same]
      split <;> simp [finishCall]
    · simp [run, step, act, hi, hm, finishCall]

/-- A call that begins returns after its own four steps: it finds the cache filled, or awaits the
meta service, offers the answer and, if refused, reads the cache again. -/
lemma fetch_returns (w : TopologyWorld N) {i : Nat} (hi : w.calls i = none)
    (resp : Except String (NodeTopology N)) :
    (w.run [.fetchNodes i, .serve i resp, .update i, .reread i]).calls i = none ∧
    ∃ r, (w.run [.fetchNodes i, .serve i resp, .update i, .reread i]).returns =
      w.returns ++ [r] ∧ r.began = w.clock := by
  cases hn : w.topology.nodes with
  | some cached => simp [run, step, act, hi, hn, finishCall]
  | none =>
    have hs : (w.run [.fetchNodes i, .serve i resp]).calls i = some (w.clock, .served resp) := by
      simp [run, step, act, hi, hn]
    have hr : (w.run [.fetchNodes i, .serve i resp]).returns = w.returns := by
      simp only [run, List.foldl, step, act, hi, hn]
      split <;> rfl
    obtain ⟨hc, r, hret, hb⟩ := served_returns _ hs
    rw [hr] at hret
    exact ⟨hc, r, hret, hb⟩

/-- Concurrent `Inner::fetch_nodes` calls from an empty cache: safety and progress. -/
theorem run_fetchNodes (es : List (TopologyEvent N)) :
    (∀ r ∈ ((init : TopologyWorld N).run es).returns, ∀ t, r.result = .ok t →
      t ∈ ((init : TopologyWorld N).run es).served) ∧
    (∀ a ∈ ((init : TopologyWorld N).run es).returns, ∀ b ∈ ((init : TopologyWorld N).run es).returns,
      ∀ ta tb, a.result = .ok ta → b.result = .ok tb → b.returned < a.began →
        tb.version ≤ ta.version) ∧
    (∀ r ∈ ((init : TopologyWorld N).run es).returns, ∀ v,
      r.result ≠ .error (.clusterNodesNotFound v)) ∧
    (∀ i b resp, ((init : TopologyWorld N).run es).calls i = some (b, .served resp) →
      (((init : TopologyWorld N).run es).run [.update i, .reread i]).calls i = none ∧
      ∃ r, (((init : TopologyWorld N).run es).run [.update i, .reread i]).returns =
        ((init : TopologyWorld N).run es).returns ++ [r] ∧ r.began = b) ∧
    ∀ i resp, ((init : TopologyWorld N).run es).calls i = none →
      (((init : TopologyWorld N).run es).run
        [.fetchNodes i, .serve i resp, .update i, .reread i]).calls i = none ∧
      ∃ r, (((init : TopologyWorld N).run es).run
        [.fetchNodes i, .serve i resp, .update i, .reread i]).returns =
          ((init : TopologyWorld N).run es).returns ++ [r] ∧
        r.began = ((init : TopologyWorld N).run es).clock :=
  have hs := init_inv.run es
  ⟨hs.ok_served, hs.mono, hs.notFound, fun _ _ _ hi => served_returns _ hi,
    fun _ resp hi => fetch_returns _ hi resp⟩

end TopologyWorld

end CeresDB.Cluster
