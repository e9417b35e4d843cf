import CeresDB.Cluster.ShardTables

/-!
# `ClusterImpl`: the shard lock prefix and the heartbeat loop

Model of the parts of `cluster_impl.rs` that belong to `ClusterImpl` itself.

`shard_lock_key_prefix` checks the etcd root path and the cluster name and formats
`{root_path}/{cluster_name}/shards`. Nothing forbids a `/` in the cluster name, so it is on names
without one that two configurations never share a prefix (`shardLockKeyPrefix_injective`).

`Cluster::start` spawns a heartbeat loop (`start_heartbeat_loop`) and stores the sending end of its
stop channel and its join handle, replacing whatever was stored; `Cluster::stop` takes the sender,
sends the stop signal, and drops it. A loop sends a heartbeat with the cached shard infos, then
waits `heartbeat_interval` (after `Ok`) or `error_wait_lease` (after an error) for its channel, and
exits when `rx.recv()` completes: a signal was sent, or the sender was dropped. A sender replaced by
a second `start` is dropped, so its loop exits at its next wait. In a `HeartbeatWorld` the steps of
`start`, `stop` and every loop interleave freely; `run_heartbeatLoops` says that at most one loop is
ever left that will not exit (the one whose sender is stored), that every wait is shorter than the
lease, and `run_stoppedLoop_beats` that a loop told to exit sends at most one more heartbeat.
-/

namespace CeresDB.Cluster

namespace ClusterImpl

/-- `SHARD_LOCK_KEY` of `shard_lock_key_prefix`. -/
def SHARD_LOCK_KEY : String := "shards"

/-- `ClusterImpl::shard_lock_key_prefix`; `root_path.starts_with('/')` reads the first character. -/
def shardLockKeyPrefix (rootPath clusterName : String) : Except Error String :=
  if rootPath.data.head? ≠ some '/' then
    .error (.invalidArguments "root_path is required to start with /")
  else if clusterName.isEmpty then
    .error (.invalidArguments "cluster_name is required non-empty")
  else .ok (rootPath ++ "/" ++ clusterName ++ "/" ++ SHARD_LOCK_KEY)

/-- The prefix is accepted exactly for a root path starting with `/` and a non-empty cluster
name, and is then `{root_path}/{cluster_name}/shards`. -/
lemma shardLockKeyPrefix_eq_ok {rootPath clusterName p : String} :
    shardLockKeyPrefix rootPath clusterName = .ok p ↔
      rootPath.data.head? = some '/' ∧ clusterName.isEmpty = false ∧
      p = rootPath ++ "/" ++ clusterName ++ "/" ++ SHARD_LOCK_KEY := by
  unfold shardLockKeyPrefix
  by_cases hr : rootPath.data.head? = some '/' <;> cases hc : clusterName.isEmpty <;>
    simp [hr, hc, eq_comm]

/-- Two lists that each end in `/` followed by a part without `/` agree when their parts do. -/
lemma append_slash_inj {a a' b b' : List Char} (hb : '/' ∉ b) (hb' : '/' ∉ b')
    (h : a ++ '/' :: b = a' ++ '/' :: b') : a = a' ∧ b = b' := by
  have hrev := congrArg List.reverse h
  simp only [List.reverse_append, List.reverse_cons, List.append_assoc, List.singleton_append]
    at hrev
  suffices b.reverse = b'.reverse ∧ a.reverse = a'.reverse by
    exact ⟨List.reverse_inj.1 this.2, List.reverse_inj.1 this.1⟩
  rw [← List.mem_reverse] at hb hb'
  generalize b.reverse = c at hb hrev
  generalize b'.reverse = c' at hb' hrev
  induction c generalizing c' with
  | nil =>
    cases c' with
    | nil => simpa using hrev
    | cons x c' =>
      obtain ⟨rfl, -⟩ := List.cons.inj hrev
      exact absurd (List.mem_cons_self _ _) hb'
  | cons x c ih =>
    cases c' with
    | nil =>
      obtain ⟨rfl, -⟩ := List.cons.inj hrev
      exact absurd (List.mem_cons_self _ _) hb
    | cons x' c' =>
      obtain ⟨rfl, hrest⟩ := List.cons.inj hrev
      obtain ⟨rfl, hrev'⟩ := ih (fun h => hb (List.mem_cons_of_mem _ h)) c'
        (fun h => hb' (List.mem_cons_of_mem _ h)) hrest
      exact ⟨rfl, hrev'⟩

/-- `ClusterImpl::shard_lock_key_prefix` is injective on cluster names without `/`. -/
theorem shardLockKeyPrefix_injective {rootPath rootPath' clusterName clusterName' p : String}
    (hc : '/' ∉ clusterName.data) (hc' : '/' ∉ clusterName'.data)
    (h : shardLockKeyPrefix rootPath clusterName = .ok p)
    (h' : shardLockKeyPrefix rootPath' clusterName' = .ok p) :
    rootPath = rootPath' ∧ clusterName = clusterName' := by
  obtain ⟨-, -, rfl⟩ := shardLockKeyPrefix_eq_ok.1 h
  obtain ⟨-, -, hp⟩ := shardLockKeyPrefix_eq_ok.1 h'
  have hdata : (rootPath.data ++ '/' :: clusterName.data) ++ '/' :: SHARD_LOCK_KEY.data =
      (rootPath'.data ++ '/' :: clusterName'.data) ++ '/' :: SHARD_LOCK_KEY.data := by
    simpa using congrArg String.data hp
  obtain ⟨hr, hn⟩ := append_slash_inj hc hc' (List.append_cancel_right hdata)
  exact ⟨String.ext hr, String.ext hn⟩

theorem shardLockKeyPrefix_injective_ceresdb :
    '/' ∉ "defaultCluster".data ∧ '/' ∉ "defaultCluster".data ∧
    shardLockKeyPrefix "/ceresdb" "defaultCluster" = .ok "/ceresdb/defaultCluster/shards" ∧
    shardLockKeyPrefix "/ceresdb" "defaultCluster" = .ok "/ceresdb/defaultCluster/shards" ∧
    "/ceresdb" = "/ceresdb" ∧ "defaultCluster" = "defaultCluster" :=
  have hc : '/' ∉ "defaultCluster".data := by decide
  have h : shardLockKeyPrefix "/ceresdb" "defaultCluster" = .ok "/ceresdb/defaultCluster/shards" :=
    rfl
  ⟨hc, hc, h, h, shardLockKeyPrefix_injective hc hc h h⟩

/-- `ClusterImpl::heartbeat_interval`, in nanoseconds: two thirds of the lease's whole
milliseconds. -/
def heartbeatInterval (lease : Nat) : Nat := lease / 1000000 * 2 / 3 * 1000000

/-- `ClusterImpl::error_wait_lease`, in nanoseconds: half the lease. -/
def errorWaitLease (lease : Nat) : Nat := lease / 2

/-- Both waits of the heartbeat loop are shorter than a positive lease. -/
lemma heartbeatWait_lt {lease : Nat} (hlease : 0 < lease) (ok : Bool) :
    (if ok then heartbeatInterval lease else errorWaitLease lease) < lease := by
  split <;> simp only [heartbeatInterval, errorWaitLease] <;> omega

/-- A heartbeat loop: about to send a heartbeat, or waiting `wait` for its stop channel. -/
inductive LoopPhase where
  | sending
  | waiting (wait : Nat)
  deriving DecidableEq, Repr

/-- The heartbeat state of a `ClusterImpl` and the loops it spawned, numbered in spawn order. -/
structure HeartbeatWorld where
  /-- `stop_heartbeat_tx`: the loop whose stop sender is stored. -/
  stopHeartbeatTx : Option Nat
  /-- `heartbeat_handle`: the loop whose join handle is stored. -/
  heartbeatHandle : Option Nat
  /-- The number of loops spawned. -/
  spawned : Nat
  /-- Whether a loop's `rx.recv()` completes: its stop signal was sent or its sender dropped. -/
  released : Nat → Bool
  /-- The phase of each loop still running. -/
  loops : Nat → Option LoopPhase
  /-- The heartbeats sent, by loop, each with the wait its loop chose after it. -/
  beats : List (Nat × Nat)

/-- A step of `start`, of `stop`, or of one loop: a heartbeat answered `Ok` or not, or the end of
a wait, by the stop channel or by the timeout. -/
inductive HeartbeatEvent where
  | start
  | stop
  | beat (loop : Nat) (ok : Bool)
  | wake (loop : Nat)
  deriving DecidableEq, Repr

namespace HeartbeatWorld

/-- Nothing spawned, nothing stored. -/
def init : HeartbeatWorld := ⟨none, none, 0, fun _ => false, fun _ => none, []⟩

/-- Dropping a stored stop sender completes its loop's `rx.recv()`. -/
def release (released : Nat → Bool) : Option Nat → Nat → Bool
  | none => released
  | some n => Function.update released n true

/-- One step, with the lease of the meta client config. -/
def step (lease : Nat) (w : HeartbeatWorld) : HeartbeatEvent → HeartbeatWorld
  | .start =>
    { w with
      stopHeartbeatTx := some w.spawned
      heartbeatHandle := some w.spawned
      spawned := w.spawned + 1
      released := Function.update (release w.released w.stopHeartbeatTx) w.spawned false
      loops := Function.update w.loops w.spawned (some .sending) }
  | .stop =>
    { w with
      stopHeartbeatTx := none
      heartbeatHandle := none
      released := release w.released w.stopHeartbeatTx }
  | .beat n ok =>
    match w.loops n with
    | some .sending =>
      let wait := if ok then heartbeatInterval lease else errorWaitLease lease
      { w with
        loops := Function.update w.loops n (some (.waiting wait))
        beats := w.beats ++ [(n, wait)] }
    | _ => w
  | .wake n =>
    match w.loops n with
    | some (.waiting _) =>
      { w with loops := Function.update w.loops n (if w.released n then none else some .sending) }
    | _ => w

/-- A run: the steps in the order they happen. -/
def run (lease : Nat) (w : HeartbeatWorld) (es : List HeartbeatEvent) : HeartbeatWorld :=
  es.foldl (step lease) w

lemma run_cons (lease : Nat) (w : HeartbeatWorld) (e : HeartbeatEvent) (es : List HeartbeatEvent) :
    w.run lease (e :: es) = (w.step lease e).run lease es := rfl

lemma release_of_true {released : Nat → Bool} {n : Nat} (h : released n = true) :
    ∀ o, release released o n = true
  | none => h
  | some m => by
    by_cases hm : n = m
    · subst hm; simp [release]
    · simp [release, Function.update_noteq hm, h]

lemma release_eq_false {released : Nat → Bool} {o : Option Nat} {n : Nat}
    (h : release released o n = false) : released n = false ∧ o ≠ some n := by
  cases o with
  | none => exact ⟨h, by simp⟩
  | some m =>
    by_cases hm : n = m
    · subst hm; simp [release] at h
    · simp only [release, Function.update_noteq hm] at h
      exact ⟨h, by simpa [eq_comm] using hm⟩

/-- The facts every reachable world keeps. -/
structure Inv (lease : Nat) (w : HeartbeatWorld) : Prop where
  /-- Only spawned loops run. -/
  loops_lt : ∀ n, w.loops n ≠ none → n < w.spawned
  /-- Only spawned loops are released. -/
  released_lt : ∀ n, w.released n = true → n < w.spawned
  /-- The stored sender is a spawned loop's. -/
  tx_lt : ∀ n, w.stopHeartbeatTx = some n → n < w.spawned
  /-- A running loop not released is the one whose sender is stored. -/
  live : ∀ n, w.loops n ≠ none → w.released n = false → w.stopHeartbeatTx = some n
  /-- Every wait chosen is shorter than the lease. -/
  waits : ∀ b ∈ w.beats, b.2 < lease

section Invariant

variable {lease : Nat}

lemma init_inv : (init : HeartbeatWorld).Inv lease where
  loops_lt _ h := absurd rfl h
  released_lt _ h := Bool.noConfusion h
  tx_lt _ h := Option.noConfusion h
  live _ h := absurd rfl h
  waits _ h := absurd h (List.not_mem_nil _)

/-- A loop step only moves a running loop on, or ends it, and may record a heartbeat. -/
lemma Inv.setLoop {w : HeartbeatWorld} (hw : w.Inv lease) {m : Nat} (hm : w.loops m ≠ none)
    (p : Option LoopPhase) {bs : List (Nat × Nat)} (hbs : ∀ b ∈ bs, b.2 < lease) :
    ({ w with loops := Function.update w.loops m p, beats := bs } : HeartbeatWorld).Inv lease := by
  have hrun : ∀ n, Function.update w.loops m p n ≠ none → w.loops n ≠ none := fun n h => by
    by_cases hn : n = m
    · exact hn ▸ hm
    · rwa [Function.update_noteq hn] at h
  exact ⟨fun n h => hw.loops_lt n (hrun n h), hw.released_lt, hw.tx_lt,
    fun n h hr => hw.live n (hrun n h) hr, hbs⟩

/-- Dropping the stored sender releases only spawned loops. -/
lemma Inv.release_lt {w : HeartbeatWorld} (hw : w.Inv lease) {n : Nat}
    (h : release w.released w.stopHeartbeatTx n = true) : n < w.spawned := by
  cases ho : w.stopHeartbeatTx with
  | none => rw [ho] at h; exact hw.released_lt n h
  | some m =>
    rw [ho] at h
    by_cases hm : n = m
    · subst hm; exact hw.tx_lt n ho
    · simp only [release, Function.update_noteq hm] at h; exact hw.released_lt n h

/-- Once the stored sender is dropped, every running loop is released. -/
lemma Inv.release_ne_false {w : HeartbeatWorld} (hw : w.Inv lease) {n : Nat}
    (h : w.loops n ≠ none) : release w.released w.stopHeartbeatTx n ≠ false := fun hr =>
  let ⟨hr, hne⟩ := release_eq_false hr
  hne (hw.live n h hr)

variable (hlease : 0 < lease)
include hlease

lemma Inv.step {w : HeartbeatWorld} (hw : w.Inv lease) : ∀ e, (w.step lease e).Inv lease
  | .start => by
    dsimp only [HeartbeatWorld.step]
    refine ⟨fun n h => ?_, fun n h => ?_, fun n h => ?_, fun n h hr => ?_, hw.waits⟩ <;>
      dsimp only at *
    · by_cases hn : n = w.spawned
      · omega
      · rw [Function.update_noteq hn] at h
        have := hw.loops_lt n h; omega
    · by_cases hn : n = w.spawned
      · omega
      · rw [Function.update_noteq hn] at h
        have := hw.release_lt h; omega
    · rw [Option.some.inj h]; omega
    · by_cases hn : n = w.spawned
      · rw [hn]
      · rw [Function.update_noteq hn] at h hr
        exact absurd hr (hw.release_ne_false h)
  | .stop => by
    dsimp only [HeartbeatWorld.step]
    refine ⟨hw.loops_lt, fun n h => ?_, fun n h => Option.noConfusion h, fun n h hr => ?_,
      hw.waits⟩ <;> dsimp only at *
    · exact hw.release_lt h
    · exact absurd hr (hw.release_ne_false h)
  | .beat m ok => by
    dsimp only [HeartbeatWorld.step]
    split
    · next hm =>
      refine hw.setLoop (by simp [hm]) _ fun b hb => ?_
      rcases List.mem_append.1 hb with hb | hb
      · exact hw.waits b hb
      · rw [List.mem_singleton.1 hb]; exact heartbeatWait_lt hlease ok
    · exact hw
  | .wake m => by
    dsimp only [HeartbeatWorld.step]
    split
    · next wait hm => exact hw.setLoop (by simp [hm]) _ hw.waits
    · exact hw

lemma Inv.run {w : HeartbeatWorld} (hw : w.Inv lease) :
    ∀ es, (w.run lease es).Inv lease
  | [] => hw
  | e :: es => Inv.run (hw.step hlease e) es

end Invariant

/-- One live heartbeat loop, waits below the lease (Rust `start_heartbeat_loop`). -/
theorem run_heartbeatLoops {lease : Nat} (hlease : 0 < lease) (es : List HeartbeatEvent) :
    (∀ n, (init.run lease es).loops n ≠ none → (init.run lease es).released n = false →
      (init.run lease es).stopHeartbeatTx = some n) ∧
    ∀ b ∈ (init.run lease es).beats, b.2 < lease :=
  have hw := init_inv.run hlease es
  ⟨hw.live, hw.waits⟩

theorem run_heartbeatLoops_restart :
    0 < 3000000000 ∧
    ((∀ n, (init.run 3000000000 [.start, .beat 0 true, .start, .stop]).loops n ≠ none →
      (init.run 3000000000 [.start, .beat 0 true, .start, .stop]).released n = false →
      (init.run 3000000000 [.start, .beat 0 true, .start, .stop]).stopHeartbeatTx = some n) ∧
    ∀ b ∈ (init.run 3000000000 [.start, .beat 0 true, .start, .stop]).beats, b.2 < 3000000000) :=
  ⟨by decide, run_heartbeatLoops (by decide) _⟩

/-- The heartbeats of loop `n` among `bs`. -/
def beatsOf (n : Nat) (bs : List (Nat × Nat)) : Nat := (bs.filter (·.1 == n)).length

/-- What loop `n` may still send once told to exit: the heartbeat it is about to send, if any. -/
def pending (w : HeartbeatWorld) (n : Nat) : Nat := if w.loops n = some .sending then 1 else 0

section Released

variable {lease : Nat}

/-- One step after loop `n` was told to exit: it stays told, and a heartbeat it sends uses up
the one it was about to send. -/
lemma Inv.step_released {w : HeartbeatWorld} (hw : w.Inv lease) {n : Nat}
    (hn : w.released n = true) (e : HeartbeatEvent) :
    (w.step lease e).released n = true ∧ ∃ bs, (w.step lease e).beats = w.beats ++ bs ∧
      beatsOf n bs + (w.step lease e).pending n ≤ w.pending n := by
  have hlt := hw.released_lt n hn
  cases e with
  | start =>
    have hne : n ≠ w.spawned := by omega
    refine ⟨?_, [], by simp [HeartbeatWorld.step], ?_⟩
    · simp only [HeartbeatWorld.step, Function.update_noteq hne]
      exact release_of_true hn _
    · simp [HeartbeatWorld.step, pending, beatsOf, Function.update_noteq hne]
  | stop => exact ⟨release_of_true hn _, [], by simp [HeartbeatWorld.step], by
      simp [HeartbeatWorld.step, pending, beatsOf]⟩
  | beat m ok =>
    dsimp only [HeartbeatWorld.step]
    split
    · next hm =>
      refine ⟨hn, _, rfl, ?_⟩
      by_cases hnm : n = m
      · subst hnm; simp [pending, beatsOf, hm]
      · simp [pending, beatsOf, Function.update_noteq hnm, Ne.symm hnm]
    · exact ⟨hn, [], by simp, by simp [beatsOf]⟩
  | wake m =>
    dsimp only [HeartbeatWorld.step]
    split
    · next wait hm =>
      refine ⟨hn, [], by simp, ?_⟩
      by_cases hnm : n = m
      · subst hnm; simp [pending, beatsOf, hn]
      · simp [pending, beatsOf, Function.update_noteq hnm]
    · exact ⟨hn, [], by simp, by simp [beatsOf]⟩

lemma Inv.run_released (hlease : 0 < lease) {w : HeartbeatWorld} (hw : w.Inv lease) {n : Nat}
    (hn : w.released n = true) : ∀ es, ∃ bs, (w.run lease es).beats = w.beats ++ bs ∧
      beatsOf n bs + (w.run lease es).pending n ≤ w.pending n
  | [] => ⟨[], by simp [HeartbeatWorld.run], by simp [HeartbeatWorld.run, beatsOf]⟩
  | e :: es => by
    obtain ⟨hn', bs₁, hb₁, hle₁⟩ := hw.step_released hn e
    obtain ⟨bs₂, hb₂, hle₂⟩ := (hw.step hlease e).run_released hlease hn' es
    have hsum : beatsOf n (bs₁ ++ bs₂) = beatsOf n bs₁ + beatsOf n bs₂ := by simp [beatsOf]
    exact ⟨bs₁ ++ bs₂, by rw [run_cons, hb₂, hb₁, List.append_assoc], by rw [run_cons]; omega⟩

end Released

lemma run_append (lease : Nat) (w : HeartbeatWorld) (es es' : List HeartbeatEvent) :
    w.run lease (es ++ es') = (w.run lease es).run lease es' :=
  List.foldl_append _ _ _ _

/-- A loop told to exit sends at most one more heartbeat (Rust `start_heartbeat_loop`). -/
theorem run_stoppedLoop_beats {lease : Nat} (hlease : 0 < lease) (es es' : List HeartbeatEvent)
    (n : Nat) (hn : (init.run lease es).released n = true) :
    (((init.run lease (es ++ es')).beats.drop (init.run lease es).beats.length).filter
      (·.1 == n)).length ≤ if (init.run lease es).loops n = some .sending then 1 else 0 := by
  obtain ⟨bs, hbs, hle⟩ := (init_inv.run hlease es).run_released hlease hn es'
  rw [run_append, hbs, List.drop_left]
  exact Nat.le_trans (Nat.le_add_right _ _) hle

theorem run_stoppedLoop_beats_restart :
    0 < 3000000000 ∧ (init.run 3000000000 [.start, .start]).released 0 = true ∧
    (((init.run 3000000000 ([.start, .start] ++ [.beat 0 true, .wake 0, .beat 0 true])).beats.drop
      (init.run 3000000000 [.start, .start]).beats.length).filter (·.1 == 0)).length ≤
      if (init.run 3000000000 [.start, .start]).loops 0 = some .sending then 1 else 0 :=
  have hn : (init.run 3000000000 [.start, .start]).released 0 = true := by decide
  ⟨by decide, hn, run_stoppedLoop_beats (by decide) _ _ 0 hn⟩

end HeartbeatWorld

end ClusterImpl

end CeresDB.Cluster
