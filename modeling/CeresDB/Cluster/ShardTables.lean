import Mathlib.Logic.Function.Basic

/-!
# Shard tables cache and `open_shard`

Model of `Inner::open_shard`, `Inner::close_shard`, `Inner::freeze_shard`,
`Inner::insert_table_to_shard` and `Inner::remove_table_from_shard` in `cluster_impl.rs`, over the
`ShardTablesCache` they call. The cache's own source is not among the sources: its operations are
modelled from the spec (section 4.5), as a map from shard id to the shard's info and tables with a
frozen flag; `insert` replaces an entry, and the table operations check that the shard is cached
and not frozen and that the caller's previous version is the cached one, and then update the
shard info together with the tables.

`open_shard` awaits the meta service between its version check and its insert, so in a
`ClusterWorld` a call is three steps: the check, the meta service serving `get_tables_of_shards`
from the shard's authoritative state at that moment, and the handling of the response. The meta
service's authoritative state of a shard only moves to versions at least as high; the table
operations of `create/drop/open/close_table_on_shard` are single steps.

Nothing checks the cached version again when the response is handled, so two `open_shard` calls
whose requests are served in version order but handled in the other order leave the older tables
in the cache (`open_shard_race_lowers_version`).
-/

namespace CeresDB.Cluster

/-- `meta_client::types::ShardInfo`: the fields the cluster reads. -/
structure ShardInfo where
  id : Nat
  version : Nat
  deriving DecidableEq, Repr

/-- `meta_client::types::TablesOfShard`: a shard's info and its tables, by id. -/
structure TablesOfShard where
  shardInfo : ShardInfo
  tables : List Nat
  deriving DecidableEq, Repr

/-- `cluster::Error`: the variants `cluster_impl.rs` builds, and the cache's refusals. -/
inductive Error where
  | shardNotFound (msg : String)
  | tableNotFound (msg : String)
  | openShard (shardId : Nat) (msg : String)
  | openShardWithCause (shardId : Nat) (source : String)
  | internal (msg : String)
  | clusterNodesNotFound (version : Nat)
  | metaClientFailure (source : String)
  | shardVersionMismatch (shardInfo : ShardInfo) (expectVersion : Nat)
  | updateFrozenShard (shardId : Nat)
  | invalidArguments (msg : String)
  deriving DecidableEq, Repr

/-- A cached shard: its tables and whether it is frozen. -/
structure CacheEntry where
  tablesOfShard : TablesOfShard
  frozen : Bool
  deriving DecidableEq, Repr

/-- Modelled from the spec: `ShardTablesCache`, the entry of each shard id. -/
structure ShardTablesCache where
  entries : Nat → Option CacheEntry

namespace ShardTablesCache

/-- Modelled from the spec: `get(shard_id)`. -/
def get (c : ShardTablesCache) (shardId : Nat) : Option TablesOfShard :=
  (c.entries shardId).map CacheEntry.tablesOfShard

/-- Modelled from the spec: `insert(tables_of_shard)` replaces any entry of the shard. -/
def insert (c : ShardTablesCache) (tos : TablesOfShard) : ShardTablesCache :=
  ⟨Function.update c.entries tos.shardInfo.id (some ⟨tos, false⟩)⟩

/-- Modelled from the spec: `remove(shard_id)` removes and returns the entry. -/
def remove (c : ShardTablesCache) (shardId : Nat) : Option TablesOfShard × ShardTablesCache :=
  (c.get shardId, ⟨Function.update c.entries shardId none⟩)

/-- Modelled from the spec: `freeze(shard_id)` marks the shard frozen and returns its tables. -/
def freeze (c : ShardTablesCache) (shardId : Nat) : Option TablesOfShard × ShardTablesCache :=
  match c.entries shardId with
  | none => (none, c)
  | some e =>
    (some e.tablesOfShard, ⟨Function.update c.entries shardId (some { e with frozen := true })⟩)

/-- Modelled from the spec: the checks and the atomic update of `try_insert_table_to_shard` and
`try_remove_table_from_shard`, the table list changed by `change`. -/
def tryUpdate (c : ShardTablesCache) (prevVersion : Nat) (newShardInfo : ShardInfo)
    (change : List Nat → List Nat) : Except Error ShardTablesCache :=
  match c.entries newShardInfo.id with
  | none => .error (.shardNotFound "shard is not cached")
  | some e =>
    if e.frozen then .error (.updateFrozenShard newShardInfo.id)
    else if e.tablesOfShard.shardInfo.version ≠ prevVersion then
      .error (.shardVersionMismatch e.tablesOfShard.shardInfo prevVersion)
    else .ok ⟨Function.update c.entries newShardInfo.id
      (some ⟨⟨newShardInfo, change e.tablesOfShard.tables⟩, false⟩)⟩

/-- Modelled from the spec: `try_insert_table_to_shard(prev_version, new_shard_info, table)`. -/
def tryInsertTableToShard (c : ShardTablesCache) (prevVersion : Nat) (newShardInfo : ShardInfo)
    (table : Nat) : Except Error ShardTablesCache :=
  c.tryUpdate prevVersion newShardInfo (· ++ [table])

/-- Modelled from the spec: `try_remove_table_from_shard(prev_version, new_shard_info, table)`. -/
def tryRemoveTableFromShard (c : ShardTablesCache) (prevVersion : Nat) (newShardInfo : ShardInfo)
    (table : Nat) : Except Error ShardTablesCache :=
  c.tryUpdate prevVersion newShardInfo (·.erase table)

end ShardTablesCache

/-- `UpdateShardInfo` of a shard lifecycle request. -/
structure UpdateShardInfo where
  prevVersion : Nat
  currShardInfo : Option ShardInfo

/-- A table lifecycle request (`CreateTableOnShardRequest` and the others): the update of the
shard info and the table info, as `TableInfo::try_from` converts it. -/
structure TableOnShardRequest where
  updateShardInfo : Option UpdateShardInfo
  tableInfo : Option (Except String Nat)

namespace Inner

/-- The version check of `Inner::open_shard`: return the cached tables of the same version, fail
on a smaller version, or go on to the meta service (`none`). -/
def openShardCheck (c : ShardTablesCache) (shardInfo : ShardInfo) :
    Option (Except Error TablesOfShard) :=
  match c.get shardInfo.id with
  | some tos =>
    if tos.shardInfo.version = shardInfo.version then some (.ok tos)
    else if tos.shardInfo.version < shardInfo.version then none
    else some (.error (.openShard shardInfo.id "open a shard with a smaller version"))
  | none => none

/-- The rest of `Inner::open_shard`, on the answer of `get_tables_of_shards([shard_info.id])`:
exactly one shard expected, the requested one, inserted into the cache. -/
def openShardFinish (c : ShardTablesCache) (shardInfo : ShardInfo)
    (resp : Except String (List (Nat × TablesOfShard))) :
    Except Error TablesOfShard × ShardTablesCache :=
  match resp with
  | .error e => (.error (.openShardWithCause shardInfo.id e), c)
  | .ok tablesByShard =>
    if tablesByShard.length ≠ 1 then
      (.error (.openShard shardInfo.id "expect only one shard tables"), c)
    else
      match tablesByShard.lookup shardInfo.id with
      | none => (.error (.openShard shardInfo.id "shard tables are missing from the response"), c)
      | some tos => (.ok tos, c.insert tos)

/-- `Inner::close_shard`. -/
def closeShard (c : ShardTablesCache) (shardId : Nat) :
    Except Error TablesOfShard × ShardTablesCache :=
  match c.remove shardId with
  | (some tos, c') => (.ok tos, c')
  | (none, c') =>
    (.error (.shardNotFound ("close non-existent shard, shard_id:" ++ toString shardId)), c')

/-- `Inner::freeze_shard`. -/
def freezeShard (c : ShardTablesCache) (shardId : Nat) :
    Except Error TablesOfShard × ShardTablesCache :=
  match c.freeze shardId with
  | (some tos, c') => (.ok tos, c')
  | (none, c') =>
    (.error (.shardNotFound ("try to freeze a non-existent shard, shard_id:" ++ toString shardId)), c')

/-- `Inner::insert_table_to_shard` and `Inner::remove_table_from_shard`, with the cache operation
they end in. -/
def updateTableOnShard
    (op : ShardTablesCache → Nat → ShardInfo → Nat → Except Error ShardTablesCache)
    (c : ShardTablesCache) (req : TableOnShardRequest) : Except Error ShardTablesCache := do
  let updateShardInfo ← req.updateShardInfo.elim
    (.error (.shardNotFound "update shard info is missing")) .ok
  let currShardInfo ← updateShardInfo.currShardInfo.elim
    (.error (.shardNotFound "current shard info is missing")) .ok
  let tableInfo ← req.tableInfo.elim (.error (.tableNotFound "table info is missing")) .ok
  let table ← tableInfo.mapError fun _ => .internal "Failed to parse tableInfo"
  op c updateShardInfo.prevVersion currShardInfo table

/-- `Inner::insert_table_to_shard` (`create_table_on_shard`, `open_table_on_shard`). -/
def insertTableToShard (c : ShardTablesCache) (req : TableOnShardRequest) :
    Except Error ShardTablesCache :=
  updateTableOnShard ShardTablesCache.tryInsertTableToShard c req

/-- `Inner::remove_table_from_shard` (`drop_table_on_shard`, `close_table_on_shard`). -/
def removeTableFromShard (c : ShardTablesCache) (req : TableOnShardRequest) :
    Except Error ShardTablesCache :=
  updateTableOnShard ShardTablesCache.tryRemoveTableFromShard c req

end Inner

/-- An `open_shard` call past its check: awaiting the meta service, or served with its answer. -/
inductive OpenCall where
  | awaiting (shardInfo : ShardInfo)
  | served (shardInfo : ShardInfo) (resp : Except String (List (Nat × TablesOfShard)))

/-- The shard tables cache, the meta service's authoritative tables of each shard, and the
`open_shard` calls in flight. -/
structure ClusterWorld where
  cache : ShardTablesCache
  authority : Nat → TablesOfShard
  calls : Nat → Option OpenCall

/-- A step: the meta service moves a shard on, an `open_shard` call enters and checks the cache,
the meta service serves or fails a call's request, a call handles its answer, or a shard or table
lifecycle request is handled. -/
inductive ClusterEvent where
  | metaUpdate (tos : TablesOfShard)
  | openShard (call : Nat) (shardInfo : ShardInfo)
  | serve (call : Nat)
  | serveError (call : Nat) (e : String)
  | finish (call : Nat)
  | insertTable (req : TableOnShardRequest)
  | removeTable (req : TableOnShardRequest)
  | closeShard (shardId : Nat)
  | freezeShard (shardId : Nat)

namespace ClusterWorld

/-- The cached version of a shard. -/
def cachedVersion (w : ClusterWorld) (shardId : Nat) : Option Nat :=
  (w.cache.get shardId).map fun tos => tos.shardInfo.version

/-- The cache after a lifecycle request: changed on success, as it was on failure. -/
def afterRequest (w : ClusterWorld) (r : Except Error ShardTablesCache) : ClusterWorld :=
  match r with
  | .ok c => { w with cache := c }
  | .error _ => w

/-- One step. The meta service's authoritative version of a shard never decreases. -/
def step (w : ClusterWorld) : ClusterEvent → ClusterWorld
  | .metaUpdate tos =>
    if (w.authority tos.shardInfo.id).shardInfo.version ≤ tos.shardInfo.version then
      { w with authority := Function.update w.authority tos.shardInfo.id tos }
    else w
  | .openShard i shardInfo =>
    match w.calls i, Inner.openShardCheck w.cache shardInfo with
    | none, none => { w with calls := Function.update w.calls i (some (.awaiting shardInfo)) }
    | _, _ => w
  | .serve i =>
    match w.calls i with
    | some (.awaiting shardInfo) =>
      let resp := .ok [(shardInfo.id, w.authority shardInfo.id)]
      { w with calls := Function.update w.calls i (some (.served shardInfo resp)) }
    | _ => w
  | .serveError i e =>
    match w.calls i with
    | some (.awaiting shardInfo) =>
      { w with calls := Function.update w.calls i (some (.served shardInfo (.error e))) }
    | _ => w
  | .finish i =>
    match w.calls i with
    | some (.served shardInfo resp) =>
      { w with
        cache := (Inner.openShardFinish w.cache shardInfo resp).2
        calls := Function.update w.calls i none }
    | _ => w
  | .insertTable req => w.afterRequest (Inner.insertTableToShard w.cache req)
  | .removeTable req => w.afterRequest (Inner.removeTableFromShard w.cache req)
  | .closeShard shardId => { w with cache := (Inner.closeShard w.cache shardId).2 }
  | .freezeShard shardId => { w with cache := (Inner.freezeShard w.cache shardId).2 }

/-- A run: the steps in the order they happen. -/
def run (w : ClusterWorld) (es : List ClusterEvent) : ClusterWorld := es.foldl step w

end ClusterWorld

/-- Shard 0 cached and authoritative at version 1, with no table and no call in flight. -/
def raceStart : ClusterWorld where
  cache := ⟨fun id => if id = 0 then some ⟨⟨⟨0, 1⟩, []⟩, false⟩ else none⟩
  authority id := ⟨⟨id, 1⟩, []⟩
  calls _ := none

/-- The meta service moves shard 0 to version 2; a first `open_shard` at version 2 passes the
check and is served; the meta service moves on to version 3; a second `open_shard` at version 3
passes the check (the cache still holds version 1), is served and handled; then the first call
handles its answer. -/
def openShardRace : List ClusterEvent :=
  [.metaUpdate ⟨⟨0, 2⟩, [7]⟩, .openShard 0 ⟨0, 2⟩, .serve 0,
   .metaUpdate ⟨⟨0, 3⟩, [7, 8]⟩, .openShard 1 ⟨0, 3⟩, .serve 1, .finish 1,
   .finish 0]

/-- Two overlapping `Inner::open_shard` calls put an older version back in the cache. -/
theorem open_shard_race_lowers_version :
    (raceStart.run (openShardRace.take 7)).cachedVersion 0 = some 3 ∧
    (raceStart.run openShardRace).cachedVersion 0 = some 2 := by
  decide

end CeresDB.Cluster
