import Mathlib.Data.List.Basic

/-!
# HTTP service

Model of `server/src/http.rs`: the service's error type and its status codes
(`error_to_status_code`, `handle_rejection`), the request context filter (`with_context`), the
`Builder` with its setters and `build`, `Service::start` and `Service::stop`, and the
`/debug/flush_memtable` handler.

The handlers' collaborators (catalog manager, tables, proxy, profiler, address parser, and
whether warp can bind the listener) are not among the sources; they are parameters. What the
service does with their answers is the model: the order of its checks, the errors it raises, its
panics, and what it answers.

`flush_memtable` lists the tables with three nested loops that return at the first failing
listing, then flushes the tables one by one. `flushMemtable_eq_spec` says it behaves as the plain
statement `flushMemtableSpec`: list every catalog's schemas' tables, in order, failing with the
first listing error and flushing nothing, or flush each table once, in order, reporting it under
`success` or `failed` by its flush's result.
-/

namespace CeresDB.Server

/-- `server::http::Error`; a `source` is the text of the error it wraps. -/
inductive Error where
  | createContext (source : String)
  | handleRequest (source : String)
  | handleUpdateLogLevel (msg : String)
  | missingEngineRuntimes
  | missingLogRuntime
  | missingInstance
  | missingSchemaConfigProvider
  | missingProxy
  | profileHeap (source : String)
  | profileCPU (source : String)
  | joinAsyncTask (source : String)
  | parseIpAddr (ip : String) (source : String)
  | internal (source : String)
  | alreadyStarted
  | missingRouter
  | missingWal
  deriving DecidableEq, Repr

/-- `StatusCode::BAD_REQUEST`. -/
def BAD_REQUEST : Nat := 400

/-- `StatusCode::NOT_FOUND`. -/
def NOT_FOUND : Nat := 404

/-- `StatusCode::INTERNAL_SERVER_ERROR`. -/
def INTERNAL_SERVER_ERROR : Nat := 500

/-- `error_to_status_code`. -/
def errorToStatusCode : Error → Nat
  | .createContext _ => BAD_REQUEST
  | .handleRequest _ | .missingEngineRuntimes | .missingLogRuntime | .missingInstance
  | .missingSchemaConfigProvider | .missingProxy | .parseIpAddr _ _ | .profileHeap _
  | .profileCPU _ | .internal _ | .joinAsyncTask _ | .alreadyStarted | .missingRouter
  | .missingWal | .handleUpdateLogLevel _ => INTERNAL_SERVER_ERROR

/-- A `warp::Rejection` as `handle_rejection` inspects it: not found, one of the service's errors,
or anything else, with its debug text. -/
inductive Rejection where
  | notFound
  | custom (err : Error)
  | other (debug : String)

/-- `ErrorResponse`. -/
structure ErrorResponse where
  code : Nat
  message : String
  deriving DecidableEq, Repr

/-- `handle_rejection`: the response, and whether the rejection is logged as an error. `display`
is the error's `Display` text, `removeBacktrace` is `error_util::remove_backtrace_from_err`. -/
def handleRejection (display : Error → String) (removeBacktrace : String → String)
    (rejection : Rejection) : ErrorResponse × Bool :=
  let (code, message) : Nat × String :=
    match rejection with
    | .notFound => (NOT_FOUND, "NOT_FOUND")
    | .custom err => (errorToStatusCode err, removeBacktrace (display err))
    | .other debug => (INTERNAL_SERVER_ERROR, removeBacktrace ("UNKNOWN_ERROR: " ++ debug))
  (⟨code, message⟩, decide (500 ≤ code))

/-- Every rejection is answered `400`, `404` or `500`: `400` exactly for a request context that
could not be built, `404` exactly for a route not found; and it is logged exactly when it is
answered `500`. -/
lemma handleRejection_code (display : Error → String) (removeBacktrace : String → String)
    (rejection : Rejection) :
    let r := handleRejection display removeBacktrace rejection
    (r.1.code = BAD_REQUEST ↔ ∃ e, rejection = .custom (.createContext e)) ∧
    (r.1.code = NOT_FOUND ↔ rejection = .notFound) ∧
    (r.1.code = INTERNAL_SERVER_ERROR ∨ r.1.code = BAD_REQUEST ∨ r.1.code = NOT_FOUND) ∧
    (r.2 = true ↔ r.1.code = INTERNAL_SERVER_ERROR) := by
  rcases rejection with _ | err | debug
  · simp [handleRejection, BAD_REQUEST, NOT_FOUND, INTERNAL_SERVER_ERROR]
  · cases err <;> simp [handleRejection, errorToStatusCode, BAD_REQUEST, NOT_FOUND,
      INTERNAL_SERVER_ERROR]
  · simp [handleRejection, BAD_REQUEST, NOT_FOUND, INTERNAL_SERVER_ERROR]

/-- What `with_context` reads of the catalog manager and the config. -/
structure ContextDefaults where
  defaultCatalog : String
  defaultSchema : String
  timeout : Option Nat

/-- `with_context`: the catalog and schema headers, or the defaults, handed to
`RequestContext::builder()`, whose `build` is `build`; its failure is `CreateContext`. -/
def withContext {Ctx : Type} (d : ContextDefaults)
    (build : String → String → Option Nat → Except String Ctx)
    (catalog schema : Option String) : Except Error Ctx :=
  (build (catalog.getD d.defaultCatalog) (schema.getD d.defaultSchema) d.timeout).mapError
    .createContext

/-- A request whose context cannot be built is answered `400 Bad Request`, not logged. -/
lemma withContext_error {Ctx : Type} {d : ContextDefaults}
    {build : String → String → Option Nat → Except String Ctx} {catalog schema : Option String}
    {e : Error} (h : withContext d build catalog schema = .error e)
    (display : Error → String) (removeBacktrace : String → String) :
    (handleRejection display removeBacktrace (.custom e)).1.code = BAD_REQUEST ∧
    (handleRejection display removeBacktrace (.custom e)).2 = false := by
  unfold withContext at h
  cases hb : build (catalog.getD d.defaultCatalog) (schema.getD d.defaultSchema) d.timeout with
  | error s =>
    rw [hb] at h
    cases h
    simp [handleRejection, errorToStatusCode, BAD_REQUEST]
  | ok c => rw [hb] at h; cases h

/-- `HttpConfig`: what the service reads of it. -/
structure HttpConfig where
  endpointAddr : String
  endpointPort : Nat
  maxBodySize : Nat
  timeout : Option Nat

variable {ER LR P W : Type}

/-- `Builder`: the parts a service is built from; runtimes, proxy and WALs are opaque. -/
structure Builder (ER LR P W : Type) where
  config : HttpConfig
  engineRuntimes : Option ER
  logRuntime : Option LR
  configContent : Option String
  proxy : Option P
  openedWals : Option W

/-- `Service`: what it holds; `rx` is whether it still holds the receiving end of its stop
channel. -/
structure Service (ER LR P W : Type) where
  proxy : P
  engineRuntimes : ER
  logRuntime : LR
  rx : Bool
  config : HttpConfig
  configContent : String
  openedWals : W

namespace Builder

/-- `Builder::new`. -/
def new (config : HttpConfig) : Builder ER LR P W := ⟨config, none, none, none, none, none⟩

/-- `Builder::engine_runtimes`. -/
def setEngineRuntimes (b : Builder ER LR P W) (engineRuntimes : ER) : Builder ER LR P W :=
  { b with engineRuntimes := some engineRuntimes }

/-- `Builder::log_runtime`. -/
def setLogRuntime (b : Builder ER LR P W) (logRuntime : LR) : Builder ER LR P W :=
  { b with logRuntime := some logRuntime }

/-- `Builder::config_content`. -/
def setConfigContent (b : Builder ER LR P W) (content : String) : Builder ER LR P W :=
  { b with configContent := some content }

/-- `Builder::proxy`. -/
def setProxy (b : Builder ER LR P W) (proxy : P) : Builder ER LR P W :=
  { b with proxy := some proxy }

/-- `Builder::opened_wals`. -/
def setOpenedWals (b : Builder ER LR P W) (openedWals : W) : Builder ER LR P W :=
  { b with openedWals := some openedWals }

end Builder

/-- `OptionExt::context`: the value, or the error. -/
def context {α : Type} : Option α → Error → Except Error α
  | some a, _ => .ok a
  | none, e => .error e

/-- `Builder::build`: each part is required, in this order; a missing config content is reported
as `MissingInstance`. The new service holds the receiver of its stop channel. -/
def Builder.build (b : Builder ER LR P W) : Except Error (Service ER LR P W) := do
  let engineRuntimes ← context b.engineRuntimes .missingEngineRuntimes
  let logRuntime ← context b.logRuntime .missingLogRuntime
  let configContent ← context b.configContent .missingInstance
  let proxy ← context b.proxy .missingProxy
  let openedWals ← context b.openedWals .missingWal
  pure ⟨proxy, engineRuntimes, logRuntime, true, b.config, configContent, openedWals⟩

/-- `Service::start`: the endpoint address is parsed first, then the receiver of the stop channel
taken, then warp's `bind_with_graceful_shutdown` binds the address and the endpoint port, which
panics (`none`) when `bind` refuses them, the receiver being gone already; otherwise the server is
spawned with the receiver as its shutdown signal. The address it listens at is returned. -/
def Service.start {IpAddr : Type} (parse : String → Except String IpAddr)
    (bind : IpAddr → Nat → Bool) (s : Service ER LR P W) :
    Option (Except Error (IpAddr × Nat)) × Service ER LR P W :=
  match parse s.config.endpointAddr with
  | .error e => (some (.error (.parseIpAddr s.config.endpointAddr e)), s)
  | .ok ip =>
    if s.rx then
      if bind ip s.config.endpointPort then
        (some (.ok (ip, s.config.endpointPort)), { s with rx := false })
      else (none, { s with rx := false })
    else (some (.error .alreadyStarted), s)

/-- `Service::stop` consumes the service and sends the stop signal: it reaches a spawned server
as its graceful shutdown; without one the receiver is dropped with the service. Whether a server
is told to shut down. -/
def Service.stop (s : Service ER LR P W) : Bool := !s.rx

/-- What `flush_memtable` reads of the catalog manager: the catalogs, each catalog's schemas,
each schema's tables, every listing fallible; and each table's name and flush. -/
structure CatalogView (C S T : Type) where
  allCatalogs : Except String (List C)
  allSchemas : C → Except String (List S)
  allTables : S → Except String (List T)
  name : T → String
  flush : T → Except String Unit

variable {C S T : Type}

namespace CatalogView

variable (v : CatalogView C S T)

/-- The innermost loop of `get_all_tables`: push each table of a schema. -/
def pushTables (tables : List T) : List T → List T
  | [] => tables
  | table :: rest => pushTables (tables ++ [table]) rest

/-- The middle loop of `get_all_tables` over a catalog's schemas. -/
def pushSchemas (tables : List T) : List S → Except Error (List T)
  | [] => .ok tables
  | schema :: schemas =>
    match v.allTables schema with
    | .error e => .error (.internal e)
    | .ok ts => pushSchemas (pushTables tables ts) schemas

/-- The outer loop of `get_all_tables` over the catalogs. -/
def pushCatalogs (tables : List T) : List C → Except Error (List T)
  | [] => .ok tables
  | catalog :: catalogs =>
    match v.allSchemas catalog with
    | .error e => .error (.internal e)
    | .ok schemas =>
      match v.pushSchemas tables schemas with
      | .error e => .error e
      | .ok tables => pushCatalogs tables catalogs

/-- `get_all_tables` of `flush_memtable`. -/
def getAllTables : Except Error (List T) :=
  match v.allCatalogs with
  | .error e => .error (.internal e)
  | .ok catalogs => v.pushCatalogs [] catalogs

/-- The flush loop of `flush_memtable`: each table flushed in turn, its name pushed onto the
failed or the success tables. -/
def flushTables (failed success : List String) : List T → List String × List String
  | [] => (failed, success)
  | table :: tables =>
    match v.flush table with
    | .error _ => flushTables (failed ++ [v.name table]) success tables
    | .ok () => flushTables failed (success ++ [v.name table]) tables

/-- The response of `flush_memtable`: the `success` and the `failed` table names. -/
structure FlushResponse where
  success : List String
  failed : List String
  deriving DecidableEq, Repr

/-- `flush_memtable`: the response or the rejection, and the tables flushed, in order. -/
def flushMemtable : Except Error FlushResponse × List T :=
  match v.getAllTables with
  | .error e => (.error e, [])
  | .ok tables =>
    let (failed, success) := v.flushTables [] [] tables
    (.ok ⟨success, failed⟩, tables)

/-- The tables of a schema, a failed listing as `Internal`. -/
def tablesOf (schema : S) : Except Error (List T) := (v.allTables schema).mapError .internal

/-- The tables of each schema of a catalog, the first failed listing as `Internal`. -/
def tablesOfCatalog (catalog : C) : Except Error (List (List T)) := do
  let schemas ← (v.allSchemas catalog).mapError .internal
  schemas.mapM v.tablesOf

/-- Every table of every schema of every catalog, in order, or the first failed listing. -/
def allTablesSpec : Except Error (List T) := do
  let catalogs ← v.allCatalogs.mapError .internal
  let tables ← catalogs.mapM v.tablesOfCatalog
  pure (tables.map List.flatten).flatten

/-- The handler as stated plainly: fail with the first failed listing and flush nothing, or flush
every table once, in order, reporting the names of those flushed well as `success` and the others
as `failed`. -/
def flushMemtableSpec : Except Error FlushResponse × List T :=
  match v.allTablesSpec with
  | .error e => (.error e, [])
  | .ok tables =>
    (.ok ⟨(tables.filter fun t => (v.flush t).toBool).map v.name,
      (tables.filter fun t => !(v.flush t).toBool).map v.name⟩, tables)

lemma pushTables_eq : ∀ (tables ts : List T), pushTables tables ts = tables ++ ts
  | _, [] => by simp [pushTables]
  | tables, t :: ts => by simp [pushTables, pushTables_eq _ ts]

lemma pushSchemas_eq : ∀ (tables : List T) (schemas : List S),
    v.pushSchemas tables schemas = (schemas.mapM v.tablesOf).map fun tss => tables ++ tss.flatten
  | tables, [] => by
    rw [List.mapM_nil]
    exact congrArg Except.ok (List.append_nil tables).symm
  | tables, schema :: schemas => by
    rw [List.mapM_cons, show v.tablesOf schema = (v.allTables schema).mapError .internal from rfl]
    unfold pushSchemas
    cases v.allTables schema with
    | error e => rfl
    | ok ts =>
      dsimp only
      rw [pushTables_eq, pushSchemas_eq _ schemas]
      cases schemas.mapM v.tablesOf with
      | error e => rfl
      | ok tss => exact congrArg Except.ok (List.append_assoc _ _ _)

lemma pushCatalogs_eq : ∀ (tables : List T) (catalogs : List C),
    v.pushCatalogs tables catalogs =
      (catalogs.mapM v.tablesOfCatalog).map fun tss => tables ++ (tss.map List.flatten).flatten
  | tables, [] => by
    rw [List.mapM_nil]
    exact congrArg Except.ok (List.append_nil tables).symm
  | tables, catalog :: catalogs => by
    rw [List.mapM_cons]
    unfold pushCatalogs
    cases h : v.allSchemas catalog with
    | error e =>
      rw [show v.tablesOfCatalog catalog = .error (.internal e) by rw [tablesOfCatalog, h]; rfl]
      rfl
    | ok schemas =>
      rw [show v.tablesOfCatalog catalog = schemas.mapM v.tablesOf by rw [tablesOfCatalog, h]; rfl]
      dsimp only
      rw [pushSchemas_eq]
      cases schemas.mapM v.tablesOf with
      | error e => rfl
      | ok tss =>
        dsimp only [Except.map]
        rw [pushCatalogs_eq _ catalogs]
        cases catalogs.mapM v.tablesOfCatalog with
        | error e => rfl
        | ok tsss => exact congrArg Except.ok (List.append_assoc _ _ _)

/-- The nested listing loops with their early returns list what `allTablesSpec` lists. -/
lemma getAllTables_eq : v.getAllTables = v.allTablesSpec := by
  unfold getAllTables allTablesSpec
  cases v.allCatalogs with
  | error e => rfl
  | ok catalogs =>
    dsimp only [bind, Except.bind, Except.mapError]
    rw [pushCatalogs_eq]
    cases catalogs.mapM v.tablesOfCatalog <;> rfl

/-- The flush loop sorts the tables by their flush's result, keeping their order. -/
lemma flushTables_eq : ∀ (failed success : List String) (tables : List T),
    v.flushTables failed success tables =
      (failed ++ (tables.filter fun t => !(v.flush t).toBool).map v.name,
        success ++ (tables.filter fun t => (v.flush t).toBool).map v.name)
  | _, _, [] => by simp [flushTables]
  | failed, success, t :: tables => by
    unfold flushTables
    cases hf : v.flush t <;> simp [flushTables_eq _ _ tables, List.filter_cons, hf, Except.toBool]

end CatalogView

/-- `Service::flush_memtable` is its plain statement `flushMemtableSpec`. -/
theorem CatalogView.flushMemtable_eq_spec (v : CatalogView C S T) :
    v.flushMemtable = v.flushMemtableSpec := by
  unfold CatalogView.flushMemtable CatalogView.flushMemtableSpec
  rw [CatalogView.getAllTables_eq]
  cases v.allTablesSpec with
  | error e => rfl
  | ok tables => simp [CatalogView.flushTables_eq]

end CeresDB.Server
