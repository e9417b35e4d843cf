import CeresDB.Write.Splitter
import CeresDB.Write.MemTable

/-!
# Writer

Model of `Writer::write` in `write.rs`: `validate_before_write`, `preprocess_write` (dropped
table, schema compatibility, the three flush triggers through `handle_memtable_flush`),
`EncodeContext::encode_rows`, `maybe_split_write_request`, and per batch
`write_table_row_group`: `write_to_wal`, then `MemTableWriter::write`, then
`set_last_sequence`. What the writer asks of the instance, the WAL and the encoder is a
`WriteEnv` record, so any collaborator behaviour and any failure is allowed. The table carries
the WAL's state at its location (the highest sequence it assigned there and the appended
payloads) and, as a log, the `MemTableWriter::write` calls made with their outcome. The table's
`last_sequence` is a sequence the WAL assigned, kept as a field.

The batch loop is proved once (`Writer.writeBatches_ok`): a loop that returns `Ok` appended one
payload and made one memtable write per batch, under one sequence each. The split is proved once
(`Writer.maybeSplitWriteRequest_aligned`): its batches cut the encoded rows and the row group at
the same places. The headline `Writer.write_ok_aligned` puts them together.
-/

namespace CeresDB.Write

/-- The WAL payload of a write (`table_requests::WriteRequest`). -/
structure WritePayload (Schema : Type) where
  version : Nat
  schema : Schema
  rows : List ByteVec

/-- The WAL at the table's location: the highest sequence assigned there and what was appended. -/
structure WalState (Schema : Type) where
  sequence : Nat
  log : List (Nat × WritePayload Schema)

/-- A `MemTableWriter::write` call of the writer: its sequence, its slice, whether it was `Ok`. -/
structure MemWrite (Row : Type) where
  sequence : Nat
  rowGroup : RowGroupSlicer Row
  ok : Bool

/-- What a write reads of `TableData` and never changes. -/
structure TableMeta (Schema : Type) where
  name : String
  id : Nat
  shardId : Nat
  schema : Schema
  dropped : Bool

/-- The table (`TableData`) as the write path sees it. -/
structure Table (σ Mem Schema Row : Type) where
  meta : TableMeta Schema
  lastSequence : Nat
  mem : MemState σ Mem Row
  wal : WalState Schema
  memWrites : List (MemWrite Row)
  lastSequence_le : lastSequence ≤ wal.sequence

/-- The flush triggers of `preprocess_write` and what flushing answers. -/
structure FlushEnv where
  /-- `Instance::should_flush_instance`. -/
  shouldFlushInstance : Bool
  /-- The table (id, name) `find_maximum_memory_usage_space` and `_table` pick, if any. -/
  instanceFlushTable : Option (Nat × String)
  /-- `Space::should_flush_space`. -/
  shouldFlushSpace : Bool
  /-- `Space::find_maximum_memory_usage_table`. -/
  spaceFlushTable : Option (Nat × String)
  /-- `TableData::should_flush_table`. -/
  shouldFlushTable : Bool
  /-- Whether `try_lock` of another table's serial executor succeeds. -/
  tryLock : Nat → Bool
  /-- `Flusher::schedule_flush` of a table. -/
  scheduleFlush : Nat → Except String Unit

/-- What one `Writer::write` call asks of the instance, the encoder and the WAL. -/
structure WriteEnv (σ Mem Schema Row Idx : Type) where
  /-- `instance.max_bytes_per_write_batch`. -/
  maxBytesPerWriteBatch : Option Nat
  /-- `Schema::compatible_for_write` of the table schema for the request schema. -/
  compatibleForWrite : Schema → Schema → Except String Idx
  flush : FlushEnv
  /-- The encoding of one row against the table schema through the index. -/
  encodeRow : Schema → Idx → Row → Except String ByteVec
  /-- `LogBatchEncoder::encode` at a WAL location. -/
  encodeLogBatch : Nat × Nat → WritePayload Schema → Except String Unit
  /-- `WalManager::write`: the sequence assigned to the payload. -/
  walWrite : WalState Schema → WritePayload Schema → Except String Nat
  memOps : MemTableOps σ Mem Row Idx

variable {σ Mem Schema Row Idx : Type}

/-- Modelled from the spec: `row::encode_row_group_for_wal` (in `common_util::codec::row`, not
among the sources) encodes every row of the row group, in order, against the table schema. -/
def encodeRowGroupForWal (encodeRow : Row → Except String ByteVec) :
    List Row → Except String (List ByteVec)
  | [] => .ok []
  | row :: rows =>
    match encodeRow row with
    | .error e => .error e
    | .ok b => (encodeRowGroupForWal encodeRow rows).map (b :: ·)

/-- `Writer::handle_memtable_flush`: the writer's own table through the executor it holds,
another table only if `try_lock` succeeds. -/
def handleMemtableFlush (f : FlushEnv) (selfId : Nat) (target : Nat × String) :
    Except Error Unit :=
  if target.1 = selfId then (f.scheduleFlush target.1).mapError (.flushTable target.2)
  else if f.tryLock target.1 then (f.scheduleFlush target.1).mapError (.flushTable target.2)
  else .ok ()

/-- One flush trigger of `preprocess_write`: flush the picked table when the trigger fires. -/
def flushIf (f : FlushEnv) (selfId : Nat) : Bool → Option (Nat × String) → Except Error Unit
  | true, some target => handleMemtableFlush f selfId target
  | _, _ => .ok ()

namespace Writer

variable (env : WriteEnv σ Mem Schema Row Idx)

/-- `Writer::validate_before_write`. -/
def validateBeforeWrite (t : Table σ Mem Schema Row) (request : RowGroup Schema Row) :
    Except Error Unit :=
  if request.rows.length < MAX_ROWS_TO_WRITE then .ok ()
  else .error (.tooManyRows t.meta.name request.rows.length)

/-- `Writer::preprocess_write`: the index in the writer schema, filled by the compatibility
check. -/
def preprocessWrite (t : Table σ Mem Schema Row) (request : RowGroup Schema Row) :
    Except Error Idx := do
  if t.meta.dropped then throw (.writeDroppedTable t.meta.name)
  let index ← (env.compatibleForWrite t.meta.schema request.schema).mapError .incompatSchema
  flushIf env.flush t.meta.id env.flush.shouldFlushInstance env.flush.instanceFlushTable
  flushIf env.flush t.meta.id env.flush.shouldFlushSpace env.flush.spaceFlushTable
  flushIf env.flush t.meta.id env.flush.shouldFlushTable (some (t.meta.id, t.meta.name))
  pure index

/-- `EncodeContext::encode_rows`, with its `assert_eq!` on the row count. -/
def encodeRows (schema : Schema) (index : Idx) (rows : List Row) : Except Error (List ByteVec) :=
  match encodeRowGroupForWal (env.encodeRow schema index) rows with
  | .error e => .error (.encodeRowGroup e)
  | .ok encodedRows =>
    if rows.length = encodedRows.length then .ok encodedRows else .error .panicked

/-- `Writer::maybe_split_write_request`. -/
def maybeSplitWriteRequest (encodedRows : List ByteVec) (rowGroup : List Row) :
    Option (SplitResult Row) :=
  match env.maxBytesPerWriteBatch with
  | none => some (.integrate encodedRows (RowGroupSlicer.ofRowGroup rowGroup))
  | some maxBytes => (WriteRowGroupSplitter.mk maxBytes).split encodedRows rowGroup

/-- `Writer::write_to_wal`: the payload carries the table schema; the WAL assigns the sequence. -/
def writeToWal (t : Table σ Mem Schema Row) (encodedRows : List ByteVec) :
    Except Error Nat × Table σ Mem Schema Row :=
  let writeReqPb : WritePayload Schema := ⟨0, t.meta.schema, encodedRows⟩
  let walLocation := (t.meta.id, t.meta.shardId)
  match env.encodeLogBatch walLocation writeReqPb with
  | .error e => (.error (.encodePayloads t.meta.name walLocation e), t)
  | .ok () =>
    match env.walWrite t.wal writeReqPb with
    | .error e => (.error (.writeLogBatch t.meta.name e), t)
    | .ok sequence =>
      (.ok sequence,
        { t with
          wal := ⟨max t.wal.sequence sequence, t.wal.log ++ [(sequence, writeReqPb)]⟩
          lastSequence_le := Nat.le_trans t.lastSequence_le (Nat.le_max_left _ _) })

/-- Everything `write_to_wal` can do. -/
lemma writeToWal_cases (t : Table σ Mem Schema Row) (encodedRows : List ByteVec) :
    (∃ e, writeToWal env t encodedRows = (.error e, t)) ∨
    ∃ sequence, env.walWrite t.wal ⟨0, t.meta.schema, encodedRows⟩ = .ok sequence ∧
      writeToWal env t encodedRows = (.ok sequence,
        { t with
          wal := ⟨max t.wal.sequence sequence, t.wal.log ++ [(sequence, ⟨0, t.meta.schema, encodedRows⟩)]⟩
          lastSequence_le := Nat.le_trans t.lastSequence_le (Nat.le_max_left _ _) }) := by
  dsimp only [writeToWal]
  cases env.encodeLogBatch (t.meta.id, t.meta.shardId) ⟨0, t.meta.schema, encodedRows⟩ with
  | error e => exact .inl ⟨_, rfl⟩
  | ok u =>
    cases h : env.walWrite t.wal ⟨0, t.meta.schema, encodedRows⟩ with
    | error e => exact .inl ⟨_, rfl⟩
    | ok s => exact .inr ⟨s, rfl, rfl⟩

/-- The sequence `write_to_wal` returns is one the WAL now counts as assigned. -/
lemma writeToWal_sequence_le {t t' : Table σ Mem Schema Row} {encodedRows : List ByteVec}
    {sequence : Nat} (h : writeToWal env t encodedRows = (.ok sequence, t')) :
    sequence ≤ t'.wal.sequence := by
  rcases writeToWal_cases env t encodedRows with ⟨e, he⟩ | ⟨s, -, hs⟩
  · rw [h] at he; simp at he
  · rw [h] at hs
    simp only [Prod.mk.injEq, Except.ok.injEq] at hs
    obtain ⟨rfl, rfl⟩ := hs
    exact Nat.le_max_right _ _

/-- `Writer::write_table_row_group`: WAL append, memtable write, then `set_last_sequence` (the
warning on a sequence gap changes nothing). -/
def writeTableRowGroup (t : Table σ Mem Schema Row) (rowGroup : RowGroupSlicer Row) (index : Idx)
    (encodedRows : List ByteVec) : Except Error Unit × Table σ Mem Schema Row :=
  match h : writeToWal env t encodedRows with
  | (.error e, t') => (.error e, t')
  | (.ok sequence, t') =>
    match MemTableWriter.write env.memOps t'.meta.name t'.mem sequence rowGroup index with
    | (.error e, mem) =>
      (.error e, { t' with mem := mem, memWrites := t'.memWrites ++ [⟨sequence, rowGroup, false⟩] })
    | (.ok (), mem) =>
      (.ok (),
        { t' with
          mem := mem
          lastSequence := sequence
          memWrites := t'.memWrites ++ [⟨sequence, rowGroup, true⟩]
          lastSequence_le := writeToWal_sequence_le env h })

/-- The batch loop of `Writer::write`. -/
def writeBatches (index : Idx) :
    Table σ Mem Schema Row → List (List ByteVec × RowGroupSlicer Row) →
      Except Error Unit × Table σ Mem Schema Row
  | t, [] => (.ok (), t)
  | t, (encodedRows, rowGroup) :: batches =>
    match writeTableRowGroup env t rowGroup index encodedRows with
    | (.error e, t) => (.error e, t)
    | (.ok (), t) => writeBatches index t batches

/-- `Writer::write`: the row count of the request on success. -/
def write (t : Table σ Mem Schema Row) (request : RowGroup Schema Row) :
    Except Error Nat × Table σ Mem Schema Row :=
  match validateBeforeWrite t request with
  | .error e => (.error e, t)
  | .ok () =>
    match preprocessWrite env t request with
    | .error e => (.error e, t)
    | .ok index =>
      match encodeRows env t.meta.schema index request.rows with
      | .error e => (.error e, t)
      | .ok encodedRows =>
        match maybeSplitWriteRequest env encodedRows request.rows with
        | none => (.error .panicked, t)
        | some (.integrate encodedRows rowGroup) =>
          match writeTableRowGroup env t rowGroup index encodedRows with
          | (.error e, t) => (.error e, t)
          | (.ok (), t) => (.ok request.rows.length, t)
        | some (.splitted encodedBatches rowGroupBatches) =>
          match writeBatches env index t (encodedBatches.zip rowGroupBatches) with
          | (.error e, t) => (.error e, t)
          | (.ok (), t) => (.ok request.rows.length, t)

/-- Everything `write_table_row_group` can do: fail at the WAL and change nothing, or append the
payload under the sequence the WAL assigned, run the memtable write, log it with its outcome, and
move `last_sequence` to the sequence when the memtable write returned `Ok`. -/
lemma writeTableRowGroup_spec (t : Table σ Mem Schema Row) (rowGroup : RowGroupSlicer Row)
    (index : Idx) (encodedRows : List ByteVec) :
    (∃ e, writeTableRowGroup env t rowGroup index encodedRows = (.error e, t)) ∨
    ∃ s, env.walWrite t.wal ⟨0, t.meta.schema, encodedRows⟩ = .ok s ∧
      let m := MemTableWriter.write env.memOps t.meta.name t.mem s rowGroup index
      let r := writeTableRowGroup env t rowGroup index encodedRows
      r.1 = m.1 ∧ r.2.meta = t.meta ∧ r.2.mem = m.2 ∧
      r.2.wal = ⟨max t.wal.sequence s, t.wal.log ++ [(s, ⟨0, t.meta.schema, encodedRows⟩)]⟩ ∧
      r.2.memWrites = t.memWrites ++ [⟨s, rowGroup, m.1.toBool⟩] ∧
      r.2.lastSequence = if m.1.toBool then s else t.lastSequence := by
  unfold writeTableRowGroup
  split
  · next e t' h =>
    rcases writeToWal_cases env t encodedRows with ⟨e', he⟩ | ⟨s, -, he⟩ <;> rw [he] at h
    · cases h; exact .inl ⟨_, rfl⟩
    · cases h
  · next s t' h =>
    rcases writeToWal_cases env t encodedRows with ⟨e', he⟩ | ⟨s', hs, he⟩ <;> rw [he] at h
    · cases h
    · simp only [Prod.mk.injEq, Except.ok.injEq] at h
      obtain ⟨rfl, rfl⟩ := h
      refine .inr ⟨s', hs, ?_⟩
      split <;> simp_all [Except.toBool]

/-- The batch loop leaves the table's metadata as it was. -/
lemma writeBatches_meta (index : Idx) :
    ∀ (t : Table σ Mem Schema Row) (batches : List (List ByteVec × RowGroupSlicer Row)),
      (writeBatches env index t batches).2.meta = t.meta
  | t, [] => rfl
  | t, (encodedRows, rowGroup) :: batches => by
    have h := writeTableRowGroup_spec env t rowGroup index encodedRows
    simp only [writeBatches]
    split
    · next e t' hr =>
      rcases h with ⟨e', he⟩ | ⟨s, -, -, hm, -⟩
      · rw [he] at hr; cases hr; rfl
      · rw [hr] at hm; exact hm
    · next t' hr =>
      rw [writeBatches_meta index t' batches]
      rcases h with ⟨e', he⟩ | ⟨s, -, -, hm, -⟩
      · rw [he] at hr; cases hr
      · rw [hr] at hm; exact hm

/-- A batch loop that returns `Ok` appended one payload and made one successful memtable write
per batch, each pair under the sequence the WAL assigned to it, and `last_sequence` is the last
of these sequences. -/
lemma writeBatches_ok (index : Idx) :
    ∀ (t t' : Table σ Mem Schema Row) (batches : List (List ByteVec × RowGroupSlicer Row)),
      writeBatches env index t batches = (.ok (), t') →
      ∃ log : List (Nat × (List ByteVec × RowGroupSlicer Row)), log.map Prod.snd = batches ∧
        t'.wal.log = t.wal.log ++ log.map (fun x => (x.1, ⟨0, t.meta.schema, x.2.1⟩)) ∧
        t'.memWrites = t.memWrites ++ log.map (fun x => ⟨x.1, x.2.2, true⟩) ∧
        t'.meta = t.meta ∧ (log.getLast?.map Prod.fst).getD t.lastSequence = t'.lastSequence
  | t, t', [], h => by
    simp only [writeBatches, Prod.mk.injEq, true_and] at h
    subst h
    exact ⟨[], rfl, by simp, by simp, rfl, rfl⟩
  | t, t', (encodedRows, rowGroup) :: batches, h => by
    simp only [writeBatches] at h
    split at h
    · cases h
    · next t₁ hr =>
      rcases writeTableRowGroup_spec env t rowGroup index encodedRows with
        ⟨e, he⟩ | ⟨s, -, hres, hmeta, -, hwal, hmw, hls⟩
      · rw [he] at hr; cases hr
      rw [hr] at hres hmeta hwal hmw hls
      dsimp only at hres hmeta hwal hmw hls
      have hok : (MemTableWriter.write env.memOps t.meta.name t.mem s rowGroup index).1.toBool :=
        by rw [← hres]; rfl
      obtain ⟨log, hlog, hw, hm, hmeta', hlast⟩ := writeBatches_ok index t₁ t' batches h
      refine ⟨(s, (encodedRows, rowGroup)) :: log, by simp [hlog], ?_, ?_, hmeta'.trans hmeta, ?_⟩
      · simp [hw, hwal, hmeta]
      · simp [hm, hmw, hok]
      · rw [← hlast]
        cases log with
        | nil => simp [hls, hok]
        | cons x xs => simp [List.getLast?_cons]

/-- A successful encoding encodes the rows one by one, in order. -/
lemma encodeRowGroupForWal_forall₂ {f : Row → Except String ByteVec} :
    ∀ {rows : List Row} {bs : List ByteVec}, encodeRowGroupForWal f rows = .ok bs →
      List.Forall₂ (fun row b => f row = .ok b) rows bs
  | [], bs, h => by cases h; exact .nil
  | row :: rows, bs, h => by
    simp only [encodeRowGroupForWal] at h
    split at h
    · cases h
    · next b hb =>
      cases hr : encodeRowGroupForWal f rows with
      | error e => rw [hr] at h; cases h
      | ok bs' =>
        rw [hr] at h
        cases h
        exact .cons hb (encodeRowGroupForWal_forall₂ hr)

/-- A successful `encode_rows` is `encode_row_group_for_wal`, one encoded row per row. -/
lemma encodeRows_ok {schema : Schema} {index : Idx} {rows : List Row} {bs : List ByteVec}
    (h : encodeRows env schema index rows = .ok bs) :
    encodeRowGroupForWal (env.encodeRow schema index) rows = .ok bs ∧ rows.length = bs.length := by
  unfold encodeRows at h
  split at h
  · cases h
  · next bs' hbs =>
    split at h
    · cases h; exact ⟨hbs, ‹_›⟩
    · cases h

/-- The batches of a whole request. -/
lemma integrate_aligned {encodedRows : List ByteVec} {rows : List Row}
    (hlen : rows.length = encodedRows.length) :
    let r : SplitResult Row := .integrate encodedRows (RowGroupSlicer.ofRowGroup rows)
    (∀ b ∈ r.batches, b.2.rowGroup = rows ∧ b.2.stop ≤ rows.length ∧
      b.1 = { b.2 with rowGroup := encodedRows }.iter) ∧
    (r.batches.map fun b => b.2.iter).flatten = rows ∧ (r.batches.map Prod.fst).flatten = encodedRows := by
  refine ⟨fun b hb => ?_, by simp [SplitResult.batches], by simp [SplitResult.batches]⟩
  simp only [SplitResult.batches, List.mem_singleton] at hb
  subst hb
  simp [RowGroupSlicer.ofRowGroup, RowGroupSlicer.iter, hlen]

/-- Each batch a write loops over is a slicer over the request rows, ending inside them, with the
encoded rows at the same range; the slicers' rows in order are the request rows, and the encoded
batches in order are the encoded rows. -/
lemma maybeSplitWriteRequest_aligned {encodedRows : List ByteVec} {rows : List Row}
    {r : SplitResult Row} (h : maybeSplitWriteRequest env encodedRows rows = some r)
    (hlen : rows.length = encodedRows.length) :
    (∀ b ∈ r.batches, b.2.rowGroup = rows ∧ b.2.stop ≤ rows.length ∧
      b.1 = { b.2 with rowGroup := encodedRows }.iter) ∧
    (r.batches.map fun b => b.2.iter).flatten = rows ∧ (r.batches.map Prod.fst).flatten = encodedRows := by
  unfold maybeSplitWriteRequest at h
  split at h
  · cases h; exact integrate_aligned hlen
  · next maxBytes _ =>
    cases r with
    | integrate e sl =>
      obtain ⟨rfl, rfl⟩ := WriteRowGroupSplitter.split_integrate h
      exact integrate_aligned hlen
    | splitted bs sls =>
      obtain ⟨rfl, rfl, -, hlast⟩ := WriteRowGroupSplitter.split_splitted h
      have hs := (WriteRowGroupSplitter.mk maxBytes).computeBatches_sorted encodedRows
      have hle := (WriteRowGroupSplitter.mk maxBytes).computeBatches_le encodedRows
      generalize (WriteRowGroupSplitter.mk maxBytes).computeBatches encodedRows = ends at hs hle hlast
      have henc : (rowGroupBatches rows 0 ends).map (fun sl => { sl with rowGroup := encodedRows }.iter) =
          batchesOf encodedRows 0 ends := by
        rw [batchesOf, ← rowGroupBatches_map_rowGroup rows encodedRows, List.map_map]; rfl
      rw [SplitResult.batches, zip_batchesOf_rowGroupBatches]
      refine ⟨fun b hb => ?_, ?_, ?_⟩
      · obtain ⟨sl, hsl, rfl⟩ := List.mem_map.1 hb
        obtain ⟨hrg, hstop⟩ := mem_rowGroupBatches hsl
        exact ⟨hrg, hlen ▸ hle _ hstop, rfl⟩
      · rw [List.map_map]
        exact (flatten_batchesOf hs rows 0 fun _ _ => Nat.zero_le _).trans (by rw [hlast, ← hlen]; simp)
      · rw [List.map_map]
        exact (congrArg List.flatten henc).trans
          ((flatten_batchesOf hs encodedRows 0 fun _ _ => Nat.zero_le _).trans (by rw [hlast]; simp))

/-- Everything `Writer::write` can do: fail before the batch loop and change nothing, or pass
validation, preprocessing, encoding and the split, and return the batch loop's outcome with the
request's row count. -/
lemma write_eq (t : Table σ Mem Schema Row) (request : RowGroup Schema Row) :
    (∃ e, write env t request = (.error e, t)) ∨
    ∃ index encodedRows r, request.rows.length < MAX_ROWS_TO_WRITE ∧
      preprocessWrite env t request = .ok index ∧
      encodeRows env t.meta.schema index request.rows = .ok encodedRows ∧
      maybeSplitWriteRequest env encodedRows request.rows = some r ∧
      write env t request = ((writeBatches env index t r.batches).1.map fun _ => request.rows.length,
        (writeBatches env index t r.batches).2) := by
  unfold write
  split
  · exact .inl ⟨_, rfl⟩
  · next hv =>
    have hlt : request.rows.length < MAX_ROWS_TO_WRITE := by
      unfold validateBeforeWrite at hv; split at hv <;> simp_all
    split
    · exact .inl ⟨_, rfl⟩
    · next index hp =>
      split
      · exact .inl ⟨_, rfl⟩
      · next enc he =>
        split
        · exact .inl ⟨_, rfl⟩
        · next e sl hs =>
          refine .inr ⟨index, enc, _, hlt, hp, he, hs, ?_⟩
          simp only [SplitResult.batches, writeBatches]
          rcases writeTableRowGroup env t sl index e with ⟨_ | ⟨⟩, _⟩ <;> rfl
        · next bs sls hs =>
          refine .inr ⟨index, enc, _, hlt, hp, he, hs, ?_⟩
          simp only [SplitResult.batches]
          rcases writeBatches env index t (bs.zip sls) with ⟨_ | ⟨⟩, _⟩ <;> rfl

/-- A write that returns `Ok` passed validation, preprocessing, encoding and the split, and its
batch loop returned `Ok`; it returns the row count of the request. -/
lemma write_ok_batches {t t' : Table σ Mem Schema Row} {request : RowGroup Schema Row} {n : Nat}
    (h : write env t request = (.ok n, t')) :
    n = request.rows.length ∧ request.rows.length < MAX_ROWS_TO_WRITE ∧
    ∃ index encodedRows r, preprocessWrite env t request = .ok index ∧
      encodeRows env t.meta.schema index request.rows = .ok encodedRows ∧
      maybeSplitWriteRequest env encodedRows request.rows = some r ∧
      writeBatches env index t r.batches = (.ok (), t') := by
  rcases write_eq env t request with ⟨e, he⟩ | ⟨index, enc, r, hlt, hp, he, hs, hw⟩
  · rw [he] at h; cases h
  · rw [hw] at h
    rcases hb : writeBatches env index t r.batches with ⟨_ | ⟨⟩, t₁⟩ <;> rw [hb] at h <;> cases h
    exact ⟨rfl, hlt, index, enc, r, hp, he, hs, hb⟩

/-- A split request has at least one batch. -/
lemma maybeSplitWriteRequest_ne_nil {encodedRows : List ByteVec} {rows : List Row}
    {r : SplitResult Row} (h : maybeSplitWriteRequest env encodedRows rows = some r) :
    r.batches ≠ [] := by
  unfold maybeSplitWriteRequest at h
  split at h
  · cases h; simp [SplitResult.batches]
  · cases r with
    | integrate e sl => simp [SplitResult.batches]
    | splitted bs sls =>
      obtain ⟨rfl, rfl, h2, -⟩ := WriteRowGroupSplitter.split_splitted h
      rw [SplitResult.batches, zip_batchesOf_rowGroupBatches, Ne, List.map_eq_nil_iff,
        ← List.length_eq_zero, length_rowGroupBatches]
      omega

end Writer

/-- A successful `Writer::write`: WAL payloads, memtable writes and request rows line up. -/
theorem Writer.write_ok_aligned (env : WriteEnv σ Mem Schema Row Idx) (t t' : Table σ Mem Schema Row)
    (request : RowGroup Schema Row) (n : Nat) (h : Writer.write env t request = (.ok n, t')) :
    t'.meta = t.meta ∧
    ∃ index encodedRows,
      Writer.preprocessWrite env t request = .ok index ∧
      encodeRowGroupForWal (env.encodeRow t.meta.schema index) request.rows = .ok encodedRows ∧
      ((t'.wal.log.drop t.wal.log.length).map fun a => a.2.rows).flatten = encodedRows ∧
      (∀ a ∈ t'.wal.log.drop t.wal.log.length, a.2.schema = t.meta.schema) ∧
      List.Forall₂ (fun (w : MemWrite Row) (a : Nat × WritePayload Schema) => w.sequence = a.1 ∧
          List.Forall₂ (fun row b => env.encodeRow t.meta.schema index row = .ok b)
            w.rowGroup.iter a.2.rows)
        (t'.memWrites.drop t.memWrites.length) (t'.wal.log.drop t.wal.log.length) ∧
      ((t'.memWrites.drop t.memWrites.length).map fun w => w.rowGroup.iter).flatten = request.rows ∧
      n = ((t'.memWrites.drop t.memWrites.length).map fun w => w.rowGroup.numRows).sum := by
  obtain ⟨rfl, -, index, enc, r, hp, he, hs, hb⟩ := Writer.write_ok_batches env h
  obtain ⟨henc, hlen⟩ := Writer.encodeRows_ok env he
  have h₂ := encodeRowGroupForWal_forall₂ henc
  obtain ⟨hal, hrows, henc'⟩ := Writer.maybeSplitWriteRequest_aligned env hs hlen
  obtain ⟨log, hlog, hw, hm, hmeta, -⟩ := Writer.writeBatches_ok env index t t' r.batches hb
  have hmem : ∀ x ∈ log, x.2 ∈ r.batches := fun x hx => hlog ▸ List.mem_map_of_mem _ hx
  rw [hw, hm, List.drop_left, List.drop_left]
  refine ⟨hmeta, index, enc, hp, henc, ?_, ?_, ?_, ?_, ?_⟩
  · rw [← henc', ← hlog]; simp [Function.comp_def]
  · intro a ha
    obtain ⟨x, -, rfl⟩ := List.mem_map.1 ha
    rfl
  · rw [List.forall₂_map_left_iff, List.forall₂_map_right_iff, List.forall₂_same]
    intro x hx
    obtain ⟨hrg, -, h1⟩ := hal x.2 (hmem x hx)
    refine ⟨rfl, ?_⟩
    rw [h1]
    simp only [RowGroupSlicer.iter, ← hrg]
    exact List.forall₂_take _ (List.forall₂_drop _ (hrg ▸ h₂))
  · rw [← hrows, ← hlog]; simp [Function.comp_def]
  · have hn : ((r.batches.map fun b => b.2.iter).flatten).length = request.rows.length := by
      rw [hrows]
    rw [List.length_flatten, List.map_map] at hn
    rw [← hn, ← hlog, List.map_map, List.map_map]
    refine congrArg List.sum (List.map_congr_left fun x hx => ?_)
    obtain ⟨hrg, hstop, -⟩ := hal x.2 (hmem x hx)
    exact (RowGroupSlicer.length_iter _ (hrg ▸ hstop) :)

/-- A writer environment where every collaborator succeeds: a row is a number encoded as one byte,
a batch holds at most one byte, and the WAL assigns the next sequence. -/
def okEnv : WriteEnv Unit Unit Unit Nat Unit where
  maxBytesPerWriteBatch := some 1
  compatibleForWrite _ _ := .ok ()
  flush := ⟨false, none, false, none, false, fun _ => true, fun _ => .ok ()⟩
  encodeRow _ _ row := .ok [UInt8.ofNat row]
  encodeLogBatch _ _ := .ok ()
  walWrite w _ := .ok (w.sequence + 1)
  memOps := ⟨fun _ => some 0, fun _ => false, fun v _ => .ok ((), v), fun _ _ => true,
    fun v _ _ _ _ _ => .ok v, fun v _ _ => .ok v⟩

/-- A fresh table: nothing written, the WAL at sequence 0. -/
def emptyTable : Table Unit Unit Unit Nat :=
  ⟨⟨"t", 1, 0, (), false⟩, 0, ⟨(), [], []⟩, ⟨0, []⟩, [], le_refl 0⟩

theorem write_ok_aligned_two_rows :
    Writer.write okEnv emptyTable ⟨(), [1, 2]⟩ =
      (.ok 2, (Writer.write okEnv emptyTable ⟨(), [1, 2]⟩).2) ∧
    (Writer.write okEnv emptyTable ⟨(), [1, 2]⟩).2.meta = emptyTable.meta ∧
    ∃ index encodedRows,
      Writer.preprocessWrite okEnv emptyTable ⟨(), [1, 2]⟩ = .ok index ∧
      encodeRowGroupForWal (okEnv.encodeRow emptyTable.meta.schema index) [1, 2] = .ok encodedRows ∧
      (((Writer.write okEnv emptyTable ⟨(), [1, 2]⟩).2.wal.log.drop
          emptyTable.wal.log.length).map fun a => a.2.rows).flatten = encodedRows ∧
      (∀ a ∈ (Writer.write okEnv emptyTable ⟨(), [1, 2]⟩).2.wal.log.drop emptyTable.wal.log.length,
        a.2.schema = emptyTable.meta.schema) ∧
      List.Forall₂ (fun (w : MemWrite Nat) (a : Nat × WritePayload Unit) => w.sequence = a.1 ∧
          List.Forall₂ (fun row b => okEnv.encodeRow emptyTable.meta.schema index row = .ok b)
            w.rowGroup.iter a.2.rows)
        ((Writer.write okEnv emptyTable ⟨(), [1, 2]⟩).2.memWrites.drop emptyTable.memWrites.length)
        ((Writer.write okEnv emptyTable ⟨(), [1, 2]⟩).2.wal.log.drop emptyTable.wal.log.length) ∧
      (((Writer.write okEnv emptyTable ⟨(), [1, 2]⟩).2.memWrites.drop
          emptyTable.memWrites.length).map fun w => w.rowGroup.iter).flatten = [1, 2] ∧
      2 = (((Writer.write okEnv emptyTable ⟨(), [1, 2]⟩).2.memWrites.drop
          emptyTable.memWrites.length).map fun w => w.rowGroup.numRows).sum :=
  ⟨rfl, Writer.write_ok_aligned okEnv emptyTable _ ⟨(), [1, 2]⟩ 2 rfl⟩

end CeresDB.Write
