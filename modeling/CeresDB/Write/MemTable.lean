import CeresDB.Write.Basic

/-!
# Memtable writer

Model of `MemTableWriter::write` in `write.rs`. What the writer asks of `TableData` and of the
memtables it hands out is a `MemTableOps` record over the table's version state `σ` (its mutable
memtables and their contents): any behaviour, any failure. The memtable state adds two logs to
the version, the puts made and the `set_last_sequence` calls made, in order.

The routing loop reads each row's timestamp (`unwrap`, a panic when missing), skips expired rows,
keeps `last_mutable_mem` while it accepts the timestamp and otherwise asks
`find_or_create_mutable` for the memtable and pushes it onto `wrote_memtables`, then puts the row
under `KeySequence::new(sequence, row_idx as u32)`; the index counts skipped rows too. After the
loop every memtable in `wrote_memtables` gets `set_last_sequence(sequence)`.

The puts of one call, whether it succeeds or stops at an error, form a sublist of `keyedRows`,
the slice's rows each paired with the key it would get (`MemTableWriter.write_puts`); its
`set_last_sequence` calls all carry the call's sequence (`MemTableWriter.write_updates`).

A call that returns `Ok` did more (`MemTableWriter.write_ok_puts`): when every memtable
`find_or_create_mutable` returns accepts the timestamp it was asked for, the puts are exactly the
keyed rows that are not expired, each into a memtable that accepts its timestamp and that later
gets `set_last_sequence`. The proof goes through one inversion lemma for a row of the routing loop
(`MemTableWriter.writeRows_cons_ok`) and the loop's spec on `Ok` (`MemTableWriter.writeRows_ok`).
-/

namespace CeresDB.Write

/-- What `MemTableWriter::write` asks of `TableData` (under the table schema) and of the
memtables, over the table's version state `σ`. -/
structure MemTableOps (σ Mem Row Idx : Type) where
  /-- `row.timestamp(schema)`. -/
  timestamp : Row → Option Int
  /-- `TableData::is_expired`. -/
  isExpired : Int → Bool
  /-- `TableData::find_or_create_mutable(timestamp, schema)`. -/
  findOrCreateMutable : σ → Int → Except String (Mem × σ)
  /-- `MemTableForWrite::accept_timestamp`. -/
  acceptTimestamp : Mem → Int → Bool
  /-- `MemTableForWrite::put(ctx, key_seq, row, schema, timestamp)`, `ctx` holding the index. -/
  put : σ → Mem → Idx → KeySequence → Row → Int → Except String σ
  /-- `MemTableForWrite::set_last_sequence`. -/
  setLastSequence : σ → Mem → Nat → Except String σ

/-- A put made by the writer: the memtable, the key sequence and the row. -/
structure Put (Mem Row : Type) where
  mem : Mem
  keySeq : KeySequence
  row : Row

/-- The table's version state, with the puts and the `set_last_sequence` calls made so far. -/
structure MemState (σ Mem Row : Type) where
  version : σ
  puts : List (Put Mem Row)
  lastSequenceUpdates : List (Mem × Nat)

variable {σ Mem Row Idx : Type}

namespace MemTableWriter

/-- `find_or_create_mutable` for a row, its memtable pushed onto `wrote_memtables`. -/
def findMutable (ops : MemTableOps σ Mem Row Idx) (version : σ) (wroteMemtables : List Mem)
    (timestamp : Int) : Except String (Mem × List Mem × σ) :=
  (ops.findOrCreateMutable version timestamp).map fun r => (r.1, wroteMemtables ++ [r.1], r.2)

/-- The memtable a row goes to: `last_mutable_mem` if it accepts the timestamp, else a new one. -/
def route (ops : MemTableOps σ Mem Row Idx) (version : σ) (lastMutableMem : Option Mem)
    (wroteMemtables : List Mem) (timestamp : Int) : Except String (Mem × List Mem × σ) :=
  match lastMutableMem with
  | some mem =>
    if ops.acceptTimestamp mem timestamp then .ok (mem, wroteMemtables, version)
    else findMutable ops version wroteMemtables timestamp
  | none => findMutable ops version wroteMemtables timestamp

/-- The routing loop of `MemTableWriter::write` from `row_idx` on. -/
def writeRows (ops : MemTableOps σ Mem Row Idx) (table : String) (index : Idx) (sequence : Nat) :
    MemState σ Mem Row → Option Mem → List Mem → Nat → List Row →
      Except Error (List Mem) × MemState σ Mem Row
  | st, _, wroteMemtables, _, [] => (.ok wroteMemtables, st)
  | st, lastMutableMem, wroteMemtables, rowIdx, row :: rows =>
    match ops.timestamp row with
    | none => (.error .panicked, st)
    | some timestamp =>
      if ops.isExpired timestamp then
        writeRows ops table index sequence st lastMutableMem wroteMemtables (rowIdx + 1) rows
      else
        match route ops st.version lastMutableMem wroteMemtables timestamp with
        | .error e => (.error (.findMutableMemTable table e), st)
        | .ok (mem, wroteMemtables, version) =>
          let keySeq : KeySequence := ⟨sequence, UInt32.ofNat rowIdx⟩
          match ops.put version mem index keySeq row timestamp with
          | .error e => (.error (.writeMemTable table e), { st with version := version })
          | .ok version =>
            writeRows ops table index sequence
              { st with version := version, puts := st.puts ++ [⟨mem, keySeq, row⟩] }
              (some mem) wroteMemtables (rowIdx + 1) rows

/-- The last loop of `MemTableWriter::write`: `set_last_sequence` on every memtable written. -/
def setLastSequences (ops : MemTableOps σ Mem Row Idx) (sequence : Nat) :
    MemState σ Mem Row → List Mem → Except Error Unit × MemState σ Mem Row
  | st, [] => (.ok (), st)
  | st, mem :: mems =>
    match ops.setLastSequence st.version mem sequence with
    | .error e => (.error (.updateMemTableSequence e), st)
    | .ok version =>
      setLastSequences ops sequence
        { st with
          version := version, lastSequenceUpdates := st.lastSequenceUpdates ++ [(mem, sequence)] }
        mems

/-- `MemTableWriter::write(sequence, row_group, index_in_writer)`; the table name is for errors. -/
def write (ops : MemTableOps σ Mem Row Idx) (table : String) (st : MemState σ Mem Row)
    (sequence : Nat) (rowGroup : RowGroupSlicer Row) (index : Idx) :
    Except Error Unit × MemState σ Mem Row :=
  if rowGroup.isEmpty then (.ok (), st)
  else
    match writeRows ops table index sequence st none [] 0 rowGroup.iter with
    | (.error e, st) => (.error e, st)
    | (.ok wroteMemtables, st) => setLastSequences ops sequence st wroteMemtables

end MemTableWriter

/-- The rows from position `i` on, each with the key sequence it would be put under. -/
def keyedRows (sequence : Nat) : Nat → List Row → List (KeySequence × Row)
  | _, [] => []
  | i, row :: rows => (⟨sequence, UInt32.ofNat i⟩, row) :: keyedRows sequence (i + 1) rows

@[simp] lemma map_snd_keyedRows (sequence : Nat) :
    ∀ (i : Nat) (rows : List Row), (keyedRows sequence i rows).map Prod.snd = rows
  | _, [] => rfl
  | i, row :: rows => congrArg (row :: ·) (map_snd_keyedRows sequence (i + 1) rows)

/-- A keyed row is the row at some position `j`, keyed `(sequence, i + j)`. -/
lemma mem_keyedRows {sequence : Nat} {x : KeySequence × Row} :
    ∀ {i : Nat} {rows : List Row}, x ∈ keyedRows sequence i rows →
      ∃ j < rows.length, x.1 = ⟨sequence, UInt32.ofNat (i + j)⟩ ∧ rows[j]? = some x.2
  | _, [], h => by simp [keyedRows] at h
  | i, row :: rows, h => by
    rcases List.mem_cons.1 h with rfl | h
    · exact ⟨0, by simp, rfl, by simp⟩
    · obtain ⟨j, hj, hk, hr⟩ := mem_keyedRows h
      exact ⟨j + 1, by simp [hj], by rw [hk, Nat.add_right_comm, Nat.add_assoc], by simpa using hr⟩

/-- While the positions stay below `2 ^ 32`, the keys strictly increase along the rows. -/
lemma keyedRows_sorted (sequence : Nat) :
    ∀ (i : Nat) (rows : List Row), i + rows.length ≤ 2 ^ 32 →
      ((keyedRows sequence i rows).map Prod.fst).Sorted (· < ·)
  | _, [], _ => List.sorted_nil
  | i, row :: rows, h => by
    simp only [List.length_cons] at h
    refine List.sorted_cons.2 ⟨fun k hk => ?_, keyedRows_sorted sequence (i + 1) rows (by omega)⟩
    obtain ⟨x, hx, rfl⟩ := List.mem_map.1 hk
    obtain ⟨j, hj, hk, -⟩ := mem_keyedRows hx
    rw [hk]
    exact KeySequence.lt_of_index_lt (by omega) (by omega)

/-- A put seen as its key and row. -/
def Put.entry (p : Put Mem Row) : KeySequence × Row := (p.keySeq, p.row)

/-- Whether the routing loop puts the row: its timestamp is present and not expired. -/
def MemTableOps.notExpired (ops : MemTableOps σ Mem Row Idx) (row : Row) : Bool :=
  match ops.timestamp row with
  | some timestamp => !ops.isExpired timestamp
  | none => false

namespace MemTableWriter

variable (ops : MemTableOps σ Mem Row Idx) (table : String) (index : Idx) (sequence : Nat)

/-- The routing loop appends puts that form a sublist of the keyed rows, and calls no
`set_last_sequence`. -/
lemma writeRows_spec : ∀ (st : MemState σ Mem Row) (last : Option Mem) (wrote : List Mem)
    (rowIdx : Nat) (rows : List Row),
    (∃ ps, (writeRows ops table index sequence st last wrote rowIdx rows).2.puts = st.puts ++ ps ∧
      (ps.map Put.entry).Sublist (keyedRows sequence rowIdx rows)) ∧
    (writeRows ops table index sequence st last wrote rowIdx rows).2.lastSequenceUpdates =
      st.lastSequenceUpdates
  | st, _, _, _, [] => ⟨⟨[], by simp [writeRows], List.nil_sublist _⟩, rfl⟩
  | st, last, wrote, rowIdx, row :: rows => by
    simp only [writeRows]
    cases ops.timestamp row with
    | none => exact ⟨⟨[], by simp, List.nil_sublist _⟩, rfl⟩
    | some ts =>
      simp only
      split
      · obtain ⟨⟨ps, hps, hsub⟩, hu⟩ := writeRows_spec st last wrote (rowIdx + 1) rows
        exact ⟨⟨ps, hps, hsub.cons _⟩, hu⟩
      · cases route ops st.version last wrote ts with
        | error e => exact ⟨⟨[], by simp, List.nil_sublist _⟩, rfl⟩
        | ok r =>
          obtain ⟨mem, wrote', version⟩ := r
          simp only
          cases ops.put version mem index ⟨sequence, UInt32.ofNat rowIdx⟩ row ts with
          | error e => exact ⟨⟨[], by simp, List.nil_sublist _⟩, rfl⟩
          | ok version' =>
            obtain ⟨⟨ps, hps, hsub⟩, hu⟩ := writeRows_spec _ (some mem) wrote' (rowIdx + 1) rows
            exact ⟨⟨⟨mem, ⟨sequence, UInt32.ofNat rowIdx⟩, row⟩ :: ps, by simp [hps], hsub.cons₂ _⟩, hu⟩

/-- The last loop makes no put and updates every memtable to `sequence`. -/
lemma setLastSequences_spec : ∀ (st : MemState σ Mem Row) (mems : List Mem),
    (setLastSequences ops sequence st mems).2.puts = st.puts ∧
    ∃ us, (setLastSequences ops sequence st mems).2.lastSequenceUpdates =
      st.lastSequenceUpdates ++ us ∧ ∀ u ∈ us, u.2 = sequence
  | st, [] => ⟨rfl, [], by simp [setLastSequences]⟩
  | st, mem :: mems => by
    simp only [setLastSequences]
    split
    · exact ⟨rfl, [], by simp⟩
    · obtain ⟨hp, us, hus, hall⟩ := setLastSequences_spec _ mems
      refine ⟨hp, (mem, sequence) :: us, by simp [hus], ?_⟩
      rintro u (_ | ⟨_, hu⟩)
      · rfl
      · exact hall u hu

/-- The puts of one `MemTableWriter::write` call, whether it succeeds or not, form a sublist of
the slice's keyed rows: each row at most once, in slice order, under `(sequence, row_idx as u32)`. -/
lemma write_puts (st : MemState σ Mem Row) (rowGroup : RowGroupSlicer Row) :
    ∃ ps, (write ops table st sequence rowGroup index).2.puts = st.puts ++ ps ∧
      (ps.map Put.entry).Sublist (keyedRows sequence 0 rowGroup.iter) := by
  unfold write
  split
  · exact ⟨[], by simp, List.nil_sublist _⟩
  · obtain ⟨⟨ps, hps, hsub⟩, -⟩ :=
      writeRows_spec ops table index sequence st none [] 0 rowGroup.iter
    split
    · rename_i h; rw [h] at hps; exact ⟨ps, hps, hsub⟩
    · rename_i h; rw [h] at hps
      exact ⟨ps, (setLastSequences_spec ops sequence _ _).1.trans hps, hsub⟩

/-- Every `set_last_sequence` call of one `MemTableWriter::write` call carries its sequence. -/
lemma write_updates (st : MemState σ Mem Row) (rowGroup : RowGroupSlicer Row) :
    ∃ us, (write ops table st sequence rowGroup index).2.lastSequenceUpdates =
      st.lastSequenceUpdates ++ us ∧ ∀ u ∈ us, u.2 = sequence := by
  unfold write
  split
  · exact ⟨[], by simp, by simp⟩
  · have hu := (writeRows_spec ops table index sequence st none [] 0 rowGroup.iter).2
    split
    · rename_i h; rw [h] at hu; exact ⟨[], by simpa using hu, by simp⟩
    · rename_i h; rw [h] at hu
      obtain ⟨-, us, hus, hall⟩ := setLastSequences_spec ops sequence _ _
      exact ⟨us, hus.trans (by rw [hu]), hall⟩

/-- `route` keeps `last_mutable_mem` only when it accepts the timestamp; otherwise the memtable is
the one `find_or_create_mutable` returns, pushed onto `wrote_memtables`. -/
lemma route_ok {version : σ} {last : Option Mem} {wrote : List Mem} {ts : Int}
    {mem : Mem} {wrote' : List Mem} {version' : σ}
    (h : route ops version last wrote ts = .ok (mem, wrote', version')) :
    (last = some mem ∧ ops.acceptTimestamp mem ts = true ∧ wrote' = wrote ∧ version' = version) ∨
    (ops.findOrCreateMutable version ts = .ok (mem, version') ∧ wrote' = wrote ++ [mem]) := by
  have hmiss : findMutable ops version wrote ts = .ok (mem, wrote', version') →
      ops.findOrCreateMutable version ts = .ok (mem, version') ∧ wrote' = wrote ++ [mem] := by
    unfold findMutable
    cases ops.findOrCreateMutable version ts <;> simp [Except.map]
    rintro rfl rfl rfl
    exact ⟨rfl, rfl⟩
  unfold route at h
  rcases last with _ | m
  · exact .inr (hmiss h)
  · by_cases ha : ops.acceptTimestamp m ts
    · simp only [ha, if_true, Except.ok.injEq, Prod.mk.injEq] at h
      obtain ⟨rfl, rfl, rfl⟩ := h
      exact .inl ⟨rfl, ha, rfl, rfl⟩
    · simp only [ha] at h
      exact .inr (hmiss h)

/-- One row of a routing loop that ends well: the row has a timestamp, and it is either expired
and skipped, or routed to a memtable and put there under `(sequence, row_idx as u32)`. -/
lemma writeRows_cons_ok {st st' : MemState σ Mem Row} {last : Option Mem} {wrote wrote' : List Mem}
    {rowIdx : Nat} {row : Row} {rows : List Row}
    (h : writeRows ops table index sequence st last wrote rowIdx (row :: rows) = (.ok wrote', st')) :
    ∃ ts, ops.timestamp row = some ts ∧
      ((ops.isExpired ts = true ∧
        writeRows ops table index sequence st last wrote (rowIdx + 1) rows = (.ok wrote', st')) ∨
      (ops.isExpired ts = false ∧ ∃ mem wrote₁ version version',
        route ops st.version last wrote ts = .ok (mem, wrote₁, version) ∧
        ops.put version mem index ⟨sequence, UInt32.ofNat rowIdx⟩ row ts = .ok version' ∧
        writeRows ops table index sequence
          { st with version := version',
                    puts := st.puts ++ [⟨mem, ⟨sequence, UInt32.ofNat rowIdx⟩, row⟩] }
          (some mem) wrote₁ (rowIdx + 1) rows = (.ok wrote', st'))) := by
  simp only [writeRows] at h
  rcases hts : ops.timestamp row with _ | ts
  · simp [hts] at h
  refine ⟨ts, rfl, ?_⟩
  simp only [hts] at h
  cases hexp : ops.isExpired ts
  · simp only [hexp, Bool.false_eq_true, if_false] at h
    rcases hr : route ops st.version last wrote ts with e | ⟨mem, wrote₁, version⟩
    · simp [hr] at h
    simp only [hr] at h
    rcases hp : ops.put version mem index ⟨sequence, UInt32.ofNat rowIdx⟩ row ts with e | version'
    · simp [hp] at h
    simp only [hp] at h
    exact .inr ⟨rfl, mem, wrote₁, version, version', rfl, hp, h⟩
  · simp only [hexp, if_true] at h
    exact .inl ⟨rfl, h⟩

variable {ops table index sequence}

/-- A routing loop that ends well read every row's timestamp, put exactly the rows that are not
expired, in order and keyed by position, each into a memtable that accepts its timestamp and that
it pushed onto `wrote_memtables`, and called no `set_last_sequence`. -/
lemma writeRows_ok (hfind : ∀ v ts m v', ops.findOrCreateMutable v ts = .ok (m, v') →
      ops.acceptTimestamp m ts = true) :
    ∀ (rows : List Row) (st st' : MemState σ Mem Row) (last : Option Mem) (wrote wrote' : List Mem)
      (rowIdx : Nat),
    writeRows ops table index sequence st last wrote rowIdx rows = (.ok wrote', st') →
    (∀ m, last = some m → m ∈ wrote) →
    (∀ r ∈ rows, ∃ ts, ops.timestamp r = some ts) ∧ (∀ m ∈ wrote, m ∈ wrote') ∧
    st'.lastSequenceUpdates = st.lastSequenceUpdates ∧
    ∃ ps, st'.puts = st.puts ++ ps ∧
      ps.map Put.entry = (keyedRows sequence rowIdx rows).filter (ops.notExpired ·.2) ∧
      ∀ p ∈ ps, p.mem ∈ wrote' ∧ ∃ ts, ops.timestamp p.row = some ts ∧
        ops.isExpired ts = false ∧ ops.acceptTimestamp p.mem ts = true
  | [], st, st', last, wrote, wrote', rowIdx, h, _ => by
    simp only [writeRows, Prod.mk.injEq, Except.ok.injEq] at h
    obtain ⟨rfl, rfl⟩ := h
    exact ⟨by simp, fun _ => id, rfl, [], by simp, by simp [keyedRows], by simp⟩
  | row :: rows, st, st', last, wrote, wrote', rowIdx, h, hl => by
    obtain ⟨ts, hts, ⟨hexp, h⟩ | ⟨hexp, mem, wrote₁, version, version', hr, -, h⟩⟩ :=
      writeRows_cons_ok ops table index sequence h
    · obtain ⟨hall, hsub, hu, ps, hps, hmap, hgood⟩ := writeRows_ok hfind rows _ _ _ _ _ _ h hl
      refine ⟨List.forall_mem_cons.2 ⟨⟨ts, hts⟩, hall⟩, hsub, hu, ps, hps, ?_, hgood⟩
      simp [keyedRows, List.filter_cons, MemTableOps.notExpired, hts, hexp, hmap]
    · have hroute : mem ∈ wrote₁ ∧ (∀ m ∈ wrote, m ∈ wrote₁) ∧ ops.acceptTimestamp mem ts = true := by
        rcases route_ok ops hr with ⟨rfl, ha, rfl, -⟩ | ⟨hf, rfl⟩
        · exact ⟨hl mem rfl, fun _ => id, ha⟩
        · exact ⟨by simp, fun m hm => by simp [hm], hfind _ _ _ _ hf⟩
      obtain ⟨hall, hsub, hu, ps, hps, hmap, hgood⟩ :=
        writeRows_ok hfind rows _ _ _ _ _ _ h fun m hm => Option.some.inj hm ▸ hroute.1
      refine ⟨List.forall_mem_cons.2 ⟨⟨ts, hts⟩, hall⟩, fun m hm => hsub m (hroute.2.1 m hm), hu,
        ⟨mem, ⟨sequence, UInt32.ofNat rowIdx⟩, row⟩ :: ps, by simp [hps], ?_, ?_⟩
      · simp [keyedRows, List.filter_cons, MemTableOps.notExpired, hts, hexp, hmap, Put.entry]
      · rintro p (_ | ⟨_, hp⟩)
        · exact ⟨hsub _ hroute.1, ts, hts, hexp, hroute.2.2⟩
        · exact hgood p hp

/-- A last loop that ends well made no put and called `set_last_sequence(sequence)` on every
memtable of `wrote_memtables`, in order. -/
lemma setLastSequences_ok : ∀ (mems : List Mem) (st st' : MemState σ Mem Row),
    setLastSequences ops sequence st mems = (.ok (), st') →
    st'.puts = st.puts ∧ st'.lastSequenceUpdates = st.lastSequenceUpdates ++ mems.map (·, sequence)
  | [], st, st', h => by
    simp only [setLastSequences, Prod.mk.injEq] at h
    simp [← h.2]
  | mem :: mems, st, st', h => by
    simp only [setLastSequences] at h
    split at h
    · simp at h
    · obtain ⟨hp, hu⟩ := setLastSequences_ok mems _ _ h
      exact ⟨hp, by simp [hu]⟩

/-- An empty slicer iterates no row. -/
lemma iter_eq_nil_of_isEmpty {rowGroup : RowGroupSlicer Row} (h : rowGroup.isEmpty = true) :
    rowGroup.iter = [] := by
  simp only [RowGroupSlicer.isEmpty, RowGroupSlicer.numRows, beq_iff_eq] at h
  simp [RowGroupSlicer.iter, h]

/-- When every memtable `find_or_create_mutable` returns accepts the timestamp asked for, a write
that returns `Ok` read a timestamp for every row, put every row whose timestamp is not expired
exactly once and in slice order, under `KeySequence::new(sequence, row_idx as u32)`, into a
memtable that accepts its timestamp, put no expired row, and called
`set_last_sequence(sequence)` on every memtable that received a put. -/
theorem write_ok_puts (hfind : ∀ v ts m v', ops.findOrCreateMutable v ts = .ok (m, v') →
      ops.acceptTimestamp m ts = true)
    {st st' : MemState σ Mem Row} {rowGroup : RowGroupSlicer Row}
    (h : write ops table st sequence rowGroup index = (.ok (), st')) :
    (∀ r ∈ rowGroup.iter, ∃ ts, ops.timestamp r = some ts) ∧
    ∃ ps us, st'.puts = st.puts ++ ps ∧ st'.lastSequenceUpdates = st.lastSequenceUpdates ++ us ∧
      ps.map Put.entry = (keyedRows sequence 0 rowGroup.iter).filter (ops.notExpired ·.2) ∧
      (∀ p ∈ ps, ∃ ts, ops.timestamp p.row = some ts ∧ ops.isExpired ts = false ∧
        ops.acceptTimestamp p.mem ts = true) ∧
      ∀ p ∈ ps, (p.mem, sequence) ∈ us := by
  unfold write at h
  split at h
  · rename_i hempty
    simp only [Prod.mk.injEq, true_and] at h
    subst h
    simp [iter_eq_nil_of_isEmpty hempty, keyedRows]
  · split at h
    · simp at h
    · rename_i wrote st₁ hw
      obtain ⟨hall, -, hu, ps, hps, hmap, hgood⟩ :=
        writeRows_ok hfind _ _ _ _ _ _ _ hw (by simp)
      obtain ⟨hp', hu'⟩ := setLastSequences_ok _ _ _ h
      refine ⟨hall, ps, wrote.map (·, sequence), by rw [hp', hps], by rw [hu', hu], hmap,
        fun p hp => (hgood p hp).2, fun p hp => List.mem_map_of_mem _ (hgood p hp).1⟩

variable (ops table index sequence)

/-- Whatever the routing loop returns, its puts are the first of the slice's rows it puts, in
order; a loop that returns `Ok` put every row it puts, and each memtable it pushed onto
`wrote_memtables` received one of its puts. -/
lemma writeRows_prefix : ∀ (st : MemState σ Mem Row) (last : Option Mem) (wrote : List Mem)
    (rowIdx : Nat) (rows : List Row),
    ∃ ps, (writeRows ops table index sequence st last wrote rowIdx rows).2.puts = st.puts ++ ps ∧
      ps.map Put.entry <+: (keyedRows sequence rowIdx rows).filter (ops.notExpired ·.2) ∧
      ∀ wrote', (writeRows ops table index sequence st last wrote rowIdx rows).1 = .ok wrote' →
        ps.map Put.entry = (keyedRows sequence rowIdx rows).filter (ops.notExpired ·.2) ∧
        ∃ new, wrote' = wrote ++ new ∧ new ⊆ ps.map Put.mem
  | st, _, wrote, _, [] =>
    ⟨[], by simp [writeRows], List.nil_prefix, fun _ h => by
      cases h; exact ⟨rfl, [], by simp, List.nil_subset _⟩⟩
  | st, last, wrote, rowIdx, row :: rows => by
    simp only [writeRows, keyedRows, List.filter_cons, MemTableOps.notExpired]
    cases hts : ops.timestamp row with
    | none => exact ⟨[], by simp, List.nil_prefix, fun _ h => by cases h⟩
    | some ts =>
      simp only
      by_cases hexp : ops.isExpired ts = true
      · simpa [hexp] using writeRows_prefix st last wrote (rowIdx + 1) rows
      rw [Bool.not_eq_true] at hexp
      simp only [hexp, Bool.not_false, if_true, Bool.false_eq_true, if_false]
      rcases hr : route ops st.version last wrote ts with e | ⟨mem, wrote₁, version⟩
      · exact ⟨[], by simp, List.nil_prefix, fun _ h => by cases h⟩
      simp only
      cases ops.put version mem index ⟨sequence, UInt32.ofNat rowIdx⟩ row ts with
      | error e => exact ⟨[], by simp, List.nil_prefix, fun _ h => by cases h⟩
      | ok version' =>
        obtain ⟨ps, hps, hpre, hok⟩ := writeRows_prefix
          { st with
            version := version', puts := st.puts ++ [⟨mem, ⟨sequence, UInt32.ofNat rowIdx⟩, row⟩] }
          (some mem) wrote₁ (rowIdx + 1) rows
        refine ⟨⟨mem, ⟨sequence, UInt32.ofNat rowIdx⟩, row⟩ :: ps, by simp [hps],
          (List.prefix_cons_inj _).2 hpre, fun wrote' h => ?_⟩
        obtain ⟨hall, new, rfl, hnew⟩ := hok wrote' h
        refine ⟨congrArg _ hall, ?_⟩
        rcases route_ok ops hr with ⟨-, -, rfl, -⟩ | ⟨-, rfl⟩
        · exact ⟨new, rfl, List.subset_cons_of_subset _ hnew⟩
        · exact ⟨mem :: new, by simp, List.cons_subset_cons _ hnew⟩

/-- Whatever the last loop returns, its `set_last_sequence` calls are the first of those it
makes, one per memtable of `wrote_memtables`, in order. -/
lemma setLastSequences_prefix : ∀ (st : MemState σ Mem Row) (mems : List Mem),
    ∃ us, (setLastSequences ops sequence st mems).2.lastSequenceUpdates =
      st.lastSequenceUpdates ++ us ∧ us <+: mems.map (·, sequence)
  | st, [] => ⟨[], by simp [setLastSequences], List.nil_prefix⟩
  | st, mem :: mems => by
    simp only [setLastSequences]
    split
    · exact ⟨[], by simp, List.nil_prefix⟩
    · next version _ =>
      obtain ⟨us, hus, hpre⟩ := setLastSequences_prefix
        { st with
          version := version, lastSequenceUpdates := st.lastSequenceUpdates ++ [(mem, sequence)] }
        mems
      exact ⟨(mem, sequence) :: us, by simp [hus], (List.prefix_cons_inj _).2 hpre⟩

end MemTableWriter

/-- `MemTableWriter::write` sets the last sequence only after its puts. -/
theorem MemTableWriter.write_sequenceAfterPuts (ops : MemTableOps σ Mem Row Idx) (table : String)
    (st : MemState σ Mem Row) (sequence : Nat) (rowGroup : RowGroupSlicer Row) (index : Idx) :
    ∃ ps us, (MemTableWriter.write ops table st sequence rowGroup index).2.puts = st.puts ++ ps ∧
      (MemTableWriter.write ops table st sequence rowGroup index).2.lastSequenceUpdates =
        st.lastSequenceUpdates ++ us ∧
      ps.map Put.entry <+: (keyedRows sequence 0 rowGroup.iter).filter (ops.notExpired ·.2) ∧
      (∀ u ∈ us, u.2 = sequence ∧ ∃ p ∈ ps, p.mem = u.1) ∧
      ((MemTableWriter.write ops table st sequence rowGroup index).1.toBool = true ∨ us ≠ [] →
        ps.map Put.entry = (keyedRows sequence 0 rowGroup.iter).filter (ops.notExpired ·.2)) := by
  unfold MemTableWriter.write
  split
  · next hempty =>
    refine ⟨[], [], by simp, by simp, List.nil_prefix, by simp, fun _ => ?_⟩
    simp [MemTableWriter.iter_eq_nil_of_isEmpty hempty, keyedRows]
  obtain ⟨ps, hps, hpre, hok⟩ :=
    MemTableWriter.writeRows_prefix ops table index sequence st none [] 0 rowGroup.iter
  have hu := (MemTableWriter.writeRows_spec ops table index sequence st none [] 0 rowGroup.iter).2
  split
  · next e st₁ h =>
    rw [h] at hps hu
    exact ⟨ps, [], hps, by simpa using hu, hpre, by simp, by simp [Except.toBool]⟩
  · next wrote st₁ h =>
    rw [h] at hps hu
    obtain ⟨hall, new, hwrote, hnew⟩ := hok wrote (by rw [h])
    obtain ⟨us, hus, husp⟩ := MemTableWriter.setLastSequences_prefix ops sequence st₁ wrote
    refine ⟨ps, us, (MemTableWriter.setLastSequences_spec ops sequence _ _).1.trans hps,
      hus.trans (by rw [hu]), hpre, fun u hu' => ?_, fun _ => hall⟩
    obtain ⟨m, hm, rfl⟩ := List.mem_map.1 (husp.subset hu')
    obtain ⟨p, hp, hpm⟩ := List.mem_map.1 (hnew (by simpa [hwrote] using hm))
    exact ⟨rfl, p, hp, hpm⟩

/-- Memtables that each take a window of ten timestamps, found by window or created for it;
negative timestamps are expired. -/
def windowOps : MemTableOps (List Int) Int Int Unit where
  timestamp row := some row
  isExpired ts := decide (ts < 0)
  findOrCreateMutable v ts := if ts / 10 ∈ v then .ok (ts / 10, v) else .ok (ts / 10, v ++ [ts / 10])
  acceptTimestamp m ts := decide (ts / 10 = m)
  put v _ _ _ _ _ := .ok v
  setLastSequence v _ _ := .ok v

lemma windowOps_accepts : ∀ v ts m v', windowOps.findOrCreateMutable v ts = .ok (m, v') →
    windowOps.acceptTimestamp m ts = true := by
  intro v ts m v' h
  simp only [windowOps] at h ⊢
  split at h <;> simp only [Except.ok.injEq, Prod.mk.injEq] at h <;> simp [h.1]

/-- Rows by timestamp that go to window 0, are expired, go to window 1, and go back to window 0. -/
def windowSlice : RowGroupSlicer Int := .ofRowGroup [3, -1, 15, 7]

theorem write_ok_puts_windows :
    (∀ v ts m v', windowOps.findOrCreateMutable v ts = .ok (m, v') →
      windowOps.acceptTimestamp m ts = true) ∧
    MemTableWriter.write windowOps "t" ⟨[], [], []⟩ 5 windowSlice () =
      (.ok (), (MemTableWriter.write windowOps "t" ⟨[], [], []⟩ 5 windowSlice ()).2) ∧
    (∀ r ∈ windowSlice.iter, ∃ ts, windowOps.timestamp r = some ts) ∧
    ∃ ps us, (MemTableWriter.write windowOps "t" ⟨[], [], []⟩ 5 windowSlice ()).2.puts = [] ++ ps ∧
      (MemTableWriter.write windowOps "t" ⟨[], [], []⟩ 5 windowSlice ()).2.lastSequenceUpdates =
        [] ++ us ∧
      ps.map Put.entry = (keyedRows 5 0 windowSlice.iter).filter (windowOps.notExpired ·.2) ∧
      (∀ p ∈ ps, ∃ ts, windowOps.timestamp p.row = some ts ∧ windowOps.isExpired ts = false ∧
        windowOps.acceptTimestamp p.mem ts = true) ∧
      ∀ p ∈ ps, (p.mem, 5) ∈ us := by
  have h : MemTableWriter.write windowOps "t" ⟨[], [], []⟩ 5 windowSlice () =
      (.ok (), (MemTableWriter.write windowOps "t" ⟨[], [], []⟩ 5 windowSlice ()).2) := rfl
  exact ⟨windowOps_accepts, h, MemTableWriter.write_ok_puts windowOps_accepts h⟩

end CeresDB.Write
