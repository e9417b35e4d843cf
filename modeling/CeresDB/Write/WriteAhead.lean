import CeresDB.Write.Run

/-!
# Write-ahead order

What `Writer::write` leaves behind whatever it returns. Each batch goes through
`write_table_row_group`: `write_to_wal` first, and only when the WAL assigned a sequence,
`MemTableWriter::write` under that sequence. The batch loop stops at the first error, so the WAL
entries and memtable writes of a call pair off along a prefix of its batches, and only the last
memtable write can have failed (`Writer.writeBatches_prefix`). Before the batch loop a write only
checks, so a write that fails there, or at its first WAL append, leaves the table as it was.
`Writer.write_walPrefix` puts this together for one call.

Within a write every memtable write is paired with the WAL entry appended just before it: the same
sequence, the table schema, and the encodings of exactly the rows the memtable write was given,
under the index the write's preprocessing returned (`Writer.write_loggedAhead`). Over a run of
writes on one table, whatever fails where, every row put into a memtable was put by one call of
the run, and that call appended a WAL entry at the put's sequence holding the row's encoding at
the put's row index (`Writer.run_putsLogged`). This is the write-ahead order recovery relies on: no
row reaches a memtable unless its batch was logged first.
-/

namespace CeresDB.Write

variable {σ Mem Schema Row Idx : Type}

namespace Writer

variable (env : WriteEnv σ Mem Schema Row Idx)

/-- The WAL payload of a batch of encoded rows. -/
abbrev payloadOf (schema : Schema) (x : Nat × (List ByteVec × RowGroupSlicer Row)) :
    Nat × WritePayload Schema :=
  (x.1, ⟨0, schema, x.2.1⟩)

/-- Whatever the batch loop returns, it appended a WAL entry and then made a memtable write under
the same sequence for each batch of a prefix of its batches; only its last memtable write can have
failed; it changed nothing if it appended nothing; and it returned `Ok` exactly when it got
through every batch with every memtable write `Ok`. -/
lemma writeBatches_prefix (index : Idx) :
    ∀ (t : Table σ Mem Schema Row) (batches : List (List ByteVec × RowGroupSlicer Row)),
      ∃ (log : List (Nat × (List ByteVec × RowGroupSlicer Row))) (ms : List (MemWrite Row)),
        log.map Prod.snd <+: batches ∧
        (writeBatches env index t batches).2.wal.log =
          t.wal.log ++ log.map (payloadOf t.meta.schema) ∧
        (writeBatches env index t batches).2.memWrites = t.memWrites ++ ms ∧
        List.Forall₂ (fun w x => w.sequence = x.1 ∧ w.rowGroup = x.2.2 ∧ x.2 ∈ batches) ms log ∧
        (∀ w ∈ ms.dropLast, w.ok = true) ∧
        (log = [] → (writeBatches env index t batches).2 = t) ∧
        ((writeBatches env index t batches).1.toBool = true ↔
          log.map Prod.snd = batches ∧ ∀ w ∈ ms, w.ok = true)
  | t, [] => ⟨[], [], List.nil_prefix, by simp [writeBatches], by simp [writeBatches], .nil,
      by simp, fun _ => rfl, by simp [writeBatches, Except.toBool]⟩
  | t, (encodedRows, rowGroup) :: batches => by
    rcases writeTableRowGroup_spec env t rowGroup index encodedRows with
      ⟨e, he⟩ | ⟨s, -, hres, hmeta, -, hwal, hmw, -⟩
    · refine ⟨[], [], List.nil_prefix, ?_, ?_, .nil, by simp, fun _ => ?_, ?_⟩ <;>
        simp [writeBatches, he, Except.toBool]
    simp only [writeBatches]
    split
    · next e t₁ hr =>
      rw [hr] at hres hmeta hwal hmw
      dsimp only at hres hmeta hwal hmw
      have hfail : (MemTableWriter.write env.memOps t.meta.name t.mem s rowGroup index).1.toBool =
          false := by rw [← hres]; rfl
      refine ⟨[(s, (encodedRows, rowGroup))], [⟨s, rowGroup, false⟩], by simp, ?_, ?_,
        .cons ⟨rfl, rfl, List.mem_cons_self _ _⟩ .nil, by simp, by simp, by simp [Except.toBool]⟩
      · simp [hwal]
      · simp [hmw, hfail]
    · next t₁ hr =>
      rw [hr] at hres hmeta hwal hmw
      dsimp only at hres hmeta hwal hmw
      have hok : (MemTableWriter.write env.memOps t.meta.name t.mem s rowGroup index).1.toBool :=
        by rw [← hres]; rfl
      obtain ⟨log, ms, hpre, hw, hms, hfa, hlast, -, hiff⟩ := writeBatches_prefix index t₁ batches
      refine ⟨(s, (encodedRows, rowGroup)) :: log, ⟨s, rowGroup, true⟩ :: ms,
        (List.prefix_cons_inj _).2 hpre, ?_, ?_, .cons ⟨rfl, rfl, List.mem_cons_self _ _⟩
          (hfa.imp fun _ _ h => ⟨h.1, h.2.1, List.mem_cons_of_mem _ h.2.2⟩), ?_, by simp, ?_⟩
      · simp [hw, hwal, hmeta]
      · simp [hms, hmw, hok]
      · cases ms with
        | nil => simp
        | cons w ws => simpa [List.dropLast_cons₂] using hlast
      · simp [hiff]

/-- A write changes nothing of the table's metadata. -/
lemma write_meta (t : Table σ Mem Schema Row) (request : RowGroup Schema Row) :
    (write env t request).2.meta = t.meta := by
  rcases write_eq env t request with ⟨e, he⟩ | ⟨index, enc, r, -, -, -, -, hw⟩
  · rw [he]
  · rw [hw]; exact writeBatches_meta env index t r.batches

/-- Each batch of a split request carries the encodings of exactly its slice's rows. -/
lemma batches_encoded {schema : Schema} {index : Idx} {rows : List Row}
    {encodedRows : List ByteVec} {r : SplitResult Row}
    (he : encodeRows env schema index rows = .ok encodedRows)
    (hs : maybeSplitWriteRequest env encodedRows rows = some r) :
    ∀ b ∈ r.batches,
      List.Forall₂ (fun row e => env.encodeRow schema index row = .ok e) b.2.iter b.1 := by
  obtain ⟨henc, hlen⟩ := encodeRows_ok env he
  intro b hb
  obtain ⟨hrg, -, h1⟩ := (maybeSplitWriteRequest_aligned env hs hlen).1 b hb
  rw [h1]
  simp only [RowGroupSlicer.iter, ← hrg]
  exact List.forall₂_take _ (List.forall₂_drop _ (hrg ▸ encodeRowGroupForWal_forall₂ henc))

end Writer

/-- What any `Writer::write` leaves in the WAL and the memtables, whatever it returns. -/
theorem Writer.write_walPrefix (env : WriteEnv σ Mem Schema Row Idx) (t : Table σ Mem Schema Row)
    (request : RowGroup Schema Row) :
    (Writer.write env t request).2.meta = t.meta ∧
    ∃ (log : List (Nat × (List ByteVec × RowGroupSlicer Row))) (ms : List (MemWrite Row)),
      (Writer.write env t request).2.wal.log =
        t.wal.log ++ log.map (Writer.payloadOf t.meta.schema) ∧
      (Writer.write env t request).2.memWrites = t.memWrites ++ ms ∧
      List.Forall₂ (fun w x => w.sequence = x.1 ∧ w.rowGroup = x.2.2) ms log ∧
      (log.map fun x => x.2.2.iter).flatten <+: request.rows ∧
      (∀ x ∈ log, ∃ index, Writer.preprocessWrite env t request = .ok index ∧
        List.Forall₂ (fun row b => env.encodeRow t.meta.schema index row = .ok b)
          x.2.2.iter x.2.1) ∧
      (∀ w ∈ ms.dropLast, w.ok = true) ∧
      (log = [] → (Writer.write env t request).2 = t) ∧
      ((Writer.write env t request).1.toBool = true →
        (log.map fun x => x.2.2.iter).flatten = request.rows ∧ ∀ w ∈ ms, w.ok = true) := by
  refine ⟨Writer.write_meta env t request, ?_⟩
  rcases Writer.write_eq env t request with ⟨e, he⟩ | ⟨index, enc, r, -, hp, hen, hs, hw⟩
  · rw [he]
    exact ⟨[], [], by simp, by simp, .nil, List.nil_prefix, by simp, by simp, fun _ => rfl,
      by simp [Except.toBool]⟩
  obtain ⟨-, hlen⟩ := Writer.encodeRows_ok env hen
  obtain ⟨-, hrows, -⟩ := Writer.maybeSplitWriteRequest_aligned env hs hlen
  obtain ⟨log, ms, hpre, hwal, hmw, hfa, hlast, hnil, hok⟩ :=
    Writer.writeBatches_prefix env index t r.batches
  have hflat : (log.map fun x => x.2.2.iter) = (log.map Prod.snd).map fun b => b.2.iter := by
    rw [List.map_map]; rfl
  have htb : ((Writer.writeBatches env index t r.batches).1.map
      fun _ => request.rows.length).toBool =
        (Writer.writeBatches env index t r.batches).1.toBool := by
    cases (Writer.writeBatches env index t r.batches).1 <;> rfl
  rw [hw]
  refine ⟨log, ms, hwal, hmw, hfa.imp fun _ _ h => ⟨h.1, h.2.1⟩, ?_, fun x hx => ⟨index, hp,
    Writer.batches_encoded env hen hs x.2 (hpre.subset (List.mem_map_of_mem _ hx))⟩, hlast, hnil,
    fun h => ?_⟩
  · obtain ⟨rest, hrest⟩ := hpre
    exact ⟨(rest.map fun b => b.2.iter).flatten, by
      rw [hflat, ← List.flatten_append, ← List.map_append, hrest, hrows]⟩
  · obtain ⟨hall, hms⟩ := hok.1 (htb ▸ h)
    exact ⟨by rw [hflat, hall, hrows], hms⟩

/-- The WAL entry `a` was logged ahead of the memtable write `w` by a writer with collaborators
`env`, under the index `index`, on a table of schema `schema`: it carries `w`'s sequence and the
table schema, and its rows are the encodings of exactly the rows of `w`'s slice. -/
def LoggedAhead (env : WriteEnv σ Mem Schema Row Idx) (schema : Schema) (index : Idx)
    (w : MemWrite Row) (a : Nat × WritePayload Schema) : Prop :=
  w.sequence = a.1 ∧ a.2.schema = schema ∧
    List.Forall₂ (fun row b => env.encodeRow schema index row = .ok b) w.rowGroup.iter a.2.rows

section Pairing

variable {α β : Type} {R : α → β → Prop}

/-- A member of the left side of a pairing has its partner on the right. -/
lemma forall₂_exists_of_mem : ∀ {l₁ : List α} {l₂ : List β}, List.Forall₂ R l₁ l₂ →
    ∀ a ∈ l₁, ∃ b ∈ l₂, R a b
  | _, _, .nil, _, h => absurd h (List.not_mem_nil _)
  | _, _, .cons hab hl, a, h => by
    rcases List.mem_cons.1 h with rfl | h
    · exact ⟨_, List.mem_cons_self _ _, hab⟩
    · obtain ⟨b, hb, hr⟩ := forall₂_exists_of_mem hl a h
      exact ⟨b, List.mem_cons_of_mem _ hb, hr⟩

/-- The partner of position `i` is at position `i`. -/
lemma forall₂_getElem? : ∀ {l₁ : List α} {l₂ : List β}, List.Forall₂ R l₁ l₂ →
    ∀ {i : Nat} {a : α}, l₁[i]? = some a → ∃ b, l₂[i]? = some b ∧ R a b
  | _, _, .nil, _, _, h => by simp at h
  | _, _, .cons hab _, 0, _, h => by
    rw [List.getElem?_cons_zero, Option.some_inj] at h
    exact ⟨_, List.getElem?_cons_zero, h ▸ hab⟩
  | _, _, .cons _ hl, _ + 1, _, h => by
    rw [List.getElem?_cons_succ] at h ⊢
    exact forall₂_getElem? hl h

end Pairing

/-- One write logs each memtable write it makes ahead of it, one WAL entry per memtable write,
under the index its preprocessing returned. -/
lemma Writer.write_loggedAhead (env : WriteEnv σ Mem Schema Row Idx) (t : Table σ Mem Schema Row)
    (request : RowGroup Schema Row) :
    ∃ L ms, (Writer.write env t request).2.wal.log = t.wal.log ++ L ∧
      (Writer.write env t request).2.memWrites = t.memWrites ++ ms ∧
      (ms = [] ∨ ∃ index, Writer.preprocessWrite env t request = .ok index ∧
        List.Forall₂ (LoggedAhead env t.meta.schema index) ms L) := by
  rcases Writer.write_eq env t request with ⟨e, he⟩ | ⟨index, enc, r, -, hp, hen, hs, hw⟩
  · rw [he]; exact ⟨[], [], by simp, by simp, .inl rfl⟩
  obtain ⟨log, ms, -, hwal, hmw, hfa, -⟩ := Writer.writeBatches_prefix env index t r.batches
  rw [hw]
  refine ⟨_, ms, hwal, hmw, .inr ⟨index, hp, List.forall₂_map_right_iff.2 (hfa.imp fun w x h => ?_)⟩⟩
  obtain ⟨hseq, hrg, hx⟩ := h
  exact ⟨hseq, rfl, hrg ▸ Writer.batches_encoded env hen hs x.2 hx⟩

/-- Every row one write puts into a memtable is in a WAL entry that write appended at the put's
sequence, encoded at the put's row index under the index its preprocessing returned. -/
lemma Writer.write_putsLogged (env : WriteEnv σ Mem Schema Row Idx) (hwal : env.WalMonotone)
    (t : Table σ Mem Schema Row) (request : RowGroup Schema Row) :
    ∀ p ∈ (Writer.write env t request).2.mem.puts.drop t.mem.puts.length,
      ∃ index, Writer.preprocessWrite env t request = .ok index ∧
      ∃ a ∈ (Writer.write env t request).2.wal.log.drop t.wal.log.length,
        a.1 = p.keySeq.sequence ∧ a.2.schema = t.meta.schema ∧
        ∃ b, env.encodeRow t.meta.schema index p.row = .ok b ∧
          a.2.rows[p.keySeq.index.toNat]? = some b := by
  obtain ⟨ws, ps, hw, hps, hws, -, -, hk, -⟩ := (Writer.write_grows env hwal t request).writes
  obtain ⟨L, ms, hL, hms, hpair⟩ := Writer.write_loggedAhead env t request
  obtain rfl : ms = ws := List.append_cancel_left (hms.symm.trans hw)
  rw [hps, hL, List.drop_left, List.drop_left]
  intro p hp
  obtain ⟨w, hwm, i, hi, hkey, hrow⟩ := hk p hp
  rcases hpair with rfl | ⟨index, hpre, hpair⟩
  · exact absurd hwm (List.not_mem_nil _)
  obtain ⟨a, ha, hseq, hschema, henc⟩ := forall₂_exists_of_mem hpair w hwm
  have hidx : p.keySeq.index.toNat = i := by
    rw [hkey]; exact UInt32.toNat_ofNat_of_lt (hi.trans (hws w hwm).2.2)
  obtain ⟨b, hb, hrb⟩ := forall₂_getElem? henc hrow
  exact ⟨index, hpre, a, ha, by rw [hkey, hseq], hschema, b, hrb, hidx ▸ hb⟩

/-- The WAL holds every row a run of writes on one table put into a memtable (Rust
`Writer::write`, `write_table_row_group`, `MemTableWriter::write`), with the call that put it. -/
theorem Writer.run_putsLogged : ∀ (t : Table σ Mem Schema Row)
    (calls : List (WriteEnv σ Mem Schema Row Idx × RowGroup Schema Row)),
    (∀ c ∈ calls, c.1.WalMonotone) →
    ∀ p ∈ (Writer.run t calls).mem.puts.drop t.mem.puts.length,
      ∃ i c, calls[i]? = some c ∧
        p ∈ (Writer.run t (calls.take (i + 1))).mem.puts.drop
          (Writer.run t (calls.take i)).mem.puts.length ∧
        ∃ index, Writer.preprocessWrite c.1 (Writer.run t (calls.take i)) c.2 = .ok index ∧
        ∃ a ∈ (Writer.run t (calls.take (i + 1))).wal.log.drop
            (Writer.run t (calls.take i)).wal.log.length,
          a.1 = p.keySeq.sequence ∧ a.2.schema = t.meta.schema ∧
          ∃ b, c.1.encodeRow t.meta.schema index p.row = .ok b ∧
            a.2.rows[p.keySeq.index.toNat]? = some b
  | t, [], _, p, hp => by simp at hp
  | t, c :: calls, hwal, p, hp => by
    have hc := hwal c (List.mem_cons_self _ _)
    have hwal' : ∀ c' ∈ calls, c'.1.WalMonotone := fun c' h => hwal c' (List.mem_cons_of_mem _ h)
    obtain ⟨-, ps₁, -, hp₁, -⟩ := (Writer.write_grows c.1 hc t c.2).writes
    obtain ⟨-, ps₂, -, hp₂, -⟩ := (Writer.run_grows (Writer.write c.1 t c.2).2 calls hwal').writes
    rw [Writer.run_cons, hp₂, hp₁, List.append_assoc, List.drop_left] at hp
    rcases List.mem_append.1 hp with hp | hp
    · have h₁ : p ∈ (Writer.write c.1 t c.2).2.mem.puts.drop t.mem.puts.length := by
        rw [hp₁, List.drop_left]; exact hp
      obtain ⟨index, hpre, a, ha, h⟩ := Writer.write_putsLogged c.1 hc t c.2 p h₁
      exact ⟨0, c, List.getElem?_cons_zero, h₁, index, hpre, a, ha, h⟩
    · have h₂ : p ∈ (Writer.run (Writer.write c.1 t c.2).2 calls).mem.puts.drop
          (Writer.write c.1 t c.2).2.mem.puts.length := by
        rw [hp₂, List.drop_left]; exact hp
      obtain ⟨i, c', hi, hmem, index, hpre, a, ha, hseq, hschema, hb⟩ :=
        Writer.run_putsLogged _ calls hwal' p h₂
      rw [Writer.write_meta] at hschema hb
      exact ⟨i + 1, c', by rw [List.getElem?_cons_succ]; exact hi, hmem, index, hpre, a, ha, hseq,
        hschema, hb⟩

theorem run_putsLogged_twoWrites :
    (∀ c ∈ twoWrites, c.1.WalMonotone) ∧
    ∀ p ∈ (Writer.run emptyTable twoWrites).mem.puts.drop emptyTable.mem.puts.length,
      ∃ i c, twoWrites[i]? = some c ∧
        p ∈ (Writer.run emptyTable (twoWrites.take (i + 1))).mem.puts.drop
          (Writer.run emptyTable (twoWrites.take i)).mem.puts.length ∧
        ∃ index, Writer.preprocessWrite c.1 (Writer.run emptyTable (twoWrites.take i)) c.2 =
          .ok index ∧
        ∃ a ∈ (Writer.run emptyTable (twoWrites.take (i + 1))).wal.log.drop
            (Writer.run emptyTable (twoWrites.take i)).wal.log.length,
          a.1 = p.keySeq.sequence ∧ a.2.schema = emptyTable.meta.schema ∧
          ∃ b, c.1.encodeRow emptyTable.meta.schema index p.row = .ok b ∧
            a.2.rows[p.keySeq.index.toNat]? = some b :=
  ⟨twoWrites_walMonotone, Writer.run_putsLogged emptyTable twoWrites twoWrites_walMonotone⟩

end CeresDB.Write
