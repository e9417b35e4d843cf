import CeresDB.Write.Writer

/-!
# Runs of writes on one table

A run is a sequence of `Writer::write` calls on one table, serialized by the table's executor,
each call with its own collaborators (`WriteEnv`), so a failure can come at any stage of any
call. The one assumption is on the WAL: at the table's location it assigns sequences above every
sequence it assigned before (`WriteEnv.WalMonotone`).

What a stretch of a run does to the table is one relation, `Table.Grows`: the WAL's sequence and
`last_sequence` only grow; the memtable writes, the puts and the `set_last_sequence` calls made in
the stretch are appended to the logs; the memtable writes carry sequences the WAL assigned in the
stretch, over slices of fewer than `2 ^ 32` rows; the puts have strictly increasing key sequences,
each put keyed `(sequence, i as u32)` by the memtable write that made it, with the row at `i` of
that write's slice; the `set_last_sequence` calls carry nondecreasing sequences; the memtable
writes carry strictly increasing sequences, and `last_sequence` ends at the sequence of the last of
them that returned `Ok` (`okSequences`), or where it was. One batch grows the table (`writeTableRowGroup_grows`) and growth composes
(`Table.Grows.trans`), so one write (`Writer.write_grows`) and a whole run (`Writer.run_grows`)
grow it. The headlines `Writer.run_keySequences` and `Writer.run_lastSequence` read the key
sequences and the sequence bookkeeping off that relation.
-/

namespace CeresDB.Write

variable {σ Mem Schema Row Idx : Type}

/-- The WAL assigns, at the table's location, a sequence above every one it assigned before. -/
def WriteEnv.WalMonotone (env : WriteEnv σ Mem Schema Row Idx) : Prop :=
  ∀ w p s, env.walWrite w p = .ok s → w.sequence < s

/-- A run of `Writer::write` calls on one table, each with its collaborators and request. -/
def Writer.run (t : Table σ Mem Schema Row)
    (calls : List (WriteEnv σ Mem Schema Row Idx × RowGroup Schema Row)) :
    Table σ Mem Schema Row :=
  calls.foldl (fun t c => (Writer.write c.1 t c.2).2) t

@[simp] lemma Writer.run_nil (t : Table σ Mem Schema Row) :
    Writer.run t ([] : List (WriteEnv σ Mem Schema Row Idx × RowGroup Schema Row)) = t := rfl

@[simp] lemma Writer.run_cons (t : Table σ Mem Schema Row)
    (c : WriteEnv σ Mem Schema Row Idx × RowGroup Schema Row)
    (calls : List (WriteEnv σ Mem Schema Row Idx × RowGroup Schema Row)) :
    Writer.run t (c :: calls) = Writer.run (Writer.write c.1 t c.2).2 calls := rfl

lemma Writer.run_append (t : Table σ Mem Schema Row)
    (calls calls' : List (WriteEnv σ Mem Schema Row Idx × RowGroup Schema Row)) :
    Writer.run t (calls ++ calls') = Writer.run (Writer.run t calls) calls' :=
  List.foldl_append _ _ _ _

/-- The sequences of the memtable writes that returned `Ok`, in order: the values
`write_table_row_group` sets `last_sequence` to, batch by batch. -/
def okSequences (ws : List (MemWrite Row)) : List Nat := (ws.filter (·.ok)).map MemWrite.sequence

/-- The `Ok` sequences of two stretches, one after the other. -/
lemma okSequences_append (ws ws' : List (MemWrite Row)) :
    okSequences (ws ++ ws') = okSequences ws ++ okSequences ws' := by
  simp [okSequences]

/-- The last element of two lists one after the other, or a default. -/
lemma getLast?_getD_append (l l' : List Nat) (d : Nat) :
    (l ++ l').getLast?.getD d = l'.getLast?.getD (l.getLast?.getD d) := by
  rw [List.getLast?_append]; cases l'.getLast? <;> rfl

/-- A value given as the last of `okSequences ws`, else `d`, is `d` or an `Ok` write's sequence. -/
lemma lastSequence_cases {ws : List (MemWrite Row)} {d l : Nat}
    (h : l = (okSequences ws).getLast?.getD d) : l = d ∨ ∃ w ∈ ws, w.ok = true ∧ w.sequence = l := by
  cases hl : (okSequences ws).getLast? with
  | none => exact .inl (by rw [h, hl]; rfl)
  | some v =>
    obtain ⟨w, hw, rfl⟩ := List.mem_map.1 (List.mem_of_getLast?_eq_some hl)
    rw [List.mem_filter] at hw
    exact .inr ⟨w, hw.1, hw.2, by rw [h, hl]; rfl⟩

/-- What a stretch of writes asked to put `rows` does to the table. -/
structure Table.Grows (rows : List Row) (t t' : Table σ Mem Schema Row) : Prop where
  wal_le : t.wal.sequence ≤ t'.wal.sequence
  lastSequence_le : t.lastSequence ≤ t'.lastSequence
  writes : ∃ ws ps, t'.memWrites = t.memWrites ++ ws ∧ t'.mem.puts = t.mem.puts ++ ps ∧
    (∀ w ∈ ws, t.wal.sequence < w.sequence ∧ w.sequence ≤ t'.wal.sequence ∧
      w.rowGroup.iter.length < 2 ^ 32) ∧
    (ps.map Put.keySeq).Sorted (· < ·) ∧ (ps.map Put.row).Sublist rows ∧
    (∀ p ∈ ps, ∃ w ∈ ws, ∃ i < w.rowGroup.iter.length,
      p.keySeq = ⟨w.sequence, UInt32.ofNat i⟩ ∧ w.rowGroup.iter[i]? = some p.row) ∧
    (ws.map MemWrite.sequence).Sorted (· < ·) ∧
    t'.lastSequence = (okSequences ws).getLast?.getD t.lastSequence
  updates : ∃ us, t'.mem.lastSequenceUpdates = t.mem.lastSequenceUpdates ++ us ∧
    (us.map Prod.snd).Sorted (· ≤ ·) ∧ ∀ u ∈ us, t.wal.sequence < u.2 ∧ u.2 ≤ t'.wal.sequence

namespace Table.Grows

variable {rows rows' : List Row} {t₁ t₂ t₃ : Table σ Mem Schema Row}

/-- A stretch that changes nothing. -/
lemma refl (rows : List Row) (t : Table σ Mem Schema Row) : Table.Grows rows t t where
  wal_le := le_rfl
  lastSequence_le := le_rfl
  writes := ⟨[], [], by simp, by simp, by simp, List.sorted_nil, List.nil_sublist _, by simp,
    List.sorted_nil, rfl⟩
  updates := ⟨[], by simp, List.sorted_nil, by simp⟩

/-- Growth asked to put `rows` is growth asked to put any list holding them in order. -/
lemma mono (h : Table.Grows rows t₁ t₂) (hr : rows.Sublist rows') : Table.Grows rows' t₁ t₂ where
  wal_le := h.wal_le
  lastSequence_le := h.lastSequence_le
  writes := by
    obtain ⟨ws, ps, hw, hp, hws, hs, hsub, hk, hl⟩ := h.writes
    exact ⟨ws, ps, hw, hp, hws, hs, hsub.trans hr, hk, hl⟩
  updates := h.updates

/-- Each new put's sequence lies in the stretch's range of WAL sequences. -/
lemma put_sequence {ws : List (MemWrite Row)} {ps : List (Put Mem Row)}
    (hws : ∀ w ∈ ws, t₁.wal.sequence < w.sequence ∧ w.sequence ≤ t₂.wal.sequence ∧
      w.rowGroup.iter.length < 2 ^ 32)
    (hk : ∀ p ∈ ps, ∃ w ∈ ws, ∃ i < w.rowGroup.iter.length,
      p.keySeq = ⟨w.sequence, UInt32.ofNat i⟩ ∧ w.rowGroup.iter[i]? = some p.row)
    {p : Put Mem Row} (hp : p ∈ ps) :
    t₁.wal.sequence < p.keySeq.sequence ∧ p.keySeq.sequence ≤ t₂.wal.sequence := by
  obtain ⟨w, hw, i, -, hkey, -⟩ := hk p hp
  rw [hkey]
  exact ⟨(hws w hw).1, (hws w hw).2.1⟩

/-- Growth composes: the second stretch's writes and puts come after the first's, under larger
sequences. -/
lemma trans (h₁ : Table.Grows rows t₁ t₂) (h₂ : Table.Grows rows' t₂ t₃) :
    Table.Grows (rows ++ rows') t₁ t₃ where
  wal_le := h₁.wal_le.trans h₂.wal_le
  lastSequence_le := h₁.lastSequence_le.trans h₂.lastSequence_le
  writes := by
    obtain ⟨ws₁, ps₁, hw₁, hp₁, hws₁, hs₁, hsub₁, hk₁, hl₁⟩ := h₁.writes
    obtain ⟨ws₂, ps₂, hw₂, hp₂, hws₂, hs₂, hsub₂, hk₂, hl₂⟩ := h₂.writes
    refine ⟨ws₁ ++ ws₂, ps₁ ++ ps₂, by simp [hw₁, hw₂], by simp [hp₁, hp₂], ?_, ?_,
      by simpa using hsub₁.append hsub₂, ?_, ?_⟩
    · rintro w hw
      rcases List.mem_append.1 hw with hw | hw
      · have := hws₁ w hw; have := h₂.wal_le; omega
      · have := hws₂ w hw; have := h₁.wal_le; omega
    · exact List.pairwise_map.2 (List.pairwise_append.2 ⟨List.pairwise_map.1 hs₁,
        List.pairwise_map.1 hs₂, fun p hp q hq =>
          .inl ((put_sequence hws₁ hk₁ hp).2.trans_lt (put_sequence hws₂ hk₂ hq).1)⟩)
    · intro p hp
      rcases List.mem_append.1 hp with hp | hp
      · obtain ⟨w, hw, hi⟩ := hk₁ p hp; exact ⟨w, List.mem_append_left _ hw, hi⟩
      · obtain ⟨w, hw, hi⟩ := hk₂ p hp; exact ⟨w, List.mem_append_right _ hw, hi⟩
    · refine ⟨List.pairwise_map.2 (List.pairwise_append.2 ⟨List.pairwise_map.1 hl₁.1,
        List.pairwise_map.1 hl₂.1, fun a ha b hb => (hws₁ a ha).2.1.trans_lt (hws₂ b hb).1⟩), ?_⟩
      rw [hl₂.2, hl₁.2, okSequences_append, getLast?_getD_append]
  updates := by
    obtain ⟨us₁, hu₁, hs₁, hb₁⟩ := h₁.updates
    obtain ⟨us₂, hu₂, hs₂, hb₂⟩ := h₂.updates
    refine ⟨us₁ ++ us₂, by simp [hu₁, hu₂], ?_, ?_⟩
    · exact List.pairwise_map.2 (List.pairwise_append.2 ⟨List.pairwise_map.1 hs₁,
        List.pairwise_map.1 hs₂, fun u hu v hv => (hb₁ u hu).2.trans (hb₂ v hv).1.le⟩)
    · intro u hu
      rcases List.mem_append.1 hu with hu | hu
      · have := hb₁ u hu; have := h₂.wal_le; omega
      · have := hb₂ u hu; have := h₁.wal_le; omega

end Table.Grows

section Grows

variable (env : WriteEnv σ Mem Schema Row Idx)

/-- One batch grows the table: under a monotone WAL its puts are keyed by the new sequence and
the positions in a slice of fewer than `2 ^ 32` rows. -/
lemma writeTableRowGroup_grows (hwal : env.WalMonotone) (t : Table σ Mem Schema Row)
    (rowGroup : RowGroupSlicer Row) (index : Idx) (encodedRows : List ByteVec)
    (hlen : rowGroup.iter.length < 2 ^ 32) :
    Table.Grows rowGroup.iter t (Writer.writeTableRowGroup env t rowGroup index encodedRows).2 := by
  rcases Writer.writeTableRowGroup_spec env t rowGroup index encodedRows with
    ⟨e, he⟩ | ⟨s, hs, -, -, hmem, hwal', hmw, hls⟩
  · rw [he]; exact .refl _ t
  have hts : t.wal.sequence < s := hwal _ _ _ hs
  have hseq : (Writer.writeTableRowGroup env t rowGroup index encodedRows).2.wal.sequence = s := by
    rw [hwal']; exact max_eq_right hts.le
  have hle := t.lastSequence_le
  obtain ⟨ps, hps, hsub⟩ := MemTableWriter.write_puts env.memOps t.meta.name index s t.mem rowGroup
  obtain ⟨us, hus, hall⟩ := MemTableWriter.write_updates env.memOps t.meta.name index s t.mem rowGroup
  rw [← hmem] at hps hus
  refine ⟨by omega, ?_, ⟨_, ps, hmw, hps, ?_, ?_, ?_, ?_, ?_⟩, ⟨us, hus, ?_, ?_⟩⟩
  · rw [hls]; split <;> omega
  · simp only [List.mem_singleton]
    rintro w rfl
    exact ⟨hts, hseq.ge, hlen⟩
  · have := (keyedRows_sorted s 0 rowGroup.iter (by omega)).sublist (hsub.map Prod.fst)
    rwa [List.map_map] at this
  · simpa [List.map_map] using hsub.map Prod.snd
  · intro p hp
    obtain ⟨j, hj, hk, hr⟩ := mem_keyedRows (hsub.subset (List.mem_map_of_mem Put.entry hp))
    exact ⟨_, List.mem_singleton_self _, j, hj, by simpa [Put.entry] using hk, hr⟩
  · refine ⟨List.sorted_singleton _, ?_⟩
    rw [hls]
    split <;> simp [okSequences, *]
  · refine List.pairwise_of_forall_mem_list ?_
    simp only [List.mem_map]
    rintro _ ⟨u, hu, rfl⟩ _ ⟨v, hv, rfl⟩
    rw [hall u hu, hall v hv]
  · intro u hu
    rw [hall u hu, hseq]
    exact ⟨hts, le_rfl⟩

/-- The batch loop grows the table, asked to put the batches' slices in order. -/
lemma writeBatches_grows (hwal : env.WalMonotone) (index : Idx) :
    ∀ (t : Table σ Mem Schema Row) (batches : List (List ByteVec × RowGroupSlicer Row)),
      (∀ b ∈ batches, b.2.iter.length < 2 ^ 32) →
      Table.Grows (batches.map fun b => b.2.iter).flatten t
        (Writer.writeBatches env index t batches).2
  | t, [], _ => .refl _ t
  | t, (encodedRows, rowGroup) :: batches, hb => by
    have h₁ := writeTableRowGroup_grows env hwal t rowGroup index encodedRows
      (hb _ (List.mem_cons_self _ _))
    simp only [Writer.writeBatches, List.map_cons, List.flatten_cons]
    split
    · next e t₁ hr =>
      rw [hr] at h₁
      exact h₁.mono (List.sublist_append_left _ _)
    · next t₁ hr =>
      rw [hr] at h₁
      exact h₁.trans (writeBatches_grows hwal index t₁ batches
        fun b hb' => hb b (List.mem_cons_of_mem _ hb'))

/-- One write grows the table, asked to put the request's rows. -/
lemma Writer.write_grows (hwal : env.WalMonotone) (t : Table σ Mem Schema Row)
    (request : RowGroup Schema Row) :
    Table.Grows request.rows t (Writer.write env t request).2 := by
  rcases Writer.write_eq env t request with ⟨e, he⟩ | ⟨index, enc, r, hlt, -, he, hs, hw⟩
  · rw [he]; exact .refl _ t
  obtain ⟨-, hlen⟩ := Writer.encodeRows_ok env he
  obtain ⟨hal, hrows, -⟩ := Writer.maybeSplitWriteRequest_aligned env hs hlen
  have hb : ∀ b ∈ r.batches, b.2.iter.length < 2 ^ 32 := by
    intro b hb
    obtain ⟨hrg, -, -⟩ := hal b hb
    have : b.2.iter.length ≤ request.rows.length := by
      simp only [RowGroupSlicer.iter, List.length_take, List.length_drop, hrg]; omega
    have := MAX_ROWS_TO_WRITE_lt
    omega
  rw [hw, ← hrows]
  exact writeBatches_grows env hwal index t r.batches hb

end Grows

/-- A run grows the table, asked to put the requests' rows in order. -/
lemma Writer.run_grows : ∀ (t : Table σ Mem Schema Row)
    (calls : List (WriteEnv σ Mem Schema Row Idx × RowGroup Schema Row)),
    (∀ c ∈ calls, c.1.WalMonotone) →
    Table.Grows (calls.map fun c => c.2.rows).flatten t (Writer.run t calls)
  | t, [], _ => .refl _ t
  | t, c :: calls, hwal =>
    (Writer.write_grows c.1 (hwal c (List.mem_cons_self _ _)) t c.2).trans
      (Writer.run_grows _ calls fun c' hc => hwal c' (List.mem_cons_of_mem _ hc))

/-- The puts of a run, cut at its calls: each call's puts are rows of its own request, in their
order. -/
lemma Writer.run_puts_chunks : ∀ (t : Table σ Mem Schema Row)
    (calls : List (WriteEnv σ Mem Schema Row Idx × RowGroup Schema Row)),
    (∀ c ∈ calls, c.1.WalMonotone) →
    ∃ chunks : List (List (Put Mem Row)),
      (Writer.run t calls).mem.puts = t.mem.puts ++ chunks.flatten ∧
      List.Forall₂ (fun ps (c : WriteEnv σ Mem Schema Row Idx × RowGroup Schema Row) =>
        (ps.map Put.row).Sublist c.2.rows) chunks calls
  | t, [], _ => ⟨[], by simp, .nil⟩
  | t, c :: calls, hwal => by
    obtain ⟨-, ps, -, hp, -, -, hsub, -⟩ :=
      (Writer.write_grows c.1 (hwal c (List.mem_cons_self _ _)) t c.2).writes
    obtain ⟨chunks, hc, h₂⟩ := Writer.run_puts_chunks (Writer.write c.1 t c.2).2 calls
      fun c' hc => hwal c' (List.mem_cons_of_mem _ hc)
    exact ⟨ps :: chunks, by rw [Writer.run_cons, hc, hp, List.flatten_cons, List.append_assoc],
      .cons hsub h₂⟩

/-- Key sequences of a run of writes on one table (Rust `MemTableWriter::write`). -/
theorem Writer.run_keySequences (t : Table σ Mem Schema Row)
    (calls : List (WriteEnv σ Mem Schema Row Idx × RowGroup Schema Row))
    (hwal : ∀ c ∈ calls, c.1.WalMonotone) :
    (∀ w ∈ (Writer.run t calls).memWrites.drop t.memWrites.length,
      w.rowGroup.iter.length < 2 ^ 32) ∧
    (((Writer.run t calls).mem.puts.drop t.mem.puts.length).map Put.keySeq).Sorted (· < ·) ∧
    (((Writer.run t calls).mem.puts.drop t.mem.puts.length).map Put.keySeq).Nodup ∧
    (∀ p ∈ (Writer.run t calls).mem.puts.drop t.mem.puts.length,
      ∃ w ∈ (Writer.run t calls).memWrites.drop t.memWrites.length,
        ∃ i < w.rowGroup.iter.length, (UInt32.ofNat i).toNat = i ∧
          p.keySeq = ⟨w.sequence, UInt32.ofNat i⟩ ∧ w.rowGroup.iter[i]? = some p.row) ∧
    ∃ chunks : List (List (Put Mem Row)),
      (Writer.run t calls).mem.puts.drop t.mem.puts.length = chunks.flatten ∧
      List.Forall₂ (fun ps (c : WriteEnv σ Mem Schema Row Idx × RowGroup Schema Row) =>
        (ps.map Put.row).Sublist c.2.rows) chunks calls := by
  obtain ⟨ws, ps, hw, hp, hws, hs, -, hk, -⟩ := (Writer.run_grows t calls hwal).writes
  obtain ⟨chunks, hc, h₂⟩ := Writer.run_puts_chunks t calls hwal
  rw [hw, hp, List.drop_left, List.drop_left]
  refine ⟨fun w hw => (hws w hw).2.2, hs, hs.imp KeySequence.ne_of_lt, ?_,
    chunks, List.append_cancel_left (hp.symm.trans hc), h₂⟩
  intro p hp
  obtain ⟨w, hw, i, hi, hkey, hrow⟩ := hk p hp
  exact ⟨w, hw, i, hi, UInt32.toNat_ofNat_of_lt (hi.trans (hws w hw).2.2), hkey, hrow⟩

/-- Two writes on a fresh table with collaborators that all succeed. -/
def twoWrites : List (WriteEnv Unit Unit Unit Nat Unit × RowGroup Unit Nat) :=
  [(okEnv, ⟨(), [1, 2]⟩), (okEnv, ⟨(), [3]⟩)]

lemma twoWrites_walMonotone : ∀ c ∈ twoWrites, c.1.WalMonotone := by
  intro c hc
  simp only [twoWrites, List.mem_cons, List.mem_singleton, List.not_mem_nil, or_false] at hc
  rcases hc with rfl | rfl <;> exact fun w p s h => by cases h; exact Nat.lt_succ_self _

theorem run_keySequences_twoWrites :
    (∀ c ∈ twoWrites, c.1.WalMonotone) ∧
    (∀ w ∈ (Writer.run emptyTable twoWrites).memWrites.drop emptyTable.memWrites.length,
      w.rowGroup.iter.length < 2 ^ 32) ∧
    (((Writer.run emptyTable twoWrites).mem.puts.drop
      emptyTable.mem.puts.length).map Put.keySeq).Sorted (· < ·) ∧
    (((Writer.run emptyTable twoWrites).mem.puts.drop
      emptyTable.mem.puts.length).map Put.keySeq).Nodup ∧
    (∀ p ∈ (Writer.run emptyTable twoWrites).mem.puts.drop emptyTable.mem.puts.length,
      ∃ w ∈ (Writer.run emptyTable twoWrites).memWrites.drop emptyTable.memWrites.length,
        ∃ i < w.rowGroup.iter.length, (UInt32.ofNat i).toNat = i ∧
          p.keySeq = ⟨w.sequence, UInt32.ofNat i⟩ ∧ w.rowGroup.iter[i]? = some p.row) ∧
    ∃ chunks : List (List (Put Unit Nat)),
      (Writer.run emptyTable twoWrites).mem.puts.drop emptyTable.mem.puts.length =
        chunks.flatten ∧
      List.Forall₂ (fun ps (c : WriteEnv Unit Unit Unit Nat Unit × RowGroup Unit Nat) =>
        (ps.map Put.row).Sublist c.2.rows) chunks twoWrites :=
  ⟨twoWrites_walMonotone, Writer.run_keySequences emptyTable twoWrites twoWrites_walMonotone⟩

/-- A successful write leaves `last_sequence` at the sequence of its last WAL append; there is at
least one. -/
lemma Writer.write_ok_lastSequence (env : WriteEnv σ Mem Schema Row Idx)
    {t t' : Table σ Mem Schema Row} {request : RowGroup Schema Row} {n : Nat}
    (h : Writer.write env t request = (.ok n, t')) :
    ∃ a, (t'.wal.log.drop t.wal.log.length).getLast? = some a ∧ t'.lastSequence = a.1 := by
  obtain ⟨-, -, index, enc, r, -, -, hs, hb⟩ := Writer.write_ok_batches env h
  obtain ⟨log, hlog, hw, -, -, hlast⟩ := Writer.writeBatches_ok env index t t' r.batches hb
  have hne := Writer.maybeSplitWriteRequest_ne_nil env hs
  rw [hw, List.drop_left, ← hlast]
  cases hl : log.getLast? with
  | none => simp_all [List.getLast?_eq_none_iff]
  | some x => exact ⟨_, by rw [List.getLast?_map, hl]; rfl, rfl⟩

/-- The sequence bookkeeping of a run of writes on one table (Rust `write_table_row_group`). -/
theorem Writer.run_lastSequence (t : Table σ Mem Schema Row)
    (calls : List (WriteEnv σ Mem Schema Row Idx × RowGroup Schema Row))
    (hwal : ∀ c ∈ calls, c.1.WalMonotone) :
    (∀ k k', k ≤ k' →
      (Writer.run t (calls.take k)).lastSequence ≤ (Writer.run t (calls.take k')).lastSequence) ∧
    (∀ k, (Writer.run t (calls.take k)).lastSequence = t.lastSequence ∨
      ∃ w ∈ (Writer.run t (calls.take k)).memWrites.drop t.memWrites.length,
        w.ok = true ∧ w.sequence = (Writer.run t (calls.take k)).lastSequence) ∧
    (t.lastSequence ::
      okSequences ((Writer.run t calls).memWrites.drop t.memWrites.length)).Sorted (· < ·) ∧
    (Writer.run t calls).lastSequence =
      (okSequences ((Writer.run t calls).memWrites.drop t.memWrites.length)).getLast?.getD
        t.lastSequence ∧
    (((Writer.run t calls).mem.lastSequenceUpdates.drop
      t.mem.lastSequenceUpdates.length).map Prod.snd).Sorted (· ≤ ·) ∧
    ∀ (env : WriteEnv σ Mem Schema Row Idx) (t₁ t₂ : Table σ Mem Schema Row)
      (request : RowGroup Schema Row) (n : Nat), Writer.write env t₁ request = (.ok n, t₂) →
      ∃ a, (t₂.wal.log.drop t₁.wal.log.length).getLast? = some a ∧ t₂.lastSequence = a.1 := by
  have hpre : ∀ k, ∀ c ∈ calls.take k, c.1.WalMonotone :=
    fun k c hc => hwal c (List.mem_of_mem_take hc)
  obtain ⟨ws, -, hw, -, hws, -, -, -, hsw, hl⟩ := (Writer.run_grows t calls hwal).writes
  refine ⟨fun k k' hk => ?_, fun k => ?_, ?_, by rw [hw, List.drop_left]; exact hl, ?_,
    fun env _ _ _ _ h => Writer.write_ok_lastSequence env h⟩
  · obtain ⟨j, rfl⟩ := Nat.exists_eq_add_of_le hk
    rw [List.take_add, Writer.run_append]
    exact (Writer.run_grows (Writer.run t (calls.take k)) ((calls.drop k).take j) fun c hc =>
      hwal c (List.mem_of_mem_drop (List.mem_of_mem_take hc))).lastSequence_le
  · obtain ⟨ws, -, hw, -, -, -, -, -, -, hl⟩ := (Writer.run_grows t _ (hpre k)).writes
    rw [hw, List.drop_left]
    exact lastSequence_cases hl
  · rw [hw, List.drop_left]
    refine List.sorted_cons.2 ⟨fun v hv => ?_, hsw.sublist ((List.filter_sublist ws).map _)⟩
    obtain ⟨w, hw', rfl⟩ := List.mem_map.1 hv
    exact Nat.lt_of_le_of_lt t.lastSequence_le (hws w (List.mem_filter.1 hw').1).1
  · obtain ⟨us, hu, hs, -⟩ := (Writer.run_grows t calls hwal).updates
    rw [hu, List.drop_left]
    exact hs

theorem run_lastSequence_twoWrites :
    (∀ c ∈ twoWrites, c.1.WalMonotone) ∧
    (∀ k k', k ≤ k' → (Writer.run emptyTable (twoWrites.take k)).lastSequence ≤
      (Writer.run emptyTable (twoWrites.take k')).lastSequence) ∧
    (∀ k, (Writer.run emptyTable (twoWrites.take k)).lastSequence = emptyTable.lastSequence ∨
      ∃ w ∈ (Writer.run emptyTable (twoWrites.take k)).memWrites.drop emptyTable.memWrites.length,
        w.ok = true ∧ w.sequence = (Writer.run emptyTable (twoWrites.take k)).lastSequence) ∧
    (emptyTable.lastSequence ::
      okSequences ((Writer.run emptyTable twoWrites).memWrites.drop
        emptyTable.memWrites.length)).Sorted (· < ·) ∧
    (Writer.run emptyTable twoWrites).lastSequence =
      (okSequences ((Writer.run emptyTable twoWrites).memWrites.drop
        emptyTable.memWrites.length)).getLast?.getD emptyTable.lastSequence ∧
    (((Writer.run emptyTable twoWrites).mem.lastSequenceUpdates.drop
      emptyTable.mem.lastSequenceUpdates.length).map Prod.snd).Sorted (· ≤ ·) ∧
    ∀ (env : WriteEnv Unit Unit Unit Nat Unit) (t₁ t₂ : Table Unit Unit Unit Nat)
      (request : RowGroup Unit Nat) (n : Nat), Writer.write env t₁ request = (.ok n, t₂) →
      ∃ a, (t₂.wal.log.drop t₁.wal.log.length).getLast? = some a ∧ t₂.lastSequence = a.1 :=
  ⟨twoWrites_walMonotone, Writer.run_lastSequence emptyTable twoWrites twoWrites_walMonotone⟩

end CeresDB.Write
