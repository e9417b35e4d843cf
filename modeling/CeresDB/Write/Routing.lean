import CeresDB.Write.MemTable

/-!
# Memtable routing

`MemTableWriter::write` keeps the memtable of the previous row while it accepts the next row's
timestamp, and asks `find_or_create_mutable` only on a miss. This module compares it with
`naiveWrite`, the writer the spec describes, which asks `find_or_create_mutable` for every row
that is not expired and is otherwise the same loop.

The comparison needs what the table promises about its mutable memtables, seen through a view
`mutables` of the table state (`FindsMutable`): their timestamp ranges are pairwise disjoint
(`DisjointRanges`), `find_or_create_mutable` returns the mutable memtable that accepts the
timestamp without touching the state, or creates one that accepts it and keeps the ranges
disjoint, and `put` and `set_last_sequence` write into a memtable without changing which
memtables are mutable.

Under it, the memtable kept from the previous row is still mutable, so when it accepts the
timestamp it is the one the lookup would return (`route_map_eq_find`). Row by row the two loops
then reach the same state (`writeRows_state_eq_naive`), and the two writers make the same puts and
leave the same mutable memtables (`write_refines_naiveWrite`). Only the lists of memtables
handed to `set_last_sequence` differ: the naive writer lists a memtable once per row.
-/

namespace CeresDB.Write

variable {σ Mem Row Idx : Type}

/-- The memtables accept pairwise disjoint timestamp ranges: a timestamp is accepted by at most
one of them. -/
def DisjointRanges (ops : MemTableOps σ Mem Row Idx) (mems : List Mem) : Prop :=
  ∀ m₁ ∈ mems, ∀ m₂ ∈ mems, ∀ ts,
    ops.acceptTimestamp m₁ ts = true → ops.acceptTimestamp m₂ ts = true → m₁ = m₂

/-- What the table promises about its mutable memtables, listed by `mutables` for each state. -/
structure FindsMutable (ops : MemTableOps σ Mem Row Idx) (mutables : σ → List Mem) : Prop where
  /-- A timestamp that a mutable memtable accepts is routed to it, and the state stays as it is. -/
  find_accepting : ∀ v ts m, DisjointRanges ops (mutables v) → m ∈ mutables v →
    ops.acceptTimestamp m ts = true → ops.findOrCreateMutable v ts = .ok (m, v)
  /-- What comes back, found or created, is a mutable memtable that accepts the timestamp, and
  the ranges stay disjoint. -/
  find_ok : ∀ v ts m v', DisjointRanges ops (mutables v) →
    ops.findOrCreateMutable v ts = .ok (m, v') →
      ops.acceptTimestamp m ts = true ∧ m ∈ mutables v' ∧ DisjointRanges ops (mutables v')
  /-- A put writes into a memtable and leaves the mutable memtables as they are. -/
  put_mutables : ∀ v m i k r ts v', ops.put v m i k r ts = .ok v' → mutables v' = mutables v
  /-- So does `set_last_sequence`. -/
  setLastSequence_mutables : ∀ v m s v', ops.setLastSequence v m s = .ok v' →
    mutables v' = mutables v

namespace MemTableWriter

/-- After the spec: the routing loop asking `find_or_create_mutable` for every row that is not
expired. -/
def naiveWriteRows (ops : MemTableOps σ Mem Row Idx) (table : String) (index : Idx)
    (sequence : Nat) : MemState σ Mem Row → List Mem → Nat → List Row →
      Except Error (List Mem) × MemState σ Mem Row
  | st, wroteMemtables, _, [] => (.ok wroteMemtables, st)
  | st, wroteMemtables, rowIdx, row :: rows =>
    match ops.timestamp row with
    | none => (.error .panicked, st)
    | some timestamp =>
      if ops.isExpired timestamp then
        naiveWriteRows ops table index sequence st wroteMemtables (rowIdx + 1) rows
      else
        match findMutable ops st.version wroteMemtables timestamp with
        | .error e => (.error (.findMutableMemTable table e), st)
        | .ok (mem, wroteMemtables, version) =>
          let keySeq : KeySequence := ⟨sequence, UInt32.ofNat rowIdx⟩
          match ops.put version mem index keySeq row timestamp with
          | .error e => (.error (.writeMemTable table e), { st with version := version })
          | .ok version =>
            naiveWriteRows ops table index sequence
              { st with version := version, puts := st.puts ++ [⟨mem, keySeq, row⟩] }
              wroteMemtables (rowIdx + 1) rows

/-- After the spec: `MemTableWriter::write` with the naive routing loop. -/
def naiveWrite (ops : MemTableOps σ Mem Row Idx) (table : String) (st : MemState σ Mem Row)
    (sequence : Nat) (rowGroup : RowGroupSlicer Row) (index : Idx) :
    Except Error Unit × MemState σ Mem Row :=
  if rowGroup.isEmpty then (.ok (), st)
  else
    match naiveWriteRows ops table index sequence st [] 0 rowGroup.iter with
    | (.error e, st) => (.error e, st)
    | (.ok wroteMemtables, st) => setLastSequences ops sequence st wroteMemtables

variable {ops : MemTableOps σ Mem Row Idx} {mutables : σ → List Mem}

/-- The memtable and state `find_or_create_mutable` gives, whatever `wrote_memtables` holds. -/
lemma findMutable_map_eq_find (version : σ) (wrote : List Mem) (ts : Int) :
    (findMutable ops version wrote ts).map (fun r => (r.1, r.2.2)) =
      ops.findOrCreateMutable version ts := by
  unfold findMutable
  cases ops.findOrCreateMutable version ts <;> rfl

section Routing

variable (hf : FindsMutable ops mutables)
include hf

/-- A memtable kept from the previous row is still mutable, so routing a row gives the memtable
and state the lookup gives. -/
lemma route_map_eq_find {version : σ} {last : Option Mem} {wrote : List Mem} {ts : Int}
    (hd : DisjointRanges ops (mutables version)) (hl : ∀ m, last = some m → m ∈ mutables version) :
    (route ops version last wrote ts).map (fun r => (r.1, r.2.2)) =
      ops.findOrCreateMutable version ts := by
  rcases last with _ | m
  · exact findMutable_map_eq_find version wrote ts
  · by_cases ha : ops.acceptTimestamp m ts
    · simp only [route, if_pos ha, hf.find_accepting version ts m hd (hl m rfl) ha]
      rfl
    · simp only [route, if_neg ha]
      exact findMutable_map_eq_find version wrote ts

/-- The memtable a row is routed to is mutable in the state it is routed in, and the ranges stay
disjoint. -/
lemma route_ok_mutable {version version' : σ} {last : Option Mem} {wrote wrote' : List Mem}
    {ts : Int} {mem : Mem} (hd : DisjointRanges ops (mutables version))
    (hl : ∀ m, last = some m → m ∈ mutables version)
    (h : route ops version last wrote ts = .ok (mem, wrote', version')) :
    mem ∈ mutables version' ∧ DisjointRanges ops (mutables version') := by
  rcases route_ok ops h with ⟨rfl, -, -, rfl⟩ | ⟨hfind, -⟩
  · exact ⟨hl mem rfl, hd⟩
  · exact (hf.find_ok _ _ _ _ hd hfind).2

/-- Row by row the routing loop and the naive loop reach the same state, whatever memtables
each has listed so far. -/
lemma writeRows_state_eq_naive (table : String) (index : Idx) (sequence : Nat) :
    ∀ (rows : List Row) (st : MemState σ Mem Row) (last : Option Mem) (wrote wrote' : List Mem)
      (rowIdx : Nat), DisjointRanges ops (mutables st.version) →
      (∀ m, last = some m → m ∈ mutables st.version) →
      (writeRows ops table index sequence st last wrote rowIdx rows).2 =
        (naiveWriteRows ops table index sequence st wrote' rowIdx rows).2
  | [], _, _, _, _, _, _, _ => rfl
  | row :: rows, st, last, wrote, wrote', rowIdx, hd, hl => by
    simp only [writeRows, naiveWriteRows]
    rcases ops.timestamp row with _ | ts
    · rfl
    dsimp only
    split
    · exact writeRows_state_eq_naive table index sequence rows st last wrote wrote' _ hd hl
    have hr : (route ops st.version last wrote ts).map (fun r => (r.1, r.2.2)) =
        (findMutable ops st.version wrote' ts).map (fun r => (r.1, r.2.2)) := by
      rw [route_map_eq_find hf hd hl, findMutable_map_eq_find]
    rcases hroute : route ops st.version last wrote ts with e | ⟨mem, wrote₁, version⟩ <;>
      rcases hfind : findMutable ops st.version wrote' ts with e' | ⟨mem', wrote₂, version'⟩ <;>
      rw [hroute, hfind] at hr <;> cases hr
    -- a failed lookup leaves `st` on both sides; otherwise both got the same memtable and state
    dsimp only
    rcases hput : ops.put version mem index ⟨sequence, UInt32.ofNat rowIdx⟩ row ts with e | v
    · rfl
    have ⟨hmem, hd'⟩ := route_ok_mutable hf hd hl hroute
    have hv := hf.put_mutables _ _ _ _ _ _ _ hput
    exact writeRows_state_eq_naive table index sequence rows _ (some mem) wrote₁ wrote₂ _
      (hv ▸ hd') fun m hm => Option.some.inj hm ▸ hv ▸ hmem

end Routing

/-- The last loop makes no put and leaves the mutable memtables as they are. -/
lemma setLastSequences_mutables (hf : FindsMutable ops mutables) (sequence : Nat) :
    ∀ (st : MemState σ Mem Row) (mems : List Mem),
      mutables (setLastSequences ops sequence st mems).2.version = mutables st.version
  | st, [] => rfl
  | st, mem :: mems => by
    simp only [setLastSequences]
    rcases hs : ops.setLastSequence st.version mem sequence with e | v
    · rfl
    · exact (setLastSequences_mutables hf sequence _ mems).trans
        (hf.setLastSequence_mutables _ _ _ _ hs)

/-- `MemTableWriter::write` refines the writer that looks up every row's memtable. -/
theorem write_refines_naiveWrite (hf : FindsMutable ops mutables) (table : String)
    (st : MemState σ Mem Row) (sequence : Nat) (rowGroup : RowGroupSlicer Row) (index : Idx)
    (hd : DisjointRanges ops (mutables st.version)) :
    (write ops table st sequence rowGroup index).2.puts =
      (naiveWrite ops table st sequence rowGroup index).2.puts ∧
    mutables (write ops table st sequence rowGroup index).2.version =
      mutables (naiveWrite ops table st sequence rowGroup index).2.version := by
  unfold write naiveWrite
  split
  · exact ⟨rfl, rfl⟩
  have h := writeRows_state_eq_naive hf table index sequence rowGroup.iter st none [] [] 0 hd
    (by simp)
  generalize writeRows ops table index sequence st none [] 0 rowGroup.iter = r₁ at h
  generalize naiveWriteRows ops table index sequence st [] 0 rowGroup.iter = r₂ at h
  obtain ⟨_ | w, st₁⟩ := r₁ <;> obtain ⟨_ | w', st₂⟩ := r₂ <;> dsimp only at h ⊢ <;> subst h <;>
    simp only [(setLastSequences_spec ops sequence _ _).1, setLastSequences_mutables hf, and_self]

end MemTableWriter

/-- Windows of ten timestamps never overlap. -/
lemma windowOps_disjoint (ms : List Int) : DisjointRanges windowOps ms := by
  intro m₁ _ m₂ _ ts h₁ h₂
  simp only [windowOps, decide_eq_true_eq] at h₁ h₂
  exact h₁.symm.trans h₂

/-- The windowed memtables keep the table's promises, their state being the list of windows. -/
lemma windowOps_findsMutable : FindsMutable windowOps id where
  find_accepting v ts m _ hm ha := by
    simp only [windowOps, decide_eq_true_eq] at ha ⊢
    subst ha
    exact if_pos hm
  find_ok v ts m v' _ h := by
    refine ⟨windowOps_accepts v ts m v' h, ?_, windowOps_disjoint _⟩
    simp only [windowOps] at h
    split at h <;> simp only [Except.ok.injEq, Prod.mk.injEq] at h <;> obtain ⟨rfl, rfl⟩ := h <;>
      simp_all
  put_mutables _ _ _ _ _ _ _ h := by simp only [windowOps, Except.ok.injEq] at h; simp [h]
  setLastSequence_mutables _ _ _ _ h := by simp only [windowOps, Except.ok.injEq] at h; simp [h]

theorem write_refines_naiveWrite_windows :
    FindsMutable windowOps id ∧ DisjointRanges windowOps [0] ∧
    (MemTableWriter.write windowOps "t" ⟨[0], [], []⟩ 5 windowSlice ()).2.puts =
      (MemTableWriter.naiveWrite windowOps "t" ⟨[0], [], []⟩ 5 windowSlice ()).2.puts ∧
    id (MemTableWriter.write windowOps "t" ⟨[0], [], []⟩ 5 windowSlice ()).2.version =
      id (MemTableWriter.naiveWrite windowOps "t" ⟨[0], [], []⟩ 5 windowSlice ()).2.version :=
  ⟨windowOps_findsMutable, windowOps_disjoint [0],
    MemTableWriter.write_refines_naiveWrite windowOps_findsMutable "t" ⟨[0], [], []⟩ 5 windowSlice ()
      (windowOps_disjoint [0])⟩

end CeresDB.Write
