import Mathlib

/-!
# Write path: data model

The types `analytic_engine/src/instance/write.rs` works with. Rows and schemas stay abstract
(type parameters wherever they appear), since the write path only moves rows around, reads
their timestamps and hands them to the encoder; an encoded row is a `ByteVec`. A
`RowGroupSlicer` is a half-open range over the rows of a row group, and a `KeySequence` is the
pair `(sequence, row index as u32)` under which a row is put into a memtable, ordered
lexicographically.

`Error` mirrors the `Error` enum of `write.rs`, each variant with the context fields it carries;
the causes from other crates are kept as their display text. A panic (`assert!`, `unwrap`, an
index out of bounds) ends a call as an error does and is the extra variant `panicked`.
-/

namespace CeresDB.Write

/-- `common_types::bytes::ByteVec`. -/
abbrev ByteVec := List UInt8

/-- `MAX_ROWS_TO_WRITE`: max rows in a write request, less than `u32::MAX`. -/
def MAX_ROWS_TO_WRITE : Nat := 10000000

lemma MAX_ROWS_TO_WRITE_lt : MAX_ROWS_TO_WRITE < 2 ^ 32 := by decide

/-- `common_types::row::RowGroup`: a schema and its rows. -/
structure RowGroup (Schema Row : Type) where
  schema : Schema
  rows : List Row

/-- `common_types::row::RowGroupSlicer`: the rows `[start, stop)` of a row group. -/
structure RowGroupSlicer (Row : Type) where
  start : Nat
  stop : Nat
  rowGroup : List Row

variable {Row : Type}

/-- `RowGroupSlicer::from(row_group)`: the whole row group. -/
def RowGroupSlicer.ofRowGroup (rows : List Row) : RowGroupSlicer Row := ⟨0, rows.length, rows⟩

/-- `RowGroupSlicer::num_rows`. -/
def RowGroupSlicer.numRows (sl : RowGroupSlicer Row) : Nat := sl.stop - sl.start

/-- `RowGroupSlicer::is_empty`. -/
def RowGroupSlicer.isEmpty (sl : RowGroupSlicer Row) : Bool := sl.numRows == 0

/-- `RowGroupSlicer::iter`: the rows of the range, in order. -/
def RowGroupSlicer.iter (sl : RowGroupSlicer Row) : List Row :=
  (sl.rowGroup.drop sl.start).take (sl.stop - sl.start)

@[simp] lemma RowGroupSlicer.iter_ofRowGroup (rows : List Row) :
    (RowGroupSlicer.ofRowGroup rows).iter = rows := by
  simp [RowGroupSlicer.ofRowGroup, RowGroupSlicer.iter]

/-- A slicer that ends inside its row group iterates exactly `num_rows` rows. -/
lemma RowGroupSlicer.length_iter (sl : RowGroupSlicer Row) (h : sl.stop ≤ sl.rowGroup.length) :
    sl.iter.length = sl.numRows := by
  simp only [RowGroupSlicer.iter, RowGroupSlicer.numRows, List.length_take, List.length_drop]
  omega

/-- `memtable::key::KeySequence`: the WAL sequence of the batch and the row's index in it. -/
structure KeySequence where
  sequence : Nat
  index : UInt32
  deriving DecidableEq, Repr

/-- Lexicographic order on key sequences. -/
instance : LT KeySequence where
  lt a b := a.sequence < b.sequence ∨ (a.sequence = b.sequence ∧ a.index < b.index)

instance (a b : KeySequence) : Decidable (a < b) :=
  inferInstanceAs (Decidable (a.sequence < b.sequence ∨ (a.sequence = b.sequence ∧ a.index < b.index)))

lemma KeySequence.lt_iff (a b : KeySequence) :
    a < b ↔ a.sequence < b.sequence ∨ (a.sequence = b.sequence ∧ a.index < b.index) := Iff.rfl

lemma KeySequence.lt_irrefl (a : KeySequence) : ¬a < a := by
  rw [KeySequence.lt_iff]
  rintro (h | ⟨-, h⟩)
  · exact Nat.lt_irrefl _ h
  · exact UInt32.lt_irrefl _ h

lemma KeySequence.ne_of_lt {a b : KeySequence} (h : a < b) : a ≠ b := by
  rintro rfl
  exact KeySequence.lt_irrefl a h

/-- Below `2 ^ 32` the cast `row_idx as u32` keeps the order of row indexes. -/
lemma KeySequence.lt_of_index_lt {s i j : Nat} (hij : i < j) (hj : j < 2 ^ 32) :
    (⟨s, UInt32.ofNat i⟩ : KeySequence) < ⟨s, UInt32.ofNat j⟩ := by
  refine .inr ⟨rfl, ?_⟩
  rw [UInt32.lt_def, BitVec.lt_def, UInt32.toBitVec_eq_of_lt (hij.trans hj), UInt32.toBitVec_eq_of_lt hj]
  exact hij

/-- `write.rs` `Error`, plus `panicked` for a panic. -/
inductive Error where
  | encodePayloads (table : String) (walLocation : Nat × Nat) (source : String)
  | writeLogBatch (table : String) (source : String)
  | writeMemTable (table : String) (source : String)
  | writeDroppedTable (table : String)
  | tooManyRows (table : String) (rows : Nat)
  | findMutableMemTable (table : String) (source : String)
  | flushTable (table : String) (source : String)
  | incompatSchema (source : String)
  | encodeRowGroup (source : String)
  | updateMemTableSequence (source : String)
  | panicked
  deriving DecidableEq, Repr

end CeresDB.Write
