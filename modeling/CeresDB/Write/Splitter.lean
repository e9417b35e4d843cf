import CeresDB.Write.Basic

/-!
# Row group splitter

Model of `WriteRowGroupSplitter` in `write.rs`. `compute_batches` walks the encoded rows with a
running batch size and records `row_idx + 1` whenever the size reaches `max_bytes_per_batch`,
then records the row count if some bytes are left over. `split` keeps the request whole when at
most one end index comes back; otherwise its first loop builds one empty batch and one slicer
`[prev, end)` per end index, and its second loop pushes each encoded row into
`encoded_batches[current_batch_idx]`, moving to the next batch once `row_idx` reaches the current
end index. Both indexings panic out of bounds, so `split` returns an `Option`.

`compute_batches` is a left fold over the rows. `Greedy` is what it has computed after a prefix of
them: the batches closed so far are nonempty and reach `max_bytes_per_batch` exactly at their last
row, and the bytes pending after the last end index stay below it. A row either closes the pending
batch (`Greedy.close`) or joins it (`Greedy.extend`), so the invariant holds after every prefix
(`computeBatchesLoop_greedy`). From it `computeBatches_greedy` reads off the greedy batching:
strictly increasing end indexes, nonempty batches that pass the threshold by at most their last
row, nothing but rows of length zero left after the last end index, and a last end index below
the row count only after a batch that reached the threshold (`computeBatches_closed`).

The second loop is proved against `batchesOf`, the slices of the encoded rows at the slicers' own
ranges: `pushRows_eq` shows it builds exactly those slices when the last end index covers every
row and panics otherwise. `split_eq` assembles the three outcomes; `split_splitted` is the
partition law the writer relies on. When rows of length zero follow the last end index and there
are two or more batches, the second loop runs past the last batch:
`split_trailing_empty_row_panics` is that panic on a concrete input.
-/

namespace CeresDB.Write

variable {α Row : Type}

/-- `WriteRowGroupSplitter`. -/
structure WriteRowGroupSplitter where
  maxBytesPerBatch : Nat

/-- `SplitResult`. -/
inductive SplitResult (Row : Type) where
  | splitted (encodedBatches : List (List ByteVec)) (rowGroupBatches : List (RowGroupSlicer Row))
  | integrate (encodedRows : List ByteVec) (rowGroup : RowGroupSlicer Row)

namespace WriteRowGroupSplitter

/-- The loop of `compute_batches` from `row_idx` on, with `current_batch_size` and the end
indexes recorded so far. -/
def computeBatchesLoop (self : WriteRowGroupSplitter) :
    List ByteVec → Nat → Nat → List Nat → Nat × List Nat
  | [], _, currentBatchSize, endRowIndexes => (currentBatchSize, endRowIndexes)
  | encodedRow :: rows, rowIdx, currentBatchSize, endRowIndexes =>
    if self.maxBytesPerBatch ≤ currentBatchSize + encodedRow.length then
      self.computeBatchesLoop rows (rowIdx + 1) 0 (endRowIndexes ++ [rowIdx + 1])
    else
      self.computeBatchesLoop rows (rowIdx + 1) (currentBatchSize + encodedRow.length)
        endRowIndexes

/-- `WriteRowGroupSplitter::compute_batches`. -/
def computeBatches (self : WriteRowGroupSplitter) (encodedRows : List ByteVec) : List Nat :=
  let r := self.computeBatchesLoop encodedRows 0 0 []
  if 0 < r.1 then r.2 ++ [encodedRows.length] else r.2

end WriteRowGroupSplitter

/-- The first loop of `split`: one slicer `[prev, end)` per end index. -/
def rowGroupBatches (rowGroup : List Row) : Nat → List Nat → List (RowGroupSlicer Row)
  | _, [] => []
  | prev, e :: es => ⟨prev, e, rowGroup⟩ :: rowGroupBatches rowGroup e es

/-- The second loop of `split` from `row_idx` on: push each encoded row into
`encoded_batches[current_batch_idx]`, after moving on once `row_idx` reaches the current end. -/
def pushRows (endRowIndexes : List Nat) :
    List ByteVec → Nat → Nat → List (List ByteVec) → Option (List (List ByteVec))
  | [], _, _, encodedBatches => some encodedBatches
  | encodedRow :: rows, rowIdx, currentBatchIdx, encodedBatches =>
    match endRowIndexes[currentBatchIdx]? with
    | none => none
    | some e =>
      let currentBatchIdx := if e ≤ rowIdx then currentBatchIdx + 1 else currentBatchIdx
      if currentBatchIdx < encodedBatches.length then
        pushRows endRowIndexes rows (rowIdx + 1) currentBatchIdx
          (encodedBatches.modify (· ++ [encodedRow]) currentBatchIdx)
      else none

/-- `WriteRowGroupSplitter::split`; `none` is a panic. -/
def WriteRowGroupSplitter.split (self : WriteRowGroupSplitter) (encodedRows : List ByteVec)
    (rowGroup : List Row) : Option (SplitResult Row) :=
  let endRowIndexes := self.computeBatches encodedRows
  if endRowIndexes.length ≤ 1 then
    some (.integrate encodedRows (RowGroupSlicer.ofRowGroup rowGroup))
  else
    (pushRows endRowIndexes encodedRows 0 0 (endRowIndexes.map fun _ => [])).map fun b =>
      .splitted b (rowGroupBatches rowGroup 0 endRowIndexes)

/-- The slices of `xs` at the ranges of `rowGroupBatches`: what the batches should hold. -/
def batchesOf (xs : List α) (prev : Nat) (ends : List Nat) : List (List α) :=
  (rowGroupBatches xs prev ends).map RowGroupSlicer.iter

@[simp] lemma rowGroupBatches_nil (xs : List α) (prev : Nat) : rowGroupBatches xs prev [] = [] :=
  rfl

@[simp] lemma rowGroupBatches_cons (xs : List α) (prev e : Nat) (es : List Nat) :
    rowGroupBatches xs prev (e :: es) = ⟨prev, e, xs⟩ :: rowGroupBatches xs e es := rfl

@[simp] lemma length_rowGroupBatches (xs : List α) (prev : Nat) (ends : List Nat) :
    (rowGroupBatches xs prev ends).length = ends.length := by
  induction ends generalizing prev <;> simp [*]

@[simp] lemma batchesOf_nil (xs : List α) (prev : Nat) : batchesOf xs prev [] = [] := rfl

@[simp] lemma batchesOf_cons (xs : List α) (prev e : Nat) (es : List Nat) :
    batchesOf xs prev (e :: es) = (xs.drop prev).take (e - prev) :: batchesOf xs e es := rfl

@[simp] lemma length_batchesOf (xs : List α) (prev : Nat) (ends : List Nat) :
    (batchesOf xs prev ends).length = ends.length := by
  simp [batchesOf]

/-- Past the end of `xs` every slice is empty. -/
lemma batchesOf_eq_nil {xs : List α} {prev : Nat} {ends : List Nat} (hs : ends.Sorted (· < ·))
    (hp : xs.length ≤ prev) (hpe : ∀ e ∈ ends, prev ≤ e) :
    batchesOf xs prev ends = ends.map fun _ => [] := by
  induction ends generalizing prev with
  | nil => rfl
  | cons e es ih =>
    have ⟨hes, hs'⟩ := List.sorted_cons.1 hs
    have he := hpe e (List.mem_cons_self _ _)
    simp only [batchesOf_cons, List.map_cons, List.drop_of_length_le hp, List.take_nil]
    exact congrArg _ (ih hs' (by omega) fun e' h => (hes e' h).le)

/-- Appending a row to `xs` appends it to the slice whose range contains position `xs.length`. -/
lemma batchesOf_concat {ends : List Nat} (hs : ends.Sorted (· < ·)) (xs : List α) (x : α) :
    ∀ (prev c e : Nat), prev ≤ xs.length → (∀ y ∈ ends.take c, y ≤ xs.length) →
      ends[c]? = some e → xs.length < e →
      batchesOf (xs ++ [x]) prev ends = (batchesOf xs prev ends).modify (· ++ [x]) c := by
  induction ends with
  | nil => simp
  | cons e₀ es ih =>
    have ⟨hes, hs'⟩ := List.sorted_cons.1 hs
    rintro prev (_ | c) e hp hc he hlt
    · simp only [List.getElem?_cons_zero, Option.some.injEq] at he
      subst he
      have hnil : ∀ ys : List α, ys.length ≤ e₀ → batchesOf ys e₀ es = es.map fun _ => [] :=
        fun ys hy => batchesOf_eq_nil hs' hy fun e' h => (hes e' h).le
      simp only [batchesOf_cons, List.modify_zero_cons, List.drop_append_of_le_length hp,
        hnil (xs ++ [x]) (by simp; omega), hnil xs hlt.le]
      rw [List.take_of_length_le (by simp; omega), List.take_of_length_le (by simp; omega)]
    · simp only [List.take_succ_cons, List.mem_cons, forall_eq_or_imp] at hc
      simp only [List.getElem?_cons_succ] at he
      simp only [batchesOf_cons, List.modify_succ_cons, List.drop_append_of_le_length hp,
        List.take_append_of_le_length (by simp; omega : e₀ - prev ≤ (xs.drop prev).length)]
      exact congrArg _ (ih hs' e₀ c e hc.1 hc.2 he hlt)

/-- The slices are consecutive, so together they cover `[prev, last end)`. -/
lemma flatten_batchesOf {ends : List Nat} (hs : ends.Sorted (· < ·)) (xs : List α) :
    ∀ prev, (∀ e ∈ ends, prev ≤ e) →
      (batchesOf xs prev ends).flatten = (xs.drop prev).take (ends.getLast?.getD prev - prev) := by
  induction ends with
  | nil => simp
  | cons e es ih =>
    have ⟨hes, hs'⟩ := List.sorted_cons.1 hs
    intro prev hpe
    have he := hpe e (List.mem_cons_self _ _)
    have hl : e ≤ es.getLast?.getD e := by
      cases h : es.getLast? with
      | none => rfl
      | some l => exact (hes l (List.mem_of_getLast?_eq_some h)).le
    have hd : xs.drop e = (xs.drop prev).drop (e - prev) := by
      rw [List.drop_drop, Nat.add_sub_cancel' he]
    rw [batchesOf_cons, List.flatten_cons, ih hs' e fun e' h => (hes e' h).le, List.getLast?_cons,
      Option.getD_some, hd, ← List.take_add, show e - prev + (es.getLast?.getD e - e) =
        es.getLast?.getD e - prev by omega]

/-- Slices that end inside `xs` do not see rows appended after it. -/
lemma batchesOf_append_of_le {xs : List α} (ys : List α) :
    ∀ {prev : Nat} {ends : List Nat}, prev ≤ xs.length → (∀ e ∈ ends, e ≤ xs.length) →
      batchesOf (xs ++ ys) prev ends = batchesOf xs prev ends
  | _, [], _, _ => rfl
  | prev, e :: es, hp, he => by
    have he₀ := he e (List.mem_cons_self _ _)
    rw [batchesOf_cons, batchesOf_cons, List.drop_append_of_le_length hp,
      List.take_append_of_le_length (by simp; omega),
      batchesOf_append_of_le ys he₀ fun e' h => he e' (List.mem_cons_of_mem _ h)]

/-- One more end index adds the slice from the last one to it. -/
lemma batchesOf_append_end (xs : List α) (e : Nat) : ∀ (prev : Nat) (ends : List Nat),
    batchesOf xs prev (ends ++ [e]) =
      batchesOf xs prev ends ++ [(xs.drop (ends.getLast?.getD prev)).take (e - ends.getLast?.getD prev)]
  | _, [] => rfl
  | prev, e₀ :: es => by
    simp [batchesOf_append_end xs e e₀ es, List.getLast?_cons]

/-- An end index at the row count adds the slice of all rows after the last end index. -/
lemma batchesOf_append_length (xs : List α) (prev : Nat) (ends : List Nat) :
    batchesOf xs prev (ends ++ [xs.length]) =
      batchesOf xs prev ends ++ [xs.drop (ends.getLast?.getD prev)] := by
  rw [batchesOf_append_end, List.take_of_length_le (by simp)]

section Push

variable {ends : List Nat}

/-- Two neighbouring end indexes of a strictly increasing list increase. -/
lemma Sorted.getElem?_succ_gt (hs : ends.Sorted (· < ·)) :
    ∀ {c e e' : Nat}, ends[c]? = some e → ends[c + 1]? = some e' → e < e' := by
  induction ends with
  | nil => simp
  | cons a es ih =>
    intro c e e' he he'
    have ⟨hes, hs'⟩ := List.sorted_cons.1 hs
    cases c with
    | zero =>
      simp only [List.getElem?_cons_zero, Option.some.injEq, List.getElem?_cons_succ] at he he'
      exact he ▸ hes e' (List.getElem?_mem he')
    | succ c =>
      simp only [List.getElem?_cons_succ] at he he'
      exact ih hs' he he'

/-- In a strictly increasing list every element is at most the last one. -/
lemma Sorted.le_getLast? (hs : ends.Sorted (· < ·)) :
    ∀ {c e : Nat}, ends[c]? = some e → e ≤ ends.getLast?.getD 0 := by
  induction ends with
  | nil => simp
  | cons a es ih =>
    intro c e he
    have ⟨hes, hs'⟩ := List.sorted_cons.1 hs
    rw [List.getLast?_cons, Option.getD_some]
    cases h : es.getLast? with
    | none =>
      rw [List.getLast?_eq_none_iff.1 h] at he
      cases c <;> simp_all
    | some l =>
      cases c with
      | zero => simpa using (hes l (List.mem_of_getLast?_eq_some h)).le.trans_eq' (by simp_all)
      | succ c => simpa [h] using ih hs' (by simpa using he)

/-- The element at the last index is the last one. -/
lemma getLast?_of_getElem?_succ_eq_none {c e : Nat} (he : ends[c]? = some e)
    (he' : ends[c + 1]? = none) : ends.getLast? = some e := by
  rw [List.getLast?_eq_getElem?, ← he]
  have := (List.getElem?_eq_some_iff.1 he).1
  rw [List.getElem?_eq_none_iff] at he'
  congr 1
  omega

/-- The push loop, from row `done.length` on, builds the slices of all rows when the last end index
covers them, and panics otherwise. -/
lemma pushRows_eq (hs : ends.Sorted (· < ·)) :
    ∀ (rest done : List ByteVec) (cur e : Nat), ends[cur]? = some e → done.length ≤ e →
      (∀ y ∈ ends.take cur, y < done.length) →
      pushRows ends rest done.length cur (batchesOf done 0 ends) =
        if (done ++ rest).length ≤ ends.getLast?.getD 0 then
          some (batchesOf (done ++ rest) 0 ends)
        else none
  | [], done, cur, e, he, hle, _ => by
    simp [pushRows, hle.trans (Sorted.le_getLast? hs he)]
  | row :: rest, done, cur, e, he, hle, hlt => by
    have hcur := (List.getElem?_eq_some_iff.1 he).1
    simp only [pushRows, he, length_batchesOf]
    by_cases hreach : e ≤ done.length
    · have hed : e = done.length := by omega
      simp only [hreach, if_true]
      cases he' : ends[cur + 1]? with
      | none =>
        have hlast := getLast?_of_getElem?_succ_eq_none he he'
        rw [List.getElem?_eq_none_iff] at he'
        simp only [show ¬cur + 1 < ends.length by omega, if_false, hlast, Option.getD_some,
          List.length_append, List.length_cons]
        rw [if_neg (by omega)]
      | some e' =>
        have hlt' := Sorted.getElem?_succ_gt hs he he'
        have htake : ∀ y ∈ ends.take (cur + 1), y ≤ done.length := by
          rw [List.take_succ, he]
          intro y hy
          rcases List.mem_append.1 hy with hy | hy
          · exact (hlt y hy).le
          · simp only [Option.toList_some, List.mem_singleton] at hy; omega
        have ih := pushRows_eq hs rest (done ++ [row]) (cur + 1) e' he' (by simp; omega)
          (fun y hy => by simp only [List.length_append, List.length_singleton]; have := htake y hy; omega)
        rw [← batchesOf_concat hs done row 0 (cur + 1) e' (Nat.zero_le _) htake he' (by omega)]
        simp only [List.length_append, List.length_singleton, List.append_assoc,
          List.singleton_append] at ih
        rw [if_pos (List.getElem?_eq_some_iff.1 he').1, ih, List.length_append]
    · simp only [hreach, if_false, if_pos hcur]
      have ih := pushRows_eq hs rest (done ++ [row]) cur e he (by simp; omega)
        (fun y hy => by simp only [List.length_append, List.length_singleton]; have := hlt y hy; omega)
      rw [← batchesOf_concat hs done row 0 cur e (Nat.zero_le _) (fun y hy => (hlt y hy).le) he
        (by omega)]
      simpa only [List.length_append, List.length_singleton, List.append_assoc,
        List.singleton_append] using ih

end Push

/-- Byte size of some encoded rows. -/
def byteSize (rows : List ByteVec) : Nat := (rows.map List.length).sum

@[simp] lemma byteSize_nil : byteSize [] = 0 := rfl

@[simp] lemma byteSize_append (xs ys : List ByteVec) :
    byteSize (xs ++ ys) = byteSize xs + byteSize ys := by
  simp [byteSize]

@[simp] lemma byteSize_singleton (x : ByteVec) : byteSize [x] = x.length := by
  simp [byteSize]

/-- A prefix and the rest share the bytes of the whole. -/
lemma byteSize_take_add_drop (rows : List ByteVec) (m : Nat) :
    byteSize (rows.take m) + byteSize (rows.drop m) = byteSize rows := by
  rw [← byteSize_append, List.take_append_drop]

lemma byteSize_take_le (rows : List ByteVec) (m : Nat) : byteSize (rows.take m) ≤ byteSize rows :=
  Nat.le.intro (byteSize_take_add_drop rows m)

lemma byteSize_drop_le (rows : List ByteVec) (m : Nat) : byteSize (rows.drop m) ≤ byteSize rows :=
  Nat.le.intro ((Nat.add_comm _ _).trans (byteSize_take_add_drop rows m))

lemma byteSize_eq_zero_iff {rows : List ByteVec} : byteSize rows = 0 ↔ ∀ r ∈ rows, r.length = 0 := by
  simp [byteSize, List.sum_eq_zero_iff]

/-- A strictly increasing list stays so with a larger element at its end. -/
lemma sorted_concat_of_lt {acc : List Nat} {n : Nat} (hs : acc.Sorted (· < ·))
    (h : ∀ e ∈ acc, e < n) : (acc ++ [n]).Sorted (· < ·) :=
  List.pairwise_append.2 ⟨hs, List.pairwise_singleton _ _, fun a ha _ hb =>
    List.mem_singleton.1 hb ▸ h a ha⟩

namespace WriteRowGroupSplitter

/-- What the loop of `compute_batches` has computed after the rows `done`, with `cur` pending
bytes and end indexes `acc`: the batches closed so far are nonempty, reach `T` bytes and reach it
only with their last row; the rows after the last end index hold the `cur` pending bytes, below
`T` when there are any. -/
structure Greedy (T : Nat) (done : List ByteVec) (cur : Nat) (acc : List Nat) : Prop where
  sorted : acc.Sorted (· < ·)
  bounds : ∀ e ∈ acc, 0 < e ∧ e ≤ done.length
  closed : ∀ b ∈ batchesOf done 0 acc, b ≠ [] ∧ T ≤ byteSize b ∧
    ∀ m, 0 < m → m < b.length → byteSize (b.take m) < T
  pending : cur = byteSize (done.drop (acc.getLast?.getD 0))
  pending_lt : done.drop (acc.getLast?.getD 0) ≠ [] → cur < T

variable {T cur : Nat} {done : List ByteVec} {acc : List Nat}

/-- Before the first row nothing is closed and nothing is pending. -/
lemma Greedy.nil : Greedy T [] 0 [] :=
  ⟨List.sorted_nil, by simp, by simp, rfl, by simp⟩

/-- The last end index is at most the rows seen. -/
lemma Greedy.last_le (h : Greedy T done cur acc) : acc.getLast?.getD 0 ≤ done.length := by
  cases hl : acc.getLast? with
  | none => exact Nat.zero_le _
  | some l => exact (h.bounds l (List.mem_of_getLast?_eq_some hl)).2

/-- A row that brings the pending bytes to `T` closes the pending batch at its own end. -/
lemma Greedy.close (h : Greedy T done cur acc) {x : ByteVec} (hx : T ≤ cur + x.length) :
    Greedy T (done ++ [x]) 0 (acc ++ [done.length + 1]) := by
  have hl := h.last_le
  refine ⟨sorted_concat_of_lt h.sorted fun e he => Nat.lt_succ_of_le (h.bounds e he).2, ?_, ?_,
    by simp, by simp⟩
  · refine List.forall_mem_append.2 ⟨fun e he => ?_, by simp⟩
    have := h.bounds e he; simp; omega
  · rw [batchesOf_append_end, batchesOf_append_of_le _ (Nat.zero_le _) fun e he => (h.bounds e he).2,
      List.drop_append_of_le_length hl, List.take_of_length_le (by simp; omega)]
    refine List.forall_mem_append.2 ⟨h.closed, List.forall_mem_singleton.2
      ⟨by simp, by rw [byteSize_append, byteSize_singleton, ← h.pending]; exact hx,
        fun m hm hmb => ?_⟩⟩
    simp only [List.length_append, List.length_singleton] at hmb
    rw [List.take_append_of_le_length (by omega)]
    have hne : done.drop (acc.getLast?.getD 0) ≠ [] := fun hn => by simp [hn] at hmb; omega
    exact (byteSize_take_le _ m).trans_lt (h.pending ▸ h.pending_lt hne)

/-- A row that leaves the pending bytes below `T` joins the pending batch. -/
lemma Greedy.extend (h : Greedy T done cur acc) {x : ByteVec} (hx : cur + x.length < T) :
    Greedy T (done ++ [x]) (cur + x.length) acc := by
  have hl := h.last_le
  refine ⟨h.sorted, fun e he => ?_, ?_, ?_, fun _ => hx⟩
  · have := h.bounds e he; simp; omega
  · rw [batchesOf_append_of_le _ (Nat.zero_le _) fun e he => (h.bounds e he).2]
    exact h.closed
  · rw [List.drop_append_of_le_length hl, byteSize_append, byteSize_singleton, h.pending]

/-- The loop of `compute_batches` over one more row. -/
lemma computeBatchesLoop_concat (self : WriteRowGroupSplitter) (x : ByteVec) :
    ∀ (rows : List ByteVec) (rowIdx cur : Nat) (acc : List Nat),
      self.computeBatchesLoop (rows ++ [x]) rowIdx cur acc =
        let r := self.computeBatchesLoop rows rowIdx cur acc
        if self.maxBytesPerBatch ≤ r.1 + x.length then (0, r.2 ++ [rowIdx + rows.length + 1])
        else (r.1 + x.length, r.2)
  | [], rowIdx, cur, acc => by simp [computeBatchesLoop]
  | row :: rows, rowIdx, cur, acc => by
    have hidx : rowIdx + 1 + rows.length = rowIdx + (row :: rows).length := by simp; omega
    rw [List.cons_append, computeBatchesLoop, computeBatchesLoop]
    split <;> rw [computeBatchesLoop_concat, hidx]

/-- Over every list of rows the loop of `compute_batches` computes the greedy batching. -/
lemma computeBatchesLoop_greedy (self : WriteRowGroupSplitter) (rows : List ByteVec) :
    Greedy self.maxBytesPerBatch rows (self.computeBatchesLoop rows 0 0 []).1
      (self.computeBatchesLoop rows 0 0 []).2 := by
  induction rows using List.reverseRecOn with
  | nil => exact Greedy.nil
  | append_singleton rows x ih =>
    rw [computeBatchesLoop_concat, Nat.zero_add]
    dsimp only
    split
    · exact ih.close ‹_›
    · exact ih.extend (by omega)

/-- `compute_batches` is the loop's end indexes, with the row count added when bytes are pending. -/
lemma computeBatches_cases (self : WriteRowGroupSplitter) (rows : List ByteVec) :
    ∃ cur acc, Greedy self.maxBytesPerBatch rows cur acc ∧
      (0 < cur ∧ self.computeBatches rows = acc ++ [rows.length] ∨
        cur = 0 ∧ self.computeBatches rows = acc) := by
  refine ⟨_, _, self.computeBatchesLoop_greedy rows, ?_⟩
  dsimp only [computeBatches]
  split
  · exact .inl ⟨‹_›, rfl⟩
  · exact .inr ⟨by omega, rfl⟩

/-- Pending bytes lie in the rows after the last end index. -/
lemma Greedy.pending_ne_nil (h : Greedy T done cur acc) (hc : 0 < cur) :
    done.drop (acc.getLast?.getD 0) ≠ [] := fun hn => by
  rw [h.pending, hn] at hc; exact Nat.lt_irrefl _ hc

/-- With bytes pending, the last end index lies below the row count. -/
lemma Greedy.last_lt (h : Greedy T done cur acc) (hc : 0 < cur) :
    acc.getLast?.getD 0 < done.length := by
  have hne := h.pending_ne_nil hc
  rw [Ne, List.drop_eq_nil_iff] at hne
  omega

/-- With bytes pending, every end index lies below the row count. -/
lemma Greedy.lt_length (h : Greedy T done cur acc) (hc : 0 < cur) : ∀ e ∈ acc, e < done.length := by
  intro e he
  obtain ⟨c, hc'⟩ := List.mem_iff_getElem?.1 he
  exact (Sorted.le_getLast? h.sorted hc').trans_lt (h.last_lt hc)

variable (self : WriteRowGroupSplitter) (rows : List ByteVec)

/-- Every end index `compute_batches` returns is positive and at most the row count. -/
lemma computeBatches_bounds : ∀ e ∈ self.computeBatches rows, 0 < e ∧ e ≤ rows.length := by
  obtain ⟨cur, acc, h, ⟨hc, he⟩ | ⟨-, he⟩⟩ := self.computeBatches_cases rows <;> rw [he]
  · have := h.last_lt hc
    exact List.forall_mem_append.2 ⟨h.bounds, by simp; omega⟩
  · exact h.bounds

/-- The end indexes `compute_batches` returns strictly increase. -/
lemma computeBatches_sorted : (self.computeBatches rows).Sorted (· < ·) := by
  obtain ⟨cur, acc, h, ⟨hc, he⟩ | ⟨-, he⟩⟩ := self.computeBatches_cases rows <;> rw [he]
  · exact sorted_concat_of_lt h.sorted (h.lt_length hc)
  · exact h.sorted

/-- The end indexes `compute_batches` returns are at most the row count. -/
lemma computeBatches_le : ∀ x ∈ self.computeBatches rows, x ≤ rows.length :=
  fun x hx => (self.computeBatches_bounds rows x hx).2

/-- Every batch is nonempty and reaches `T` bytes at its last row at the earliest. -/
lemma computeBatches_batch : ∀ b ∈ batchesOf rows 0 (self.computeBatches rows), b ≠ [] ∧
    ∀ m, 0 < m → m < b.length → byteSize (b.take m) < self.maxBytesPerBatch := by
  obtain ⟨cur, acc, h, ⟨hc, he⟩ | ⟨-, he⟩⟩ := self.computeBatches_cases rows <;> rw [he]
  · have hne := h.pending_ne_nil hc
    rw [batchesOf_append_length]
    exact List.forall_mem_append.2 ⟨fun b hb => ⟨(h.closed b hb).1, (h.closed b hb).2.2⟩,
      List.forall_mem_singleton.2
        ⟨hne, fun m _ _ => (byteSize_take_le _ m).trans_lt (h.pending ▸ h.pending_lt hne)⟩⟩
  · exact fun b hb => ⟨(h.closed b hb).1, (h.closed b hb).2.2⟩

/-- Every batch but the last reaches `T` bytes. -/
lemma computeBatches_full :
    ∀ b ∈ (batchesOf rows 0 (self.computeBatches rows)).dropLast,
      self.maxBytesPerBatch ≤ byteSize b := by
  obtain ⟨cur, acc, h, ⟨-, he⟩ | ⟨-, he⟩⟩ := self.computeBatches_cases rows <;> rw [he]
  · rw [batchesOf_append_length, List.dropLast_concat]
    exact fun b hb => (h.closed b hb).2.1
  · exact fun b hb => (h.closed b (List.mem_of_mem_dropLast hb)).2.1

/-- The last end index is the row count, or only rows of length zero follow it. -/
lemma computeBatches_tail :
    (self.computeBatches rows).getLast?.getD 0 = rows.length ∨
      ∀ r ∈ rows.drop ((self.computeBatches rows).getLast?.getD 0), r.length = 0 := by
  obtain ⟨cur, acc, h, ⟨-, he⟩ | ⟨hc, he⟩⟩ := self.computeBatches_cases rows <;> rw [he]
  · exact .inl (by simp)
  · exact .inr (byteSize_eq_zero_iff.1 (hc ▸ h.pending).symm)

/-- A last end index below the row count closes a batch of `T` bytes or more: pending bytes are
closed at the row count. -/
lemma computeBatches_closed : (self.computeBatches rows).getLast?.getD 0 < rows.length →
    ∀ b ∈ batchesOf rows 0 (self.computeBatches rows), self.maxBytesPerBatch ≤ byteSize b := by
  obtain ⟨cur, acc, h, ⟨-, he⟩ | ⟨-, he⟩⟩ := self.computeBatches_cases rows <;> rw [he]
  · simp
  · exact fun _ b hb => (h.closed b hb).2.1

/-- No batch at all exactly for no rows, or rows of length zero under a positive threshold. -/
lemma computeBatches_eq_nil_iff : self.computeBatches rows = [] ↔
    rows = [] ∨ (0 < self.maxBytesPerBatch ∧ ∀ r ∈ rows, r.length = 0) := by
  obtain ⟨cur, acc, h, ⟨hc, he⟩ | ⟨hc, he⟩⟩ := self.computeBatches_cases rows <;> rw [he]
  · have hpos : 0 < byteSize rows := (h.pending ▸ hc).trans_le (byteSize_drop_le _ _)
    simp only [List.append_eq_nil, List.cons_ne_nil, and_false, false_iff, not_or, not_and]
    exact ⟨fun hr => by simp [hr] at hpos,
      fun _ hz => by rw [byteSize_eq_zero_iff.2 hz] at hpos; exact Nat.lt_irrefl _ hpos⟩
  · constructor
    · rintro rfl
      have hz : byteSize rows = 0 := by simpa [hc] using h.pending.symm
      by_cases hr : rows = []
      · exact .inl hr
      · exact .inr ⟨hc ▸ h.pending_lt (by simpa using hr), byteSize_eq_zero_iff.1 hz⟩
    · rintro (rfl | ⟨hT, hz⟩)
      · exact List.eq_nil_iff_forall_not_mem.2 fun e he => by have := h.bounds e he; simp at this; omega
      · cases acc with
        | nil => rfl
        | cons e es =>
          have hb := (h.closed ((rows.drop 0).take (e - 0))
            (by rw [batchesOf_cons]; exact List.mem_cons_self _ _)).2.1
          have := (byteSize_take_le _ (e - 0)).trans (byteSize_drop_le rows 0)
          rw [byteSize_eq_zero_iff.2 hz] at this
          omega

/-- `WriteRowGroupSplitter::compute_batches` gives the greedy batching. -/
theorem computeBatches_greedy :
    (self.computeBatches rows).Sorted (· < ·) ∧
    (∀ e ∈ self.computeBatches rows, 0 < e ∧ e ≤ rows.length) ∧
    (∀ b ∈ batchesOf rows 0 (self.computeBatches rows), b ≠ [] ∧
      ∀ m, 0 < m → m < b.length → byteSize (b.take m) < self.maxBytesPerBatch) ∧
    (∀ b ∈ (batchesOf rows 0 (self.computeBatches rows)).dropLast,
      self.maxBytesPerBatch ≤ byteSize b) ∧
    ((self.computeBatches rows).getLast?.getD 0 = rows.length ∨
      ∀ r ∈ rows.drop ((self.computeBatches rows).getLast?.getD 0), r.length = 0) ∧
    ((self.computeBatches rows).getLast?.getD 0 < rows.length →
      ∀ b ∈ batchesOf rows 0 (self.computeBatches rows), self.maxBytesPerBatch ≤ byteSize b) ∧
    (self.computeBatches rows = [] ↔
      rows = [] ∨ (0 < self.maxBytesPerBatch ∧ ∀ r ∈ rows, r.length = 0)) :=
  ⟨self.computeBatches_sorted rows, self.computeBatches_bounds rows, self.computeBatches_batch rows,
    self.computeBatches_full rows, self.computeBatches_tail rows, self.computeBatches_closed rows,
    self.computeBatches_eq_nil_iff rows⟩

end WriteRowGroupSplitter

namespace WriteRowGroupSplitter

/-- The three outcomes of `split`: the whole request, the slices at the end indexes, or a panic
of the push loop when the last end index leaves rows uncovered. -/
lemma split_eq (self : WriteRowGroupSplitter) (encodedRows : List ByteVec) (rowGroup : List Row) :
    self.split encodedRows rowGroup =
      if (self.computeBatches encodedRows).length ≤ 1 then
        some (.integrate encodedRows (RowGroupSlicer.ofRowGroup rowGroup))
      else if encodedRows.length ≤ (self.computeBatches encodedRows).getLast?.getD 0 then
        some (.splitted (batchesOf encodedRows 0 (self.computeBatches encodedRows))
          (rowGroupBatches rowGroup 0 (self.computeBatches encodedRows)))
      else none := by
  have hs := self.computeBatches_sorted encodedRows
  by_cases h1 : (self.computeBatches encodedRows).length ≤ 1
  · simp [split, h1]
  · obtain ⟨e, he⟩ : ∃ e, (self.computeBatches encodedRows)[0]? = some e :=
      ⟨_, List.getElem?_eq_getElem (by omega)⟩
    have hp := pushRows_eq hs encodedRows [] 0 e he (Nat.zero_le _) (by simp)
    have h0 : batchesOf ([] : List ByteVec) 0 (self.computeBatches encodedRows) =
        (self.computeBatches encodedRows).map fun _ => [] :=
      batchesOf_eq_nil hs (Nat.le_refl _) fun _ _ => Nat.zero_le _
    rw [h0] at hp
    simp only [List.nil_append, List.length_nil] at hp
    simp only [split, h1, if_false, hp]
    split_ifs <;> rfl

/-- A split into batches is the partition at the end indexes: at least two batches, the last end
index is the row count, each batch is the slice of the encoded rows at its slicer's range. -/
lemma split_splitted {self : WriteRowGroupSplitter} {encodedRows : List ByteVec}
    {rowGroup : List Row} {bs : List (List ByteVec)} {sls : List (RowGroupSlicer Row)}
    (h : self.split encodedRows rowGroup = some (.splitted bs sls)) :
    bs = batchesOf encodedRows 0 (self.computeBatches encodedRows) ∧
    sls = rowGroupBatches rowGroup 0 (self.computeBatches encodedRows) ∧
    2 ≤ (self.computeBatches encodedRows).length ∧
    (self.computeBatches encodedRows).getLast?.getD 0 = encodedRows.length := by
  rw [split_eq] at h
  by_cases h1 : (self.computeBatches encodedRows).length ≤ 1
  · simp [h1] at h
  by_cases h2 : encodedRows.length ≤ (self.computeBatches encodedRows).getLast?.getD 0
  · simp only [h1, h2, if_false, if_true, Option.some.injEq, SplitResult.splitted.injEq] at h
    cases hl : (self.computeBatches encodedRows).getLast? with
    | none => simp_all
    | some l =>
      have := self.computeBatches_le encodedRows l (List.mem_of_getLast?_eq_some hl)
      simp only [hl, Option.getD_some] at h2 ⊢
      exact ⟨h.1.symm, h.2.symm, by omega, by omega⟩
  · simp [h1, h2] at h

end WriteRowGroupSplitter

/-- The batches a write loops over: the split's batches in order, or the whole request. -/
def SplitResult.batches : SplitResult Row → List (List ByteVec × RowGroupSlicer Row)
  | .splitted encodedBatches rowGroupBatches => encodedBatches.zip rowGroupBatches
  | .integrate encodedRows rowGroup => [(encodedRows, rowGroup)]

/-- The slicers of `rowGroupBatches` all range over `xs` and end at one of the end indexes. -/
lemma mem_rowGroupBatches {xs : List α} :
    ∀ {prev : Nat} {ends : List Nat} {sl : RowGroupSlicer α}, sl ∈ rowGroupBatches xs prev ends →
      sl.rowGroup = xs ∧ sl.stop ∈ ends
  | _, [], _, h => by simp at h
  | prev, e :: es, sl, h => by
    rcases List.mem_cons.1 h with rfl | h
    · exact ⟨rfl, List.mem_cons_self _ _⟩
    · exact (mem_rowGroupBatches h).imp_right (List.mem_cons_of_mem _)

/-- The same ranges over other rows. -/
lemma rowGroupBatches_map_rowGroup (xs : List α) (ys : List Row) : ∀ prev ends,
    (rowGroupBatches xs prev ends).map (fun sl => { sl with rowGroup := ys }) =
      rowGroupBatches ys prev ends
  | _, [] => rfl
  | prev, e :: es => by simp [rowGroupBatches_map_rowGroup xs ys e es]

/-- The encoded batches zipped with the slicers pair each slicer with its range of the encoded
rows. -/
lemma zip_batchesOf_rowGroupBatches (enc : List ByteVec) (rows : List Row) : ∀ prev ends,
    (batchesOf enc prev ends).zip (rowGroupBatches rows prev ends) =
      (rowGroupBatches rows prev ends).map fun sl => ({ sl with rowGroup := enc }.iter, sl)
  | _, [] => rfl
  | prev, e :: es => by
    simp [zip_batchesOf_rowGroupBatches enc rows e es, RowGroupSlicer.iter]

namespace WriteRowGroupSplitter

/-- `split` keeps the request whole only as the encoded rows and the full slicer. -/
lemma split_integrate {self : WriteRowGroupSplitter} {encodedRows e : List ByteVec}
    {rowGroup : List Row} {sl : RowGroupSlicer Row}
    (h : self.split encodedRows rowGroup = some (.integrate e sl)) :
    e = encodedRows ∧ sl = RowGroupSlicer.ofRowGroup rowGroup := by
  rw [split_eq] at h
  split_ifs at h <;> simp_all

end WriteRowGroupSplitter

/-- Rows of length zero after two batches make the push loop of `split` panic. -/
theorem split_trailing_empty_row_panics :
    (WriteRowGroupSplitter.mk 2).split [List.replicate 10 0, List.replicate 10 0, []]
      [0, 1, 2] = none := rfl

end CeresDB.Write
