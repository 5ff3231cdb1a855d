import TapeLang.Proofs.Output.Truncation

/-!
# What reaches a writer through a buffer

A buffer in front of a writer cuts a text into blocks of its own size, wherever the chunks end that
the text comes in. A block is handed on when there is more to come after it; the last one, which may
be full as well, has to wait for the final flush. So a text that is written through a buffer is
written block by block, and only the count of the bytes is taken before the buffer.

* `pieces`, `blocks`, `fullBlocks`: the blocks of a text, and those with something after them.
* `Writer.offered`: the bytes that are offered before writing ends.
* `HandedOn`, **`Writer.sendAll_buffered`**: what a buffer has handed on.
* **`Emission.sendBuffered_complete`**, **`Emission.sendBuffered_broken`**: an emission through a
  buffer.
* `Emission.sendBuffered_bytes`, `Emission.sendBuffered_writes`, `Emission.sendBuffered_honest`,
  `Emission.sendBuffered_unfailing`: what that means for sinks and writers.
-/

namespace TapeLang

variable {ε δ σ : Type} {w : Writer δ σ} {received : σ → Bytes}

theorem bufferSize_pos : 0 < bufferSize := by decide

/-! ## Blocks -/

/-- The first pieces of a text that are as long as a buffer. -/
def pieces (k : Nat) (text : Bytes) : List Bytes :=
  (List.range k).map fun j => (text.drop (bufferSize * j)).take bufferSize

/-- The blocks of a text that have something after them. -/
def fullBlocks (text : Bytes) : List Bytes :=
  pieces ((text.length - 1) / bufferSize) text

/-- What comes after the full blocks. -/
def lastBlock (text : Bytes) : Bytes :=
  text.drop (bufferSize * ((text.length - 1) / bufferSize))

/-- All blocks of a text. -/
def blocks (text : Bytes) : List Bytes :=
  pieces ((text.length + (bufferSize - 1)) / bufferSize) text

theorem pieces_cons (k : Nat) (text : Bytes) :
    pieces (k + 1) text = text.take bufferSize :: pieces k (text.drop bufferSize) := by
  rw [pieces, List.range_succ_eq_map, List.map_cons, List.map_map]
  refine congrArg₂ List.cons rfl (List.map_congr_left fun j _ => ?_)
  rw [Function.comp_apply, List.drop_drop, Nat.mul_succ, Nat.add_comm]

theorem pieces_succ (k : Nat) (text : Bytes) :
    pieces (k + 1) text = pieces k text ++ [(text.drop (bufferSize * k)).take bufferSize] := by
  rw [pieces, List.range_succ, List.map_append]
  rfl

theorem take_pieces (k n : Nat) (text : Bytes) :
    (pieces n text).take k = pieces (min k n) text := by
  rw [pieces, ← List.map_take, List.take_range]
  rfl

theorem flatten_pieces (k : Nat) (text : Bytes) :
    (pieces k text).flatten = text.take (bufferSize * k) := by
  induction k with
  | zero => simp [pieces]
  | succ k ih => rw [pieces_succ, List.flatten_append, ih, Nat.mul_succ, List.take_add]; simp

theorem blocks_nil : blocks [] = [] := by decide

theorem blocks_eq {text : Bytes} (h : text ≠ []) :
    blocks text = fullBlocks text ++ [lastBlock text] := by
  have hlength := List.length_pos_of_ne_nil h
  have hcount : (text.length + (bufferSize - 1)) / bufferSize =
      (text.length - 1) / bufferSize + 1 := by
    rw [← Nat.add_div_right _ bufferSize_pos]
    congr 1
    have := bufferSize_pos
    omega
  have hshort : (lastBlock text).length ≤ bufferSize := by
    have := Nat.div_add_mod (text.length - 1) bufferSize
    have := Nat.mod_lt (text.length - 1) bufferSize_pos
    rw [lastBlock, List.length_drop]
    omega
  rw [blocks, hcount, pieces_succ]
  exact congrArg (fullBlocks text ++ [·]) (List.take_of_length_le hshort)

theorem fullBlocks_of_le {text : Bytes} (h : text.length ≤ bufferSize) : fullBlocks text = [] := by
  have := bufferSize_pos
  rw [fullBlocks, Nat.div_eq_of_lt (by omega)]
  rfl

theorem lastBlock_of_le {text : Bytes} (h : text.length ≤ bufferSize) : lastBlock text = text := by
  have := bufferSize_pos
  rw [lastBlock, Nat.div_eq_of_lt (by omega), Nat.mul_zero, List.drop_zero]

section

variable {block rest : Bytes} (hblock : block.length = bufferSize) (hrest : rest ≠ [])

include hblock hrest in
theorem count_append :
    ((block ++ rest).length - 1) / bufferSize = (rest.length - 1) / bufferSize + 1 := by
  have := List.length_pos_of_ne_nil hrest
  rw [← Nat.add_div_right _ bufferSize_pos, List.length_append, hblock]
  congr 1
  omega

include hblock hrest in
theorem fullBlocks_append : fullBlocks (block ++ rest) = block :: fullBlocks rest := by
  rw [fullBlocks, count_append hblock hrest, pieces_cons, List.take_left' hblock,
    List.drop_left' hblock]
  rfl

include hblock hrest in
theorem lastBlock_append : lastBlock (block ++ rest) = lastBlock rest := by
  rw [lastBlock, count_append hblock hrest, Nat.mul_succ, Nat.add_comm, ← List.drop_drop,
    List.drop_left' hblock]
  rfl

end

theorem blockCount_le (n k : Nat) :
    (n + (bufferSize - 1)) / bufferSize ≤ k ↔ n ≤ bufferSize * k := by
  have := bufferSize_pos
  rw [Nat.div_le_iff_le_mul_add_pred this]
  omega

theorem length_blocks_le (text : Bytes) (k : Nat) :
    (blocks text).length ≤ k ↔ text.length ≤ bufferSize * k := by
  rw [blocks, pieces, List.length_map, List.length_range, blockCount_le]

theorem flatten_blocks (text : Bytes) : (blocks text).flatten = text := by
  rw [blocks, flatten_pieces]
  exact List.take_of_length_le ((blockCount_le _ _).mp (Nat.le_refl _))

theorem flatten_take_blocks (text : Bytes) (k : Nat) :
    ((blocks text).take k).flatten = text.take (bufferSize * k) := by
  by_cases hk : (blocks text).length ≤ k
  · rw [List.take_of_length_le hk, flatten_blocks,
      List.take_of_length_le ((length_blocks_le text k).mp hk)]
  · rw [blocks, pieces, List.length_map, List.length_range] at hk
    rw [blocks, take_pieces, flatten_pieces, Nat.min_eq_left (by omega)]

theorem nil_notMem_blocks (text : Bytes) : [] ∉ blocks text := by
  intro h
  obtain ⟨j, hj, hnil⟩ := List.mem_map.mp h
  have hend : text.length ≤ bufferSize * j := by
    rw [List.take_eq_nil_iff, List.drop_eq_nil_iff] at hnil
    exact hnil.resolve_left (Nat.ne_of_gt bufferSize_pos)
  rw [← blockCount_le] at hend
  exact absurd (List.mem_range.mp hj) (Nat.not_lt.mpr hend)

theorem lastBlock_ne_nil {text : Bytes} (h : text ≠ []) : lastBlock text ≠ [] := by
  intro hnil
  have hmem := nil_notMem_blocks text
  rw [blocks_eq h, hnil] at hmem
  simp at hmem

theorem flatten_fullBlocks_append {text : Bytes} (h : text ≠ []) :
    (fullBlocks text).flatten ++ lastBlock text = text := by
  have hflatten := flatten_blocks text
  rw [blocks_eq h] at hflatten
  simpa using hflatten

/-! ## Offers -/

/-- The bytes that are offered to a writer until all chunks are written or one is not taken as a
whole. -/
def Writer.offered (w : Writer δ σ) : List Bytes → σ → Nat
  | [], _ => 0
  | chunk :: rest, s =>
    match w.write s chunk with
    | .complete s => chunk.length + w.offered rest s
    | .failed _ _ _ => chunk.length

namespace Writer

theorem offered_append (w : Writer δ σ) (a b : List Bytes) (s : σ) :
    w.offered (a ++ b) s =
      match (w.sendAll a 0 s).failure with
      | none => a.flatten.length + w.offered b (w.sendAll a 0 s).state
      | some _ => w.offered a s := by
  induction a generalizing s with
  | nil => simp [sendAll]
  | cons chunk a ih =>
    rw [List.cons_append, offered, offered, sendAll]
    rcases w.write s chunk with t | ⟨taken, error, t⟩
    · dsimp only
      rw [ih, sendAll_count w a (0 + chunk.length)]
      rcases (w.sendAll a 0 t).failure with _ | error
      · simp [Nat.add_assoc]
      · rfl
    · rfl

theorem offered_le (w : Writer δ σ) (chunks : List Bytes) (s : σ) :
    w.offered chunks s ≤ chunks.flatten.length := by
  induction chunks generalizing s with
  | nil => exact Nat.le_refl 0
  | cons chunk chunks ih =>
    rw [offered, List.flatten_cons, List.length_append]
    rcases w.write s chunk with t | ⟨taken, error, t⟩
    · exact Nat.add_le_add_left (ih t) _
    · exact Nat.le_add_right _ _

theorem Honest.count_le_offered (h : w.Honest received) {chunks : List Bytes} (hne : [] ∉ chunks)
    (s : σ) : (w.sendAll chunks 0 s).count ≤ w.offered chunks s := by
  induction chunks generalizing s with
  | nil => exact Nat.le_refl 0
  | cons chunk chunks ih =>
    rw [List.mem_cons, not_or] at hne
    rw [Writer.sendAll, offered]
    rcases hw : w.write s chunk with t | ⟨taken, error, t⟩
    · dsimp only
      rw [sendAll_count, Nat.zero_add]
      exact Nat.add_le_add_left (ih hne.2 t) _
    · dsimp only
      rw [Nat.zero_add]
      exact Nat.le_of_lt (h.failed (Ne.symm hne.1) hw).1

end Writer

/-! ## Writing to a buffer -/

namespace Buffered

variable {b : Buffered δ σ} {data : Bytes}

theorem toList_store (b : Buffered δ σ) (data : Bytes) :
    (b.store data).pending.toList = b.pending.toList ++ data := by
  simp [store]

theorem write_fits (hb : b.failure = none) (hfit : b.pending.size + data.length ≤ bufferSize) :
    write w b data = .complete (b.store data) := by
  unfold write
  rw [hb]
  dsimp only
  rw [if_pos (by omega)]

theorem flush_nil (hnil : b.pending.toList = []) : b.flush w = b := by
  have hpending : b.pending.isEmpty = true := by simpa using hnil
  simp [flush, hpending]

theorem flush_complete {t : σ} (hb : b.failure = none) (hne : b.pending.toList ≠ [])
    (hw : w.write b.inner b.pending.toList = .complete t) : b.flush w = { inner := t } := by
  have hpending : b.pending.isEmpty = false := by simpa using hne
  simp [flush, hb, hpending, hw]

theorem flush_failed {t : σ} {taken : Nat} {error : δ} (hb : b.failure = none)
    (hne : b.pending.toList ≠ []) (hw : w.write b.inner b.pending.toList = .failed taken error t) :
    b.flush w = { inner := t, pending := b.pending.drop taken, failure := some error } := by
  have hpending : b.pending.isEmpty = false := by simpa using hne
  simp [flush, hb, hpending, hw]

section

variable {room : Nat} (hb : b.failure = none) (hroom : bufferSize - b.pending.size = room)
  (hdata : data.length ≤ bufferSize) (hlong : room < data.length)

include hroom hdata hlong in
theorem full_ne_nil : b.pending.toList ++ data.take room ≠ [] := by
  have := bufferSize_pos
  rw [← List.length_pos_iff, List.length_append, List.length_take, Array.length_toList]
  omega

include hb hroom hdata hlong

theorem write_full {full : Buffered δ σ} (hfull : (b.store (data.take room)).flush w = full) :
    write w b data =
      match full.failure with
      | some error => .failed room error full
      | none => writeEmpty w full (data.drop room) room := by
  have hpending : b.pending.isEmpty = false := by
    rw [Array.isEmpty_eq_false_iff_exists_mem, ← Array.size_pos_iff_exists_mem]
    omega
  subst hroom hfull
  unfold write
  rw [hb]
  dsimp only
  have hnonempty : ¬ b.pending.isEmpty = true := by simp [hpending]
  exact (if_neg (Nat.not_le.mpr hlong)).trans (if_neg hnonempty)

/-- A full buffer is written out, and the rest waits. -/
theorem write_complete {t : σ}
    (hw : w.write b.inner (b.pending.toList ++ data.take room) = .complete t) :
    write w b data = .complete { inner := t, pending := (data.drop room).toArray } := by
  rw [← toList_store] at hw
  have hflush := flush_complete (b := b.store (data.take room)) hb
    (toList_store b _ ▸ full_ne_nil hroom hdata hlong) hw
  have hrest : (data.drop room).length ≤ bufferSize := by
    rw [List.length_drop]
    omega
  rw [write_full hb hroom hdata hlong hflush]
  dsimp only
  rw [writeEmpty, if_pos hrest]
  simp [store]

theorem write_failed {t : σ} {taken : Nat} {error : δ}
    (hw : w.write b.inner (b.pending.toList ++ data.take room) = .failed taken error t) :
    ∃ pending, write w b data = .failed room error ⟨t, pending, some error⟩ := by
  rw [← toList_store] at hw
  have hflush := flush_failed (b := b.store (data.take room)) hb
    (toList_store b _ ▸ full_ne_nil hroom hdata hlong) hw
  exact ⟨_, write_full hb hroom hdata hlong hflush⟩

end

end Buffered

/-- What has come of a text that was written to a buffer: the full blocks were handed on to the
writer behind it, and the last waits if they were taken. The count tells what the buffer has taken
in, which may be more than it could hand on. `handed` bytes were handed on before. -/
structure HandedOn (w : Writer δ σ) (s : σ) (text : Bytes) (handed : Nat)
    (r : Delivery δ (Buffered δ σ)) : Prop where
  failure : r.failure = (w.sendAll (fullBlocks text) 0 s).failure
  inner : r.state.inner = (w.sendAll (fullBlocks text) 0 s).state
  stuck : r.state.failure = r.failure
  count : r.count =
    handed + if r.failure = none then text.length else w.offered (fullBlocks text) s
  waiting : r.failure = none → r.state.pending.toList = lastBlock text

namespace HandedOn

variable {s t : σ} {block rest : Bytes} {handed : Nat} {r : Delivery δ (Buffered δ σ)}

theorem nothing {b : Buffered δ σ} (hb : b.failure = none) (hsize : b.pending.size ≤ bufferSize)
    (handed : Nat) :
    HandedOn w b.inner b.pending.toList handed ⟨handed + b.pending.size, none, b⟩ := by
  have hlength : b.pending.toList.length ≤ bufferSize := by
    rw [Array.length_toList]
    exact hsize
  refine ⟨?_, ?_, hb, by simp, fun _ => (lastBlock_of_le hlength).symm⟩
  · rw [fullBlocks_of_le hlength]
    rfl
  · rw [fullBlocks_of_le hlength]
    rfl

theorem complete (hblock : block.length = bufferSize) (hrest : rest ≠ [])
    (hw : w.write s block = .complete t) (h : HandedOn w t rest (handed + bufferSize) r) :
    HandedOn w s (block ++ rest) handed r := by
  have hsend : w.sendAll (fullBlocks (block ++ rest)) 0 s =
      w.sendAll (fullBlocks rest) (0 + block.length) t := by
    rw [fullBlocks_append hblock hrest, Writer.sendAll, hw]
  rw [w.sendAll_count (fullBlocks rest)] at hsend
  refine ⟨?_, ?_, h.stuck, ?_, fun hr => ?_⟩
  · rw [hsend]
    exact h.failure
  · rw [hsend]
    exact h.inner
  · rw [h.count, fullBlocks_append hblock hrest, Writer.offered, hw, List.length_append, hblock]
    dsimp only
    split_ifs <;> omega
  · rw [lastBlock_append hblock hrest]
    exact h.waiting hr

theorem failed {taken : Nat} {error : δ} (hblock : block.length = bufferSize)
    (hrest : rest ≠ []) (hw : w.write s block = .failed taken error t) (handed : Nat)
    (pending : Array UInt8) :
    HandedOn w s (block ++ rest) handed
      ⟨handed + bufferSize, some error, ⟨t, pending, some error⟩⟩ := by
  have hsend : w.sendAll (fullBlocks (block ++ rest)) 0 s = ⟨0 + taken, some error, t⟩ := by
    rw [fullBlocks_append hblock hrest, Writer.sendAll, hw]
  refine ⟨?_, ?_, rfl, ?_, by simp⟩
  · rw [hsend]
  · rw [hsend]
  · rw [fullBlocks_append hblock hrest, Writer.offered, hw, hblock]
    rfl

end HandedOn

/-- **What a buffer has handed on** when chunks that are not larger than it were written to it. -/
theorem Writer.sendAll_buffered (w : Writer δ σ) (chunks : List Bytes)
    (small : ∀ chunk ∈ chunks, chunk.length ≤ bufferSize) (handed : Nat) (b : Buffered δ σ)
    (hb : b.failure = none) (hsize : b.pending.size ≤ bufferSize) :
    HandedOn w b.inner (b.pending.toList ++ chunks.flatten) handed
      (w.buffered.sendAll chunks (handed + b.pending.size) b) := by
  induction chunks generalizing handed b with
  | nil =>
    rw [List.flatten_nil, List.append_nil]
    exact .nothing hb hsize handed
  | cons chunk chunks ih =>
    rw [List.forall_mem_cons] at small
    have hbuffered : w.buffered.write b chunk = Buffered.write w b chunk := rfl
    rw [sendAll, hbuffered, List.flatten_cons]
    by_cases hfit : b.pending.size + chunk.length ≤ bufferSize
    · have hstored : (b.store chunk).pending.size = b.pending.size + chunk.length := by
        rw [← Array.length_toList, Buffered.toList_store, List.length_append, Array.length_toList]
      have hsend := ih small.2 handed (b.store chunk) hb (hstored ▸ hfit)
      rw [hstored, ← Nat.add_assoc] at hsend
      rw [Buffered.toList_store, List.append_assoc] at hsend
      rw [Buffered.write_fits hb hfit]
      exact hsend
    · -- The chunk is cut where the buffer is full; its second part is not empty.
      obtain ⟨room, hroom⟩ : ∃ room, bufferSize - b.pending.size = room := ⟨_, rfl⟩
      have hlong : room < chunk.length := by omega
      have hblock : (b.pending.toList ++ chunk.take room).length = bufferSize := by
        rw [List.length_append, List.length_take, Array.length_toList]
        omega
      have hrest : chunk.drop room ++ chunks.flatten ≠ [] := by
        rw [← List.length_pos_iff, List.length_append, List.length_drop]
        omega
      have htext : b.pending.toList ++ (chunk ++ chunks.flatten) =
          b.pending.toList ++ chunk.take room ++ (chunk.drop room ++ chunks.flatten) := by
        rw [List.append_assoc, ← List.append_assoc (chunk.take room), List.take_append_drop]
      rw [htext]
      rcases hw : w.write b.inner (b.pending.toList ++ chunk.take room) with
        t | ⟨taken, error, t⟩
      · rw [Buffered.write_complete hb hroom small.1 hlong hw]
        refine .complete hblock hrest hw ?_
        have hsend := ih small.2 (handed + bufferSize)
          { inner := t, pending := (chunk.drop room).toArray } rfl (by simp; omega)
        have hcount : handed + bufferSize + (chunk.drop room).toArray.size =
            handed + b.pending.size + chunk.length := by
          rw [List.size_toArray, List.length_drop]
          omega
        rwa [hcount] at hsend
      · obtain ⟨pending, hwrite⟩ := Buffered.write_failed hb hroom small.1 hlong hw
        have hcount : handed + b.pending.size + room = handed + bufferSize := by omega
        rw [hwrite]
        dsimp only
        rw [hcount]
        exact .failed hblock hrest hw handed pending

/-! ## Emissions -/

namespace Emission

variable {e : Emission ε} (small : ∀ chunk ∈ e.chunks, chunk.length ≤ bufferSize) (w : Writer δ σ)
  (s : σ)

include small in
theorem handedOn : HandedOn w s e.text 0 (w.buffered.sendAll e.chunks 0 { inner := s }) :=
  w.sendAll_buffered e.chunks small 0 { inner := s } rfl (Nat.zero_le _)

include small in
/-- **An emission through a buffer** is written block by block. The count is that of the blocks that
are offered. -/
theorem sendBuffered_complete (he : e.failure = none) :
    e.sendBuffered w s =
      ⟨w.offered (blocks e.text) s, (w.sendAll (blocks e.text) 0 s).failure.map .write,
        (w.sendAll (blocks e.text) 0 s).state⟩ := by
  have h := handedOn small w s
  rw [sendBuffered, send, he]
  set r := w.buffered.sendAll e.chunks 0 { inner := s }
  by_cases htext : e.text = []
  · rw [htext] at h ⊢
    have hfailure : r.failure = none := h.failure
    have hinner : r.state.inner = s := h.inner
    have hpending : r.state.pending.toList = [] := h.waiting hfailure
    have hcount : r.count = 0 := by
      rw [h.count, if_pos hfailure]
      rfl
    simp [hfailure, Buffered.flush_nil hpending, h.stuck, hinner, hcount, blocks_nil,
      Writer.offered, Writer.sendAll]
  · have hne := lastBlock_ne_nil htext
    have hlength := congrArg List.length (flatten_fullBlocks_append htext)
    rw [List.length_append] at hlength
    have hfailure := h.failure
    have hinner := h.inner
    have hcount := h.count
    rw [blocks_eq htext, Writer.sendAll_append, Writer.offered_append]
    rcases hd : w.sendAll (fullBlocks e.text) 0 s with ⟨count, _ | error, t⟩
    · rw [hd] at hfailure hinner
      have hstuck := h.stuck.trans hfailure
      have hwaiting := h.waiting hfailure
      rw [if_pos hfailure] at hcount
      rcases hw : w.write t (lastBlock e.text) with u | ⟨taken, error, u⟩
      · have hflush : r.state.flush w = { inner := u } :=
          Buffered.flush_complete hstuck (hwaiting ▸ hne) (by rw [hwaiting, hinner, hw])
        simp [hfailure, hflush, hcount, Writer.sendAll, Writer.offered, hw, ← hlength]
      · have hflush := Buffered.flush_failed hstuck (hwaiting ▸ hne)
          (by rw [hwaiting, hinner, hw])
        simp [hfailure, hflush, hcount, Writer.sendAll, Writer.offered, hw, ← hlength]
    · rw [hd] at hfailure hinner
      rw [hfailure, if_neg (by simp), Nat.zero_add] at hcount
      simp [hfailure, hinner, hcount]

include small in
/-- **An emission that breaks off** is not flushed, so its last block is lost. -/
theorem sendBuffered_broken {error : ε} (he : e.failure = some error)
    (hfull : (w.sendAll (fullBlocks e.text) 0 s).failure = none) :
    e.sendBuffered w s =
      ⟨e.text.length, some (.broken error), (w.sendAll (fullBlocks e.text) 0 s).state⟩ := by
  have h := handedOn small w s
  have hfailure := h.failure.trans hfull
  have hcount := h.count
  rw [if_pos hfailure, Nat.zero_add] at hcount
  rw [sendBuffered, send, he, hfailure, hcount, h.inner]
  rfl

/-! ## Sinks and writers behind a buffer -/

section

variable (he : e.failure = none)

include small he

/-- A sink for so many bytes does not tell whether there is a buffer. -/
theorem sendBuffered_bytes {s : Sink} {k : Nat} (hs : s.room = .bytes k) :
    (e.sendBuffered Sink.writer s).state.contents = s.contents ++ e.text.take k ∧
      (e.sendBuffered Sink.writer s).state = (e.send Sink.writer s).state ∧
      (e.sendBuffered Sink.writer s).fault =
        if e.text.length ≤ k then none else some (.write .shortDevice) := by
  rw [sendBuffered_complete small _ s he, send, Sink.sendAll_bytes hs, Sink.sendAll_bytes hs,
    flatten_blocks]
  exact ⟨Sink.contents_take s _ _, rfl, by split_ifs <;> rfl⟩

/-- A sink for so many writes takes in so many blocks. -/
theorem sendBuffered_writes {s : Sink} {k : Nat} (hs : s.room = .writes k) :
    (e.sendBuffered Sink.writer s).state.contents = s.contents ++ e.text.take (bufferSize * k) ∧
      (e.sendBuffered Sink.writer s).fault =
        if e.text.length ≤ bufferSize * k then none else some (.write .diskFull) := by
  rw [sendBuffered_complete small _ s he, Sink.sendAll_writes hs, flatten_take_blocks]
  refine ⟨Sink.contents_take s _ _, ?_⟩
  rw [apply_ite (Option.map EmitFault.write)]
  exact if_congr (length_blocks_le e.text k) rfl rfl

theorem sendBuffered_honest (h : w.Honest received) :
    ∃ n ≤ (e.sendBuffered w s).count, (e.sendBuffered w s).count ≤ e.text.length ∧
      received (e.sendBuffered w s).state = received s ++ e.text.take n ∧
      ((e.sendBuffered w s).fault = none → n = e.text.length) := by
  obtain ⟨n, -, hcount, hreceived, hall⟩ := h.sendAll (nil_notMem_blocks e.text) 0 s
  have hoffered := h.count_le_offered (nil_notMem_blocks e.text) s
  have hle := w.offered_le (blocks e.text) s
  rw [Nat.zero_add] at hcount
  rw [flatten_blocks] at hreceived hall hle
  rw [sendBuffered_complete small w s he]
  refine ⟨n, hcount ▸ hoffered, hle, hreceived, fun hfault => ?_⟩
  exact hall.mp (Option.map_eq_none_iff.mp hfault)

end

include small in
theorem sendBuffered_unfailing {live : σ → Prop} (h : w.Unfailing received live) {error : ε}
    (he : e.failure = some error) (hs : live s) :
    ∃ t, e.sendBuffered w s = ⟨e.text.length, some (.broken error), t⟩ ∧
      received t =
        received s ++ e.text.take (bufferSize * ((e.text.length - 1) / bufferSize)) := by
  obtain ⟨t, hsend, ht⟩ := h.sendAll (fullBlocks e.text) 0 s hs
  refine ⟨t, ?_, ?_⟩
  · rw [sendBuffered_broken small w s he (by rw [hsend]), hsend]
  · rw [ht, fullBlocks, flatten_pieces]

end Emission

end TapeLang
