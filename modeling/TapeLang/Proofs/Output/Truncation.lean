import TapeLang.Proofs.Output.Delivery

/-!
# What writers take in before they fail

Chunks are written until one is not taken as a whole. What a writer has taken in by then is the
beginning of the text, as long as it is the number of bytes that is returned, and nothing is offered
to it any more.

* **`Writer.sendAll_append`**: the later chunks come when all the earlier ones were taken.
* `Writer.Honest`, **`Writer.Honest.sendAll`**: a writer that tells what it takes.
* **`Sink.sendAll_writes`**, **`Sink.sendAll_bytes`**: sinks with little room.
* `Writer.recorded`, `Attempted`, **`Writer.sendAll_recorded`**: the writes that are attempted.
-/

namespace TapeLang

variable {ε δ σ : Type} {w : Writer δ σ} {received : σ → Bytes}

namespace Writer

/-! ## Counts and parts -/

theorem sendAll_count (w : Writer δ σ) (chunks : List Bytes) (count : Nat) (s : σ) :
    w.sendAll chunks count s =
      { w.sendAll chunks 0 s with count := count + (w.sendAll chunks 0 s).count } := by
  induction chunks generalizing count s with
  | nil => rfl
  | cons chunk chunks ih =>
    rw [sendAll, sendAll]
    rcases w.write s chunk with t | ⟨taken, error, t⟩
    · dsimp only
      rw [ih, ih (0 + chunk.length), Nat.zero_add, ← Nat.add_assoc]
    · simp

/-- **The later chunks are written** where the earlier ones left the writer, unless one of these
failed. -/
theorem sendAll_append (w : Writer δ σ) (a b : List Bytes) (count : Nat) (s : σ) :
    w.sendAll (a ++ b) count s =
      match w.sendAll a count s with
      | ⟨count, none, s⟩ => w.sendAll b count s
      | ⟨count, some error, s⟩ => ⟨count, some error, s⟩ := by
  induction a generalizing count s with
  | nil => rfl
  | cons chunk a ih =>
    rw [List.cons_append, sendAll, sendAll]
    rcases w.write s chunk with t | ⟨taken, error, t⟩
    · exact ih _ _
    · rfl

/-! ## Honest writers -/

/-- A writer that takes a first part of what it is given, and fails exactly if that is not all. What
a state has taken in so far is `received`. -/
structure Honest (w : Writer δ σ) (received : σ → Bytes) : Prop where
  complete : ∀ {s data t}, data ≠ [] → w.write s data = .complete t →
    received t = received s ++ data
  failed : ∀ {s data taken error t}, data ≠ [] → w.write s data = .failed taken error t →
    taken < data.length ∧ received t = received s ++ data.take taken

/-- **What an honest writer takes in** is the beginning of the text, and it is all of it exactly if
no write fails. -/
theorem Honest.sendAll (h : w.Honest received) {chunks : List Bytes} (hne : [] ∉ chunks)
    (count : Nat) (s : σ) :
    ∃ n ≤ chunks.flatten.length, (w.sendAll chunks count s).count = count + n ∧
      received (w.sendAll chunks count s).state = received s ++ chunks.flatten.take n ∧
      ((w.sendAll chunks count s).failure = none ↔ n = chunks.flatten.length) := by
  induction chunks generalizing count s with
  | nil => exact ⟨0, Nat.le_refl 0, rfl, by simp [Writer.sendAll], by simp [Writer.sendAll]⟩
  | cons chunk chunks ih =>
    rw [List.mem_cons, not_or] at hne
    have hchunk : chunk ≠ [] := Ne.symm hne.1
    rw [Writer.sendAll]
    rcases hw : w.write s chunk with t | ⟨taken, error, t⟩
    · obtain ⟨n, hn, hcount, hreceived, hall⟩ := ih hne.2 (count + chunk.length) t
      refine ⟨chunk.length + n, ?_, ?_, ?_, ?_⟩
      · rw [List.flatten_cons, List.length_append]
        omega
      · simp [hcount, Nat.add_assoc]
      · rw [hreceived, h.complete hchunk hw, List.flatten_cons, List.take_length_add_append,
          List.append_assoc]
      · rw [List.flatten_cons, List.length_append]
        exact hall.trans (by omega)
    · obtain ⟨hlt, ht⟩ := h.failed hchunk hw
      rw [List.flatten_cons, List.length_append]
      refine ⟨taken, by omega, rfl, ?_, ?_⟩
      · rw [List.take_append_of_le_length (Nat.le_of_lt hlt)]
        exact ht
      · simp
        omega

end Writer

/-! ## Sinks with little room -/

namespace Sink

theorem contents_take (s : Sink) (data : Bytes) (room : Room) :
    (s.take data room).contents = s.contents ++ data := by
  simp [contents, take]

theorem take_nil (s : Sink) : s.take [] s.room = s := by
  simp [take]

theorem take_take (s : Sink) (a b : Bytes) (room room' : Room) :
    (s.take a room).take b room' = s.take (a ++ b) room' := by
  have happend : s.received ++ a ++ b = s.received ++ (a ++ b) := by
    apply Array.ext'
    simp
  rw [take, take, take, happend]

theorem honest : writer.Honest contents := by
  constructor
  · intro s data t hdata h
    change s.write data = .complete t at h
    unfold write at h
    split at h
    · cases h
      exact contents_take s data _
    · cases h
      exact contents_take s data _
    · cases h
    · split_ifs at h
      cases h
      exact contents_take s data _
  · intro s data taken error t hdata h
    change s.write data = .failed taken error t at h
    unfold write at h
    split at h
    · cases h
    · cases h
    · cases h
      exact ⟨List.length_pos_of_ne_nil hdata, by simp⟩
    · split_ifs at h with hle
      cases h
      exact ⟨Nat.not_le.mp hle, contents_take s _ _⟩

/-- **A sink for so many writes** takes in so many chunks. -/
theorem sendAll_writes {s : Sink} {k : Nat} (hs : s.room = .writes k) (chunks : List Bytes)
    (count : Nat) :
    writer.sendAll chunks count s =
      ⟨count + (chunks.take k).flatten.length, if chunks.length ≤ k then none else some .diskFull,
        s.take (chunks.take k).flatten (.writes (k - chunks.length))⟩ := by
  induction chunks generalizing s k count with
  | nil =>
    rw [Writer.sendAll]
    simp [← hs, take_nil]
  | cons chunk chunks ih =>
    have hw : writer.write s chunk = s.write chunk := rfl
    rw [Writer.sendAll, hw, write, hs]
    rcases k with _ | k
    · simp [← hs, take_nil]
    · dsimp only
      rw [ih rfl]
      simp [take_take, Nat.add_assoc]

/-- **A sink for so many bytes** takes in the first bytes of the text. -/
theorem sendAll_bytes {s : Sink} {k : Nat} (hs : s.room = .bytes k) (chunks : List Bytes)
    (count : Nat) :
    writer.sendAll chunks count s =
      ⟨count + (chunks.flatten.take k).length,
        if chunks.flatten.length ≤ k then none else some .shortDevice,
        s.take (chunks.flatten.take k) (.bytes (k - chunks.flatten.length))⟩ := by
  induction chunks generalizing s k count with
  | nil =>
    rw [Writer.sendAll]
    simp [← hs, take_nil]
  | cons chunk chunks ih =>
    have hw : writer.write s chunk = s.write chunk := rfl
    rw [Writer.sendAll, hw, write, hs]
    dsimp only
    by_cases hle : chunk.length ≤ k
    · obtain ⟨k, rfl⟩ := Nat.exists_eq_add_of_le hle
      rw [if_pos hle]
      dsimp only
      rw [ih rfl]
      simp [take_take, List.take_length_add_append, Nat.add_assoc, Nat.add_sub_add_left]
    · have hlt : k < chunk.length := Nat.not_le.mp hle
      have hlong : k < (chunk :: chunks).flatten.length := by
        rw [List.flatten_cons, List.length_append]
        omega
      rw [if_neg hle, if_neg (Nat.not_le.mpr hlong), Nat.sub_eq_zero_of_le (Nat.le_of_lt hlong),
        List.flatten_cons, List.take_append_of_le_length (Nat.le_of_lt hlt), List.length_take,
        Nat.min_eq_left (Nat.le_of_lt hlt)]

end Sink

/-! ## Attempts -/

/-- An attempt to write: what was offered, and the error, if there was one. -/
structure Attempt (δ : Type) where
  data : Bytes
  error : Option δ := none
  deriving DecidableEq, Repr

/-- A writer that keeps a record of all that is offered to it. -/
def Writer.recorded (w : Writer δ σ) : Writer δ (σ × List (Attempt δ)) where
  write := fun (s, log) data =>
    match w.write s data with
    | .complete t => .complete (t, log ++ [⟨data, none⟩])
    | .failed taken error t => .failed taken error (t, log ++ [⟨data, some error⟩])

/-- Attempts to write chunks one by one. An attempt that fails is the last. -/
inductive Attempted {δ : Type} : List Bytes → Option δ → List (Attempt δ) → Prop
  | nil : Attempted [] none []
  | complete {chunks : List Bytes} {failure : Option δ} {log : List (Attempt δ)}
    (chunk : Bytes) : Attempted chunks failure log →
    Attempted (chunk :: chunks) failure (⟨chunk, none⟩ :: log)
  | failed (chunk : Bytes) (chunks : List Bytes) (error : δ) :
    Attempted (chunk :: chunks) (some error) [⟨chunk, some error⟩]

/-- **The chunks are offered in their order**, and none after the first that fails. -/
theorem Writer.sendAll_recorded (w : Writer δ σ) (chunks : List Bytes) (count : Nat) (s : σ)
    (log : List (Attempt δ)) :
    ∃ attempts, Attempted chunks (w.sendAll chunks count s).failure attempts ∧
      w.recorded.sendAll chunks count (s, log) =
        ⟨(w.sendAll chunks count s).count, (w.sendAll chunks count s).failure,
          (w.sendAll chunks count s).state, log ++ attempts⟩ := by
  induction chunks generalizing count s log with
  | nil => exact ⟨[], .nil, by simp [sendAll]⟩
  | cons chunk chunks ih =>
    rw [sendAll, sendAll]
    rcases hw : w.write s chunk with t | ⟨taken, error, t⟩
    · have hwrite : w.recorded.write (s, log) chunk = .complete (t, log ++ [⟨chunk, none⟩]) := by
        simp only [recorded, hw]
      obtain ⟨attempts, hattempted, hsend⟩ :=
        ih (count + chunk.length) t (log ++ [⟨chunk, none⟩])
      refine ⟨⟨chunk, none⟩ :: attempts, .complete chunk hattempted, ?_⟩
      rw [hwrite]
      refine hsend.trans ?_
      rw [List.append_assoc]
      rfl
    · have hwrite : w.recorded.write (s, log) chunk =
          .failed taken error (t, log ++ [⟨chunk, some error⟩]) := by
        simp only [recorded, hw]
      rw [hwrite]
      exact ⟨_, .failed chunk chunks error, rfl⟩

end TapeLang
