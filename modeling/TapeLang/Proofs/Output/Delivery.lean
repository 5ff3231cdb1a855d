import Mathlib.Data.List.Basic
import TapeLang.Output.Emission

/-!
# What writers take in

* `Writer.Unfailing`: in some of its states a writer takes everything it is given.
* **`Writer.Unfailing.send`**: such a writer takes in the whole text of an emission.
-/

namespace TapeLang

variable {ε δ σ : Type} {w : Writer δ σ} {received : σ → Bytes} {live : σ → Prop}

/-- A writer that takes everything it is given in its live states, and stays in them. What a state
has taken in so far is `received`. -/
structure Writer.Unfailing (w : Writer δ σ) (received : σ → Bytes) (live : σ → Prop) : Prop where
  write : ∀ s data, live s →
    ∃ s', w.write s data = .complete s' ∧ live s' ∧ received s' = received s ++ data

theorem Sink.unfailing : Sink.writer.Unfailing Sink.contents (·.room = .unlimited) := by
  constructor
  intro s data hs
  refine ⟨s.take data .unlimited, ?_, rfl, ?_⟩
  · change s.write data = _
    rw [Sink.write, hs]
  · simp [Sink.contents, Sink.take]

namespace Writer.Unfailing

theorem sendAll (h : w.Unfailing received live) (chunks : List Bytes) (count : Nat) (s : σ)
    (hs : live s) :
    ∃ s', w.sendAll chunks count s = ⟨count + chunks.flatten.length, none, s'⟩ ∧
      received s' = received s ++ chunks.flatten := by
  induction chunks generalizing count s with
  | nil => exact ⟨s, rfl, by simp⟩
  | cons chunk chunks ih =>
    obtain ⟨t, hw, ht, hr⟩ := h.write s chunk hs
    obtain ⟨u, hu, hru⟩ := ih (count + chunk.length) t ht
    refine ⟨u, ?_, ?_⟩
    · rw [Writer.sendAll, hw]
      simp [hu, Nat.add_assoc]
    · simp [hru, hr]

/-- **Such a writer takes in the whole text of an emission**, and no fault comes from it. -/
theorem send (h : w.Unfailing received live) (e : Emission ε) {s : σ} (hs : live s) :
    ∃ s', e.send w s = ⟨e.text.length, e.failure.map .broken, s'⟩ ∧
      received s' = received s ++ e.text := by
  obtain ⟨t, ht, hr⟩ := h.sendAll e.chunks 0 s hs
  refine ⟨t, ?_, hr⟩
  simp [Emission.send, ht, Emission.text]

end Writer.Unfailing

end TapeLang
