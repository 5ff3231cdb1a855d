import TapeLang.Proofs.Listing.Emitter
import TapeLang.Proofs.Output.Buffering

/-!
# Listings through a buffer

No line is longer than a buffer, so a listing goes through a buffer block by block. A writer with
room for all of it misses nothing, unless the listing breaks off: then its last block stays behind.

* **`buffered_listing`**: what a writer takes in of a listing through a buffer.
-/

namespace TapeLang

open Assembly

variable {δ σ : Type}

theorem length_render_le {ls : List Line} (h : ∀ l ∈ ls, l.Plain) :
    ∀ chunk ∈ ls.map Line.render, chunk.length ≤ bufferSize := by
  rw [List.forall_mem_map]
  intro l hl
  rw [l.render_eq, List.length_append]
  exact (Nat.add_le_add_right (h l hl).2 1).trans (by decide)

/-- **What a writer takes in of a listing through a buffer**: whole blocks, and all of the text
unless the writer fails or the listing breaks off. -/
theorem buffered_listing (arch : Arch) (nodes : List Node) :
    match (Node.throughLoops nodes).find? Node.isUnknown with
    | none => ∃ ls : List Line, translation arch.dialect nodes = ls.map .line ∧
        (∀ (s : Sink) (k : Nat),
          let direct := (arch.listing nodes).send Sink.writer s
          let r := (arch.listing nodes).sendBuffered Sink.writer s
          (s.room = .bytes k → r.state.contents = s.contents ++ (textOf ls).take k ∧
            r.state = direct.state ∧
            r.fault = if (textOf ls).length ≤ k then none else some (.write .shortDevice)) ∧
          (s.room = .writes k →
            r.state.contents = s.contents ++ (textOf ls).take (bufferSize * k) ∧
            r.fault =
              if (textOf ls).length ≤ bufferSize * k then none else some (.write .diskFull))) ∧
        ∀ (δ σ : Type) (w : Writer δ σ) (received : σ → Bytes), w.Honest received → ∀ s,
          let r := (arch.listing nodes).sendBuffered w s
          ∃ delivered ≤ r.count, r.count ≤ (textOf ls).length ∧
            received r.state = received s ++ (textOf ls).take delivered ∧
            (r.fault = none → delivered = (textOf ls).length)
    | some n => ∃ (before : List Line) (after : List Piece),
        translation arch.dialect nodes = before.map .line ++ .gap ⟨n.loc, n.kind⟩ :: after ∧
        ∀ (δ σ : Type) (w : Writer δ σ) (received : σ → Bytes) (live : σ → Prop),
          w.Unfailing received live → ∀ s, live s →
          let text := textOf before
          let direct := (arch.listing nodes).send w s
          let r := (arch.listing nodes).sendBuffered w s
          received direct.state = received s ++ text ∧ direct.count = text.length ∧
            direct.fault = some (.broken ⟨n.loc, n.kind⟩) ∧
            received r.state =
              received s ++ text.take (bufferSize * ((text.length - 1) / bufferSize)) ∧
            r.count = direct.count ∧ r.fault = direct.fault := by
  have hgap := cut_translation arch.dialect nodes
  rcases hcut : cut (translation arch.dialect nodes) with ⟨ls, failure⟩
  obtain ⟨hlisting, hplain⟩ := listing_eq_cut arch nodes hcut
  have hsmall : ∀ chunk ∈ (arch.listing nodes).chunks, chunk.length ≤ bufferSize := by
    rw [hlisting]
    exact length_render_le hplain
  have htext : textOf ls = (arch.listing nodes).text := by
    rw [hlisting]
    rfl
  have hfailure : (arch.listing nodes).failure = failure := by
    rw [hlisting]
  rw [hcut] at hgap
  rcases hfind : (Node.throughLoops nodes).find? Node.isUnknown with _ | n
  · rw [hfind] at hgap
    obtain rfl : failure = none := hgap
    refine ⟨ls, eq_lines_of_cut hcut, ?_, ?_⟩
    · intro s k direct r
      rw [htext]
      exact ⟨fun hs => Emission.sendBuffered_bytes hsmall hfailure hs,
        fun hs => Emission.sendBuffered_writes hsmall hfailure hs⟩
    · intro δ σ w received honest s
      rw [htext]
      exact Emission.sendBuffered_honest hsmall w s hfailure honest
  · rw [hfind] at hgap
    obtain rfl : failure = some ⟨n.loc, n.kind⟩ := hgap
    obtain ⟨after, hafter⟩ := exists_of_cut hcut
    refine ⟨ls, after, hafter, ?_⟩
    intro δ σ w received live unfailing s hs text direct r
    obtain ⟨t, hdirect, ht⟩ := unfailing.send (arch.listing nodes) hs
    obtain ⟨u, hbuffered, hu⟩ :=
      Emission.sendBuffered_unfailing hsmall w s unfailing hfailure hs
    rw [hfailure, ← htext] at hdirect
    rw [← htext] at ht hbuffered hu
    have hr : r = _ := hbuffered
    have hd : direct = _ := hdirect
    rw [hr, hd]
    exact ⟨ht, rfl, rfl, hu, rfl, rfl⟩

/-- A listing of two blocks: a device for one write gets the first, and so does a device without
a limit if the listing breaks off at its end. -/
theorem buffered_listing_blocks :
    let odd : Location := ⟨"odd", 1, 1⟩
    let nodes : List Node := List.replicate 60 { kind := .write, count := 1 }
    let broken := nodes ++ [{ kind := .unknown 9, loc := odd }]
    let whole := (Arch.amd64.listing nodes).sendBuffered Sink.writer { room := .writes 1 }
    let part := (Arch.amd64.listing broken).sendBuffered Sink.writer {}
    (whole.state.contents.length = 4096 ∧ whole.fault = some (.write .diskFull)) ∧
      part.state.contents.length = 4096 ∧ part.count = 4380 ∧
        part.fault = some (.broken ⟨odd, .unknown 9⟩) := by
  intro odd nodes broken
  refine ⟨?_, ?_⟩
  · have hknown : (Node.throughLoops nodes).find? Node.isUnknown = none := rfl
    have h := buffered_listing .amd64 nodes
    rw [hknown] at h
    obtain ⟨ls, hls, hsink, -⟩ := h
    obtain rfl : (cut (translation Arch.amd64.dialect nodes)).1 = ls := by
      rw [hls, cut_lines]
    have hlength : (textOf (cut (translation Arch.amd64.dialect nodes)).1).length = 4421 := by
      decide +kernel
    obtain ⟨hcontents, hfault⟩ := (hsink { room := .writes 1 } 1).2 rfl
    rw [hlength] at hfault
    refine ⟨?_, hfault⟩
    rw [hcontents, List.length_append, List.length_take, hlength]
    rfl
  · have hodd : (Node.throughLoops broken).find? Node.isUnknown =
        some { kind := .unknown 9, loc := odd } := rfl
    have h := buffered_listing .amd64 broken
    rw [hodd] at h
    obtain ⟨before, after, hbefore, hwriter⟩ := h
    obtain rfl : (cut (translation Arch.amd64.dialect broken)).1 = before := by
      rw [hbefore, cut_lines_append]
      exact List.append_nil before
    have hlength : (textOf (cut (translation Arch.amd64.dialect broken)).1).length = 4380 := by
      decide +kernel
    obtain ⟨-, hcount, hfault, hcontents, hcount', hfault'⟩ :=
      hwriter WriteError Sink Sink.writer _ _ Sink.unfailing {} rfl
    rw [hlength] at hcontents hcount
    refine ⟨?_, hcount'.trans hcount, hfault'.trans hfault⟩
    rw [hcontents, List.length_append, List.length_take, hlength]
    rfl

end TapeLang
