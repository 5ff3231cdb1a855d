import TapeLang.Proofs.Streams.Calm

/-!
# Chunks and failing sinks do not show

How the input comes in pieces, and what becomes of the output, is nothing that a compiled program
can find out. Two runs that differ in nothing else take the same steps to the same end.

* `deliver_limited`: what a sink with a limit receives.
* **`run_ignores_chunking`**: inputs with the same bytes.
* **`run_ignores_sink`**: sinks that fail, and no sink at all.
-/

namespace TapeLang

open Assembly Machine Reference

namespace Machine

/-! ## Sinks with a limit -/

theorem offer_limited {room : Nat → Room} (hr : room = .writes ∨ room = .bytes) (k : Nat)
    (received : Array UInt8) (b : UInt8) :
    (offer (some { room := room k, received }) [b] 1).2 =
      some { room := room (k - 1), received := received ++ [b].take k } := by
  rcases hr with rfl | rfl <;> cases k <;> simp [offer, Sink.write, Sink.take]

theorem deliver_limited {room : Nat → Room} (hr : room = .writes ∨ room = .bytes) (k : Nat)
    (received : Array UInt8) (bytes : Bytes) :
    deliver (some { room := room k, received }) bytes =
      some { room := room (k - bytes.length), received := received ++ bytes.take k } := by
  induction bytes generalizing k received with
  | nil => simp [deliver]
  | cons b bytes ih =>
    have h := ih (k - 1) (received ++ [b].take k)
    rw [← offer_limited hr] at h
    refine h.trans ?_
    cases k <;> simp

theorem deliver_none (bytes : Bytes) : deliver none bytes = none := by
  induction bytes with
  | nil => rfl
  | cons b bytes ih => exact ih

theorem contents_limited {room : Nat → Room} (hr : room = .writes ∨ room = .bytes) (k : Nat)
    (bytes : Bytes) :
    (deliver (some { room := room k }) bytes).map Sink.contents = some (bytes.take k) := by
  rw [deliver_limited hr]
  simp [Sink.contents]

/-! ## Two runs of a source -/

/-- **Two runs of a source** with the same bytes to read take the same steps and offer the same
bytes to their sinks. -/
theorem Compiled.run_eq {arch : Arch} {nodes : List Node} {p : Program} (hp : Compiled arch nodes p)
    (hnodes : Runnable nodes) {input input' : Option Input}
    (hi : inputBytes input = inputBytes input') (output output' errors : Option Sink)
    (cancelled : Nat → Bool) (limit : Int64) :
    let r := run p cancelled limit { input, output, errors }
    let r' := run p cancelled limit { input := input', output := output', errors }
    r.1 = r'.1 ∧ Alike output output' r.2 r'.2 := by
  have h : Alike output output' { input, output, errors }
      { input := input', output := output', errors } :=
    ⟨fun _ _ => rfl, rfl, rfl, rfl, rfl, hi, [], rfl, rfl⟩
  exact hp.alike_run hnodes h cancelled limit

theorem Alike.stackBytes {x y : Option Sink} {s t : State} (h : Alike x y s t) :
    s.stackBytes = t.stackBytes := by
  rw [State.stackBytes, State.stackBytes, h.low]

end Machine

/-- **How the input comes in chunks does not show** in a run, nor how it ends. -/
theorem run_ignores_chunking {file source : Bytes} {nodes : List Node}
    (short : source.length < 2 ^ 63) (parsed : parse file source = .ok nodes) (arch : Arch) :
    ∃ p, load (arch.listing nodes).text (Int64.ofNat arch.bits) = .ok p ∧
      ∀ (input input' : Option Input) (output errors : Option Sink) (cancelled : Nat → Bool)
        (limit : Int64), inputBytes input = inputBytes input' →
        let r := run p cancelled limit { input, output, errors }
        let r' := run p cancelled limit { input := input', output, errors }
        r.1 = r'.1 ∧ r.2.pushes = r'.2.pushes ∧ r.2.stackBytes = r'.2.stackBytes ∧
          r.2.output = r'.2.output ∧ r.2.errors = r'.2.errors ∧ r.2.remaining = r'.2.remaining := by
  obtain ⟨p, hp⟩ := exists_compiled short parsed arch
  refine ⟨p, hp.loads, fun input input' output errors cancelled limit hi => ?_⟩
  obtain ⟨hresult, halike⟩ :=
    hp.run_eq (spells_of_parse short parsed).runnable hi output output errors cancelled limit
  obtain ⟨bytes, hs, ht⟩ := halike.output
  exact ⟨hresult, halike.pushes, halike.stackBytes, hs.trans ht.symm, halike.errors, halike.input⟩

/-- A program that copies its input cannot tell a failing input with an empty chunk in the middle
from one that comes as a whole, nor an empty one from none. -/
theorem run_ignores_chunking_copy :
    ∃ nodes p, parse "copy" (utf8 ",+[-.,+]") = .ok nodes ∧
      load (Arch.x86.listing nodes).text 32 = .ok p ∧ ∀ limit,
        let r := fun input => run p Program.never limit { input, output := some {} }
        (r (some { chunks := [[1], [], [2, 3]], failing := true })).1 =
            (r (some { chunks := [[1, 2, 3]] })).1 ∧
          (r (some { chunks := [[1], [], [2, 3]], failing := true })).2.output =
            (r (some { chunks := [[1, 2, 3]] })).2.output ∧
          (r none).1 = (r (some { chunks := [[]] })).1 := by
  have parsed : parse "copy" (utf8 ",+[-.,+]") = .ok
      [{ kind := .read, loc := ⟨"copy", 1, 1⟩ },
        { kind := .increment, count := 1, loc := ⟨"copy", 1, 2⟩ },
        { kind := .loop, loc := ⟨"copy", 1, 3⟩, children :=
          [{ kind := .decrement, count := 1, loc := ⟨"copy", 1, 4⟩ },
            { kind := .write, loc := ⟨"copy", 1, 5⟩ }, { kind := .read, loc := ⟨"copy", 1, 6⟩ },
            { kind := .increment, count := 1, loc := ⟨"copy", 1, 7⟩ }] }] := by
    cbv
  obtain ⟨p, hload, h⟩ := run_ignores_chunking (by decide) parsed .x86
  refine ⟨_, p, parsed, hload, fun limit => ?_⟩
  have hchunks := h (some { chunks := [[1], [], [2, 3]], failing := true })
    (some { chunks := [[1, 2, 3]] }) (some {}) none Program.never limit rfl
  have hnone := h none (some { chunks := [[]] }) (some {}) none Program.never limit rfl
  exact ⟨hchunks.1, hchunks.2.2.2.1, hnone.1⟩

/-- **What becomes of the output does not show** in a run, and what is received of it is a
beginning. -/
theorem run_ignores_sink {file source : Bytes} {nodes : List Node}
    (short : source.length < 2 ^ 63) (parsed : parse file source = .ok nodes) (arch : Arch) :
    ∃ p, load (arch.listing nodes).text (Int64.ofNat arch.bits) = .ok p ∧
      ∀ (input : Option Input) (errors : Option Sink) (cancelled : Nat → Bool) (limit : Int64),
        let r := fun output => run p cancelled limit { input, output, errors }
        ∃ written, (r (some {})).2.output.map Sink.contents = some written ∧
          ∀ (k : Nat) (output : Option Sink),
            output ∈ [some { room := .writes k }, some { room := .bytes k }, none] →
            (r output).1 = (r (some {})).1 ∧ (r output).2.pushes = (r (some {})).2.pushes ∧
              (r output).2.stackBytes = (r (some {})).2.stackBytes ∧
              (r output).2.remaining = (r (some {})).2.remaining ∧
              (r output).2.output.map Sink.contents = output.map fun _ => written.take k := by
  obtain ⟨p, hp⟩ := exists_compiled short parsed arch
  refine ⟨p, hp.loads, fun input errors cancelled limit => ?_⟩
  intro r
  have hruns : ∀ output, (r output).1 = (r (some {})).1 ∧
      Alike output (some {}) (r output).2 (r (some {})).2 := fun output =>
    hp.run_eq (spells_of_parse short parsed).runnable rfl output (some {}) errors cancelled limit
  obtain ⟨written, -, hwritten⟩ := (hruns (some {})).2.output
  have hcontents : (r (some {})).2.output.map Sink.contents = some written := by
    rw [hwritten, contents_deliver]
  refine ⟨written, hcontents, fun k output hmem => ?_⟩
  obtain ⟨hresult, halike⟩ := hruns output
  refine ⟨hresult, halike.pushes, halike.stackBytes, halike.input, ?_⟩
  obtain ⟨bytes, hs, ht⟩ := halike.output
  -- The bytes that both were offered are those that the sink without limits has.
  rw [ht, contents_deliver] at hcontents
  obtain rfl : bytes = written := Option.some.inj hcontents
  rw [hs]
  simp only [List.mem_cons, List.not_mem_nil, or_false] at hmem
  rcases hmem with rfl | rfl | rfl
  · exact contents_limited (.inl rfl) k bytes
  · exact contents_limited (.inr rfl) k bytes
  · rw [deliver_none]
    rfl

/-- A program that writes its only byte forever: a sink that accepts two writes has two of them when
it is stopped, and the run takes as many steps as without the limit. -/
theorem run_ignores_sink_endless :
    ∃ nodes p, parse "endless" (utf8 "+[.]") = .ok nodes ∧
      load (Arch.amd64.listing nodes).text 64 = .ok p ∧ ∀ limit,
        let r := fun output => run p Program.never limit { output }
        (r (some { room := .writes 2 })).1 = (r (some {})).1 ∧ (r none).1 = (r (some {})).1 ∧
          (r (some { room := .writes 2 })).2.output.map Sink.contents =
            ((r (some {})).2.output.map Sink.contents).map (List.take 2) := by
  have parsed : parse "endless" (utf8 "+[.]") = .ok
      [{ kind := .increment, count := 1, loc := ⟨"endless", 1, 1⟩ },
        { kind := .loop, loc := ⟨"endless", 1, 2⟩, children :=
          [{ kind := .write, loc := ⟨"endless", 1, 3⟩ }] }] := by
    cbv
  obtain ⟨p, hload, h⟩ := run_ignores_sink (by decide) parsed .amd64
  refine ⟨_, p, parsed, hload, fun limit => ?_⟩
  obtain ⟨written, hwritten, hlimited⟩ := h none none Program.never limit
  have htwo := hlimited 2 (some { room := .writes 2 }) (by decide)
  have hnone := hlimited 2 none (by decide)
  refine ⟨htwo.1, hnone.1, htwo.2.2.2.2.trans ?_⟩
  rw [hwritten]
  rfl

end TapeLang
