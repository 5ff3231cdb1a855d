import TapeLang.Output.Writer

/-!
# Buffered writing

A buffer collects 4096 bytes before it hands them on. When more comes than fits, the buffer is
filled up and written out; what is too large for an empty buffer goes through it directly. After a
failure nothing is taken any more.

* `Writer.buffered`: a writer with a buffer in front of it.
* `Buffered.flush`: hands on what the buffer holds.
-/

namespace TapeLang

/-- The size of a buffer. -/
def bufferSize : Nat := 4096

/-- A buffer in front of a writer's state. -/
structure Buffered (δ σ : Type) where
  inner : σ
  pending : Array UInt8 := #[]
  failure : Option δ := none
  deriving Repr

namespace Buffered

variable {δ σ : Type}

/-- Hands on what the buffer holds. -/
def flush (w : Writer δ σ) (b : Buffered δ σ) : Buffered δ σ :=
  if b.failure.isSome || b.pending.isEmpty then b
  else
    match w.write b.inner b.pending.toList with
    | .complete inner => { inner }
    | .failed taken error inner =>
      { inner, pending := b.pending.drop taken, failure := some error }

/-- Takes in bytes that fit. -/
def store (b : Buffered δ σ) (data : Bytes) : Buffered δ σ :=
  { b with pending := b.pending ++ data }

/-- Takes in bytes when the buffer is empty. `taken` more were taken before. -/
def writeEmpty (w : Writer δ σ) (b : Buffered δ σ) (data : Bytes) (taken : Nat) :
    Receipt δ (Buffered δ σ) :=
  if data.length ≤ bufferSize then .complete (b.store data)
  else
    match w.write b.inner data with
    | .complete inner => .complete { b with inner }
    | .failed more error inner =>
      .failed (taken + more) error { b with inner, failure := some error }

/-- Offers bytes to a buffer. -/
def write (w : Writer δ σ) (b : Buffered δ σ) (data : Bytes) : Receipt δ (Buffered δ σ) :=
  match b.failure with
  | some error => .failed 0 error b
  | none =>
    let room := bufferSize - b.pending.size
    if data.length ≤ room then .complete (b.store data)
    else if b.pending.isEmpty then writeEmpty w b data 0
    else
      let b := (b.store (data.take room)).flush w
      match b.failure with
      | some error => .failed room error b
      | none => writeEmpty w b (data.drop room) room

end Buffered

/-- A writer with a buffer in front of it. -/
def Writer.buffered {δ σ : Type} (w : Writer δ σ) : Writer δ (Buffered δ σ) :=
  ⟨Buffered.write w⟩

end TapeLang
