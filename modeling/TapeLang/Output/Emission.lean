import TapeLang.Output.Buffer

/-!
# Emissions

An emission is a text that is written chunk by chunk and may break off with an error of its own.
A write that fails ends it earlier.

* `Emission.send`: writes to a writer directly.
* `Emission.sendBuffered`: writes through a buffer, which is flushed only after success.
-/

namespace TapeLang

/-- Chunks to be written one by one, and the error that follows them, if any. -/
structure Emission (ε : Type) where
  chunks : List Bytes
  failure : Option ε := none
  deriving Repr

/-- Why an emission was not completed. The writer is a sink if nothing else is said. -/
inductive EmitFault (ε : Type) (δ : Type := WriteError) where
  /-- The writer failed. -/
  | write (error : δ)
  /-- The emission itself broke off. -/
  | broken (error : ε)
  deriving DecidableEq, Repr

/-- The text of a fault of a sink. -/
def EmitFault.message {ε : Type} (describe : ε → Bytes) : EmitFault ε → Bytes
  | .write error => utf8 error.message
  | .broken error => describe error

/-- The bytes taken, the fault, and the writer's state after an emission. -/
structure Emitted (ε δ σ : Type) where
  count : Nat
  fault : Option (EmitFault ε δ)
  state : σ
  deriving Repr

namespace Emission

variable {ε δ σ : Type}

/-- All chunks as one text. -/
def text (e : Emission ε) : Bytes :=
  e.chunks.flatten

/-- Writes an emission. -/
def send (e : Emission ε) (w : Writer δ σ) (s : σ) : Emitted ε δ σ :=
  let d := w.sendAll e.chunks 0 s
  { count := d.count
    fault := (d.failure.map EmitFault.write).or (e.failure.map EmitFault.broken)
    state := d.state }

/-- Writes an emission through a buffer. -/
def sendBuffered (e : Emission ε) (w : Writer δ σ) (s : σ) : Emitted ε δ σ :=
  let r := e.send w.buffered { inner := s }
  match r.fault with
  | some _ => { r with state := r.state.inner }
  | none =>
    let b := r.state.flush w
    { count := r.count, fault := b.failure.map EmitFault.write, state := b.inner }

end Emission

end TapeLang
