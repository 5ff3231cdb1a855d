import TapeLang.Text.Bytes

/-!
# Writers and sinks

A writer takes byte strings one after the other. It either takes all of what it is given, or a
first part together with the reason why it took no more.

* `Writer`: how a state takes in bytes, with errors of any type.
* `Sink`: bytes received, up to a limit on the number of writes or of bytes.
* `Writer.sendAll`: writes chunks until one fails, and counts the bytes taken.
-/

namespace TapeLang

/-- The answer to one write. -/
inductive Receipt (δ σ : Type) where
  /-- Everything was taken. -/
  | complete (next : σ)
  /-- Only the first `taken` bytes were taken. -/
  | failed (taken : Nat) (error : δ) (next : σ)
  deriving Repr

/-- How a state takes in byte strings. -/
structure Writer (δ σ : Type) where
  write : σ → Bytes → Receipt δ σ

/-! ## Sinks -/

/-- Why a sink takes no more. -/
inductive WriteError where
  /-- No write is accepted any more. -/
  | diskFull
  /-- The room for bytes is used up. -/
  | shortDevice
  deriving DecidableEq, Repr

/-- The text of a write error. -/
def WriteError.message : WriteError → String
  | .diskFull => "disk full"
  | .shortDevice => "short device"

/-- What a sink still accepts. -/
inductive Room where
  | unlimited
  /-- So many writes of any size. -/
  | writes (left : Nat)
  /-- So many bytes. -/
  | bytes (left : Nat)
  deriving DecidableEq, Repr

/-- Bytes received so far, and the room for more. -/
structure Sink where
  room : Room := .unlimited
  received : Array UInt8 := #[]
  deriving DecidableEq, Repr

namespace Sink

/-- The bytes received so far. -/
def contents (s : Sink) : Bytes :=
  s.received.toList

/-- Takes bytes in without looking at the room. -/
def take (s : Sink) (data : Bytes) (room : Room) : Sink :=
  { room, received := s.received ++ data }

/-- Offers bytes to a sink. -/
def write (s : Sink) (data : Bytes) : Receipt WriteError Sink :=
  match s.room with
  | .unlimited => .complete (s.take data .unlimited)
  | .writes (left + 1) => .complete (s.take data (.writes left))
  | .writes 0 => .failed 0 .diskFull s
  | .bytes left =>
    if data.length ≤ left then .complete (s.take data (.bytes (left - data.length)))
    else .failed left .shortDevice (s.take (data.take left) (.bytes 0))

/-- A sink as a writer. -/
def writer : Writer WriteError Sink :=
  ⟨write⟩

end Sink

/-! ## Several writes -/

/-- What came of a number of writes: the bytes taken in all, and the first failure. -/
structure Delivery (δ σ : Type) where
  count : Nat
  failure : Option δ
  state : σ
  deriving Repr

/-- Writes chunks one by one, stops at the first failure, and counts on from `count`. -/
def Writer.sendAll {δ σ : Type} (w : Writer δ σ) : List Bytes → (count : Nat) → σ → Delivery δ σ
  | [], count, s => ⟨count, none, s⟩
  | chunk :: rest, count, s =>
    match w.write s chunk with
    | .complete s => w.sendAll rest (count + chunk.length) s
    | .failed taken error s => ⟨count + taken, some error, s⟩

end TapeLang
