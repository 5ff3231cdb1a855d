import TapeLang.Server.Request

/-!
# The server as two parties

A decoder turns the input into requests, and an answerer writes the responses. Between them there
is a queue with room for one request and a slot for the end of the input. The two take turns in
any order; an answerer that learns of the end looks once more into the queue before it stops. At
any moment both may be told to give up.

* `Pipeline.move?`: one move of one of the parties.
* `Pipeline.Step`: what a move can do.
* `Pipeline.follow?`: a schedule of moves.
* `Pipeline.settle`: moves until no party can move.
* `serve`: the responses to an input.
-/

namespace TapeLang.Server

/-- How an input ends. -/
inductive Ending where
  | endOfInput
  /-- The next value is malformed or no request. -/
  | malformed
  deriving DecidableEq, Repr

/-- The requests of an input and how it ends. -/
structure Incoming where
  requests : List Request
  ending : Ending
  deriving Repr

/-- Cuts a stream of tokens into requests. -/
def Incoming.ofTokens (tokens : List Json.Token) : Incoming :=
  go tokens []
where
  /-- The requests so far, last first. -/
  go (tokens : List Json.Token) (acc : List Request) : Incoming :=
    if tokens.isEmpty then ⟨acc.reverse, .endOfInput⟩
    else
      match _h : Json.readNext? tokens with
      | none => ⟨acc.reverse, .malformed⟩
      | some (v, rest) =>
        match Request.decode v with
        | .ok r => go rest (r :: acc)
        | .error _ => ⟨acc.reverse, .malformed⟩
  termination_by tokens.length
  decreasing_by exact Json.length_readFrom _h

/-- The requests of an input text. -/
def Incoming.ofText (text : Bytes) : Incoming :=
  ofTokens (Json.Token.scan (Text.decodeLossy text))

/-- The report of an end of the input, if it is no regular one. -/
def Ending.report : Ending → List Response
  | .endOfInput => []
  | .malformed => [.failure "decode" malformedText]

/-! ## The parties -/

/-- What the decoder does. -/
inductive Decoder where
  | decoding
  /-- It has a request that is not in the queue yet. -/
  | passing (r : Request)
  /-- It has reported the end of the input. -/
  | finished
  /-- It has given up with a request in hand. -/
  | abandoned (r : Request)
  deriving Repr

/-- What the answerer does. -/
inductive Answerer where
  | waiting
  /-- It has learned of the end and looks into the queue once more. -/
  | draining (ending : Ending)
  /-- It has only the end left to report. -/
  | concluding (ending : Ending)
  | stopped
  deriving DecidableEq, Repr

/-- The state of the two parties. -/
structure Pipeline where
  /-- What the decoder has not decoded yet. -/
  incoming : Incoming
  decoder : Decoder := .decoding
  /-- The queue. -/
  queue : Option Request := none
  /-- The slot for the end of the input. -/
  ended : Option Ending := none
  answerer : Answerer := .waiting
  /-- Whether the parties are told to give up. -/
  cancelled : Bool := false
  /-- The responses written so far, last first. -/
  written : List Response := []
  deriving Repr

/-- The moves of the parties. -/
inductive Move where
  /-- The decoder decodes a request, or reports the end of the input. -/
  | decode
  /-- The decoder puts its request into the queue. -/
  | pass
  /-- The decoder gives up. -/
  | abandon
  /-- The answerer takes a request from the queue and answers it. -/
  | receive
  /-- The answerer takes note of the end. -/
  | notice
  /-- The answerer looks into the queue after the end. -/
  | drain
  /-- The answerer reports the end. -/
  | conclude
  /-- The answerer gives up. -/
  | giveUp
  /-- The parties are told to give up. -/
  | cancel
  deriving DecidableEq, Repr

/-- All moves but `cancel`, which comes from outside. -/
def Move.internal : List Move :=
  [.decode, .pass, .receive, .notice, .drain, .conclude, .abandon, .giveUp]

namespace Pipeline

/-- The server before any request: the greeting is written. -/
def start (incoming : Incoming) : Pipeline :=
  { incoming, written := [ready] }

/-- The responses written so far. -/
def responses (p : Pipeline) : List Response :=
  p.written.reverse

/-- Answers a request and goes on to `next`; a request to close stops the answerer. -/
def process (p : Pipeline) (r : Request) (next : Answerer) : Pipeline :=
  match r.respond with
  | some response => { p with answerer := next, written := response :: p.written }
  | none => { p with answerer := .stopped }

/-- Makes a move, if it is possible. -/
def move? (p : Pipeline) : Move → Option Pipeline
  | .decode =>
    match p.decoder, p.incoming.requests, p.ended with
    | .decoding, r :: rest, _ =>
      some { p with decoder := .passing r, incoming := { p.incoming with requests := rest } }
    | .decoding, [], none =>
      some { p with decoder := .finished, ended := some p.incoming.ending }
    | _, _, _ => none
  | .pass =>
    match p.decoder, p.queue with
    | .passing r, none => some { p with decoder := .decoding, queue := some r }
    | _, _ => none
  | .abandon =>
    match p.decoder, p.cancelled with
    | .passing r, true => some { p with decoder := .abandoned r }
    | _, _ => none
  | .receive =>
    match p.answerer, p.queue with
    | .waiting, some r => some ({ p with queue := none }.process r .waiting)
    | _, _ => none
  | .notice =>
    match p.answerer, p.ended with
    | .waiting, some ending => some { p with ended := none, answerer := .draining ending }
    | _, _ => none
  | .drain =>
    match p.answerer, p.queue with
    | .draining ending, some r => some ({ p with queue := none }.process r (.concluding ending))
    | .draining ending, none => some { p with answerer := .concluding ending }
    | _, _ => none
  | .conclude =>
    match p.answerer with
    | .concluding ending =>
      some { p with answerer := .stopped, written := ending.report ++ p.written }
    | _ => none
  | .giveUp =>
    match p.answerer, p.cancelled with
    | .waiting, true => some { p with answerer := .stopped }
    | _, _ => none
  | .cancel => some { p with cancelled := true }

/-- Makes the moves of a schedule, if each is possible in its turn. -/
def follow? (p : Pipeline) (moves : List Move) : Option Pipeline :=
  moves.foldlM move? p

/-! ## What a move does -/

/-- The moves with what they need and what comes of them. -/
inductive Step (p : Pipeline) : Move → Pipeline → Prop
  | decode {r : Request} {rest : List Request} (busy : p.decoder = .decoding)
      (more : p.incoming.requests = r :: rest) :
      Step p .decode
        { p with decoder := .passing r, incoming := { p.incoming with requests := rest } }
  | finish (busy : p.decoder = .decoding) (spent : p.incoming.requests = [])
      (free : p.ended = none) :
      Step p .decode { p with decoder := .finished, ended := some p.incoming.ending }
  | pass {r : Request} (held : p.decoder = .passing r) (free : p.queue = none) :
      Step p .pass { p with decoder := .decoding, queue := some r }
  | abandon {r : Request} (held : p.decoder = .passing r) (told : p.cancelled = true) :
      Step p .abandon { p with decoder := .abandoned r }
  | receive {r : Request} (idle : p.answerer = .waiting) (queued : p.queue = some r) :
      Step p .receive ({ p with queue := none }.process r .waiting)
  | notice {ending : Ending} (idle : p.answerer = .waiting) (ended : p.ended = some ending) :
      Step p .notice { p with ended := none, answerer := .draining ending }
  | drain {ending : Ending} {r : Request} (last : p.answerer = .draining ending)
      (queued : p.queue = some r) :
      Step p .drain ({ p with queue := none }.process r (.concluding ending))
  | drained {ending : Ending} (last : p.answerer = .draining ending) (free : p.queue = none) :
      Step p .drain { p with answerer := .concluding ending }
  | conclude {ending : Ending} (last : p.answerer = .concluding ending) :
      Step p .conclude { p with answerer := .stopped, written := ending.report ++ p.written }
  | giveUp (idle : p.answerer = .waiting) (told : p.cancelled = true) :
      Step p .giveUp { p with answerer := .stopped }
  | cancel : Step p .cancel { p with cancelled := true }

theorem move?_eq_some_iff {p q : Pipeline} {m : Move} : p.move? m = some q ↔ Step p m q := by
  constructor
  · intro h
    cases m <;> simp only [move?] at h <;> (try split at h) <;> cases h
    · exact .decode ‹_› ‹_›
    · exact .finish ‹_› ‹_› ‹_›
    · exact .pass ‹_› ‹_›
    · exact .abandon ‹_› ‹_›
    · exact .receive ‹_› ‹_›
    · exact .notice ‹_› ‹_›
    · exact .drain ‹_› ‹_›
    · exact .drained ‹_› ‹_›
    · exact .conclude ‹_›
    · exact .giveUp ‹_› ‹_›
    · exact .cancel
  · intro h
    cases h <;> simp only [move?, *]

/-! ## The work that is left -/

/-- A bound on the moves that are left without `cancel`: a request is decoded, passed on and
received. -/
def work (p : Pipeline) : Nat :=
  3 * p.incoming.requests.length + ofDecoder p.decoder + p.queue.toList.length +
    ofAnswerer p.answerer
where
  /-- The decoder's own part, with the request in its hand. -/
  ofDecoder : Decoder → Nat
    | .decoding => 1
    | .passing _ => 3
    | .finished | .abandoned _ => 0
  /-- The answerer's own part. -/
  ofAnswerer : Answerer → Nat
    | .waiting => 3
    | .draining _ => 2
    | .concluding _ => 1
    | .stopped => 0

theorem work_process_le (p : Pipeline) (r : Request) (next : Answerer) :
    (p.process r next).work ≤ { p with answerer := next }.work := by
  unfold process
  split
  · exact Nat.le_refl _
  · simp only [work, work.ofAnswerer]
    omega

theorem Step.work_lt {p q : Pipeline} {m : Move} (h : Step p m q) (hm : m ≠ .cancel) :
    q.work < p.work := by
  cases h with
  | cancel => exact absurd rfl hm
  | receive idle queued =>
    refine Nat.lt_of_le_of_lt (work_process_le _ _ _) ?_
    simp [work, idle, queued]
  | drain last queued =>
    refine Nat.lt_of_le_of_lt (work_process_le _ _ _) ?_
    simp only [work, last, queued, work.ofAnswerer, Option.toList, List.length_cons,
      List.length_nil]
    omega
  | _ =>
    simp only [work, *, work.ofDecoder, work.ofAnswerer, Option.toList, List.length_cons,
      List.length_nil]
    omega

/-- The state after the first move, in a fixed order, that is possible. -/
def next? (p : Pipeline) : Option Pipeline :=
  Move.internal.findSome? p.move?

theorem exists_step_of_next? {p q : Pipeline} (h : p.next? = some q) :
    ∃ m ≠ .cancel, Step p m q := by
  obtain ⟨m, hm, hq⟩ := List.exists_of_findSome?_eq_some h
  refine ⟨m, ?_, move?_eq_some_iff.1 hq⟩
  rintro rfl
  exact absurd hm (by decide)

/-- Moves until no party can move. -/
def settle (p : Pipeline) : Pipeline :=
  match _h : p.next? with
  | none => p
  | some q => q.settle
termination_by p.work
decreasing_by
  obtain ⟨m, hm, step⟩ := exists_step_of_next? _h
  exact step.work_lt hm

end Pipeline

/-! ## Serving an input -/

/-- The responses to requests. -/
def Incoming.serve (incoming : Incoming) : List Response :=
  (Pipeline.start incoming).settle.responses

/-- The responses to an input. -/
def serve (text : Bytes) : List Response :=
  (Incoming.ofText text).serve

/-- The responses when the input delivers nothing and the server is cancelled. -/
def serveCancelled : List Response :=
  ((Pipeline.start ⟨[], .endOfInput⟩).follow? [.cancel, .giveUp]).elim [] Pipeline.responses

/-- A response as a line of text. -/
def Response.line (r : Response) : Bytes :=
  encode r.toJson.compact

end TapeLang.Server
