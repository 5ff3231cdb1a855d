import Mathlib.Data.List.Infix
import TapeLang.Server.Pipeline

/-!
# The order of the responses

Whatever the order of the moves, the two parties answer the requests one by one and in order. What
is written and what is still owed together never change, unless the answerer gives up.

* `Pipeline.owed`: the responses that a state still owes.
* `Pipeline.Orderly`: what ties the decoder, the slot and the answerer together.
* **`Pipeline.Step.responses_append_owed`**: what a move does to the account.
* **`follow_keeps_order`**: every schedule writes the same responses.
-/

namespace TapeLang.Server

/-! ## Replies -/

theorem Request.respond_eq_none_iff {r : Request} : r.respond = none ↔ r.type = "close" := by
  unfold Request.respond
  split <;> simp_all

@[simp] theorem Ending.reverse_report (ending : Ending) :
    ending.report.reverse = ending.report := by
  cases ending <;> rfl

/-- The responses to requests up to the first one to close, or else to the end of the input. -/
def replies (ending : Ending) : List Request → List Response
  | [] => ending.report
  | r :: rest =>
    match r.respond with
    | some response => response :: replies ending rest
    | none => []

theorem exists_replies_eq (ending : Ending) (requests : List Request) :
    ∃ answers : List Response,
      (requests.takeWhile (·.type ≠ "close")).map Request.respond = answers.map some ∧
      replies ending requests =
        answers ++ if ∃ r ∈ requests, r.type = "close" then [] else ending.report := by
  induction requests with
  | nil => exact ⟨[], by simp [replies]⟩
  | cons r rest ih =>
    obtain ⟨answers, each, all⟩ := ih
    cases hr : r.respond with
    | none =>
      have close := Request.respond_eq_none_iff.1 hr
      exact ⟨[], by simp [replies, hr, close]⟩
    | some response =>
      have stays : r.type ≠ "close" := by
        rw [Ne, ← Request.respond_eq_none_iff, hr]
        exact Option.some_ne_none response
      refine ⟨response :: answers, ?_, ?_⟩
      · simpa [stays, hr] using each
      · simp [replies, hr, all, stays]

namespace Pipeline

/-! ## What is owed -/

/-- The requests that are not in the queue yet. -/
def unqueued (p : Pipeline) : List Request :=
  match p.decoder with
  | .decoding | .finished => p.incoming.requests
  | .passing r | .abandoned r => r :: p.incoming.requests

/-- The responses that are still to be written. -/
def owed (p : Pipeline) : List Response :=
  match p.answerer with
  | .waiting => replies p.incoming.ending (p.queue.toList ++ p.unqueued)
  | .draining ending => replies ending p.queue.toList
  | .concluding ending => ending.report
  | .stopped => []

/-- The end is reported once, after the last request, and waits in the slot until it is noticed. -/
structure Orderly (p : Pipeline) : Prop where
  finished : p.decoder = .finished → p.incoming.requests = []
  slot : ∀ ending, p.ended = some ending → p.decoder = .finished ∧ ending = p.incoming.ending
  noticed : p.decoder = .finished → p.answerer = .waiting → p.ended ≠ none
  draining : ∀ ending, p.answerer = .draining ending → p.decoder = .finished
  abandoned : ∀ r, p.decoder = .abandoned r → p.cancelled = true

variable {p q : Pipeline} {m : Move} {r : Request} {next : Answerer}

theorem Orderly.process (hp : { p with answerer := next }.Orderly) :
    (p.process r next).Orderly := by
  unfold Pipeline.process
  split
  · exact ⟨hp.finished, hp.slot, hp.noticed, hp.draining, hp.abandoned⟩
  · exact ⟨hp.finished, hp.slot, nofun, nofun, hp.abandoned⟩

theorem Step.orderly (h : Step p m q) (hp : p.Orderly) : q.Orderly := by
  obtain ⟨finished, slot, noticed, draining, abandoned⟩ := hp
  cases h with
  | receive idle queued =>
    exact .process ⟨finished, slot, fun h _ => noticed h idle, nofun, abandoned⟩
  | drain last queued => exact .process ⟨finished, slot, nofun, nofun, abandoned⟩
  | _ => constructor <;> simp_all

/-- Answering a request takes its response from what is owed. -/
theorem responses_append_owed_process {ending : Ending} {rest : List Request}
    (h : { p with answerer := next }.owed = replies ending rest) :
    (p.process r next).responses ++ (p.process r next).owed =
      p.responses ++ replies ending (r :: rest) := by
  unfold process replies
  cases r.respond with
  | none => simp [responses, owed]
  | some response =>
    have owed_eq : { p with answerer := next, written := response :: p.written }.owed =
        replies ending rest := h
    simp [responses, owed_eq]

/-- **A move writes what it takes from what is owed**, unless the answerer gives up. -/
theorem Step.responses_append_owed (h : Step p m q) (hp : p.Orderly) (hm : m ≠ .giveUp) :
    q.responses ++ q.owed = p.responses ++ p.owed := by
  cases h with
  | decode busy more => simp [responses, owed, unqueued, busy, more]
  | finish busy => simp [responses, owed, unqueued, busy]
  | pass held free =>
    cases stage : p.answerer with
    | draining ending =>
      -- The queue that is drained gets nothing new: the decoder has finished.
      cases held.symm.trans (hp.draining ending stage)
    | _ => simp [responses, owed, unqueued, stage, held, free]
  | abandon held => simp [responses, owed, unqueued, held]
  | receive idle queued =>
    rw [responses_append_owed_process rfl]
    simp [responses, owed, idle, queued, unqueued]
  | notice idle ended =>
    -- All that the decoder had is in the queue by now, so one look into it is enough.
    obtain ⟨finished, rfl⟩ := hp.slot _ ended
    simp [responses, owed, idle, unqueued, finished, hp.finished finished]
  | @drain ending r last queued =>
    have owed_eq : ({ p with queue := none, answerer := .concluding ending } : Pipeline).owed =
        replies ending [] := rfl
    rw [responses_append_owed_process owed_eq]
    simp [responses, owed, last, queued]
  | drained last free => simp [responses, owed, last, free, replies]
  | conclude last => simp [responses, owed, last]
  | giveUp => exact absurd rfl hm
  | cancel => rfl

theorem responses_prefix_process (p : Pipeline) (r : Request) (next : Answerer) :
    p.responses <+: (p.process r next).responses := by
  unfold process
  split <;> simp [responses]

theorem Step.responses_prefix (h : Step p m q) : p.responses <+: q.responses := by
  cases h with
  | receive => exact responses_prefix_process { p with queue := none } _ _
  | drain => exact responses_prefix_process { p with queue := none } _ _
  | conclude => simp [responses]
  | _ => exact List.prefix_rfl

theorem Step.cancelled_eq (h : Step p m q) (hm : m ≠ .cancel) : q.cancelled = p.cancelled := by
  cases h with
  | cancel => exact absurd rfl hm
  | receive => unfold process; split <;> rfl
  | drain => unfold process; split <;> rfl
  | _ => rfl

/-- A party can move until the answerer has stopped. -/
theorem Orderly.exists_move? (hp : p.Orderly) (busy : p.answerer ≠ .stopped) :
    ∃ m ≠ .cancel, (p.move? m).isSome := by
  cases stage : p.answerer with
  | stopped => exact absurd stage busy
  | concluding ending => exact ⟨.conclude, by decide, by simp [move?, stage]⟩
  | draining ending => exact ⟨.drain, by decide, by cases h : p.queue <;> simp [move?, stage, h]⟩
  | waiting =>
    cases queued : p.queue with
    | some r => exact ⟨.receive, by decide, by simp [move?, stage, queued]⟩
    | none =>
      cases held : p.decoder with
      | decoding =>
        refine ⟨.decode, by decide, ?_⟩
        have free : p.ended = none := by
          rw [Option.eq_none_iff_forall_ne_some]
          intro ending h
          cases held.symm.trans (hp.slot ending h).1
        cases more : p.incoming.requests <;> simp [move?, held, more, free]
      | passing r => exact ⟨.pass, by decide, by simp [move?, held, queued]⟩
      | finished =>
        obtain ⟨ending, ended⟩ := Option.ne_none_iff_exists'.1 (hp.noticed held stage)
        exact ⟨.notice, by decide, by simp [move?, stage, ended]⟩
      | abandoned r => exact ⟨.giveUp, by decide, by simp [move?, stage, hp.abandoned r held]⟩

/-! ## Schedules -/

/-- `p` has come some way through the responses `all`. -/
structure Accounted (all : List Response) (p : Pipeline) : Prop where
  orderly : p.Orderly
  /-- Nothing is written but `all`, in order. -/
  sound : p.responses ++ p.owed <+: all
  /-- Nothing of `all` is lost, unless the parties are told to give up. -/
  complete : p.cancelled = false → p.responses ++ p.owed = all

theorem accounted_start (incoming : Incoming) :
    (start incoming).Accounted (ready :: replies incoming.ending incoming.requests) where
  orderly := ⟨nofun, nofun, nofun, nofun, nofun⟩
  sound := List.prefix_rfl
  complete := fun _ => rfl

theorem Step.accounted {all : List Response} (h : Step p m q) (hp : p.Accounted all) :
    q.Accounted all := by
  obtain rfl | hm := eq_or_ne m .giveUp
  · cases h with | giveUp idle told
    refine ⟨Step.orderly (.giveUp idle told) hp.orderly, ?_, ?_⟩
    · have written : p.responses <+: all := (List.prefix_append _ _).trans hp.sound
      simpa [responses, owed] using written
    · simp [told]
  · have same := h.responses_append_owed hp.orderly hm
    refine ⟨h.orderly hp.orderly, same ▸ hp.sound, fun untold => ?_⟩
    have notTold : m ≠ .cancel := by
      rintro rfl
      cases h
      cases untold
    rw [same, hp.complete (h.cancelled_eq notTold ▸ untold)]

theorem follow?_cons {moves : List Move} :
    p.follow? (m :: moves) = some q ↔ ∃ p', Step p m p' ∧ p'.follow? moves = some q := by
  simp [follow?, Option.bind_eq_some_iff, move?_eq_some_iff]

/-- **What every move of a schedule keeps, the schedule keeps.** -/
theorem follow?_induction {P : Pipeline → Prop} {moves : List Move}
    (step : ∀ m ∈ moves, ∀ p q, Step p m q → P p → P q) (run : p.follow? moves = some q)
    (hp : P p) : P q := by
  induction moves generalizing p with
  | nil => cases run; exact hp
  | cons m moves ih =>
    obtain ⟨p', first, run⟩ := follow?_cons.1 run
    exact ih (fun m hm => step m (.tail _ hm)) run (step m (.head _) p p' first hp)

theorem countP_add_work_le {moves : List Move} (run : p.follow? moves = some q) :
    moves.countP (· ≠ .cancel) + q.work ≤ p.work := by
  induction moves generalizing p with
  | nil => cases run; simp
  | cons m moves ih =>
    obtain ⟨p', first, run⟩ := follow?_cons.1 run
    have rest := ih run
    obtain rfl | hm := eq_or_ne m .cancel
    · cases first
      rw [List.countP_cons_of_neg (by simp)]
      exact rest
    · have less := first.work_lt hm
      rw [List.countP_cons_of_pos (by simp [hm])]
      omega

theorem exists_follow?_settle (p : Pipeline) :
    ∃ moves, .cancel ∉ moves ∧ p.follow? moves = some p.settle := by
  fun_induction settle p with
  | case1 p idle => exact ⟨[], by simp, rfl⟩
  | case2 p q next ih =>
    obtain ⟨m, hm, first⟩ := exists_step_of_next? next
    obtain ⟨moves, kept, run⟩ := ih
    exact ⟨m :: moves, by simp [hm.symm, kept], follow?_cons.2 ⟨q, first, run⟩⟩

theorem move?_settle (p : Pipeline) (hm : m ≠ .cancel) : p.settle.move? m = none := by
  fun_induction settle p with
  | case1 p idle =>
    refine List.findSome?_eq_none_iff.1 idle m ?_
    cases m with
    | cancel => exact absurd rfl hm
    | _ => decide
  | case2 p q next ih => exact ih

variable {incoming : Incoming} {moves : List Move}

theorem accounted_of_follow? (run : (start incoming).follow? moves = some p) :
    p.Accounted (ready :: replies incoming.ending incoming.requests) :=
  follow?_induction (fun _ _ _ _ step => step.accounted) run (accounted_start incoming)

theorem cancelled_of_follow? (run : (start incoming).follow? moves = some p)
    (untold : .cancel ∉ moves) : p.cancelled = false :=
  follow?_induction (P := fun p => p.cancelled = false)
    (fun _ hm _ _ step kept => (step.cancelled_eq fun h => untold (h ▸ hm)).trans kept) run rfl

theorem ready_prefix_of_follow? (run : (start incoming).follow? moves = some p) :
    [ready] <+: p.responses :=
  follow?_induction (P := fun p => [ready] <+: p.responses)
    (fun _ _ _ _ step written => written.trans step.responses_prefix) run List.prefix_rfl

/-- **Without being told to give up, an answerer that has stopped has written everything.** -/
theorem responses_of_follow? (run : (start incoming).follow? moves = some p)
    (untold : .cancel ∉ moves) (stopped : p.answerer = .stopped) :
    p.responses = ready :: replies incoming.ending incoming.requests := by
  have account := (accounted_of_follow? run).complete (cancelled_of_follow? run untold)
  simpa [owed, stopped] using account

end Pipeline

open Pipeline in
theorem Incoming.serve_eq (incoming : Incoming) :
    incoming.serve = ready :: replies incoming.ending incoming.requests := by
  obtain ⟨moves, untold, run⟩ := exists_follow?_settle (start incoming)
  refine responses_of_follow? run untold ?_
  by_contra busy
  obtain ⟨m, hm, possible⟩ := (accounted_of_follow? run).orderly.exists_move? busy
  simp [move?_settle _ hm] at possible

/-- **Every schedule writes the same responses in the same order**, and only one that is told to
give up can stop early. -/
theorem follow_keeps_order (incoming : Incoming) (moves : List Move) (p : Pipeline)
    (run : (Pipeline.start incoming).follow? moves = some p) :
    (∃ answers : List Response,
      (incoming.requests.takeWhile (·.type ≠ "close")).map Request.respond = answers.map some ∧
      incoming.serve = ready :: answers ++
        if (∃ r ∈ incoming.requests, r.type = "close") ∨ incoming.ending = .endOfInput then []
        else [.failure "decode" malformedText]) ∧
    [ready] <+: p.responses ∧ p.responses <+: incoming.serve ∧
    (.cancel ∉ moves → p.answerer = .stopped → p.responses = incoming.serve) ∧
    (p.answerer ≠ .stopped → ∃ m ≠ .cancel, (p.move? m).isSome) ∧
    moves.countP (· ≠ .cancel) ≤ 3 * incoming.requests.length + 4 := by
  have account := Pipeline.accounted_of_follow? run
  rw [incoming.serve_eq]
  refine ⟨?_, Pipeline.ready_prefix_of_follow? run, (List.prefix_append _ _).trans account.sound,
    Pipeline.responses_of_follow? run, account.orderly.exists_move?, ?_⟩
  · obtain ⟨answers, each, all⟩ := exists_replies_eq incoming.ending incoming.requests
    refine ⟨answers, each, ?_⟩
    rw [all]
    cases ending : incoming.ending <;> simp [Ending.report]
  · have bound := Pipeline.countP_add_work_le run
    have start : (Pipeline.start incoming).work = 3 * incoming.requests.length + 4 := rfl
    omega

/-- The end is noticed while the last request is still in the queue. -/
theorem follow_keeps_order_late :
    let run := (Pipeline.start ⟨[{ type := "check" }, { type := "tree" }], .malformed⟩).follow?
      [.decode, .pass, .decode, .receive, .pass, .decode, .notice, .drain, .conclude]
    ∃ p, run = some p ∧ p.answerer = .stopped ∧
      p.responses = [ready, .failure "check" malformedText, .failure "tree" malformedText,
        .failure "decode" malformedText] := by
  intro run
  obtain ⟨p, ran, stopped⟩ : ∃ p, run = some p ∧ p.answerer = .stopped := ⟨_, rfl, rfl⟩
  obtain ⟨⟨answers, each, served⟩, -, -, whole, -⟩ := follow_keeps_order _ _ p ran
  have answers_eq : answers =
      [.failure "check" malformedText, .failure "tree" malformedText] := by
    refine List.map_injective_iff.2 (fun _ _ => Option.some.inj) (each.symm.trans ?_)
    simp [Request.respond, answer, Payload.decode]
  refine ⟨p, ran, stopped, ?_⟩
  rw [whole (by decide) stopped, served, answers_eq]
  simp

end TapeLang.Server
