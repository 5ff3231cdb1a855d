import TapeLang.Proofs.Reference.Spelling

/-!
# Byte by byte and node by node

The run of a source and the run of its tree do the same in the same time. One task of the tree is
a stretch of bytes of the source: some that say nothing, and those of the node. Nothing is charged
and nothing is written before the last byte of the stretch.

* `Work.account`: where the source is when the tree is at a task.
* `Tracks`: the source is where the tree is.
* `Stretch`: the bytes of one task.
* **`Tracks.exists_stretch`**: every task is a stretch of bytes.
-/

namespace TapeLang.Reference

/-- Where the run of a source is when the run of the tree is at a task. -/
def Work.account (w : Work) (code : Bytes) (loops : List Bytes) : Account :=
  { config := ⟨code, loops, w.world⟩, backed := w.backed, furthest := w.backed
    elapsed := w.elapsed }

/-- The run of a source is where the run of the tree is. -/
structure Tracks (a : Account) (w : Work) : Prop where
  eq : a = w.account a.config.code a.config.loops
  pending : Pending a.config.code a.config.loops w.todo
  position : w.world.position.toNat ≤ w.backed

theorem Tracks.elapsed {a : Account} {w : Work} (h : Tracks a w) : a.elapsed = w.elapsed :=
  congrArg Account.elapsed h.eq

theorem Tracks.backed {a : Account} {w : Work} (h : Tracks a w) : a.backed = w.backed :=
  congrArg Account.backed h.eq

theorem Tracks.furthest {a : Account} {w : Work} (h : Tracks a w) : a.furthest = w.backed :=
  congrArg Account.furthest h.eq

/-- The run of a source is at a byte of the first task of a tree. -/
structure Within (a : Account) (w : Work) : Prop where
  elapsed : a.elapsed = w.elapsed
  output : a.config.world.output = w.world.output
  access : a.config.accesses →
    w.accesses ∧ a.config.lead = w.lead ∧ a.config.world.position = w.world.position

/-- The next `m` bytes are those of the first task. -/
structure Stretch (a : Account) (w : Work) (m : Nat) : Prop where
  pos : 0 < m
  tracks : Tracks (Account.next^[m] a) w.next
  within : ∀ i < m, Within (Account.next^[i] a) w
  forward : ∀ i < m, (Account.next^[i] a).config.endsForward → i + 1 = m
  access : w.accesses → ∃ i < m, (Account.next^[i] a).config.accesses

theorem Config.accesses_cons {b : UInt8} {code : Bytes} {loops : List Bytes} {world : World} :
    Config.accesses ⟨b :: code, loops, world⟩ ↔ b ∈ utf8 "+-.,[]" := by
  simp [Config.accesses]

/-! ## Bytes that say nothing -/

variable {w : Work} {code body rest : Bytes} {loops : List Bytes} {b : UInt8} {m n : Nat}

theorem Config.not_accesses_skip (ho : b ≠ Text.ascii '[') (hc : b ≠ Text.ascii ']')
    (hk : Kind.ofByte? b = none) {world : World} :
    ¬ Config.accesses ⟨b :: code, loops, world⟩ := by
  obtain ⟨h₁, h₂, -, -, h₅, h₆⟩ := ne_of_ofByte?_eq_none hk
  have hb : utf8 "+-.,[]" = [Text.ascii '+', Text.ascii '-', Text.ascii '.', Text.ascii ',',
      Text.ascii '[', Text.ascii ']'] := by decide
  simp [Config.accesses_cons, hb, ho, hc, h₁, h₂, h₅, h₆]

theorem Config.not_endsForward (h : b ≠ Text.ascii '>') {world : World} :
    ¬ Config.endsForward ⟨b :: code, loops, world⟩ := by
  rintro ⟨hb, -⟩
  exact h (Option.some.inj hb)

/-- A byte that ends no forward move and reaches no new cell. -/
theorem Work.next_account {code' : Bytes} {loops' : List Bytes} {world : World}
    (hf : ¬ Config.endsForward ⟨code, loops, w.world⟩)
    (hn : Config.next ⟨code, loops, w.world⟩ = ⟨code', loops', world⟩)
    (hp : world.position.toNat ≤ w.backed) :
    (w.account code loops).next =
      { config := ⟨code', loops', world⟩, backed := w.backed, furthest := w.backed
        elapsed := w.elapsed + Config.cost ⟨code, loops, w.world⟩ w.backed } := by
  simp only [Account.next, account, hn, if_neg hf, max_eq_left hp]

theorem Work.next_skip (hp : w.world.position.toNat ≤ w.backed) (ho : b ≠ Text.ascii '[')
    (hc : b ≠ Text.ascii ']') (hk : Kind.ofByte? b = none) :
    (w.account (b :: code) loops).next = w.account code loops := by
  obtain ⟨h₁, h₂, h₃, h₄, h₅, h₆⟩ := ne_of_ofByte?_eq_none hk
  have hcost : Config.cost ⟨b :: code, loops, w.world⟩ w.backed = 0 := by
    simp only [Config.cost, ho, hc, h₁, h₂, h₃, h₄, h₅, h₆, or_false, if_false, ite_self]
  have hn : Config.next ⟨b :: code, loops, w.world⟩ = ⟨code, loops, w.world⟩ := by
    rw [Config.next_perform ho hc, perform_skip hk]
  rw [next_account (Config.not_endsForward h₃) hn hp, hcost]
  rfl

theorem within_skip (ho : b ≠ Text.ascii '[') (hc : b ≠ Text.ascii ']')
    (hk : Kind.ofByte? b = none) : Within (w.account (b :: code) loops) w :=
  ⟨rfl, rfl, fun h => absurd h (Config.not_accesses_skip ho hc hk)⟩

/-- A stretch may begin with a byte that says nothing. -/
theorem Stretch.skip (hp : w.world.position.toNat ≤ w.backed) (ho : b ≠ Text.ascii '[')
    (hc : b ≠ Text.ascii ']') (hk : Kind.ofByte? b = none)
    (h : Stretch (w.account code loops) w m) : Stretch (w.account (b :: code) loops) w (m + 1) := by
  have hnext : ∀ i, Account.next^[i + 1] (w.account (b :: code) loops) =
      Account.next^[i] (w.account code loops) := by
    intro i
    rw [Function.iterate_succ_apply, Work.next_skip hp ho hc hk]
  refine ⟨Nat.succ_pos m, hnext m ▸ h.tracks, ?_, ?_, ?_⟩
  · rintro (_ | i) hi
    · exact within_skip ho hc hk
    · rw [hnext]
      exact h.within i (Nat.lt_of_succ_lt_succ hi)
  · rintro (_ | i) hi hf
    · exact absurd hf (Config.not_endsForward (ne_of_ofByte?_eq_none hk).2.2.1)
    · rw [hnext] at hf
      rw [h.forward i (Nat.lt_of_succ_lt_succ hi) hf]
  · intro ha
    obtain ⟨i, hi, hai⟩ := h.access ha
    exact ⟨i + 1, Nat.succ_lt_succ hi, hnext i ▸ hai⟩

/-! ## Single bytes -/

theorem Stretch.one (ht : Tracks (w.account (b :: code) loops).next w.next) (ha : w.accesses)
    (hl : w.lead = Config.lead ⟨b :: code, loops, w.world⟩) (hb : b ∈ utf8 "+-.,[]") :
    Stretch (w.account (b :: code) loops) w 1 := by
  refine ⟨Nat.one_pos, ht, ?_, ?_, fun _ => ⟨0, Nat.one_pos, Config.accesses_cons.mpr hb⟩⟩
  · intro i hi
    obtain rfl : i = 0 := by omega
    exact ⟨rfl, rfl, fun _ => ⟨ha, hl.symm, rfl⟩⟩
  · intro i hi _
    omega

/-- A bracket that leaves the loop if the cell is zero, and else goes to the body. -/
theorem tracks_enter {code : Bytes} {loops' : List Bytes} {children : List Node} {cost : Nat}
    {more : List Task} (hp : w.world.position.toNat ≤ w.backed)
    (hbody : Spells body children (Text.ascii ']' :: rest)) (hrest : Pending rest loops more)
    (hf : ¬ Config.endsForward ⟨code, loops', w.world⟩)
    (hcost : Config.cost ⟨code, loops', w.world⟩ w.backed = cost)
    (hn : Config.next ⟨code, loops', w.world⟩ =
      if w.world.cell = 0 then ⟨rest, loops, w.world⟩ else ⟨body, body :: loops, w.world⟩) :
    Tracks (w.account code loops').next (w.enter children more cost) := by
  by_cases hz : w.world.cell = 0
  · rw [if_pos hz] at hn
    rw [Work.next_account hf hn hp, hcost]
    refine ⟨rfl, ?_, hp⟩
    rw [Work.enter, if_pos hz]
    exact hrest
  · rw [if_neg hz] at hn
    rw [Work.next_account hf hn hp, hcost]
    refine ⟨rfl, ?_, hp⟩
    rw [Work.enter, if_neg hz]
    exact .inside hbody hbody hrest

theorem stretch_open {children : List Node} {count : Int64} {loc : Location} {more : List Task}
    (hp : w.world.position.toNat ≤ w.backed)
    (hw : w.todo = .node ⟨.loop, count, children, loc⟩ :: more)
    (hbody : Spells body children (Text.ascii ']' :: rest)) (hrest : Pending rest loops more) :
    Stretch (w.account (Text.ascii '[' :: body) loops) w 1 := by
  have hskip : afterLoop 0 body = rest := afterLoop_spells hbody 0
  have ht : Tracks (w.account (Text.ascii '[' :: body) loops).next w.next := by
    rw [Work.next_loop hw]
    refine tracks_enter hp hbody hrest (Config.not_endsForward (by decide)) rfl ?_
    rw [Config.next_open, hskip]
  refine .one ht ?_ ?_ (by decide)
  · rw [Work.accesses, hw]
    trivial
  · rw [Work.lead, hw]
    rfl

theorem stretch_close {children : List Node} {more : List Task}
    (hp : w.world.position.toNat ≤ w.backed) (hw : w.todo = .again children :: more)
    (hbody : Spells body children (Text.ascii ']' :: rest)) (hrest : Pending rest loops more) :
    Stretch (w.account (Text.ascii ']' :: rest) (body :: loops)) w 1 := by
  have ht : Tracks (w.account (Text.ascii ']' :: rest) (body :: loops)).next w.next := by
    rw [Work.next_again hw]
    exact tracks_enter hp hbody hrest (Config.not_endsForward (by decide)) rfl Config.next_close
  refine .one ht ?_ ?_ (by decide)
  · rw [Work.accesses, hw]
    trivial
  · rw [Work.lead, hw]
    rfl

theorem stretch_single {kind : Kind} {children : List Node} {count : Int64} {loc : Location}
    {more : List Task} (hp : w.world.position.toNat ≤ w.backed)
    (hw : w.todo = .node ⟨kind, count, children, loc⟩ :: more)
    (hk : Kind.ofByte? kind.byte = some kind) (hco : kind.coalesces = false)
    (hrest : Pending code loops more) : Stretch (w.account (kind.byte :: code) loops) w 1 := by
  obtain ⟨ho, hc⟩ := byte_ne_brackets hk
  have hn := Work.next_operation (ne_loop_of_byte hk) hw
  cases kind with
  | loop | unknown => cases hk
  | increment | decrement | moveForward | moveBackward => cases hco
  | write =>
    have ht : Tracks (w.account (Kind.write.byte :: code) loops).next w.next := by
      rw [Work.next_account (Config.not_endsForward (by decide)) (Config.next_perform ho hc) hp, hn]
      exact ⟨rfl, hrest, hp⟩
    refine .one ht ?_ ?_ (by decide)
    · rw [Work.accesses, hw]
      trivial
    · rw [Work.lead, hw]
      rfl
  | read =>
    have ht : Tracks (w.account (Kind.read.byte :: code) loops).next w.next := by
      have hp' : (w.world.perform Kind.read.byte).position.toNat ≤ w.backed := by
        change w.world.read.position.toNat ≤ w.backed
        rwa [World.position_read]
      rw [Work.next_account (Config.not_endsForward (by decide)) (Config.next_perform ho hc) hp',
        hn]
      exact ⟨rfl, hrest, hp'⟩
    refine .one ht ?_ ?_ (by decide)
    · rw [Work.accesses, hw]
      trivial
    · rw [Work.lead, hw]
      rfl

/-! ## Runs of equal bytes -/

/-- How far a byte of a kind that coalesces moves. -/
def shift : Kind → Int
  | .moveForward => 1
  | .moveBackward => -1
  | _ => 0

theorem position_iterate {kind : Kind} (hco : kind.coalesces) (i : Nat) (world : World) :
    ((World.perform kind.byte)^[i] world).position = world.position + i * shift kind := by
  cases kind with
  | write | read | loop | unknown => cases hco
  | increment =>
    change ((World.perform (Text.ascii '+'))^[i] world).position = world.position + i * 0
    rw [World.iterate_increment, Int.mul_zero, Int.add_zero]
    rfl
  | decrement =>
    change ((World.perform (Text.ascii '-'))^[i] world).position = world.position + i * 0
    rw [World.iterate_decrement, Int.mul_zero, Int.add_zero]
    rfl
  | moveForward =>
    change ((World.perform (Text.ascii '>'))^[i] world).position = world.position + i * 1
    rw [World.iterate_forward, Int.mul_one]
    rfl
  | moveBackward =>
    change ((World.perform (Text.ascii '<'))^[i] world).position = world.position + i * -1
    rw [World.iterate_backward, Int.mul_neg_one]
    rfl

theorem output_iterate {kind : Kind} (hco : kind.coalesces) (i : Nat) (world : World) :
    ((World.perform kind.byte)^[i] world).output = world.output := by
  induction i with
  | zero => rfl
  | succ i ih =>
    rw [Function.iterate_succ_apply', ← ih]
    cases kind with
    | write | read | loop | unknown => cases hco
    | _ => rfl

theorem Account.next_repeat {kind : Kind} (hk : Kind.ofByte? kind.byte = some kind)
    (hco : kind.coalesces) {world : World} {backed furthest elapsed : Nat} :
    Account.next ⟨⟨kind.byte :: kind.byte :: code, loops, world⟩, backed, furthest, elapsed⟩ =
      ⟨⟨kind.byte :: code, loops, world.perform kind.byte⟩, backed,
        max furthest (world.perform kind.byte).position.toNat, elapsed⟩ := by
  obtain ⟨ho, hc⟩ := byte_ne_brackets hk
  have hf : ¬ Config.endsForward ⟨kind.byte :: kind.byte :: code, loops, world⟩ := by
    rintro ⟨h, h'⟩
    exact h' h
  simp only [Account.next, Config.next_perform ho hc, if_neg hf]
  cases kind with
  | write | read | loop | unknown => cases hco
  | _ => rfl

theorem Account.next_last {kind : Kind} (hk : Kind.ofByte? kind.byte = some kind)
    (hco : kind.coalesces) (hh : code.head? ≠ some kind.byte) {world : World}
    {backed furthest elapsed : Nat} :
    Account.next ⟨⟨kind.byte :: code, loops, world⟩, backed, furthest, elapsed⟩ =
      ⟨⟨code, loops, world.perform kind.byte⟩,
        if kind = .moveForward then max backed (world.position + 1).toNat else backed,
        max furthest (world.perform kind.byte).position.toNat,
        elapsed + if kind = .moveForward then 4 + 3 * ((world.position + 1).toNat - backed)
          else 1⟩ := by
  obtain ⟨ho, hc⟩ := byte_ne_brackets hk
  simp only [Account.next, Config.next_perform ho hc]
  cases kind with
  | write | read | loop | unknown => cases hco
  | moveForward =>
    have hf : Config.endsForward ⟨Kind.moveForward.byte :: code, loops, world⟩ := ⟨rfl, hh⟩
    have hcost : Config.cost ⟨Kind.moveForward.byte :: code, loops, world⟩ backed =
        4 + 3 * ((world.position + 1).toNat - backed) := if_neg hh
    rw [if_pos hf, if_pos rfl, if_pos rfl, hcost]
    rfl
  | increment =>
    have hcost : Config.cost ⟨Kind.increment.byte :: code, loops, world⟩ backed = 1 := if_neg hh
    rw [if_neg (Config.not_endsForward (by decide)), hcost]
    rfl
  | decrement =>
    have hcost : Config.cost ⟨Kind.decrement.byte :: code, loops, world⟩ backed = 1 := if_neg hh
    rw [if_neg (Config.not_endsForward (by decide)), hcost]
    rfl
  | moveBackward =>
    have hcost : Config.cost ⟨Kind.moveBackward.byte :: code, loops, world⟩ backed = 1 :=
      if_neg hh
    rw [if_neg (Config.not_endsForward (by decide)), hcost]
    rfl

/-- What is reached in a run of moves is its start or its end. -/
theorem max_position_iterate {kind : Kind} (hco : kind.coalesces) {world : World} {furthest : Nat}
    (hp : world.position.toNat ≤ furthest) (i : Nat) :
    max (max furthest ((World.perform kind.byte)^[i] world).position.toNat)
        ((World.perform kind.byte)^[i + 1] world).position.toNat =
      max furthest ((World.perform kind.byte)^[i + 1] world).position.toNat := by
  rw [position_iterate hco, position_iterate hco]
  cases kind with
  | write | read | loop | unknown => cases hco
  | _ =>
    simp only [shift]
    omega

theorem iterate_run {kind : Kind} (hk : Kind.ofByte? kind.byte = some kind) (hco : kind.coalesces)
    {world : World} {backed furthest elapsed : Nat} (hp : world.position.toNat ≤ furthest)
    {i : Nat} (hi : i ≤ n) :
    Account.next^[i] ⟨⟨kind.byte :: (List.replicate n kind.byte ++ code), loops, world⟩, backed,
        furthest, elapsed⟩ =
      ⟨⟨kind.byte :: (List.replicate (n - i) kind.byte ++ code), loops,
        (World.perform kind.byte)^[i] world⟩, backed,
        max furthest ((World.perform kind.byte)^[i] world).position.toNat, elapsed⟩ := by
  induction i with
  | zero =>
    rw [Function.iterate_zero_apply, Function.iterate_zero_apply, max_eq_left hp]
    rfl
  | succ i ih =>
    have hrep : n - i = (n - (i + 1)) + 1 := by omega
    rw [Function.iterate_succ_apply', ih (by omega), hrep, List.replicate_succ, List.cons_append,
      Account.next_repeat hk hco, ← Function.iterate_succ_apply' (World.perform kind.byte),
      max_position_iterate hco hp]

theorem Work.iterate_whole {kind : Kind} {count : Int64} (loops : List Bytes) (more : List Task)
    (hp : w.world.position.toNat ≤ w.backed) (hk : Kind.ofByte? kind.byte = some kind)
    (hco : kind.coalesces) (hn : Node.repeats count = n + 1) (hh : code.head? ≠ some kind.byte) :
    Account.next^[n + 1]
        (w.account (kind.byte :: (List.replicate n kind.byte ++ code)) loops) =
      (w.act kind count more).account code loops ∧
    (w.act kind count more).world.position.toNat ≤ (w.act kind count more).backed := by
  have hact : w.world.act kind count = (World.perform kind.byte)^[n + 1] w.world := by
    rw [World.act, times, if_pos hco, hn]
  have hfurthest := max_position_iterate hco hp n
  have hend := position_iterate hco n w.world
  have hlast := position_iterate hco (n + 1) w.world
  rw [Function.iterate_succ_apply', account, iterate_run hk hco hp le_rfl, Nat.sub_self,
    List.replicate_zero, List.nil_append, Account.next_last hk hco hh,
    ← Function.iterate_succ_apply' (World.perform kind.byte), hfurthest]
  simp only [act, account, hact, operationCost]
  rw [hend, hlast]
  cases kind with
  | write | read | loop | unknown => cases hco
  | moveForward =>
    simp only [shift, if_true, hn, Int.mul_one, Int.natCast_succ, Int.add_assoc]
    exact ⟨trivial, le_max_right _ _⟩
  | increment | decrement =>
    simp only [shift, Int.mul_zero, Int.add_zero, max_eq_left hp]
    exact ⟨rfl, hp⟩
  | moveBackward =>
    have hback : (w.world.position + ((n + 1 : Nat) : Int) * -1).toNat ≤ w.backed := by omega
    simp only [shift, max_eq_left hback]
    exact ⟨rfl, hback⟩

theorem stretch_run {kind : Kind} {children : List Node} {count : Int64} {loc : Location}
    {more : List Task} (hp : w.world.position.toNat ≤ w.backed)
    (hw : w.todo = .node ⟨kind, count, children, loc⟩ :: more)
    (hk : Kind.ofByte? kind.byte = some kind) (hco : kind.coalesces)
    (hn : Node.repeats count = n + 1) (hh : code.head? ≠ some kind.byte)
    (hrest : Pending code loops more) :
    Stretch (w.account (kind.byte :: (List.replicate n kind.byte ++ code)) loops) w (n + 1) := by
  obtain ⟨hwhole, hle⟩ := Work.iterate_whole loops more hp hk hco hn hh
  refine ⟨Nat.succ_pos n, ?_, ?_, ?_, ?_⟩
  · rw [Work.next_operation (ne_loop_of_byte hk) hw, hwhole]
    exact ⟨rfl, hrest, hle⟩
  · intro i hi
    rw [Work.account, iterate_run hk hco hp (Nat.le_of_lt_succ hi)]
    refine ⟨rfl, output_iterate hco i w.world, fun ha => ?_⟩
    rw [Config.accesses_cons] at ha
    rw [Work.accesses, Work.lead, hw]
    have hpos := position_iterate hco i w.world
    cases kind with
    | write | read | loop | unknown => cases hco
    | moveForward | moveBackward => exact absurd ha (by decide)
    | increment | decrement => exact ⟨trivial, rfl, by simpa [shift] using hpos⟩
  · intro i hi hf
    rw [Work.account, iterate_run hk hco hp (Nat.le_of_lt_succ hi)] at hf
    by_contra hne
    have hrep : n - i = (n - i - 1) + 1 := by omega
    rw [hrep, List.replicate_succ] at hf
    exact hf.2 hf.1
  · intro ha
    refine ⟨0, Nat.succ_pos n, Config.accesses_cons.mpr ?_⟩
    rw [Work.accesses, hw] at ha
    cases kind with
    | write | read | loop | unknown => cases hco
    | moveForward | moveBackward => exact absurd ha id
    | increment | decrement => decide

/-! ## Tasks as stretches -/

/-- Bytes that spell a node first are a stretch for it. -/
theorem exists_stretch_of_spells {n : Node} {nodes : List Node} {more : List Task}
    (hs : Spells code (n :: nodes) rest) (hp : w.world.position.toNat ≤ w.backed)
    (hw : w.todo = .node n :: more)
    (hrest : ∀ code', Spells code' nodes rest → Pending code' loops more) :
    ∃ m, Stretch (w.account code loops) w m := by
  generalize hns : n :: nodes = ns at hs
  induction hs with
  | done => cases hns
  | skip ho hc hk _ ih =>
    obtain ⟨m, hm⟩ := ih hrest hns
    exact ⟨m + 1, hm.skip hp ho hc hk⟩
  | run hk hco hn hh hs _ =>
    cases hns
    exact ⟨_, stretch_run hp hw hk hco hn hh (hrest _ hs)⟩
  | single hk hco hs _ =>
    cases hns
    exact ⟨_, stretch_single hp hw hk hco (hrest _ hs)⟩
  | loop hb hs _ _ =>
    cases hns
    exact ⟨_, stretch_open hp hw hb (hrest _ hs)⟩

/-- Bytes that spell no node are a stretch up to the closing bracket. -/
theorem exists_stretch_of_end {children : List Node} {more : List Task}
    (hs : Spells code [] (Text.ascii ']' :: rest)) (hp : w.world.position.toNat ≤ w.backed)
    (hw : w.todo = .again children :: more)
    (hbody : Spells body children (Text.ascii ']' :: rest)) (hrest : Pending rest loops more) :
    ∃ m, Stretch (w.account code (body :: loops)) w m := by
  generalize hns : [] = ns at hs
  generalize hr : Text.ascii ']' :: rest = r at hs
  induction hs with
  | done =>
    subst hr
    exact ⟨_, stretch_close hp hw hbody hrest⟩
  | skip ho hc hk _ ih =>
    obtain ⟨m, hm⟩ := ih hns hr
    exact ⟨m + 1, hm.skip hp ho hc hk⟩
  | run | single | loop => cases hns

/-- **Every task is a stretch of bytes.** -/
theorem Tracks.exists_stretch {a : Account} (h : Tracks a w) (ht : w.todo ≠ []) :
    ∃ m, Stretch a w m := by
  obtain ⟨heq, hpending, hp⟩ := h
  rw [heq]
  generalize a.config.code = code, a.config.loops = loops at hpending
  generalize hw : w.todo = todo at hpending ht
  cases hpending with
  | @last _ nodes hs =>
    rcases nodes with _ | ⟨n, nodes⟩
    · exact absurd rfl ht
    · exact exists_stretch_of_spells hs hp hw fun _ => .last
  | @inside _ _ _ _ nodes _ _ hs hb hr =>
    rcases nodes with _ | ⟨n, nodes⟩
    · exact exists_stretch_of_end hs hp hw hb hr
    · exact exists_stretch_of_spells hs hp hw fun _ hs' => .inside hs' hb hr

end TapeLang.Reference
