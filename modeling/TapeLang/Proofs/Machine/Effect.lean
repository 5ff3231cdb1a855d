import TapeLang.Proofs.Machine.Operations

/-!
# What one instruction can do

An instruction looks at few bytes of memory and changes memory by one write. Which bytes these are
can be told from the state before it, and all of them are mapped.

* `Span`: bytes in memory; `loads`, `stores`: those that an instruction may look at or write.
* `Effect`: what memory has to do with a result.
* **`effect_step`**: memory matters to an instruction at its loads and changes at its stores.
* **`inStack_of_mem_loads`**: what an instruction looks at is mapped.
-/

namespace TapeLang.Machine

attribute [local irreducible] Memory.store Memory.set

/-- Bytes in memory, from an address on. -/
structure Span where
  address : UInt64
  size : Nat

instance : Membership UInt64 Span where
  mem x a := ∃ k < x.size, a = x.address + UInt64.ofNat k

theorem mem_span_succ {a x : UInt64} {n : Nat} :
    x ∈ (⟨a, n + 1⟩ : Span) ↔ x = a ∨ x ∈ (⟨a + 1, n⟩ : Span) := by
  have hadd : ∀ k, a + 1 + UInt64.ofNat k = a + UInt64.ofNat (k + 1) := by
    intro k
    rw [UInt64.ofNat_add, UInt64.add_assoc, UInt64.add_comm 1]
    rfl
  constructor
  · rintro ⟨_ | k, hk, rfl⟩
    · exact .inl (UInt64.add_zero a)
    · exact .inr ⟨k, Nat.lt_of_succ_lt_succ hk, (hadd k).symm⟩
  · rintro (rfl | ⟨k, hk, rfl⟩)
    · exact ⟨0, Nat.succ_pos n, (UInt64.add_zero x).symm⟩
    · exact ⟨k + 1, Nat.succ_lt_succ hk, hadd k⟩

theorem mem_span_of_le {a x : UInt64} {n n' : Nat} (h : x ∈ (⟨a, n⟩ : Span)) (hn : n ≤ n') :
    x ∈ (⟨a, n'⟩ : Span) := by
  obtain ⟨k, hk, rfl⟩ := h
  exact ⟨k, hk.trans_le hn, rfl⟩

/-! ## Writes and loads -/

/-- The bytes of a number, the lowest first. -/
def bytesOf : (count : Nat) → UInt64 → Bytes
  | 0, _ => []
  | count + 1, v => v.toUInt8 :: bytesOf count (v >>> 8)

theorem length_bytesOf (n : Nat) (v : UInt64) : (bytesOf n v).length = n := by
  induction n generalizing v with
  | zero => rfl
  | succ n ih => rw [bytesOf, List.length_cons, ih]

namespace Memory

variable {m m' : Memory} {a x v : UInt64}

theorem get_empty (a : UInt64) : get {} a = 0 := by
  simp [get]

theorem write_nil : m.write a [] = m := rfl

theorem write_cons (b : UInt8) (data : Bytes) :
    m.write a (b :: data) = (m.set a b).write (a + 1) data := by
  delta write
  rfl

theorem store_eq_write (n : Nat) : m.store a n v = m.write a (bytesOf n v) := by
  induction n generalizing m a v with
  | zero =>
    delta store
    rfl
  | succ n ih => rw [store_succ, ih, bytesOf, write_cons]

theorem get_write_of_notMem {data : Bytes} (h : x ∉ (⟨a, data.length⟩ : Span)) :
    (m.write a data).get x = m.get x := by
  induction data generalizing m a with
  | nil => rw [write_nil]
  | cons b data ih =>
    rw [List.length_cons, mem_span_succ, not_or] at h
    rw [write_cons, ih h.2, get_set, if_neg h.1]

theorem load_congr {n : Nat} (h : ∀ x ∈ (⟨a, n⟩ : Span), m.get x = m'.get x) :
    m.load a n = m'.load a n := by
  induction n generalizing a with
  | zero => rfl
  | succ n ih =>
    rw [load, load, ih fun x hx => h x (mem_span_succ.mpr (.inr hx)),
      h a (mem_span_succ.mpr (.inl rfl))]

theorem slice_congr {n : Nat} (h : ∀ x ∈ (⟨a, n⟩ : Span), m.get x = m'.get x) :
    m.slice a n = m'.slice a n := by
  unfold slice
  exact List.map_congr_left fun k hk => h _ ⟨k, List.mem_range.mp hk, rfl⟩

/-- Two memories have the same bytes there. -/
def Agrees (m m' : Memory) (spans : List Span) : Prop :=
  ∀ x ∈ spans, ∀ b ∈ x, m.get b = m'.get b

end Memory

attribute [local irreducible] Memory.write

/-! ## Accesses that are allowed -/

/-- A byte of the stack. -/
def State.InStack (s : State) (a : UInt64) : Prop := s.low ≤ a ∧ a < stackTop

/-- The bytes of an access, if it is allowed. -/
def State.granted (s : State) (a : UInt64) (size : Int64) : List Span :=
  if s.mapped a size.toUInt64 then [⟨a, size.toInt.toNat⟩] else []

variable {s : State} {arch : Arch} {i : Instr Nat} {position : Nat}

theorem State.mapped_iff {a size : UInt64} :
    s.mapped a size = true ↔ s.low ≤ a ∧ a.toNat + size.toNat ≤ stackTop.toNat := by
  refine ⟨fun h => ?_, fun h => State.mapped_of_le h.1 h.2⟩
  simp only [State.mapped, Bool.not_eq_true', Bool.or_eq_false_iff, decide_eq_false_iff_not,
    UInt64.not_lt] at h
  obtain ⟨⟨hlow, htop⟩, hwrap⟩ := h
  refine ⟨hlow, ?_⟩
  -- The sum is not less than the address, so it has not wrapped.
  rw [UInt64.le_iff_toNat_le, UInt64.toNat_add] at htop hwrap
  have := a.toNat_lt
  have := size.toNat_lt
  omega

theorem toInt_of_small {size : Int64} (h : size.toUInt64.toNat < 2 ^ 63) :
    size.toInt = size.toUInt64.toNat := by
  change size.toBitVec.toInt = size.toBitVec.toNat
  change size.toBitVec.toNat < 2 ^ 63 at h
  rw [BitVec.toInt_eq_toNat_cond]
  split <;> omega

theorem toNat_toInt_of_small {size : Int64} (h : size.toUInt64.toNat < 2 ^ 63) :
    size.toInt.toNat = size.toUInt64.toNat := by
  rw [toInt_of_small h, Int.toNat_natCast]

/-- The bytes of an allowed access are bytes of the stack, however large its size. -/
theorem State.inStack_of_granted {a b : UInt64} {size : Int64} {x : Span}
    (hx : x ∈ s.granted a size) (hb : b ∈ x) : s.InStack b := by
  unfold State.granted at hx
  split_ifs at hx with hm
  swap
  · cases hx
  obtain rfl := List.mem_singleton.mp hx
  obtain ⟨hlow, htop⟩ := State.mapped_iff.mp hm
  have htop' := toNat_stackTop
  obtain ⟨k, hk, rfl⟩ := hb
  change k < size.toInt.toNat at hk
  rw [toNat_toInt_of_small (by omega)] at hk
  have hadd : (a + UInt64.ofNat k).toNat = a.toNat + k := by
    rw [UInt64.toNat_add, UInt64.toNat_ofNat_of_lt' (show k < 2 ^ 64 by omega),
      Nat.mod_eq_of_lt (by omega)]
  rw [State.InStack, UInt64.lt_iff_toNat_lt, UInt64.le_iff_toNat_le, hadd]
  rw [UInt64.le_iff_toNat_le] at hlow
  omega

theorem State.mem_granted_of_check {a : UInt64} {size : Int64} {u : Unit}
    (h : s.check i a size = .ok u) : (⟨a, size.toInt.toNat⟩ : Span) ∈ s.granted a size := by
  unfold State.check at h
  split_ifs at h with hm
  rw [State.granted, if_pos hm]
  exact List.mem_singleton_self _

/-- The bytes that an operand stands for, if they may be accessed. -/
def Operand.span (s : State) (arch : Arch) (w : Width) : Operand Nat → List Span
  | .memory base => s.granted (s.address arch base) (Int64.ofNat w.bytes)
  | _ => []

theorem toNat_bytes (w : Width) : (Int64.ofNat w.bytes).toInt.toNat = w.bytes := by
  cases w <;> rfl

/-- The buffer of a call that reads or writes, if it may be accessed. -/
def State.buffer (s : State) (arch : Arch) : List Span :=
  s.granted (s.address arch (callTable arch).arguments.2.1)
    (s.address arch (callTable arch).arguments.2.2).toInt64

/-- Where the stack pointer goes with a push. -/
def State.pushTarget (s : State) (arch : Arch) (w : Width) : UInt64 :=
  (wordWidth arch).mask (s.registers.sp - UInt64.ofNat w.bytes)

/-- The state after a push, the pushed value apart. -/
def State.pushed (s : State) (sp : UInt64) : State :=
  { s with
    registers := { s.registers with sp }
    low := if sp < s.low then sp else s.low
    pushes := s.pushes + 1 }

/-- The bytes that an instruction may look at. -/
def loads (arch : Arch) (s : State) (i : Instr Nat) : List Span :=
  match i.op with
  | .push width source => source.span s arch (width.getD (wordWidth arch))
  | .mov width source target => source.span s arch (operandWidth arch width source target)
  | .arith _ width source target =>
    source.span s arch (operandWidth arch width source target) ++
      target.span s arch (operandWidth arch width source target)
  | .jump _ _ => []
  | .syscall | .interrupt _ =>
    if s.address arch .ax = (callTable arch).write then s.buffer arch else []

/-- The bytes that a push writes, in the part of the stack that it adds if need be. -/
def State.pushSpan (s : State) (arch : Arch) (i : Instr Nat) (w : Width) (source : Operand Nat) :
    List Span :=
  match s.read arch i w source with
  | .error _ => []
  | .ok _ =>
    (s.pushed (s.pushTarget arch w)).granted (s.pushTarget arch w) (Int64.ofNat w.bytes)

/-- The bytes that an instruction may write. -/
def stores (arch : Arch) (s : State) (i : Instr Nat) : List Span :=
  match i.op with
  | .push width source => s.pushSpan arch i (width.getD (wordWidth arch)) source
  | .mov width source target => target.span s arch (operandWidth arch width source target)
  | .arith f width source target =>
    if f = .cmp then [] else target.span s arch (operandWidth arch width source target)
  | .jump _ _ => []
  | .syscall | .interrupt _ =>
    if s.address arch .ax = (callTable arch).read then s.buffer arch else []

/-! ## Effects on memory -/

/-- A result depends on memory at some bytes only, and changes it by one write at others. -/
def Effect (s : State) (loads stores : List Span) (f : State → State × Next) : Prop :=
  ∃ a data, (data ≠ [] → ∃ x ∈ stores, x.address = a ∧ data.length ≤ x.size) ∧
    ∀ m : Memory, m.Agrees s.memory loads →
      f { s with memory := m } = ({ (f s).1 with memory := m.write a data }, (f s).2)

section Effects

variable {loads stores : List Span} {f g : State → State × Next}

theorem Effect.of_eq
    (h : ∀ m : Memory, m.Agrees s.memory loads →
      f { s with memory := m } = g { s with memory := m })
    (hg : Effect s loads stores g) : Effect s loads stores f := by
  obtain ⟨a, data, hspan, hm⟩ := hg
  have hs : f s = g s := h s.memory fun _ _ _ _ => rfl
  exact ⟨a, data, hspan, fun m hmem => by rw [h m hmem, hm m hmem, hs]⟩

theorem Effect.of_quiet
    (h : ∀ m : Memory, m.Agrees s.memory loads →
      f { s with memory := m } = ({ (f s).1 with memory := m }, (f s).2)) :
    Effect s loads stores f := by
  refine ⟨0, [], fun h => absurd rfl h, fun m hm => ?_⟩
  rw [Memory.write_nil, h m hm]

theorem Effect.of_stop (next : Next)
    (h : ∀ m : Memory, m.Agrees s.memory loads →
      f { s with memory := m } = ({ s with memory := m }, next)) :
    Effect s loads stores f :=
  .of_eq (g := fun s => (s, next)) h (.of_quiet fun _ _ => rfl)

end Effects

/-! ## Operands -/

theorem State.check_memory (m : Memory) (a : UInt64) (size : Int64) :
    State.check { s with memory := m } i a size = s.check i a size := rfl

theorem State.address_memory (m : Memory) (base : Reg) :
    State.address { s with memory := m } arch base = s.address arch base := rfl

theorem State.checkWrite_memory (m : Memory) (w : Width) (o : Operand Nat) :
    State.checkWrite { s with memory := m } arch i w o = s.checkWrite arch i w o := by
  cases o <;> rfl

theorem State.read_eq (w : Width) (base : Reg) :
    s.read arch i w (.memory base) = (s.check i (s.address arch base) (Int64.ofNat w.bytes)).map
      fun _ => s.memory.load (s.address arch base) w.bytes := by
  simp only [State.read]
  rcases s.check i (s.address arch base) (Int64.ofNat w.bytes) with e | u <;> rfl

theorem read_memory {w : Width} {o : Operand Nat} {m : Memory}
    (h : m.Agrees s.memory (o.span s arch w)) :
    State.read { s with memory := m } arch i w o = s.read arch i w o := by
  cases o with
  | immediate | register | label => rfl
  | memory base =>
    rw [State.read_eq, State.read_eq, State.check_memory, State.address_memory]
    rcases hc : s.check i (s.address arch base) (Int64.ofNat w.bytes) with e | u
    · simp only [Except.map]
    · have hx := State.mem_granted_of_check hc
      rw [toNat_bytes] at hx
      rw [Memory.load_congr fun b hb => h _ hx b hb]

theorem effect_write {w : Width} {target : Operand Nat} {spans : List Span} {u : Unit}
    (hc : s.checkWrite arch i w target = .ok u) (v : UInt64) (zero carry : Bool)
    (position : Nat) :
    Effect s spans (target.span s arch w) fun s =>
      (State.write { s with zero, carry } arch w target v, .goto position) := by
  cases target with
  | immediate | register | label => exact .of_quiet fun m _ => rfl
  | memory base =>
    have hx := State.mem_granted_of_check hc
    rw [toNat_bytes] at hx
    refine ⟨s.address arch base, bytesOf w.bytes v, fun _ => ⟨_, hx, rfl, ?_⟩, fun m _ => ?_⟩
    · rw [length_bytesOf]
    · rw [← Memory.store_eq_write]
      rfl

/-! ## Instructions -/

variable {w : Width} {source target : Operand Nat}

theorem stepPush_eq : stepPush s arch i w source position =
    match s.read arch i w source with
    | .error e => (s, .fail e)
    | .ok v =>
      match (s.pushed (s.pushTarget arch w)).check i (s.pushTarget arch w)
          (Int64.ofNat w.bytes) with
      | .error e => (s.pushed (s.pushTarget arch w), .fail e)
      | .ok _ =>
        ({ s.pushed (s.pushTarget arch w) with
          memory := s.memory.store (s.pushTarget arch w) w.bytes v }, .goto (position + 1)) := rfl

theorem effect_push :
    Effect s (source.span s arch w) (s.pushSpan arch i w source)
      fun s => stepPush s arch i w source position := by
  unfold State.pushSpan
  rcases hr : s.read arch i w source with e | v
  · refine .of_stop (.fail e) fun m hm => ?_
    rw [stepPush_eq, read_memory hm, hr]
  · set sp := s.pushTarget arch w
    -- Neither the target nor the check depends on memory.
    have hcheck : ∀ m, (State.pushed { s with memory := m } sp).check i sp (Int64.ofNat w.bytes) =
        (s.pushed sp).check i sp (Int64.ofNat w.bytes) := fun m => rfl
    have htarget : ∀ m, State.pushTarget { s with memory := m } arch w = sp := fun m => rfl
    rcases hc : (s.pushed sp).check i sp (Int64.ofNat w.bytes) with e | u
    · refine .of_eq (g := fun s => (s.pushed sp, .fail e)) (fun m hm => ?_)
        (.of_quiet fun _ _ => rfl)
      rw [stepPush_eq, read_memory hm, hr]
      simp only [htarget, hcheck, hc]
    · have hx := State.mem_granted_of_check hc
      rw [toNat_bytes] at hx
      refine .of_eq (g := fun s => ({ s.pushed sp with memory := s.memory.store sp w.bytes v },
        .goto (position + 1))) (fun m hm => ?_)
        ⟨sp, bytesOf w.bytes v, fun _ => ⟨_, hx, rfl, ?_⟩, fun m hm => ?_⟩
      · rw [stepPush_eq, read_memory hm, hr]
        simp only [htarget, hcheck, hc]
      · rw [length_bytesOf]
      · rw [← Memory.store_eq_write]
        rfl

theorem effect_mov :
    Effect s (source.span s arch w) (target.span s arch w)
      fun s => stepMov s arch i w source target position := by
  rcases hr : s.read arch i w source with e | v
  · refine .of_stop (.fail e) fun m hm => ?_
    simp only [stepMov, read_memory hm, hr]
  · rcases hc : s.checkWrite arch i w target with e | u
    · refine .of_stop (.fail e) fun m hm => ?_
      simp only [stepMov, read_memory hm, hr, State.checkWrite_memory, hc]
    · refine .of_eq (fun m hm => ?_) (effect_write hc v s.zero s.carry (position + 1))
      simp only [stepMov, read_memory hm, hr, State.checkWrite_memory, hc]

theorem effect_arith (f : Arith) :
    Effect s (source.span s arch w ++ target.span s arch w)
      (if f = .cmp then [] else target.span s arch w)
      fun s => stepArith s arch i f w source target position := by
  have hread : ∀ m : Memory,
      m.Agrees s.memory (source.span s arch w ++ target.span s arch w) →
      State.read { s with memory := m } arch i w source = s.read arch i w source ∧
        State.read { s with memory := m } arch i w target = s.read arch i w target :=
    fun m hm => ⟨read_memory fun x hx => hm x (List.mem_append_left _ hx),
      read_memory fun x hx => hm x (List.mem_append_right _ hx)⟩
  rcases hr : s.read arch i w source with e | v
  · refine .of_stop (.fail e) fun m hm => ?_
    simp only [stepArith, (hread m hm).1, hr]
  rcases hr' : s.read arch i w target with e | u
  · refine .of_stop (.fail e) fun m hm => ?_
    simp only [stepArith, hread m hm, hr, hr']
  -- The flags are set before the write is checked, so they stay set if it fails.
  set zero := decide ((f.apply w u v).1 = 0) with hzero
  set carry := (f.apply w u v).2 with hcarry
  by_cases hf : f = .cmp
  · refine .of_eq (g := fun s => ({ s with carry, zero }, .goto (position + 1)))
      (fun m hm => ?_) (.of_quiet fun _ _ => rfl)
    simp only [stepArith, hread m hm, hr, hr', if_pos hf, hzero, hcarry]
  rw [if_neg hf]
  have hflags : ∀ m, State.checkWrite { s with memory := m, carry, zero } arch i w target =
      s.checkWrite arch i w target := by
    intro m
    cases target <;> rfl
  rcases hc : s.checkWrite arch i w target with e | t
  · refine .of_eq (g := fun s => ({ s with carry, zero }, .fail e)) (fun m hm => ?_)
      (.of_quiet fun _ _ => rfl)
    simp only [stepArith, hread m hm, hr, hr', if_neg hf, ← hzero, ← hcarry, hflags, hc]
  · refine .of_eq (fun m hm => ?_) (effect_write hc (f.apply w u v).1 zero carry (position + 1))
    simp only [stepArith, hread m hm, hr, hr', if_neg hf, ← hzero, ← hcarry, hflags, hc]

/-! ## System calls -/

theorem length_readChunks_le {count : Nat} {chunks rest : List Bytes} {data : Bytes}
    (h : Input.readChunks count chunks = some (data, rest)) : data.length ≤ count := by
  induction chunks with
  | nil => cases h
  | cons chunk chunks ih =>
    rcases chunk with _ | ⟨b, chunk⟩
    · exact ih h
    · rw [Input.readChunks] at h
      · cases h
        exact List.length_take_le _ _
      · simp

theorem exists_readInput (s : State) (a : UInt64) (count : Nat) :
    ∃ result data input, data.length ≤ count ∧ ∀ m : Memory,
      readInput { s with memory := m } a count =
        (result, { s with memory := m.write a data, input }) := by
  rcases s with ⟨rs, zero, carry, m, low, pushes, _ | input, output, errors⟩
  · exact ⟨0, [], none, Nat.zero_le _, fun m => by rw [Memory.write_nil, readInput]⟩
  by_cases hz : count = 0
  · exact ⟨0, [], some input, Nat.zero_le _,
      fun m => by simp only [readInput, if_pos hz, Memory.write_nil]⟩
  rcases hr : Input.readChunks count input.chunks with _ | ⟨data, chunks⟩
  · refine ⟨if input.failing then ioFailure else 0, [], some { input with chunks := [] },
      Nat.zero_le _, fun m => ?_⟩
    simp only [readInput, if_neg hz, hr, Memory.write_nil]
  · refine ⟨Int64.ofNat data.length, data, some { input with chunks }, length_readChunks_le hr,
      fun m => ?_⟩
    simp only [readInput, if_neg hz, hr]

theorem effect_callRead {loads : List Span} {file a : UInt64} {count : Int64} :
    Effect s loads (s.granted a count)
      fun s => afterCall arch position (callRead s i file a count) := by
  by_cases hf : file ≠ 0 ∨ count < 0
  · refine .of_eq (g := fun s => afterCall arch position (.ok badFile, s)) (fun m _ => ?_)
      (.of_quiet fun _ _ => rfl)
    rw [callRead, if_pos hf]
  rcases hc : s.check i a count with e | u
  · refine .of_stop (.fail e) fun m _ => ?_
    rw [callRead, if_neg hf, State.check_memory, hc]
    rfl
  obtain ⟨result, data, input, hlength, hr⟩ := exists_readInput s a count.toInt.toNat
  have hcall : ∀ m, callRead { s with memory := m } i file a count =
      (.ok result, { s with memory := m.write a data, input }) := by
    intro m
    rw [callRead, if_neg hf, State.check_memory, hc, hr]
  refine ⟨a, data, fun _ => ⟨_, State.mem_granted_of_check hc, rfl, hlength⟩, fun m _ => ?_⟩
  simp only [hcall]
  rfl

theorem effect_callWrite {stores : List Span} {file a : UInt64} {count : Int64} :
    Effect s (s.granted a count) stores
      fun s => afterCall arch position (callWrite s i file a count) := by
  by_cases hf : file ≠ 1 ∧ file ≠ 2
  · refine .of_eq (g := fun s => afterCall arch position (.ok badFile, s)) (fun m _ => ?_)
      (.of_quiet fun _ _ => rfl)
    rw [callWrite, if_pos hf]
  rcases hc : s.check i a count with e | u
  · refine .of_stop (.fail e) fun m _ => ?_
    rw [callWrite, if_neg hf, State.check_memory, hc]
    rfl
  have hx := State.mem_granted_of_check hc
  refine .of_quiet fun m hm => ?_
  have hdata : m.slice a count.toInt.toNat = s.memory.slice a count.toInt.toNat :=
    Memory.slice_congr fun b hb => hm _ hx b hb
  simp only [callWrite, if_neg hf, State.check_memory, hc, hdata]
  split_ifs <;> rfl

theorem systemCall_unknown (he : s.address arch .ax ≠ (callTable arch).exit)
    (hr : s.address arch .ax ≠ (callTable arch).read)
    (hw : s.address arch .ax ≠ (callTable arch).write) :
    systemCall s arch i position =
      (s, .fail (.unsupportedCall i.line (s.address arch .ax).toInt64)) := by
  change (wordWidth arch).mask s.registers.ax ≠ _ at he hr hw
  simp only [systemCall, if_neg he, if_neg hr, if_neg hw]
  rfl

theorem effect_systemCall :
    Effect s (if s.address arch .ax = (callTable arch).write then s.buffer arch else [])
      (if s.address arch .ax = (callTable arch).read then s.buffer arch else [])
      fun s => systemCall s arch i position := by
  set file := s.address arch (callTable arch).arguments.1
  set a := s.address arch (callTable arch).arguments.2.1
  set count := (s.address arch (callTable arch).arguments.2.2).toInt64
  by_cases hread : s.address arch .ax = (callTable arch).read
  · rw [if_pos hread]
    refine .of_eq (g := fun s => afterCall arch position (callRead s i file a count))
      (fun m _ => ?_) effect_callRead
    exact systemCall_read (s := { s with memory := m }) i hread
  by_cases hwrite : s.address arch .ax = (callTable arch).write
  · rw [if_pos hwrite]
    refine .of_eq (g := fun s => afterCall arch position (callWrite s i file a count))
      (fun m _ => ?_) effect_callWrite
    exact systemCall_write (s := { s with memory := m }) i hwrite
  by_cases hexit : s.address arch .ax = (callTable arch).exit
  · refine .of_stop (.exit (file &&& 0xff).toNat) fun m _ => ?_
    exact systemCall_exit (s := { s with memory := m }) i hexit
  · refine .of_stop (.fail (.unsupportedCall i.line (s.address arch .ax).toInt64))
      fun m _ => ?_
    exact systemCall_unknown (s := { s with memory := m }) hexit hread hwrite

/-- **What memory has to do with an instruction.** It looks at its loads only, and it writes once,
at its stores. -/
theorem effect_step (arch : Arch) (s : State) (i : Instr Nat) (position : Nat) :
    Effect s (loads arch s i) (stores arch s i) fun s => step arch s i position := by
  unfold step loads stores
  cases i.op with
  | push => exact effect_push
  | mov => exact effect_mov
  | arith f => exact effect_arith f
  | jump => exact .of_quiet fun _ _ => rfl
  | syscall =>
    cases arch with
    | amd64 => exact effect_systemCall
    | x86 => exact .of_quiet fun _ _ => rfl
  | interrupt vector =>
    by_cases hv : vector = .immediate 0x80 ∧ arch = .x86
    · simp only [if_pos hv]
      exact effect_systemCall
    · simp only [if_neg hv]
      exact .of_quiet fun _ _ => rfl

/-! ## Accesses stay in the stack -/

variable {x : Span} {b : UInt64}

theorem Operand.inStack_of_mem_span {o : Operand Nat} (hx : x ∈ o.span s arch w) (hb : b ∈ x) :
    s.InStack b := by
  cases o with
  | memory base => exact State.inStack_of_granted hx hb
  | immediate | register | label => cases hx

theorem State.inStack_of_mem_buffer {c : Prop} [Decidable c]
    (hx : x ∈ if c then s.buffer arch else []) (hb : b ∈ x) : s.InStack b := by
  split_ifs at hx
  · exact State.inStack_of_granted hx hb
  · cases hx

theorem State.InStack.mono {s' : State} (h : s.InStack b) (hl : s'.low ≤ s.low) : s'.InStack b :=
  ⟨UInt64.le_trans hl h.1, h.2⟩

/-- **What an instruction looks at is mapped.** -/
theorem inStack_of_mem_loads (hx : x ∈ loads arch s i) (hb : b ∈ x) : s.InStack b := by
  unfold loads at hx
  split at hx
  · exact Operand.inStack_of_mem_span hx hb
  · exact Operand.inStack_of_mem_span hx hb
  · rcases List.mem_append.mp hx with hx | hx
    · exact Operand.inStack_of_mem_span hx hb
    · exact Operand.inStack_of_mem_span hx hb
  · cases hx
  · exact State.inStack_of_mem_buffer hx hb
  · exact State.inStack_of_mem_buffer hx hb

/-- A push writes to the stack as it is after the push. -/
theorem State.inStack_of_mem_pushSpan (hx : x ∈ s.pushSpan arch i w source) (hb : b ∈ x)
    (position : Nat) : (stepPush s arch i w source position).1.InStack b := by
  unfold State.pushSpan at hx
  rw [stepPush_eq]
  rcases hr : s.read arch i w source with e | v
  · rw [hr] at hx
    cases hx
  · rw [hr] at hx
    have h := State.inStack_of_granted hx hb
    dsimp only
    split <;> exact h

end TapeLang.Machine
