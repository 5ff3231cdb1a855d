import TapeLang.Proofs.Listing.Load

/-!
# The lines of a program

A listing is read line by line, so a label stands for the first instruction below its own line.
What is read from the line of an instruction is the operation that is spelled there, with its
operands and no others.

* `Op.mnemonic`, `Op.operands`, **`operation_spells`**: how an operation is spelled.
* `LabelAt`, `FirstBelow`: the line of a label, and the first instruction below a line.
* `Follows`: lines that were read in order.
* **`exists_follows_of_load`**: a loaded program follows its listing.
-/

namespace TapeLang.Machine

/-! ## Computations that succeed -/

section Success

variable {ε α β : Type}

theorem bind_eq_ok {x : Except ε α} {f : α → Except ε β} {b : β} :
    (x >>= f) = .ok b ↔ ∃ a, x = .ok a ∧ f a = .ok b := by
  cases x <;> simp [bind, Except.bind]

theorem map_eq_ok {x : Except ε α} {f : α → β} {b : β} :
    x.map f = .ok b ↔ ∃ a, x = .ok a ∧ f a = b := by
  cases x <;> simp [Except.map]

theorem exists_of_mapM {f : α → Except ε β} {as : List α} {bs : List β}
    (h : as.mapM f = .ok bs) {b : β} (hb : b ∈ bs) : ∃ a ∈ as, f a = .ok b := by
  induction as generalizing bs with
  | nil =>
    cases h
    cases hb
  | cons a as ih =>
    rw [List.mapM_cons, bind_eq_ok] at h
    obtain ⟨c, hc, h⟩ := h
    obtain ⟨cs, hcs, h⟩ := bind_eq_ok.mp h
    cases h
    rcases List.mem_cons.mp hb with rfl | hb
    · exact ⟨a, List.mem_cons_self, hc⟩
    · obtain ⟨a', ha', hf⟩ := ih hcs hb
      exact ⟨a', List.mem_cons_of_mem _ ha', hf⟩

theorem map_eq_of_mapM {γ : Type} {f : α → Except ε β} {g : α → γ} {g' : β → γ}
    (hg : ∀ a b, f a = .ok b → g' b = g a) {as : List α} {bs : List β}
    (h : as.mapM f = .ok bs) : bs.map g' = as.map g := by
  induction as generalizing bs with
  | nil =>
    cases h
    rfl
  | cons a as ih =>
    rw [List.mapM_cons, bind_eq_ok] at h
    obtain ⟨c, hc, h⟩ := h
    obtain ⟨cs, hcs, h⟩ := bind_eq_ok.mp h
    cases h
    rw [List.map_cons, List.map_cons, hg a c hc, ih hcs]

end Success

/-! ## Spelling -/

/-- The letter that names a width at the end of a mnemonic. -/
def Width.letter : Width → Char
  | .byte => 'b'
  | .word => 'w'
  | .long => 'l'
  | .quad => 'q'

/-- The end of a mnemonic that may name a width. -/
def widthSuffix : Option Width → Bytes
  | none => []
  | some w => [Text.ascii w.letter]

def Condition.mnemonic : Condition → String
  | .always => "jmp"
  | .equal => "je"
  | .notEqual => "jne"
  | .above => "ja"
  | .aboveOrEqual => "jae"
  | .below => "jb"
  | .belowOrEqual => "jbe"

def Sized.mnemonic : Sized → String
  | .push => "push"
  | .mov => "mov"
  | .arith .add => "add"
  | .arith .sub => "sub"
  | .arith .cmp => "cmp"

/-- The word that a listing gives an operation. -/
def Op.mnemonic {τ : Type} : Op τ → Bytes
  | .push w _ => utf8 Sized.push.mnemonic ++ widthSuffix w
  | .mov w _ _ => utf8 Sized.mov.mnemonic ++ widthSuffix w
  | .arith f w _ _ => utf8 (Sized.arith f).mnemonic ++ widthSuffix w
  | .jump c _ => utf8 c.mnemonic
  | .syscall => utf8 "syscall"
  | .interrupt _ => utf8 "int"

/-- All that an operation works on, in the order of a listing. -/
def Op.operands {τ : Type} : Op τ → List (Operand τ)
  | .push _ source => [source]
  | .mov _ source target | .arith _ _ source target => [source, target]
  | .jump _ target => [target]
  | .syscall => []
  | .interrupt vector => [vector]

theorem eq_of_lookupName {α : Type} {table : List (String × α)} {spell : α → String}
    (htable : ∀ entry ∈ table, entry.1 = spell entry.2) {name : Bytes} {x : α}
    (h : lookupName table name = some x) : name = utf8 (spell x) := by
  obtain ⟨entry, hfind, rfl⟩ := Option.map_eq_some_iff.mp h
  have hname : utf8 entry.1 = name := by simpa using List.find?_some hfind
  rw [← hname, htable entry (List.mem_of_find?_eq_some hfind)]

theorem mnemonic_of_jump {name : Bytes} {c : Condition} (h : lookupName jumps name = some c) :
    name = utf8 c.mnemonic :=
  eq_of_lookupName (by decide) h

theorem mnemonic_of_sized {name : Bytes} {op : Sized} (h : lookupName sizedOps name = some op) :
    name = utf8 op.mnemonic :=
  eq_of_lookupName (by decide) h

theorem letter_of_ofSuffix? {b : UInt8} {w : Width} (h : Width.ofSuffix? b = some w) :
    b = Text.ascii w.letter := by
  unfold Width.ofSuffix? at h
  split_ifs at h with hb hw hl hq <;> cases h
  · exact hb
  · exact hw
  · exact hl
  · exact hq

theorem mnemonic_of_sizedOp? {name : Bytes} {op : Sized} {width : Option Width}
    (h : sizedOp? name = some (op, width)) : name = utf8 op.mnemonic ++ widthSuffix width := by
  unfold sizedOp? at h
  split at h
  · next hname =>
    cases h
    rw [mnemonic_of_sized hname, widthSuffix, List.append_nil]
  · obtain ⟨w, hw, h⟩ := Option.bind_eq_some_iff.mp h
    obtain ⟨op, hop, h⟩ := Option.bind_eq_some_iff.mp h
    cases h
    obtain ⟨b, hb, hletter⟩ := Option.bind_eq_some_iff.mp hw
    rw [← mnemonic_of_sized hop, widthSuffix, ← letter_of_ofSuffix? hletter]
    exact (List.dropLast_append_getLast? b hb).symm

/-- **A line is read as the operation that is spelled there.** -/
theorem operation_spells {arch : Arch} {mnemonic rest : Bytes} {op : Op Bytes}
    (h : operation arch mnemonic rest = .ok op) :
    mnemonic = op.mnemonic ∧ operands arch rest = .ok op.operands := by
  unfold operation at h
  split at h
  · next hc =>
    obtain ⟨args, hargs, h⟩ := bind_eq_ok.mp h
    split at h <;> cases h
    exact ⟨mnemonic_of_jump hc, hargs⟩
  split_ifs at h with hsys hint
  · obtain ⟨args, hargs, h⟩ := bind_eq_ok.mp h
    split at h <;> cases h
    exact ⟨hsys, hargs⟩
  · obtain ⟨args, hargs, h⟩ := bind_eq_ok.mp h
    split at h <;> cases h
    exact ⟨hint, hargs⟩
  split at h
  · cases h
  · next hsized =>
    have hname := mnemonic_of_sizedOp? hsized
    split_ifs at h
    · cases h
    · obtain ⟨-, -, h⟩ := bind_eq_ok.mp h
      obtain ⟨args, hargs, h⟩ := bind_eq_ok.mp h
      split at h <;> cases h
      · exact ⟨hname, hargs⟩
      · exact ⟨hname, hargs⟩
      · exact ⟨hname, hargs⟩

/-! ## Lines in order -/

/-- The word that an instruction begins with. -/
def firstWord (text : Bytes) : Bytes := text.takeWhile (· ≠ Text.ascii ' ')

/-- What follows the first word of an instruction. -/
def afterWord (text : Bytes) : Bytes := text.drop ((firstWord text).length + 1)

/-- Line `k`, counted from 0, defines a label. -/
def LabelAt (lines : List Bytes) (name : Bytes) (k : Nat) : Prop :=
  ∃ line, lines[k]? = some line ∧ bareLine line = name ++ utf8 ":"

/-- Position `t` is that of the first instruction below line number `n`: the instructions before it
stand above the line and all others below. The instructions are given by their line numbers. -/
def FirstBelow (numbers : List Nat) (n t : Nat) : Prop :=
  t ≤ numbers.length ∧ (∀ m ∈ numbers.take t, m < n) ∧ ∀ m ∈ numbers.drop t, n < m

variable {arch : Arch}

/-- What a line without comment and white space can do to a draft. -/
theorem Draft.addLine_cases {d d' : Draft} {number : Nat} {line : Bytes}
    (h : d.addLine arch number line = .ok d') :
    ((∀ name, line ≠ name ++ utf8 ":") ∧ d' = d) ∨
    (∃ name, line = name ++ utf8 ":" ∧ name ∉ d.labels ∧
      d' = { d with labels := d.labels.insert name d.code.size }) ∨
    (∀ name, line ≠ name ++ utf8 ":") ∧ ∃ op,
      operation arch (firstWord line) (afterWord line) = .ok op ∧
      d' = { d with code := d.code.push { op, line := number, text := line } } := by
  have hcolon : line.getLast? ≠ some (Text.ascii ':') → ∀ name, line ≠ name ++ utf8 ":" := by
    rintro hne name rfl
    exact hne (by simp [show utf8 ":" = [Text.ascii ':'] from rfl])
  unfold Draft.addLine at h
  split at h
  · cases h
    exact .inl ⟨hcolon (by simp), rfl⟩
  split at h
  · next hlast =>
    dsimp only at h
    split_ifs at h with hsymbol hdup
    cases h
    refine .inr (.inl ⟨_, (List.dropLast_append_getLast? _ hlast).symm, ?_, rfl⟩)
    rwa [Bool.not_eq_true, Std.HashMap.contains_eq_false_iff_not_mem] at hdup
  · next hlast =>
    split_ifs at h
    · obtain ⟨-, -, rfl⟩ := map_eq_ok.mp h
      exact .inl ⟨hcolon hlast, rfl⟩
    · obtain ⟨op, hop, rfl⟩ := map_eq_ok.mp h
      exact .inr (.inr ⟨hcolon hlast, op, hop, rfl⟩)

theorem labelAt_concat {lines : List Bytes} {line name : Bytes} {k : Nat} :
    LabelAt (lines ++ [line]) name k ↔
      LabelAt lines name k ∨ k = lines.length ∧ bareLine line = name ++ utf8 ":" := by
  unfold LabelAt
  rw [List.getElem?_append]
  split_ifs with hk
  · simp [Nat.ne_of_lt hk]
  · have hnone : lines[k]? = none := List.getElem?_eq_none (Nat.le_of_not_lt hk)
    rw [List.getElem?_singleton]
    split_ifs with heq
    · simp [show k = lines.length by omega]
    · simp [hnone, show k ≠ lines.length by omega]

theorem FirstBelow.concat {numbers : List Nat} {m n t : Nat} (h : FirstBelow numbers n t)
    (hm : n < m) : FirstBelow (numbers ++ [m]) n t := by
  obtain ⟨hle, habove, hbelow⟩ := h
  refine ⟨by simp; omega, ?_, ?_⟩
  · rwa [List.take_append_of_le_length hle]
  · rw [List.drop_append_of_le_length hle]
    simpa [or_imp, forall_and] using ⟨hbelow, hm⟩

theorem firstBelow_length {numbers : List Nat} {n : Nat} (h : ∀ m ∈ numbers, m < n) :
    FirstBelow numbers n numbers.length := by
  simpa [FirstBelow] using h

/-- Instructions, given by their line numbers and texts, and positions of labels are what lines say
that were read in order. -/
structure Follows (lines : List Bytes) (origins : List (Nat × Bytes))
    (place : Bytes → Option Nat) : Prop where
  source : ∀ o ∈ origins, ∃ k line, lines[k]? = some line ∧ o = (k + 1, bareLine line)
  placed : ∀ name t, place name = some t →
    ∃ k, LabelAt lines name k ∧ FirstBelow (origins.map Prod.fst) (k + 1) t
  defined : ∀ name k, LabelAt lines name k → ∃ t, place name = some t
  unique : ∀ name k k', LabelAt lines name k → LabelAt lines name k' → k = k'

namespace Follows

variable {lines : List Bytes} {origins : List (Nat × Bytes)} {place : Bytes → Option Nat}
  {line : Bytes}

theorem nil : Follows [] [] fun _ => none := by
  constructor <;> simp [LabelAt]

theorem lt_number (h : Follows lines origins place) :
    ∀ m ∈ origins.map Prod.fst, m < lines.length + 1 := by
  intro m hm
  obtain ⟨o, ho, rfl⟩ := List.mem_map.mp hm
  obtain ⟨k, line, hk, rfl⟩ := h.source o ho
  have := (List.getElem?_eq_some_iff.mp hk).1
  simp only
  omega

theorem source_concat (h : Follows lines origins place) (line : Bytes) :
    ∀ o ∈ origins, ∃ k l, (lines ++ [line])[k]? = some l ∧ o = (k + 1, bareLine l) := by
  intro o ho
  obtain ⟨k, l, hk, rfl⟩ := h.source o ho
  have hlt := (List.getElem?_eq_some_iff.mp hk).1
  exact ⟨k, l, by rw [List.getElem?_append_left hlt, hk], rfl⟩

theorem skip (h : Follows lines origins place) (hline : ∀ name, bareLine line ≠ name ++ utf8 ":") :
    Follows (lines ++ [line]) origins place := by
  have hat : ∀ name k, LabelAt (lines ++ [line]) name k ↔ LabelAt lines name k := by
    intro name k
    simp [labelAt_concat, hline]
  refine ⟨h.source_concat line, ?_, ?_, ?_⟩
  · simpa only [hat] using h.placed
  · simpa only [hat] using h.defined
  · simpa only [hat] using h.unique

theorem instr (h : Follows lines origins place) (hline : ∀ name, bareLine line ≠ name ++ utf8 ":") :
    Follows (lines ++ [line]) (origins ++ [(lines.length + 1, bareLine line)]) place := by
  have hskip := h.skip hline
  refine ⟨?_, fun name t ht => ?_, hskip.defined, hskip.unique⟩
  · intro o ho
    rcases List.mem_append.mp ho with ho | ho
    · exact hskip.source o ho
    · exact ⟨lines.length, line, by simp, List.mem_singleton.mp ho⟩
  · -- The line of the label is one of the lines before.
    obtain ⟨k, hk, hbelow⟩ := h.placed name t ht
    have hlt : k < lines.length := by
      obtain ⟨l, hl, -⟩ := hk
      exact (List.getElem?_eq_some_iff.mp hl).1
    refine ⟨k, labelAt_concat.mpr (.inl hk), ?_⟩
    rw [List.map_append]
    exact hbelow.concat (by simpa using hlt)

theorem label (h : Follows lines origins place) {name : Bytes} {place' : Bytes → Option Nat}
    (hline : bareLine line = name ++ utf8 ":") (hnew : place name = none)
    (hplace : ∀ other, place' other = if name = other then some origins.length else place other) :
    Follows (lines ++ [line]) origins place' := by
  have hfresh : ∀ k, ¬ LabelAt lines name k := by
    intro k hk
    obtain ⟨t, ht⟩ := h.defined name k hk
    rw [hnew] at ht
    cases ht
  have hother : ∀ other, bareLine line = other ++ utf8 ":" ↔ name = other := by
    intro other
    rw [hline, List.append_cancel_right_eq]
  have hat : ∀ other k, LabelAt (lines ++ [line]) other k ↔
      if name = other then k = lines.length else LabelAt lines other k := by
    intro other k
    rw [labelAt_concat, hother]
    split_ifs with heq
    · simp [← heq, hfresh]
    · simp [heq]
  refine ⟨h.source_concat line, fun other t ht => ?_, fun other k hk => ?_,
    fun other k k' hk hk' => ?_⟩
  · rw [hplace] at ht
    simp only [hat]
    split_ifs at ht with heq
    · cases ht
      have hend := firstBelow_length h.lt_number
      rw [List.length_map] at hend
      exact ⟨lines.length, by rw [if_pos heq], hend⟩
    · simpa only [if_neg heq] using h.placed other t ht
  · rw [hat] at hk
    rw [hplace]
    split_ifs at hk ⊢ with heq
    · exact ⟨_, rfl⟩
    · exact h.defined other k hk
  · rw [hat] at hk hk'
    split_ifs at hk hk' with heq
    · rw [hk, hk']
    · exact h.unique other k k' hk hk'

end Follows

/-! ## Loading -/

/-- The line numbers and texts of instructions. -/
def origins {τ : Type} (code : Array (Instr τ)) : List (Nat × Bytes) :=
  code.toList.map fun i => (i.line, i.text)

/-- A draft is what the lines say that were read so far. -/
structure Draft.Holds (arch : Arch) (lines : List Bytes) (d : Draft) : Prop where
  follows : Follows lines (origins d.code) d.labels.get?
  spelled : ∀ i ∈ d.code, operation arch (firstWord i.text) (afterWord i.text) = .ok i.op

theorem Draft.Holds.addLine {lines : List Bytes} {d d' : Draft} {line : Bytes}
    (h : d.Holds arch lines) (hd : d.addLine arch (lines.length + 1) (bareLine line) = .ok d') :
    d'.Holds arch (lines ++ [line]) := by
  rcases Draft.addLine_cases hd with ⟨hline, rfl⟩ | ⟨name, hline, hnew, rfl⟩ | ⟨hline, op, hop, rfl⟩
  · exact ⟨h.follows.skip hline, h.spelled⟩
  · refine ⟨h.follows.label hline (by simpa using hnew) fun other => ?_, h.spelled⟩
    simp [Std.HashMap.getElem?_insert, origins]
  · have hfollows := h.follows.instr hline
    refine ⟨by simpa [origins] using hfollows, fun i hi => ?_⟩
    rcases Array.mem_push.mp hi with hi | rfl
    · exact h.spelled i hi
    · exact hop

theorem Draft.Holds.addLines {lines rest : List Bytes} {d d' : Draft} (h : d.Holds arch lines)
    (hd : Draft.addLines arch rest (lines.length + 1) d = .ok d') :
    d'.Holds arch (lines ++ rest) := by
  induction rest generalizing lines d with
  | nil =>
    cases hd
    rwa [List.append_nil]
  | cons line rest ih =>
    rw [Draft.addLines] at hd
    split_ifs at hd
    split at hd
    · next hl =>
      have hnext := ih (h.addLine hl) (by simpa using hd)
      rwa [List.append_assoc] at hnext
    · cases hd

theorem Draft.holds_empty : Draft.Holds arch [] {} := by
  refine ⟨?_, fun i hi => absurd hi (Array.not_mem_empty i)⟩
  have hplace : (Draft.labels {}).get? = fun _ => none := by
    funext name
    simp
  rw [hplace]
  exact .nil

theorem of_resolveInstr {place : Bytes → Option Nat} {i : Instr Bytes} {i' : Instr Nat}
    (h : Assembly.resolveInstr place i = .ok i') :
    (i'.line, i'.text) = (i.line, i.text) ∧ i.op.resolve place = .ok i'.op := by
  unfold Assembly.resolveInstr at h
  split at h <;> cases h
  exact ⟨rfl, ‹_›⟩

theorem mapM_of_resolveAll {labels : Std.HashMap Bytes Nat} {code : Array (Instr Bytes)}
    {code' : Array (Instr Nat)} (h : resolveAll labels code = .ok code') :
    code.toList.mapM (Assembly.resolveInstr labels.get?) = .ok code'.toList := by
  change code.mapM (Assembly.resolveInstr labels.get?) = .ok code' at h
  rw [Array.mapM_eq_mapM_toList] at h
  obtain ⟨l, hl, rfl⟩ := map_eq_ok.mp h
  exact hl

/-- **A loaded program follows its listing.** Its instructions are what the lines spell, with the
labels replaced by the positions of the first instructions below them. -/
theorem exists_follows_of_load {text : Bytes} {bits : Int64} {p : Program}
    (h : load text bits = .ok p) :
    ∃ place, Follows (listingLines text) (origins p.code) place ∧
      place (utf8 "_start") = some p.entry ∧
      ∀ i ∈ p.code, ∃ op, operation p.arch (firstWord i.text) (afterWord i.text) = .ok op ∧
        op.resolve place = .ok i.op := by
  unfold load at h
  split at h
  · rw [loadFor, bind_eq_ok] at h
    obtain ⟨d, hd, h⟩ := h
    split at h
    · cases h
    · next hentry =>
      obtain ⟨code, hcode, h⟩ := bind_eq_ok.mp h
      cases h
      have hholds := Draft.holds_empty.addLines hd
      have hlist := mapM_of_resolveAll hcode
      refine ⟨d.labels.get?, ?_, hentry, fun i hi => ?_⟩
      · have horigins : origins code = origins d.code :=
          map_eq_of_mapM (fun i i' hi => (of_resolveInstr hi).1) hlist
        rw [horigins]
        exact hholds.follows
      · obtain ⟨j, hj, hres⟩ := exists_of_mapM hlist (Array.mem_toList_iff.mpr hi)
        obtain ⟨hsource, hop⟩ := of_resolveInstr hres
        have htext : i.text = j.text := congrArg Prod.snd hsource
        rw [htext]
        exact ⟨j.op, hholds.spelled j (Array.mem_toList_iff.mp hj), hop⟩
  · cases h

end TapeLang.Machine
