import TapeLang.Proofs.Listing.Load
import TapeLang.Proofs.Listing.Tree

/-!
# The lines of operations

Every line that is written for an operation of the tape language is read back as the operation it
stands for: registers, widths, immediates and labels keep their meaning.

* `isOperand_immediate`, `isOperand_label`: operands whose text depends on the tree.
* `Mnemonic`: a mnemonic with its operation and width.
* **`written_operation`**: the lines of an operation are written as its entries.
* **`written_block`**: the lines of a tree are written as its entries.
-/

namespace TapeLang.Assembly

open Machine

variable {arch : Arch}

/-! ## Immediates -/

theorem exists_digit {b : UInt8} (h : Text.IsDigit b) : ∃ d < 10, b = Text.digit d := by
  have := h.toNat
  refine ⟨b.toNat - 48, by omega, ?_⟩
  rw [← UInt8.toNat_inj, Text.digit, UInt8.toNat_ofNat']
  omega

theorem isWordByte_of_isDigit {b : UInt8} (h : Text.IsDigit b) : Text.isWordByte b := by
  obtain ⟨d, hd, rfl⟩ := exists_digit h
  interval_cases d <;> decide

theorem isWord_digits {n : Nat} (h : n < 10 ^ 20) : Text.IsWord (Text.digits 10 n) := by
  refine ⟨Text.digits_ne_nil n, le_trans (Text.length_digits_le h) (by omega), ?_⟩
  rw [List.all_eq_true]
  intro b hb
  exact isWordByte_of_isDigit (Text.isDigit_of_mem_digits hb)

theorem isWord_decimal (n : Int64) :
    Text.IsWord (Text.decimal n.toInt) ∧ (Text.decimal n.toInt).length ≤ 21 := by
  have hlo := n.le_toInt
  have hhi := n.toInt_lt
  rcases hn : n.toInt with k | k
  · rw [hn] at hhi
    have hk : k < 10 ^ 20 := by
      have : (k : Int) < 2 ^ 63 := hhi
      omega
    have := Text.length_digits_le hk
    exact ⟨isWord_digits hk, by rw [Text.decimal]; omega⟩
  · rw [hn] at hlo
    have hk : k + 1 < 10 ^ 20 := by omega
    have := Text.length_digits_le hk
    refine ⟨(isWord_digits hk).cons (by decide) (by omega), ?_⟩
    rw [Text.decimal, List.length_cons]
    omega

theorem isOperand_immediate (n : Int64) :
    IsOperand arch (immediate n.toInt) (.immediate n) := by
  obtain ⟨hw, hl⟩ := isWord_decimal n
  have ht : immediate n.toInt = Text.ascii '$' :: Text.decimal n.toInt := rfl
  refine ⟨?_, ?_⟩
  · rw [ht]
    exact hw.cons (by decide) (by omega)
  · rw [ht, operand]
    simp only [if_true, Text.parseInt64_decimal]

/-! ## Registers -/

theorem isOperand_pointer : IsOperand arch (utf8 arch.dialect.pointer)
    (wordReg arch (pointer arch)) := by
  cases arch <;> exact ⟨by decide, rfl⟩

theorem isOperand_stack : IsOperand arch (utf8 arch.dialect.stack) (wordReg arch .sp) := by
  cases arch <;> exact ⟨by decide, rfl⟩

theorem isOperand_number : IsOperand arch (utf8 arch.dialect.number) (wordReg arch .ax) := by
  cases arch <;> exact ⟨by decide, rfl⟩

theorem isOperand_cell : IsOperand arch (cell arch.dialect) (cellOperand arch) := by
  cases arch <;> exact ⟨by decide, rfl⟩

/-! ## Labels -/

/-- A location whose numbers are not negative. -/
structure Proper (loc : Location) : Prop where
  line : 0 ≤ loc.line.toInt
  column : 0 ≤ loc.column.toInt

/-- The bytes of a symbol after the first. -/
def isSymbolByte (b : UInt8) : Bool :=
  isSymbolStart b || (Text.ascii '0' ≤ b && b ≤ Text.ascii '9')

theorem decimal_of_nonneg {i : Int} (h : 0 ≤ i) : Text.decimal i = Text.digits 10 i.toNat := by
  rcases i with k | k
  · rfl
  · omega

theorem toNat_lt (n : Int64) : n.toInt.toNat < 10 ^ 20 := by
  have := n.toInt_lt
  omega

theorem isSymbolByte_digits (n : Nat) : (Text.digits 10 n).all isSymbolByte := by
  rw [List.all_eq_true]
  intro b hb
  obtain ⟨d, hd, rfl⟩ := exists_digit (Text.isDigit_of_mem_digits hb)
  interval_cases d <;> decide

theorem isLabel_siteLabel {loc : Location} (h : Proper loc) (site : Site) :
    IsLabel (siteLabel loc site) := by
  have hl := isWord_digits (toNat_lt loc.line)
  have hc := isWord_digits (toNat_lt loc.column)
  have hl' := Text.length_digits_le (toNat_lt loc.line)
  have hc' := Text.length_digits_le (toNat_lt loc.column)
  have hs : (utf8 site.suffix).length ≤ 10 := by cases site <;> decide
  have hsw : (utf8 site.suffix).all Text.isWordByte := by cases site <;> decide
  have hss : (utf8 site.suffix).all isSymbolByte := by cases site <;> decide
  rw [siteLabel, label, decimal_of_nonneg h.line, decimal_of_nonneg h.column]
  refine ⟨⟨by simp [show utf8 "_at_" ≠ [] by decide], ?_, ?_⟩, ?_⟩
  · simp only [List.length_append, show (utf8 "_at_").length = 4 by decide,
      show (utf8 "_").length = 1 by decide]
    omega
  · simp only [List.all_append, hl.bytes, hc.bytes, hsw]
    rfl
  · change isSymbol (Text.ascii '_' :: (utf8 "at_" ++ _ ++ _ ++ _ ++ _ ++ _)) = true
    rw [isSymbol, Bool.and_eq_true]
    refine ⟨rfl, ?_⟩
    change List.all _ isSymbolByte = true
    simp only [List.all_append, isSymbolByte_digits, hss]
    rfl

variable (arch) in
theorem isOperand_label {loc : Location} (h : Proper loc) (site : Site) :
    IsOperand arch (siteLabel loc site) (.label (siteLabel loc site)) := by
  have hl := isLabel_siteLabel h site
  refine ⟨hl.word, ?_⟩
  have hu : ∃ rest, siteLabel loc site = Text.ascii '_' :: rest := ⟨_, rfl⟩
  obtain ⟨rest, hu⟩ := hu
  have hsym := hl.symbol
  rw [hu] at hsym ⊢
  rw [operand, if_neg (by decide), if_neg (by decide), if_neg (fun h => absurd h.1 (by decide))]
  simp only [hsym, if_true]

/-! ## Mnemonics -/

/-- A mnemonic that may carry a width, with its operation. -/
structure Mnemonic (m : Bytes) (op : Sized) (width : Option Width) : Prop where
  word : Text.IsWord m
  dot : m.head? ≠ some (Text.ascii '.')
  jump : lookupName jumps m = none
  syscall : m ≠ utf8 "syscall"
  interrupt : m ≠ utf8 "int"
  sized : sizedOp? m = some (op, width)

/-- The operation with a width and operands, if their number is right. -/
def formed? (width : Option Width) : Sized → List (Operand Bytes) → Option (Op Bytes)
  | .push, [source] => some (.push width source)
  | .mov, [source, target] => some (.mov width source target)
  | .arith f, [source, target] => some (.arith f width source target)
  | _, _ => none

theorem Mnemonic.operation {m rest : Bytes} {op : Sized} {width : Option Width}
    (h : Mnemonic m op width) (hw : ¬ (width = some .quad ∧ arch = .x86))
    {args : List (Operand Bytes)} (ha : operands arch rest = .ok args) {o : Op Bytes}
    (ho : formed? width op args = some o) : operation arch m rest = .ok o := by
  rw [Machine.operation, h.jump]
  dsimp only
  rw [if_neg h.syscall, if_neg h.interrupt, h.sized]
  simp only [if_neg hw, ha]
  unfold formed? at ho
  split at ho <;> cases ho <;> rfl

theorem instruction_arith {m : String} {f : Arith} {width : Option Width}
    (hm : Mnemonic (utf8 m) (.arith f) width) (hw : ¬ (width = some .quad ∧ arch = .x86))
    {a b : Bytes} {x y : Operand Bytes} (ha : IsOperand arch a x) (hb : IsOperand arch b y) :
    Instruction arch (utf8 m ++ utf8 " " ++ a ++ utf8 ", " ++ b) (.arith f width x y) :=
  .of_two hm.word hm.dot ha.word hb.word (hm.operation hw (operands_two ha hb) rfl)

theorem instruction_mov {m : String} {width : Option Width} (hm : Mnemonic (utf8 m) .mov width)
    (hw : ¬ (width = some .quad ∧ arch = .x86)) {a b : Bytes} {x y : Operand Bytes}
    (ha : IsOperand arch a x) (hb : IsOperand arch b y) :
    Instruction arch (utf8 m ++ utf8 " " ++ a ++ utf8 ", " ++ b) (.mov width x y) :=
  .of_two hm.word hm.dot ha.word hb.word (hm.operation hw (operands_two ha hb) rfl)

theorem instruction_push {m : String} {width : Option Width} (hm : Mnemonic (utf8 m) .push width)
    (hw : ¬ (width = some .quad ∧ arch = .x86)) {a : Bytes} {x : Operand Bytes}
    (ha : IsOperand arch a x) : Instruction arch (utf8 m ++ utf8 " " ++ a) (.push width x) :=
  .of_one hm.word hm.dot ha.word (hm.operation hw (operands_one ha) rfl)

theorem instruction_jump {m : String} {c : Condition} (hw : Text.IsWord (utf8 m))
    (hd : (utf8 m).head? ≠ some (Text.ascii '.')) (hj : lookupName jumps (utf8 m) = some c)
    {a : Bytes} {x : Operand Bytes} (ha : IsOperand arch a x) :
    Instruction arch (utf8 m ++ utf8 " " ++ a) (.jump c x) := by
  refine .of_one hw hd ha.word ?_
  rw [operation, hj]
  simp only [operands_one ha]
  rfl

theorem operands_nil : operands arch [] = .ok [] := by
  have ht : Text.trim [] = [] := by
    rw [Text.trim, Text.dropCodes, List.reverse_nil, Text.dropCodes, List.reverse_nil]
  rw [operands, ht]
  rfl

theorem instruction_trap : Instruction arch (utf8 arch.dialect.trap) (trap arch) := by
  cases arch with
  | amd64 =>
    refine ⟨.of_word (by decide), by decide, by decide, ?_⟩
    change operation .amd64 (utf8 "syscall") [] = _
    rw [operation, show lookupName jumps (utf8 "syscall") = none from rfl]
    dsimp only
    rw [if_pos rfl, operands_nil]
    rfl
  | x86 =>
    have hv : IsOperand .x86 (utf8 "$0x80") (.immediate 0x80) := ⟨by decide, rfl⟩
    refine Instruction.of_one (m := utf8 "int") (a := utf8 "$0x80") (by decide) (by decide) hv.word
      ?_
    rw [operation, show lookupName jumps (utf8 "int") = none from rfl]
    dsimp only
    rw [if_neg (by decide), if_pos rfl, operands_one hv]
    rfl

theorem mnemonic_mov : Mnemonic (utf8 "mov") .mov none := by constructor <;> decide
theorem mnemonic_movw : Mnemonic (utf8 "movw") .mov (some .word) := by constructor <;> decide
theorem mnemonic_add : Mnemonic (utf8 "add") (.arith .add) none := by constructor <;> decide
theorem mnemonic_addw : Mnemonic (utf8 "addw") (.arith .add) (some .word) := by
  constructor <;> decide
theorem mnemonic_sub : Mnemonic (utf8 "sub") (.arith .sub) none := by constructor <;> decide
theorem mnemonic_subw : Mnemonic (utf8 "subw") (.arith .sub) (some .word) := by
  constructor <;> decide
theorem mnemonic_cmp : Mnemonic (utf8 "cmp") (.arith .cmp) none := by constructor <;> decide
theorem mnemonic_cmpw : Mnemonic (utf8 "cmpw") (.arith .cmp) (some .word) := by
  constructor <;> decide
theorem mnemonic_pushw : Mnemonic (utf8 "pushw") .push (some .word) := by constructor <;> decide

variable (arch) in
theorem mnemonic_push : Mnemonic (utf8 arch.dialect.push) .push (some (wordWidth arch)) := by
  cases arch <;> constructor <;> decide

/-! ## Operations -/

theorem isOperand_arguments : List.Forall₂
    (fun name r => IsOperand arch (utf8 name) (wordReg arch r)) arch.dialect.arguments
      (argumentRegs arch) := by
  cases arch <;>
    exact .cons ⟨by decide, rfl⟩ (.cons ⟨by decide, rfl⟩ (.cons ⟨by decide, rfl⟩ .nil))

theorem written_moves {texts : List Bytes} {xs : List (Operand Bytes)} {names : List String}
    {rs : List Reg} (ha : List.Forall₂ (IsOperand arch) texts xs)
    (hr : List.Forall₂ (fun name r => IsOperand arch (utf8 name) (wordReg arch r)) names rs) :
    Written arch ((texts.zip names).map fun (a, r) => instr2 "mov" a (utf8 r))
      (((xs.zip rs).map fun (a, r) => Op.mov none a (wordReg arch r)).map Entry.op) := by
  induction ha generalizing names rs with
  | nil => exact .nil
  | cons h _ ih =>
    cases hr with
    | nil => exact .nil
    | cons g hr => exact .op (instruction_mov mnemonic_mov (by simp) h g) (ih hr)

theorem written_call {number : Nat} {n : UInt64}
    (hn : IsOperand arch (immediate number) (.immediate n.toInt64)) {texts : List Bytes}
    {xs : List (Operand Bytes)} (ha : List.Forall₂ (IsOperand arch) texts xs) :
    Written arch (systemCall arch.dialect number texts) ((callOps arch n xs).map Entry.op) := by
  have hmoves := written_moves ha isOperand_arguments
  rw [systemCall, callOps, List.map_append]
  refine .append (.op (instruction_mov mnemonic_mov (by simp) hn isOperand_number) hmoves) ?_
  exact .op instruction_trap .nil

theorem isOperand_zero : IsOperand arch (utf8 "$0") (.immediate 0) := ⟨by decide, rfl⟩

theorem isOperand_one : IsOperand arch (utf8 "$1") (.immediate 1) := ⟨by decide, rfl⟩

theorem written_moveForward {loc : Location} (h : Proper loc) (count : Int64) :
    Written arch (moveForward arch.dialect count loc)
      (operationEntries arch (siteLabel loc) count .moveForward) := by
  have hstop := isOperand_label arch h .growEnd
  have hstart := isOperand_label arch h .growStart
  refine .op (instruction_arith mnemonic_sub (by simp) (isOperand_immediate _) isOperand_pointer) ?_
  refine .op (instruction_jump (by decide) (by decide) rfl hstop) ?_
  refine .mark (isLabel_siteLabel h .growStart) ?_
  refine .op (instruction_push mnemonic_pushw (by simp) isOperand_zero) ?_
  refine .mark (isLabel_siteLabel h .growEnd) ?_
  refine .op (instruction_arith mnemonic_cmp (by simp) isOperand_pointer isOperand_stack) ?_
  exact .op (instruction_jump (by decide) (by decide) rfl hstart) .nil

theorem written_write : Written arch
    (systemCall arch.dialect arch.dialect.writeCall
      [utf8 "$1", utf8 arch.dialect.pointer, utf8 "$1"])
    ((callOps arch (callTable arch).write
      [.immediate 1, wordReg arch (pointer arch), .immediate 1]).map Entry.op) := by
  refine written_call ?_ (.cons isOperand_one (.cons isOperand_pointer (.cons isOperand_one .nil)))
  cases arch <;> exact ⟨by decide, rfl⟩

theorem written_readCall : Written arch
    (systemCall arch.dialect arch.dialect.readCall
      [utf8 "$0", utf8 arch.dialect.pointer, utf8 "$1"])
    ((callOps arch (callTable arch).read
      [.immediate 0, wordReg arch (pointer arch), .immediate 1]).map Entry.op) := by
  refine written_call ?_ (.cons isOperand_zero (.cons isOperand_pointer (.cons isOperand_one .nil)))
  cases arch <;> exact ⟨by decide, rfl⟩

theorem written_read {loc : Location} (h : Proper loc) (count : Int64) :
    Written arch (readCell arch.dialect loc)
      (operationEntries arch (siteLabel loc) count .read) := by
  have hstop := isOperand_label arch h .readEnd
  have hminus : IsOperand arch (utf8 "$-1") (.immediate (-1)) := ⟨by decide, rfl⟩
  refine .append (.op (instruction_mov mnemonic_movw (by simp) isOperand_zero isOperand_cell)
    written_readCall) ?_
  refine .op (instruction_arith mnemonic_cmp (by simp) isOperand_one isOperand_number) ?_
  refine .op (instruction_jump (by decide) (by decide) rfl hstop) ?_
  refine .op (instruction_mov mnemonic_movw (by simp) hminus isOperand_cell) ?_
  exact .mark (isLabel_siteLabel h .readEnd) .nil

/-- A kind of operation that code can be generated for, loops apart. -/
def IsOperation (kind : Kind) : Prop :=
  kind ≠ .loop ∧ ∀ code, kind ≠ .unknown code

variable (arch) in
/-- **The lines of an operation are written as its entries.** -/
theorem written_operation {kind : Kind} (hk : IsOperation kind) {loc : Location} (h : Proper loc)
    (count : Int64) :
    ∃ lines, operation? arch.dialect kind count loc = some lines ∧
      Written arch lines (operationEntries arch (siteLabel loc) count kind) := by
  cases kind with
  | increment =>
    exact ⟨_, rfl, .op (instruction_arith mnemonic_addw (by simp) (isOperand_immediate _)
      isOperand_cell) .nil⟩
  | decrement =>
    exact ⟨_, rfl, .op (instruction_arith mnemonic_subw (by simp) (isOperand_immediate _)
      isOperand_cell) .nil⟩
  | moveBackward =>
    exact ⟨_, rfl, .op (instruction_arith mnemonic_add (by simp) (isOperand_immediate _)
      isOperand_pointer) .nil⟩
  | moveForward => exact ⟨_, rfl, written_moveForward h count⟩
  | write => exact ⟨_, rfl, written_write⟩
  | read => exact ⟨_, rfl, written_read h count⟩
  | loop => exact absurd rfl hk.1
  | unknown code => exact absurd rfl (hk.2 code)

/-! ## Trees -/

/-- A tree of known kinds at proper locations. -/
inductive Sound : List Node → Prop
  | nil : Sound []
  | loop {count : Int64} {children : List Node} {loc : Location} {rest : List Node} :
    Proper loc → Sound children → Sound rest → Sound (⟨.loop, count, children, loc⟩ :: rest)
  | operation {kind : Kind} {count : Int64} {children : List Node} {loc : Location}
    {rest : List Node} : IsOperation kind → Proper loc → Sound rest →
      Sound (⟨kind, count, children, loc⟩ :: rest)

variable (arch) in
/-- **The lines of a tree are written as its entries.** -/
theorem written_block {nodes : List Node} (h : Sound nodes) :
    ∃ lines, blockLines arch.dialect nodes = (lines, none) ∧
      Written arch lines (blockEntries arch siteLabel nodes) := by
  induction h with
  | nil => exact ⟨[], rfl, .nil⟩
  | @loop count children loc rest hp _ _ ihc ihr =>
    obtain ⟨body, hb, hw⟩ := ihc
    obtain ⟨more, hm, hv⟩ := ihr
    refine ⟨loopHead loc ++ body ++ loopFoot arch.dialect loc ++ more, ?_, ?_⟩
    · rw [blockLines, nodeLines, hb, hm]
    · have hstart := isLabel_siteLabel hp .loopStart
      have hend := isLabel_siteLabel hp .loopEnd
      have hhead : Written arch (loopHead loc) (headEntries (siteLabel loc)) :=
        .op (instruction_jump (by decide) (by decide) rfl (isOperand_label arch hp .loopEnd))
          (.mark hstart .nil)
      have hfoot : Written arch (loopFoot arch.dialect loc) (footEntries arch (siteLabel loc)) :=
        .mark hend (.op (instruction_arith mnemonic_cmpw (by simp) isOperand_zero isOperand_cell)
          (.op (instruction_jump (by decide) (by decide) rfl
            (isOperand_label arch hp .loopStart)) .nil))
      rw [blockEntries, nodeEntries]
      exact ((hhead.append hw).append hfoot).append hv
  | @operation kind count children loc rest hk hp _ ihr =>
    obtain ⟨lines, hl, hw⟩ := written_operation arch hk hp count
    obtain ⟨more, hm, hv⟩ := ihr
    refine ⟨lines ++ more, ?_, ?_⟩
    · rw [blockLines, nodeLines_operation _ hk.1, hl, hm]
    · rw [blockEntries, nodeEntries_operation arch siteLabel hk.1]
      exact hw.append hv

end TapeLang.Assembly
