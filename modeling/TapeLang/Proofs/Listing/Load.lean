import Mathlib.Data.List.Basic
import TapeLang.Machine.Load
import TapeLang.Proofs.Listing.Code
import TapeLang.Proofs.Text.Word

/-!
# Reading a listing

A listing is written for the loader when each of its lines is an instruction that the loader
understands, a label or a directive. Such a listing is loaded whenever its labels differ, and every
jump then names the position of its label.

* `Instruction`: a text that the loader reads as an operation.
* `Written`: lines that the loader reads as entries.
* `addLines_of_written`: what reading the lines adds to a draft.
* **`loadFor_of_written`**: a written listing is loaded, and its operations are the resolved ones.
-/

namespace TapeLang.Assembly

open Machine

/-! ## Lines as texts -/

/-- The characters of a line. -/
def isLineByte (b : UInt8) : Bool :=
  Text.isWordByte b || b == Text.ascii ' ' || b == Text.ascii ',' || b == Text.ascii ':'

/-- A text that can stand alone on a line. -/
structure Sentence (text : Bytes) : Prop where
  framed : Text.Framed text
  short : text.length ≤ 400
  bytes : text.all isLineByte

theorem Sentence.notMem {text : Bytes} (h : Sentence text) {b : UInt8} (hb : isLineByte b = false) :
    b ∉ text := by
  intro hm
  rw [List.all_eq_true.mp h.bytes b hm] at hb
  exact Bool.noConfusion hb

theorem bareLine_indented {text : Bytes} (h : Sentence text) :
    bareLine (utf8 "  " ++ text) = text := by
  have hi : utf8 "  " ++ text = 0x20 :: 0x20 :: text := rfl
  have hn : Text.ascii '#' ∉ (0x20 :: 0x20 :: text : Bytes) := by
    rw [List.mem_cons, List.mem_cons, not_or, not_or]
    exact ⟨by decide, by decide, h.notMem (by decide)⟩
  rw [bareLine, hi, Text.takeWhile_of_notMem hn, Text.trim_space, Text.trim_space,
    Text.trim_of_framed h.framed]

theorem bareLine_of_sentence {text : Bytes} (h : Sentence text) : bareLine text = text := by
  rw [bareLine, Text.takeWhile_of_notMem (h.notMem (by decide)), Text.trim_of_framed h.framed]

theorem isLineByte_of_word {text : Bytes} (h : Text.IsWord text) : text.all isLineByte := by
  rw [List.all_eq_true]
  intro b hb
  rw [isLineByte, h.wordByte hb]
  rfl

theorem Sentence.of_word {text : Bytes} (h : Text.IsWord text) : Sentence text :=
  ⟨h.framed, le_trans h.short (by omega), isLineByte_of_word h⟩

theorem Sentence.of_two {a b middle : Bytes} (ha : Text.IsWord a) (hb : Text.IsWord b)
    (hm : middle.all isLineByte) (hs : middle.length ≤ 120) : Sentence (a ++ middle ++ b) := by
  refine ⟨ha.framed.append hb.framed middle, ?_, ?_⟩
  · have := ha.short
    have := hb.short
    simp only [List.length_append]
    omega
  · rw [List.all_append, List.all_append, isLineByte_of_word ha, hm, isLineByte_of_word hb]
    rfl

/-! ## Operands -/

/-- A word that the loader reads as an operand. -/
structure IsOperand (arch : Arch) (text : Bytes) (o : Operand Bytes) : Prop where
  word : Text.IsWord text
  operand : operand arch text = .ok o

theorem IsWord.comma_notMem {text : Bytes} (h : Text.IsWord text) : Text.ascii ',' ∉ text :=
  h.notMem (by decide)

variable {arch : Arch}

theorem operands_one {a : Bytes} {x : Operand Bytes} (ha : IsOperand arch a x) :
    operands arch a = .ok [x] := by
  rw [operands]
  simp only [ha.word.trim, ha.word.isEmpty, Bool.false_eq_true, if_false,
    Text.splitAt_of_notMem (IsWord.comma_notMem ha.word), List.mapM_cons, List.mapM_nil, ha.operand]
  rfl

theorem operands_two {a b : Bytes} {x y : Operand Bytes} (ha : IsOperand arch a x)
    (hb : IsOperand arch b y) : operands arch (a ++ utf8 ", " ++ b) = .ok [x, y] := by
  have hs : Sentence (a ++ utf8 ", " ++ b) := .of_two ha.word hb.word (by decide) (by decide)
  have he : (a ++ utf8 ", " ++ b).isEmpty = false := by
    rw [List.isEmpty_eq_false_iff]
    simp [ha.word.nonempty]
  have hsplit : Text.splitAt (Text.ascii ',') (a ++ utf8 ", " ++ b) = [a, 0x20 :: b] := by
    have hu : a ++ utf8 ", " ++ b = a ++ Text.ascii ',' :: (0x20 :: b) := by
      rw [List.append_assoc]
      rfl
    have hn : Text.ascii ',' ∉ (0x20 :: b : Bytes) := by
      rw [List.mem_cons, not_or]
      exact ⟨by decide, IsWord.comma_notMem hb.word⟩
    rw [hu, Text.splitAt_append (IsWord.comma_notMem ha.word), Text.splitAt_of_notMem hn]
  rw [operands]
  simp only [Text.trim_of_framed hs.framed, he, Bool.false_eq_true, if_false, hsplit,
    List.mapM_cons, List.mapM_nil, ha.word.trim, Text.trim_space, hb.word.trim, ha.operand,
    hb.operand]
  rfl

/-! ## Instructions -/

/-- A text that the loader reads as an operation. -/
structure Instruction (arch : Arch) (text : Bytes) (o : Op Bytes) : Prop where
  sentence : Sentence text
  colon : text.getLast? ≠ some (Text.ascii ':')
  dot : text.head? ≠ some (Text.ascii '.')
  operation : operation arch (text.takeWhile (· ≠ Text.ascii ' '))
    (text.drop ((text.takeWhile (· ≠ Text.ascii ' ')).length + 1)) = .ok o

theorem getLast?_ne_colon (start : Bytes) {text : Bytes} (h : Text.IsWord text) :
    (start ++ text).getLast? ≠ some (Text.ascii ':') := by
  rw [List.getLast?_append_of_ne_nil _ h.nonempty]
  intro hl
  exact h.notMem (by decide) (List.mem_of_getLast? hl)

theorem head?_append_of_word {a : Bytes} (h : Text.IsWord a) (b : Bytes) :
    (a ++ b).head? = a.head? := by
  rcases a with _ | ⟨c, a⟩
  · exact absurd rfl h.nonempty
  · rfl

theorem Instruction.of_rest {m rest : Bytes} {o : Op Bytes} (hm : Text.IsWord m)
    (hdot : m.head? ≠ some (Text.ascii '.')) (hs : Sentence (m ++ utf8 " " ++ rest))
    (hcolon : (m ++ utf8 " " ++ rest).getLast? ≠ some (Text.ascii ':'))
    (ho : Machine.operation arch m rest = .ok o) : Instruction arch (m ++ utf8 " " ++ rest) o := by
  have hu : m ++ utf8 " " ++ rest = m ++ Text.ascii ' ' :: rest := by
    rw [List.append_assoc]
    rfl
  refine ⟨hs, hcolon, ?_, ?_⟩
  · rw [hu, head?_append_of_word hm]
    exact hdot
  · rw [hu, Text.takeWhile_append_cons (hm.notMem (by decide)), ← List.drop_drop,
      List.drop_left]
    exact ho

theorem Instruction.of_one {m a : Bytes} {o : Op Bytes} (hm : Text.IsWord m)
    (hdot : m.head? ≠ some (Text.ascii '.')) (ha : Text.IsWord a)
    (ho : Machine.operation arch m a = .ok o) : Instruction arch (m ++ utf8 " " ++ a) o :=
  .of_rest hm hdot (.of_two hm ha (by decide) (by decide)) (getLast?_ne_colon _ ha) ho

theorem Instruction.of_two {m a b : Bytes} {o : Op Bytes} (hm : Text.IsWord m)
    (hdot : m.head? ≠ some (Text.ascii '.')) (ha : Text.IsWord a) (hb : Text.IsWord b)
    (ho : Machine.operation arch m (a ++ utf8 ", " ++ b) = .ok o) :
    Instruction arch (m ++ utf8 " " ++ a ++ utf8 ", " ++ b) o := by
  have hu : m ++ utf8 " " ++ a ++ utf8 ", " ++ b = m ++ (utf8 " " ++ a ++ utf8 ", ") ++ b := by
    simp only [List.append_assoc]
  have hs : Sentence (m ++ utf8 " " ++ a ++ utf8 ", " ++ b) := by
    rw [hu]
    refine .of_two hm hb ?_ ?_
    · rw [List.all_append, List.all_append, isLineByte_of_word ha]
      rfl
    · have := ha.short
      simp only [List.length_append]
      change 1 + a.length + 2 ≤ 120
      omega
  have hl := getLast?_ne_colon (m ++ utf8 " " ++ a ++ utf8 ", ") hb
  rw [List.append_assoc (m ++ utf8 " "), List.append_assoc (m ++ utf8 " ")] at hs hl ⊢
  exact .of_rest hm hdot hs hl ho

theorem addLine_of_instruction {text : Bytes} {o : Op Bytes} (h : Instruction arch text o)
    (d : Machine.Draft) (number : Nat) :
    d.addLine arch number text =
      .ok { d with code := d.code.push { op := o, line := number, text := text } } := by
  rcases ht : text with _ | ⟨b, rest⟩
  · rw [ht] at h
    exact absurd h.sentence.framed.1 (by simp)
  · rw [ht] at h
    have hdot : b ≠ Text.ascii '.' := fun hb => h.dot (by rw [hb]; rfl)
    rw [Machine.Draft.addLine, if_neg h.colon, if_neg hdot]
    simp only [h.operation]
    rfl

/-! ## Labels and directives -/

/-- A word that may be a label. -/
structure IsLabel (name : Bytes) : Prop where
  word : Text.IsWord name
  symbol : isSymbol name

theorem IsLabel.sentence {name : Bytes} (h : IsLabel name) : Sentence (name ++ utf8 ":") := by
  refine ⟨⟨?_, ?_⟩, ?_, ?_⟩
  · rw [head?_append_of_word h.word]
    exact h.word.framed.1
  · rw [List.getLast?_append_of_ne_nil _ (by decide)]
    rfl
  · have := h.word.short
    rw [List.length_append]
    change name.length + 1 ≤ 400
    omega
  · rw [List.all_append, isLineByte_of_word h.word]
    rfl

theorem addLine_of_label {name : Bytes} (h : IsLabel name) {d : Machine.Draft} (number : Nat)
    (hd : name ∉ d.labels) :
    d.addLine arch number (name ++ utf8 ":") =
      .ok { d with labels := d.labels.insert name d.code.size } := by
  rcases hn : name ++ utf8 ":" with _ | ⟨b, rest⟩
  · exact absurd hn (by simp [h.word.nonempty])
  · have hl : (b :: rest).getLast? = some (Text.ascii ':') := by
      rw [← hn, List.getLast?_append_of_ne_nil _ (by decide)]
      rfl
    have hdrop : (b :: rest).dropLast = name := by
      rw [← hn]
      exact List.dropLast_concat
    rw [Machine.Draft.addLine, if_pos hl]
    simp only [hdrop, h.symbol, Std.HashMap.contains_eq_false_iff_not_mem.mpr hd]
    rfl

/-- A text that the loader reads as a directive without effect. -/
structure IsDirective (text : Bytes) : Prop where
  sentence : Sentence text
  colon : text.getLast? ≠ some (Text.ascii ':')
  dot : text.head? = some (Text.ascii '.')
  directive : directive text = .ok ()

theorem addLine_of_directive {text : Bytes} (h : IsDirective text) (d : Machine.Draft)
    (number : Nat) : d.addLine arch number text = .ok d := by
  rcases ht : text with _ | ⟨b, rest⟩
  · rfl
  · rw [ht] at h
    have hdot : b = Text.ascii '.' := Option.some.inj h.dot
    rw [Machine.Draft.addLine, if_neg h.colon, if_pos hdot, h.directive]
    rfl

/-! ## Listings -/

/-- Lines that the loader reads as entries. -/
inductive Written (arch : Arch) : List Line → List (Entry Bytes) → Prop
  | nil : Written arch [] []
  | op {text : Bytes} {o : Op Bytes} {lines : List Line} {es : List (Entry Bytes)} :
    Instruction arch text o → Written arch lines es →
      Written arch (.instr text :: lines) (.op o :: es)
  | mark {name : Bytes} {lines : List Line} {es : List (Entry Bytes)} :
    IsLabel name → Written arch lines es → Written arch (.label name :: lines) (.mark name :: es)
  | directive {text : Bytes} {lines : List Line} {es : List (Entry Bytes)} :
    IsDirective text → Written arch lines es → Written arch (.instr text :: lines) es

theorem Written.append {a b : List Line} {x y : List (Entry Bytes)} (ha : Written arch a x)
    (hb : Written arch b y) : Written arch (a ++ b) (x ++ y) := by
  induction ha with
  | nil => exact hb
  | op h _ ih => exact .op h ih
  | mark h _ ih => exact .mark h ih
  | directive h _ ih => exact .directive h ih

/-- The names of the label lines. -/
def labelNames : List Line → List Bytes
  | [] => []
  | .instr _ :: lines => labelNames lines
  | .label name :: lines => name :: labelNames lines

theorem Written.labelNames {lines : List Line} {es : List (Entry Bytes)}
    (h : Written arch lines es) : labelNames lines = marks es := by
  induction h with
  | nil => rfl
  | op _ _ ih => exact ih
  | mark _ _ ih => rw [Assembly.labelNames, marks, ih]
  | directive _ _ ih => exact ih

/-- A line without the newline that ends it. -/
def Line.body : Line → Bytes
  | .instr text => utf8 "  " ++ text
  | .label name => name ++ utf8 ":"

theorem Line.render_eq (l : Line) : l.render = l.body ++ [Text.ascii '\n'] := by
  cases l with
  | instr text => rfl
  | label name =>
    rw [Line.render, Line.body, List.append_assoc]
    rfl

/-- A line that fits into one line of a listing and gives back its text. -/
structure Line.Bare (l : Line) (text : Bytes) : Prop where
  short : l.body.length < lineLimit
  newline : Text.ascii '\n' ∉ l.body
  bare : bareLine l.body = text

theorem Line.Bare.of_instr {text : Bytes} (h : Sentence text) : (Line.instr text).Bare text := by
  refine ⟨?_, ?_, bareLine_indented h⟩
  · have := h.short
    rw [Line.body, List.length_append]
    change 2 + text.length < 1048576
    omega
  · rw [Line.body, List.mem_append, not_or]
    exact ⟨by decide, h.notMem (by decide)⟩

theorem Line.Bare.of_label {name : Bytes} (h : IsLabel name) :
    (Line.label name).Bare (name ++ utf8 ":") := by
  refine ⟨?_, h.sentence.notMem (by decide), bareLine_of_sentence h.sentence⟩
  exact lt_of_le_of_lt h.sentence.short (by decide)

theorem Written.newline {lines : List Line} {es : List (Entry Bytes)} (h : Written arch lines es) :
    ∀ t ∈ lines.map Line.body, Text.ascii '\n' ∉ t := by
  induction h with
  | nil => simp
  | op h _ ih => exact List.forall_mem_cons.mpr ⟨(Line.Bare.of_instr h.sentence).newline, ih⟩
  | mark h _ ih => exact List.forall_mem_cons.mpr ⟨(Line.Bare.of_label h).newline, ih⟩
  | directive h _ ih => exact List.forall_mem_cons.mpr ⟨(Line.Bare.of_instr h.sentence).newline, ih⟩

/-- The loader finds the lines of a listing again. -/
theorem listingLines_render {lines : List Line} {es : List (Entry Bytes)}
    (h : Written arch lines es) :
    listingLines (lines.map Line.render).flatten = lines.map Line.body := by
  have hr : lines.map Line.render = (lines.map Line.body).map (· ++ [Text.ascii '\n']) := by
    rw [List.map_map]
    exact List.map_congr_left fun l _ => l.render_eq
  rw [listingLines, hr, Text.splitAt_flatten h.newline]
  simp

theorem addLines_cons {l : Line} {text : Bytes} (h : l.Bare text) (lines : List Bytes)
    (number : Nat) {d d' : Machine.Draft} (hd : d.addLine arch number text = .ok d') :
    Machine.Draft.addLines arch (l.body :: lines) number d =
      Machine.Draft.addLines arch lines (number + 1) d' := by
  rw [Machine.Draft.addLines, if_neg (Nat.not_le.mpr h.short), h.bare, hd]

/-- **Reading written lines** adds their operations to a draft and places their marks. -/
theorem addLines_of_written {lines : List Line} {es : List (Entry Bytes)}
    (h : Written arch lines es) (number : Nat) (d : Machine.Draft) (hm : (marks es).Nodup)
    (hd : ∀ t ∈ marks es, t ∉ d.labels) :
    ∃ d', Machine.Draft.addLines arch (lines.map Line.body) number d = .ok d' ∧
      d'.code.toList.map Instr.op = d.code.toList.map Instr.op ++ ops es ∧
      Placed d'.labels.get? d.code.size es ∧
      ∀ t ∉ marks es, d'.labels.get? t = d.labels.get? t := by
  induction h generalizing number d with
  | nil => exact ⟨d, rfl, by simp [ops], trivial, fun _ _ => rfl⟩
  | @op text o lines es h _ ih =>
    obtain ⟨d', hl, hc, hp, hk⟩ := ih (number + 1)
      { d with code := d.code.push { op := o, line := number, text := text } } hm hd
    refine ⟨d', ?_, ?_, ?_, hk⟩
    · rw [List.map_cons, addLines_cons (Line.Bare.of_instr h.sentence) _ _
        (addLine_of_instruction h d number), hl]
    · rw [hc, ops]
      simp
    · rw [Array.size_push] at hp
      exact hp
  | @mark name lines es h _ ih =>
    rw [marks, List.nodup_cons] at hm
    have hname : name ∉ d.labels := hd name List.mem_cons_self
    obtain ⟨d', hl, hc, hp, hk⟩ := ih (number + 1)
      { d with labels := d.labels.insert name d.code.size } hm.2 (by
        intro t ht
        rw [Std.HashMap.mem_insert, not_or]
        refine ⟨?_, hd t (List.mem_cons_of_mem _ ht)⟩
        rw [beq_iff_eq]
        rintro rfl
        exact hm.1 ht)
    refine ⟨d', ?_, hc, ⟨?_, hp⟩, ?_⟩
    · rw [List.map_cons, addLines_cons (Line.Bare.of_label h) _ _ (addLine_of_label h number hname),
        hl]
    · rw [hk name hm.1]
      simp
    · intro t ht
      rw [marks, List.mem_cons, not_or] at ht
      rw [hk t ht.2]
      simp [Std.HashMap.getElem?_insert, Ne.symm ht.1]
  | directive h _ ih =>
    obtain ⟨d', hl, hc, hp, hk⟩ := ih (number + 1) d hm hd
    refine ⟨d', ?_, hc, hp, hk⟩
    rw [List.map_cons, addLines_cons (Line.Bare.of_instr h.sentence) _ _
      (addLine_of_directive h d number), hl]

/-- Replaces the labels of an instruction by positions. -/
def resolveInstr (place : Bytes → Option Nat) (i : Instr Bytes) : Except LoadError (Instr Nat) :=
  match i.op.resolve place with
  | .ok op => .ok { op, line := i.line, text := i.text }
  | .error name => .error (.undefinedLabel i.line name)

theorem mapM_resolveInstr {place : Bytes → Option Nat} {code : List (Instr Bytes)}
    {resolved : List (Op Nat)} (h : (code.map Instr.op).mapM (Op.resolve place) = .ok resolved) :
    ∃ out, code.mapM (resolveInstr place) = .ok out ∧ out.map Instr.op = resolved := by
  induction code generalizing resolved with
  | nil =>
    cases h
    exact ⟨[], rfl, rfl⟩
  | cons i code ih =>
    rw [List.map_cons, List.mapM_cons] at h
    rcases hi : i.op.resolve place with e | o
    · rw [hi] at h
      cases h
    · rcases hc : (code.map Instr.op).mapM (Op.resolve place) with e | rest
      · rw [hi, hc] at h
        cases h
      · rw [hi, hc] at h
        cases h
        obtain ⟨out, ho, hm⟩ := ih hc
        refine ⟨{ op := o, line := i.line, text := i.text } :: out, ?_, ?_⟩
        · rw [List.mapM_cons, ho, resolveInstr, hi]
          rfl
        · rw [List.map_cons, hm]

theorem resolveAll_eq {labels : Std.HashMap Bytes Nat} {code : Array (Instr Bytes)}
    {resolved : List (Op Nat)}
    (h : (code.toList.map Instr.op).mapM (Op.resolve labels.get?) = .ok resolved) :
    ∃ out, resolveAll labels code = .ok out ∧ out.toList.map Instr.op = resolved := by
  obtain ⟨out, ho, hm⟩ := mapM_resolveInstr h
  refine ⟨out.toArray, ?_, by simpa using hm⟩
  change code.mapM (resolveInstr labels.get?) = _
  rw [Array.mapM_eq_mapM_toList, ho]
  rfl

/-- **A written listing is loaded**, and its operations are the resolved ones. -/
theorem loadFor_of_written {lines : List Line} {es : List (Entry Bytes)}
    (h : Written arch lines es) (hm : (marks es).Nodup) {code : List (Op Nat)} {entry : Nat}
    (hr : ∀ place : Bytes → Option Nat, Placed place 0 es →
      place (utf8 "_start") = some entry ∧ (ops es).mapM (Op.resolve place) = .ok code) :
    ∃ p, loadFor arch (lines.map Line.render).flatten = .ok p ∧ p.arch = arch ∧
      p.entry = entry ∧ p.code.toList.map Instr.op = code := by
  obtain ⟨d, hl, hc, hp, -⟩ := addLines_of_written h 1 {} hm (by simp)
  obtain ⟨hs, hops⟩ := hr d.labels.get? hp
  have hc' : d.code.toList.map Instr.op = ops es := by simpa using hc
  rw [← hc'] at hops
  obtain ⟨out, ho, hout⟩ := resolveAll_eq hops
  refine ⟨⟨arch, out, entry⟩, ?_, rfl, rfl, hout⟩
  rw [loadFor, listingLines_render h, hl]
  simp only [bind, Except.bind, hs, ho]
  rfl

end TapeLang.Assembly
