import TapeLang.Assembly.Arch

/-!
# Registers and operand widths

The machine has eight registers of 64 bits. A register is named at three widths: `rax`, `eax` and
`ax` are one register, and the 64-bit names exist in 64-bit mode only.

* `Width`: the width of an operand.
* `Registers.set`: writing a register at a width.
* `Reg.ofName?`: the register and width of a name.
-/

namespace TapeLang.Machine

/-- The width of an operand. -/
inductive Width where
  | byte
  | word
  | long
  | quad
  deriving DecidableEq, Repr

namespace Width

/-- The number of bytes. -/
@[inline]
def bytes : Width → Nat
  | .byte => 1
  | .word => 2
  | .long => 4
  | .quad => 8

/-- A value cut down to the width. -/
@[inline]
def mask : Width → UInt64 → UInt64
  | .byte, v => v &&& 0xff
  | .word, v => v &&& 0xffff
  | .long, v => v &&& 0xffffffff
  | .quad, v => v

/-- The width that the last letter of a mnemonic names. -/
def ofSuffix? (b : UInt8) : Option Width :=
  if b = Text.ascii 'b' then some .byte
  else if b = Text.ascii 'w' then some .word
  else if b = Text.ascii 'l' then some .long
  else if b = Text.ascii 'q' then some .quad
  else none

end Width

/-- The width of a machine word. -/
@[inline]
def wordWidth : Arch → Width
  | .amd64 => .quad
  | .x86 => .long

/-- The registers. -/
inductive Reg where
  | ax
  | cx
  | dx
  | bx
  | sp
  | bp
  | si
  | di
  deriving DecidableEq, Repr

namespace Reg

/-- All registers. -/
def all : List Reg :=
  [.ax, .cx, .dx, .bx, .sp, .bp, .si, .di]

/-- The name of a register's low 16 bits. -/
def name : Reg → String
  | .ax => "ax"
  | .cx => "cx"
  | .dx => "dx"
  | .bx => "bx"
  | .sp => "sp"
  | .bp => "bp"
  | .si => "si"
  | .di => "di"

/-- The register with a 16-bit name. -/
def ofBase? (name : Bytes) : Option Reg :=
  all.find? fun r => utf8 r.name == name

/-- The register and width that a name stands for. -/
def ofName? (name : Bytes) : Option (Reg × Width) :=
  match ofBase? name with
  | some r => some (r, .word)
  | none =>
    match name with
    | lead :: base =>
      if lead = Text.ascii 'r' then (ofBase? base).map (·, .quad)
      else if lead = Text.ascii 'e' then (ofBase? base).map (·, .long)
      else none
    | [] => none

end Reg

/-- The contents of the registers. -/
structure Registers where
  ax : UInt64 := 0
  cx : UInt64 := 0
  dx : UInt64 := 0
  bx : UInt64 := 0
  sp : UInt64 := 0
  bp : UInt64 := 0
  si : UInt64 := 0
  di : UInt64 := 0
  deriving DecidableEq, Repr

namespace Registers

/-- The content of a register. -/
@[inline]
def get (rs : Registers) : Reg → UInt64
  | .ax => rs.ax
  | .cx => rs.cx
  | .dx => rs.dx
  | .bx => rs.bx
  | .sp => rs.sp
  | .bp => rs.bp
  | .si => rs.si
  | .di => rs.di

/-- Replaces the whole content of a register. -/
@[inline]
def put (rs : Registers) (r : Reg) (v : UInt64) : Registers :=
  match r with
  | .ax => { rs with ax := v }
  | .cx => { rs with cx := v }
  | .dx => { rs with dx := v }
  | .bx => { rs with bx := v }
  | .sp => { rs with sp := v }
  | .bp => { rs with bp := v }
  | .si => { rs with si := v }
  | .di => { rs with di := v }

/-- Writes a register at a width. A 16-bit write keeps the upper bits, a 32-bit write clears them,
and any other write replaces the whole register. -/
@[inline]
def set (rs : Registers) (r : Reg) (w : Width) (v : UInt64) : Registers :=
  match w with
  | .word => rs.put r (rs.get r &&& ~~~0xffff ||| v &&& 0xffff)
  | .long => rs.put r (v &&& 0xffffffff)
  | .byte | .quad => rs.put r v

theorem get_put (rs : Registers) (r r' : Reg) (v : UInt64) :
    (rs.put r v).get r' = if r' = r then v else rs.get r' := by
  cases r <;> cases r' <;> rfl

end Registers

end TapeLang.Machine
