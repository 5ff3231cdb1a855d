import TapeLang.Proofs.Listing.Instruction
import TapeLang.Proofs.Listing.Lines
import TapeLang.Proofs.Machine.Path

/-!
# Where jumps go

A jump that names a label goes to the first instruction below the line of that label, and there is
one such line. Any other operand is taken as well, and then the jump goes to the first instruction
of the program.

* `Leads`: where a jump goes, by its operand in the listing.
* **`exists_leads`**: the position in a loaded jump.
* **`jump_leads`**: what a jump does in every run.
-/

namespace TapeLang.Machine

variable {text : Bytes} {bits : Int64} {p : Program} {i : Instr Nat} {c : Condition}
  {target : Operand Nat} {place : Bytes → Option Nat}

/-- A jump to an operand of a listing goes to position `t`: below the only line that defines its
label, or to the start of the program if the operand is no label. -/
def Leads (text : Bytes) (p : Program) : Operand Bytes → Nat → Prop
  | .label name, t => ∃ k, LabelAt (listingLines text) name k ∧
      (∀ k', LabelAt (listingLines text) name k' → k' = k) ∧
      FirstBelow (p.code.toList.map Instr.line) (k + 1) t
  | _, t => t = 0

theorem Leads.le {o : Operand Bytes} {t : Nat} (h : Leads text p o t) : t ≤ p.code.size := by
  cases o with
  | label name =>
    obtain ⟨k, -, -, hle, -⟩ := h
    simpa using hle
  | immediate | register | memory =>
    obtain rfl : t = 0 := h
    exact Nat.zero_le _

theorem map_fst_origins (code : Array (Instr Nat)) :
    (origins code).map Prod.fst = code.toList.map Instr.line := by
  simp [origins]

theorem leads_of_resolve (hf : Follows (listingLines text) (origins p.code) place)
    {o : Operand Bytes} (h : o.resolve place = .ok target) : Leads text p o target.target := by
  cases o with
  | immediate | register | memory =>
    cases h
    rfl
  | label name =>
    rw [Operand.resolve] at h
    split at h
    · next t ht =>
      cases h
      obtain ⟨k, hk, hbelow⟩ := hf.placed name t ht
      rw [map_fst_origins] at hbelow
      exact ⟨k, hk, fun k' hk' => hf.unique name k' k hk' hk, hbelow⟩
    · cases h

theorem exists_of_resolve_jump {op : Op Bytes} (h : op.resolve place = .ok (.jump c target)) :
    ∃ o, op = .jump c o ∧ o.resolve place = .ok target := by
  cases op with
  | jump c' o =>
    obtain ⟨o', ho, he⟩ := bind_eq_ok.mp h
    cases he
    exact ⟨o, rfl, ho⟩
  | push | interrupt =>
    obtain ⟨_, _, he⟩ := bind_eq_ok.mp h
    cases he
  | mov | arith =>
    obtain ⟨_, _, h⟩ := bind_eq_ok.mp h
    obtain ⟨_, _, he⟩ := bind_eq_ok.mp h
    cases he
  | syscall => cases h

/-- **The position in a loaded jump** is where its operand leads. -/
theorem exists_leads (loaded : load text bits = .ok p) (hi : i ∈ p.code)
    (hop : i.op = .jump c target) :
    ∃ written, firstWord i.text = utf8 c.mnemonic ∧
      operands p.arch (afterWord i.text) = .ok [written] ∧ Leads text p written target.target := by
  obtain ⟨place, hf, -, hcode⟩ := exists_follows_of_load loaded
  obtain ⟨op, hread, hresolve⟩ := hcode i hi
  rw [hop] at hresolve
  obtain ⟨o, rfl, ho⟩ := exists_of_resolve_jump hresolve
  obtain ⟨hword, hargs⟩ := operation_spells hread
  exact ⟨o, hword, hargs, leads_of_resolve hf ho⟩

theorem exists_line_of_load (loaded : load text bits = .ok p) (hi : i ∈ p.code) :
    ∃ k line, (listingLines text)[k]? = some line ∧ i.line = k + 1 ∧ i.text = bareLine line := by
  obtain ⟨place, hf, -, -⟩ := exists_follows_of_load loaded
  have hmem : (i.line, i.text) ∈ origins p.code :=
    List.mem_map.mpr ⟨i, Array.mem_toList_iff.mpr hi, rfl⟩
  obtain ⟨k, line, hk, ho⟩ := hf.source _ hmem
  exact ⟨k, line, hk, congrArg Prod.fst ho, congrArg Prod.snd ho⟩

/-- **Where every jump goes**: to the first instruction below its label, or to that of the program
if its operand is no label. -/
theorem jump_leads (loaded : load text bits = .ok p) (position : Nat)
    (hi : p.code[position]? = some i) (hop : i.op = .jump c target) :
    ∃ written t, (∃ k line, (listingLines text)[k]? = some line ∧ i.line = k + 1 ∧
        i.text = bareLine line) ∧
      firstWord i.text = utf8 c.mnemonic ∧ operands p.arch (afterWord i.text) = .ok [written] ∧
      Leads text p written t ∧ t ≤ p.code.size ∧
      ∀ s : State,
        let next := if c.holds s.zero s.carry then t else position + 1
        step p.arch s i position = (s, .goto next) ∧
          ∀ budget steps, runFrom p Program.never (budget + 1) steps position s =
            runFrom p Program.never budget (steps + 1) next s := by
  have hmem := Array.mem_of_getElem? hi
  obtain ⟨written, hword, hargs, hleads⟩ := exists_leads loaded hmem hop
  refine ⟨written, _, exists_line_of_load loaded hmem, hword, hargs, hleads, hleads.le,
    fun s => ?_⟩
  have hstep : step p.arch s i position =
      (s, .goto (if c.holds s.zero s.carry then target.target else position + 1)) := by
    simp only [step, hop]
  exact ⟨hstep, fun budget steps => Program.runFrom_of_next? (Program.next?_of_step hi hstep) _ _⟩

/-- A listing with two jumps: the one to a label goes below its line, the one to a number goes to
the first instruction. -/
theorem jump_leads_end :
    ∃ p i j written written', load (utf8 "_start:\n  jmp end\n  jmp $5\nend:\n") 64 = .ok p ∧
      p.code[0]? = some i ∧ operands p.arch (afterWord i.text) = .ok [written] ∧
      Leads (utf8 "_start:\n  jmp end\n  jmp $5\nend:\n") p written 2 ∧
      (∀ s, step p.arch s i 0 = (s, .goto 2)) ∧
      p.code[1]? = some j ∧ operands p.arch (afterWord j.text) = .ok [written'] ∧
      Leads (utf8 "_start:\n  jmp end\n  jmp $5\nend:\n") p written' 0 ∧
      ∀ s, step p.arch s j 1 = (s, .goto 0) := by
  have hend : Assembly.IsOperand .amd64 (utf8 "end") (.label (utf8 "end")) := ⟨by decide, rfl⟩
  have hfive : Assembly.IsOperand .amd64 (utf8 "$5") (.immediate 5) := ⟨by decide, rfl⟩
  have hwritten : Assembly.Written .amd64
      [.label (utf8 "_start"), .instr (utf8 "jmp" ++ utf8 " " ++ utf8 "end"),
        .instr (utf8 "jmp" ++ utf8 " " ++ utf8 "$5"), .label (utf8 "end")]
      [.mark (utf8 "_start"), .op (.jump .always (.label (utf8 "end"))),
        .op (.jump .always (.immediate 5)), .mark (utf8 "end")] :=
    .mark ⟨by decide, by decide⟩
      (.op (Assembly.instruction_jump (by decide) (by decide) rfl hend)
        (.op (Assembly.instruction_jump (by decide) (by decide) rfl hfive)
          (.mark ⟨by decide, by decide⟩ .nil)))
  have hresolved : ∀ place : Bytes → Option Nat, Assembly.Placed place 0
      [.mark (utf8 "_start"), .op (.jump .always (.label (utf8 "end"))),
        .op (.jump .always (.immediate 5)), .mark (utf8 "end")] →
      place (utf8 "_start") = some 0 ∧ List.mapM (Op.resolve place)
        [.jump .always (.label (utf8 "end")), .jump .always (.immediate 5)] =
          .ok [.jump .always (.label 2), .jump .always (.immediate 5)] := by
    rintro place ⟨hstart, hplace, -⟩
    refine ⟨hstart, ?_⟩
    simp only [List.mapM_cons, Op.resolve, Operand.resolve, hplace]
    rfl
  obtain ⟨p, hp, -, -, hcode⟩ := Assembly.loadFor_of_written hwritten (by decide) hresolved
  have loaded : load (utf8 "_start:\n  jmp end\n  jmp $5\nend:\n") 64 = .ok p := hp
  have hhas : p.Has 0 [.jump .always (.label 2), .jump .always (.immediate 5)] := by
    rw [Program.Has, List.drop_zero, hcode]
  obtain ⟨⟨i, hi, hop⟩, hrest⟩ := Program.has_cons.mp hhas
  obtain ⟨⟨j, hj, hop'⟩, -⟩ := Program.has_cons.mp hrest
  obtain ⟨written, t, -, -, hargs, hleads, -, hstep⟩ := jump_leads loaded 0 hi hop
  obtain ⟨written', t', -, -, hargs', hleads', -, hstep'⟩ := jump_leads loaded 1 hj hop'
  obtain rfl : 2 = t := by simpa [step, hop, Condition.holds, Operand.target] using (hstep {}).1
  obtain rfl : 0 = t' := by simpa [step, hop', Condition.holds, Operand.target] using (hstep' {}).1
  exact ⟨p, i, j, written, written', loaded, hi, hargs, hleads, fun s => (hstep s).1, hj, hargs',
    hleads', fun s => (hstep' s).1⟩

end TapeLang.Machine
