import Mathlib.Algebra.Group.Int.Defs
import Mathlib.Algebra.Group.Nat.Defs
import Mathlib.Data.Int.Order.Basic
import Mathlib.Data.List.Basic
import Mathlib.Data.Prod.Lex
import TapeLang.Proofs.Source.Reading

/-!
# Locations in reading order

A cursor moves on in its source from line to line and from column to column, so the locations of a
tree come in order and no two nodes share one.

* `Location.place`, `Cursor.place`: lines and columns in lexicographic order.
* `Cursor.Bounded`: a cursor in a source whose places can be counted with 64 bits.
* **`between_of_reads`**: the locations of the nodes between two places lie between them, in
  order.
-/

namespace TapeLang

/-- The line and column of a location. -/
def Location.place (loc : Location) : ℤ ×ₗ ℤ :=
  toLex (loc.line.toInt, loc.column.toInt)

namespace Node

mutual

/-- The locations of a node and of the nodes in it, in reading order. -/
def locations : Node → List Location
  | ⟨.loop, _, children, loc⟩ => loc :: locationsAll children
  | ⟨_, _, _, loc⟩ => [loc]

/-- The locations of nodes and of the nodes in them, in reading order. -/
def locationsAll : List Node → List Location
  | [] => []
  | n :: ns => locations n ++ locationsAll ns

end

theorem locations_operation {kind : Kind} (hk : kind ≠ .loop) (count : Int64)
    (children : List Node) (loc : Location) :
    locations ⟨kind, count, children, loc⟩ = [loc] := by
  cases kind with
  | loop => exact absurd rfl hk
  | _ => rfl

end Node

namespace Cursor

variable {c d e : Cursor}

/-- The line and column of the byte ahead. -/
def place (c : Cursor) : ℤ ×ₗ ℤ :=
  toLex ((c.line : ℤ), (c.columns.top : ℤ))

/-- The source is short enough for its places to be counted with 64 bits. -/
structure Bounded (c : Cursor) : Prop where
  line : c.line + c.after.length ≤ 2 ^ 63
  column : c.columns.top + c.after.length ≤ 2 ^ 63
  top : 1 ≤ c.columns.top

theorem bounded_start (file : Bytes) {source : Bytes} (h : source.length < 2 ^ 63) :
    (start file source).Bounded := by
  have : (start file source).after.length = source.length := rfl
  refine ⟨?_, ?_, le_refl 1⟩
  · change 1 + source.length ≤ 2 ^ 63
    omega
  · change 1 + source.length ≤ 2 ^ 63
    omega

theorem advance?_inv_of_peek? {b : UInt8} (hp : c.peek? = some b) (h : c.advance? = some d) :
    c.after = b :: d.after ∧
      (b = newline ∧ d = { c with
          before := b :: c.before, after := d.after, line := c.line + 1,
          columns := c.columns.push 1 } ∨
        b ≠ newline ∧ d = { c with
          before := b :: c.before, after := d.after,
          columns := c.columns.modifyTop (· + 1) }) := by
  obtain ⟨b', hafter, hd⟩ := advance?_inv h
  obtain rfl : b' = b := by
    rw [peek?, hafter] at hp
    exact Option.some.inj hp
  exact ⟨hafter, hd⟩

/-- What a step over a byte does to the place. -/
theorem advance?_cases {b : UInt8} (hp : c.peek? = some b) (h : c.advance? = some d) :
    c.after = b :: d.after ∧
      (b = newline ∧ d.line = c.line + 1 ∧ d.columns.top = 1 ∨
        b ≠ newline ∧ d.line = c.line ∧ d.columns.top = c.columns.top + 1) := by
  obtain ⟨hafter, ⟨hb, hd⟩ | ⟨hb, hd⟩⟩ := advance?_inv_of_peek? hp h
  · refine ⟨hafter, .inl ⟨hb, ?_⟩⟩
    rw [hd]
    exact ⟨rfl, rfl⟩
  · refine ⟨hafter, .inr ⟨hb, ?_⟩⟩
    rw [hd]
    exact ⟨rfl, Stack.top_modifyTop _ _⟩

theorem exists_peek?_of_advance? (h : c.advance? = some d) : ∃ b, c.peek? = some b := by
  obtain ⟨b, hafter, -⟩ := advance?_inv h
  exact ⟨b, by rw [peek?, hafter]; rfl⟩

theorem Bounded.advance? (hb : c.Bounded) (h : c.advance? = some d) :
    d.Bounded ∧ c.place < d.place := by
  obtain ⟨b, hp⟩ := exists_peek?_of_advance? h
  obtain ⟨ha, hl⟩ := advance?_cases hp h
  have hlen : c.after.length = d.after.length + 1 := by rw [ha, List.length_cons]
  have := hb.line
  have := hb.column
  have := hb.top
  unfold place
  rw [Prod.Lex.toLex_lt_toLex]
  rcases hl with ⟨-, hl, ht⟩ | ⟨-, hl, ht⟩
  · exact ⟨⟨by omega, by omega, by omega⟩, .inl (by simp only; omega)⟩
  · exact ⟨⟨by omega, by omega, by omega⟩, .inr (by simp only; omega)⟩

theorem Bounded.passRun {b : UInt8} (hb : c.Bounded) (n : Nat) :
    (Cursor.passRun b c n).2.Bounded ∧ c.place ≤ (Cursor.passRun b c n).2.place := by
  fun_induction Cursor.passRun b c n with
  | case1 c n _ => exact ⟨hb, le_rfl⟩
  | case2 c n d ha hp ih =>
    obtain ⟨hd, hlt⟩ := hb.advance? ha
    obtain ⟨he, hle⟩ := ih hd
    exact ⟨he, hlt.le.trans hle⟩
  | case3 c n d ha hp => exact ⟨hb, le_rfl⟩

theorem length_pos_of_peek? {b : UInt8} (hp : c.peek? = some b) : 0 < c.after.length := by
  refine List.length_pos_of_ne_nil fun hnil => ?_
  rw [peek?, hnil] at hp
  cases hp

/-- A location before a byte is the place of the cursor. -/
theorem Bounded.location_place {b : UInt8} (hb : c.Bounded) (hp : c.peek? = some b) :
    c.location.place = c.place := by
  have hlen := length_pos_of_peek? hp
  have := hb.line
  have := hb.column
  unfold Location.place place location
  rw [Int64.toInt_ofNat_of_lt (by omega), Int64.toInt_ofNat_of_lt (by omega)]

/-- The locations of a tree lie between two places, in order. -/
structure Between (c : Cursor) (nodes : List Node) (e : Cursor) : Prop where
  bounded : e.Bounded
  le : c.place ≤ e.place
  lower : ∀ loc ∈ Node.locationsAll nodes, c.place ≤ loc.place
  upper : ∀ loc ∈ Node.locationsAll nodes, loc.place < e.place
  sorted : (Node.locationsAll nodes).Pairwise fun a b => a.place < b.place

namespace Between

variable {nodes : List Node}

theorem nil (hb : c.Bounded) : Between c [] c :=
  ⟨hb, le_rfl, by simp [Node.locationsAll], by simp [Node.locationsAll], .nil⟩

theorem mono (h : Between d nodes e) (hcd : c.place ≤ d.place) : Between c nodes e :=
  ⟨h.bounded, hcd.trans h.le, fun loc hl => hcd.trans (h.lower loc hl), h.upper, h.sorted⟩

/-- A node in front whose location is the first place and whose inner locations come before the
next node. -/
theorem cons {n : Node} {loc : Location} {inner : List Location}
    (hn : n.locations = loc :: inner) (hloc : loc.place = c.place) (hcd : c.place < d.place)
    (hlower : ∀ i ∈ inner, c.place < i.place) (hupper : ∀ i ∈ inner, i.place < d.place)
    (hsorted : inner.Pairwise fun a b => a.place < b.place) (h : Between d nodes e) :
    Between c (n :: nodes) e := by
  have hl : Node.locationsAll (n :: nodes) = loc :: (inner ++ Node.locationsAll nodes) := by
    rw [Node.locationsAll, hn, List.cons_append]
  refine ⟨h.bounded, hcd.le.trans h.le, ?_, ?_, ?_⟩
  · rw [hl, List.forall_mem_cons, List.forall_mem_append]
    exact ⟨hloc.ge, fun i hi => (hlower i hi).le, fun i hi => hcd.le.trans (h.lower i hi)⟩
  · rw [hl, List.forall_mem_cons, List.forall_mem_append]
    exact ⟨hloc ▸ hcd.trans_le h.le, fun i hi => (hupper i hi).trans_le h.le, h.upper⟩
  · rw [hl, List.pairwise_cons, List.pairwise_append, List.forall_mem_append]
    refine ⟨⟨fun i hi => hloc ▸ hlower i hi, fun i hi => ?_⟩, hsorted, h.sorted, ?_⟩
    · rw [hloc]
      exact hcd.trans_le (h.lower i hi)
    · intro i hi j hj
      exact (hupper i hi).trans_le (h.lower j hj)

end Between

theorem ne_loop_of_ofByte? {b : UInt8} {kind : Kind} (h : Kind.ofByte? b = some kind) :
    kind ≠ .loop := by
  rintro rfl
  exact absurd (List.mem_of_find?_eq_some h) (by decide)

/-- **The locations of the nodes between two places lie between them, in order.** -/
theorem between_of_reads {nodes : List Node} (h : Reads c nodes e) (hb : c.Bounded) :
    Between c nodes e := by
  induction h with
  | done c => exact .nil hb
  | skip _ _ _ _ ha _ ih =>
    obtain ⟨hd, hlt⟩ := hb.advance? ha
    exact (ih hd).mono hlt.le
  | run hp hk _ ha _ ih =>
    obtain ⟨hd, hlt⟩ := hb.advance? ha
    obtain ⟨hr, hle⟩ := hd.passRun 1
    exact (ih hr).cons (Node.locations_operation (ne_loop_of_ofByte? hk) _ _ _)
      (hb.location_place hp) (hlt.trans_le hle) (by simp) (by simp) .nil
  | single hp hk _ ha _ ih =>
    obtain ⟨hd, hlt⟩ := hb.advance? ha
    exact (ih hd).cons (Node.locations_operation (ne_loop_of_ofByte? hk) _ _ _)
      (hb.location_place hp) hlt (by simp) (by simp) .nil
  | loop hp ha _ hp' ha' _ ihc ihr =>
    obtain ⟨hd, hlt⟩ := hb.advance? ha
    have hbody := ihc hd
    obtain ⟨hf, hlt'⟩ := hbody.bounded.advance? ha'
    refine (ihr hf).cons rfl (hb.location_place hp) ?_ ?_ ?_ hbody.sorted
    · exact (hlt.trans_le hbody.le).trans hlt'
    · exact fun i hi => hlt.trans_le (hbody.lower i hi)
    · exact fun i hi => (hbody.upper i hi).trans hlt'

end Cursor

end TapeLang
