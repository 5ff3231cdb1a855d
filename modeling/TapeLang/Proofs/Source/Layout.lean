import TapeLang.Proofs.Tree.Coalesce

/-!
# Where the nodes of a tree stand

The location of a node is that of its first byte. A run is as long as its bytes go on, a loop holds
the nodes between its brackets, and every instruction except a closing bracket is in one node.

* `offset?`: the offset that a location denotes.
* `Node.StandsAt`: what the bytes of a source say about a node at an offset.
* `Laid`: nodes that stand between two offsets, one after the other.
* **`laid_of_reads`**: what a source reads as is laid out in it.
* **`parse_lays_out`**: the nodes of the tree that the parser returns.
-/

namespace TapeLang

open Node Reference

/-- The offset of the byte at a location. -/
def offset? (file source : Bytes) (loc : Location) : Option Nat :=
  (List.range source.length).find? fun i => locationAt file source i = loc

/-- How many bytes are the node's own: those of its run, or its only one. The opening bracket is
all that a loop has of its own. -/
def Node.width (n : Node) : Nat := if n.kind.coalesces then repeats n.count else 1

/-- What the bytes of a source say about a node at an offset: it begins there, and a run goes on
for as long as it counts and neither starts earlier nor ends later. -/
structure Node.StandsAt (n : Node) (source : Bytes) (o : Nat) : Prop where
  formed : n.WellFormed
  byte : source[o]? = some n.kind.byte
  run : n.kind.coalesces → ∀ k < repeats n.count, source[o + k]? = some n.kind.byte
  maximal_right : n.kind.coalesces → source[o + repeats n.count]? ≠ some n.kind.byte
  maximal_left : n.kind.coalesces → ∀ k, k + 1 = o → source[k]? ≠ some n.kind.byte

/-- Whether a node stands between two offsets. -/
def Node.isBetween (file source : Bytes) (i j : Nat) (n : Node) : Bool :=
  (offset? file source n.loc).any fun o => i < o && o < j

/-- The byte at an offset is one of a node's own. -/
def Node.Owns (file source : Bytes) (p : Nat) (n : Node) : Prop :=
  ∃ o, offset? file source n.loc = some o ∧ o ≤ p ∧ p < o + n.width

/-- Nodes stand between two offsets of a source, one after the other, with nothing else between
them that is an instruction. -/
inductive Laid (file source : Bytes) : Nat → List Node → Nat → Prop
  | done (i : Nat) : Laid file source i [] i
  | skip {i j : Nat} {b : UInt8} {nodes : List Node} :
    source[i]? = some b → isInstruction b = false → Laid file source (i + 1) nodes j →
      Laid file source i nodes j
  | operation {i j : Nat} {n : Node} {nodes : List Node} :
    n.kind ≠ .loop → n.loc = locationAt file source i → n.StandsAt source i →
      Laid file source (i + n.width) nodes j → Laid file source i (n :: nodes) j
  | loop {i k j : Nat} {n : Node} {nodes : List Node} :
    n.kind = .loop → n.loc = locationAt file source i → n.StandsAt source i →
      Partners source i k → Laid file source (i + 1) n.children k →
      Laid file source (k + 1) nodes j → Laid file source i (n :: nodes) j

variable {file source : Bytes}

/-! ## Locations and offsets -/

theorem offset?_locationAt (short : source.length < 2 ^ 63) {o : Nat} (ho : o < source.length) :
    offset? file source (locationAt file source o) = some o := by
  unfold offset?
  rcases h : List.find? _ _ with _ | o'
  · have := List.find?_eq_none.mp h o (List.mem_range.mpr ho)
    simp at this
  · have hlt := List.mem_range.mp (List.mem_of_find?_eq_some h)
    have heq := List.find?_some h
    simp only [decide_eq_true_eq] at heq
    rw [locationAt_inj short hlt ho heq]

theorem place_locationAt_lt (short : source.length < 2 ^ 63) {i j : Nat} (hij : i < j)
    (hj : j < source.length) :
    (locationAt file source i).place < (locationAt file source j).place := by
  have hcount : (source.take i).count Cursor.newline ≤ (source.take j).count Cursor.newline :=
    (List.take_sublist_take_left hij.le).count_le _
  have hi := count_take_lt (hij.trans hj)
  have hj' := count_take_lt hj
  have hci := length_takeWhile_take_lt (hij.trans hj)
  have hcj := length_takeWhile_take_lt hj
  unfold Location.place locationAt
  rw [Prod.Lex.toLex_lt_toLex]
  simp only
  rw [Int64.toInt_ofNat_of_lt (by omega), Int64.toInt_ofNat_of_lt (by omega),
    Int64.toInt_ofNat_of_lt (by omega), Int64.toInt_ofNat_of_lt (by omega)]
  by_cases hline : (source.take i).count Cursor.newline = (source.take j).count Cursor.newline
  · have := length_takeWhile_lt hij hj.le hline
    right
    omega
  · left
    omega

theorem mem_known_of_byte {kind : Kind} (h : Kind.ofByte? kind.byte = some kind) :
    kind ∈ Kind.known := by
  cases kind with
  | unknown => cases h
  | _ => decide

theorem Node.width_of_loop {n : Node} (h : n.kind = .loop) : n.width = 1 := by
  simp [width, h, Kind.coalesces]

namespace Node.StandsAt

variable {n : Node} {o : Nat}

theorem lt (h : n.StandsAt source o) : o < source.length :=
  (List.getElem?_eq_some_iff.mp h.byte).1

theorem width_pos (h : n.StandsAt source o) : 0 < n.width := by
  unfold width
  split_ifs with hco
  · exact h.formed.repeats_pos hco
  · exact Nat.one_pos

theorem of_run {kind : Kind} {count : Int64} {loc : Location} {m : Nat} {front rest : Bytes}
    (hk : Kind.ofByte? kind.byte = some kind) (hco : kind.coalesces)
    (hcount : repeats count = m + 1)
    (hsource : front ++ (List.replicate (m + 1) kind.byte ++ rest) = source)
    (hleft : front.getLast? ≠ some kind.byte) (hright : rest.head? ≠ some kind.byte) :
    StandsAt { kind, count, loc } source front.length := by
  have hbytes : ∀ k < m + 1, source[front.length + k]? = some kind.byte := by
    intro k hlt
    rw [← hsource, List.getElem?_append_right (by omega), Nat.add_sub_cancel_left,
      List.getElem?_append_left (by simpa using hlt)]
    simp [hlt]
  refine ⟨⟨mem_known_of_byte hk, fun _ => ?_, fun h => ?_, fun _ => rfl⟩, hbytes 0 (by omega),
    fun _ => ?_, fun _ => ?_, fun _ k hlast => ?_⟩
  · have hone : (1 : Int64).toInt = 1 := rfl
    rw [repeats] at hcount
    simp only [Int64.le_iff_toInt_le]
    omega
  · rw [hco] at h
    cases h
  · rw [hcount]
    exact hbytes
  · rw [hcount, ← hsource, List.getElem?_append_right (by omega), Nat.add_sub_cancel_left,
      List.getElem?_append_right (by simp), List.length_replicate, Nat.sub_self,
      ← List.head?_eq_getElem?]
    exact hright
  · rw [← hsource, List.getElem?_append_left (by omega)]
    rw [List.getLast?_eq_getElem?, ← hlast, Nat.add_sub_cancel] at hleft
    exact hleft

theorem of_single {kind : Kind} {children : List Node} {loc : Location}
    (hknown : kind ∈ Kind.known) (hco : kind.coalesces = false)
    (hchildren : kind ≠ .loop → children = []) (hbyte : source[o]? = some kind.byte) :
    StandsAt { kind, children, loc } source o := by
  have hnot : ¬ kind.coalesces := by simp [hco]
  exact ⟨⟨hknown, fun h => absurd h hnot, fun _ => rfl, hchildren⟩, hbyte,
    fun h => absurd h hnot, fun h => absurd h hnot, fun h => absurd h hnot⟩

theorem offset?_eq (h : n.StandsAt source o) (short : source.length < 2 ^ 63)
    (hloc : n.loc = locationAt file source o) : offset? file source n.loc = some o := by
  rw [hloc, offset?_locationAt short h.lt]

theorem isBetween_eq (h : n.StandsAt source o) (short : source.length < 2 ^ 63)
    (hloc : n.loc = locationAt file source o) (i j : Nat) :
    n.isBetween file source i j = (decide (i < o) && decide (o < j)) := by
  rw [isBetween, h.offset?_eq short hloc]
  rfl

end Node.StandsAt

/-! ## Nodes that are laid out -/

namespace Laid

variable {i j : Nat} {nodes : List Node}

theorem le (h : Laid file source i nodes j) : i ≤ j := by
  induction h with
  | done => exact le_rfl
  | skip _ _ _ ih => omega
  | operation _ _ _ _ ih => omega
  | loop _ _ _ hp _ _ _ ih =>
    have := hp.1
    omega

/-- Every node stands at its location, with its own bytes between the two offsets. -/
theorem standsAt (h : Laid file source i nodes j) :
    ∀ n ∈ everywhere nodes, ∃ o, n.loc = locationAt file source o ∧ n.StandsAt source o ∧
      i ≤ o ∧ o + n.width ≤ j := by
  induction h with
  | done => simp
  | skip _ _ _ ih =>
    intro n hn
    obtain ⟨o, hloc, hat, hle, hend⟩ := ih n hn
    exact ⟨o, hloc, hat, by omega, hend⟩
  | @operation i j n nodes hk hloc hat hrest ih =>
    have hle := hrest.le
    simp only [everywhere_cons, hat.formed.childless hk, everywhere_nil, List.nil_append,
      List.forall_mem_cons]
    refine ⟨⟨i, hloc, hat, le_rfl, hle⟩, fun m hm => ?_⟩
    obtain ⟨o, hm⟩ := ih m hm
    exact ⟨o, hm.1, hm.2.1, by omega, hm.2.2.2⟩
  | @loop i k j n nodes hk hloc hat hp _ hrest ihc ihr =>
    have hwidth := width_of_loop hk
    have hle := hrest.le
    have hik := hp.1
    simp only [everywhere_cons, List.forall_mem_cons, List.forall_mem_append]
    refine ⟨⟨i, hloc, hat, le_rfl, by omega⟩, fun m hm => ?_, fun m hm => ?_⟩
    · obtain ⟨o, hm⟩ := ihc m hm
      exact ⟨o, hm.1, hm.2.1, by omega, by omega⟩
    · obtain ⟨o, hm⟩ := ihr m hm
      exact ⟨o, hm.1, hm.2.1, by omega, hm.2.2.2⟩

/-- One node ends before another one begins. -/
def Precedes (file source : Bytes) (a b : Node) : Prop :=
  ∃ x y, a.loc = locationAt file source x ∧ b.loc = locationAt file source y ∧
    a.StandsAt source x ∧ b.StandsAt source y ∧ x + a.width ≤ y

theorem pairwise_precedes (h : Laid file source i nodes j) :
    (everywhere nodes).Pairwise (Precedes file source) := by
  induction h with
  | done => exact .nil
  | skip _ _ _ ih => exact ih
  | @operation i j n nodes hk hloc hat hrest ih =>
    rw [everywhere_cons, hat.formed.childless hk, everywhere_nil, List.nil_append,
      List.pairwise_cons]
    refine ⟨fun m hm => ?_, ih⟩
    obtain ⟨o, hmloc, hmat, hle, -⟩ := hrest.standsAt m hm
    exact ⟨i, o, hloc, hmloc, hat, hmat, hle⟩
  | @loop i k j n nodes hk hloc hat hp hbody hrest ihc ihr =>
    have hwidth := width_of_loop hk
    have hik := hp.1
    rw [everywhere_cons, List.pairwise_cons, List.pairwise_append, List.forall_mem_append]
    refine ⟨⟨fun m hm => ?_, fun m hm => ?_⟩, ihc, ihr, fun a ha b hb => ?_⟩
    · obtain ⟨o, hmloc, hmat, hle, -⟩ := hbody.standsAt m hm
      exact ⟨i, o, hloc, hmloc, hat, hmat, by omega⟩
    · obtain ⟨o, hmloc, hmat, hle, -⟩ := hrest.standsAt m hm
      exact ⟨i, o, hloc, hmloc, hat, hmat, by omega⟩
    · obtain ⟨x, haloc, haat, -, hax⟩ := hbody.standsAt a ha
      obtain ⟨y, hbloc, hbat, hby, -⟩ := hrest.standsAt b hb
      exact ⟨x, y, haloc, hbloc, haat, hbat, by omega⟩

/-- Nodes that end before an offset, or begin after another one, are not between them. -/
theorem filter_isBetween_eq_nil (short : source.length < 2 ^ 63)
    (h : Laid file source i nodes j) {x y : Nat} (hout : j ≤ x + 1 ∨ y ≤ i) :
    (everywhere nodes).filter (isBetween file source x y) = [] := by
  rw [List.filter_eq_nil_iff]
  intro n hn
  obtain ⟨o, hloc, hat, hle, hend⟩ := h.standsAt n hn
  have hpos := hat.width_pos
  rw [hat.isBetween_eq short hloc]
  simp only [Bool.and_eq_true, decide_eq_true_eq, not_and]
  omega

theorem filter_isBetween_eq_self (short : source.length < 2 ^ 63)
    (h : Laid file source i nodes j) {x y : Nat} (hx : x < i) (hy : j ≤ y) :
    (everywhere nodes).filter (isBetween file source x y) = everywhere nodes := by
  rw [List.filter_eq_self]
  intro n hn
  obtain ⟨o, hloc, hat, hle, hend⟩ := h.standsAt n hn
  have hpos := hat.width_pos
  rw [hat.isBetween_eq short hloc]
  simp only [Bool.and_eq_true, decide_eq_true_eq]
  omega

/-- A node that is not after an offset is not between it and another one. -/
theorem filter_cons_isBetween (short : source.length < 2 ^ 63) {n : Node} {ns : List Node} {o : Nat}
    (hloc : n.loc = locationAt file source o) (hat : n.StandsAt source o) {x y : Nat}
    (hox : o ≤ x) :
    (n :: ns).filter (isBetween file source x y) = ns.filter (isBetween file source x y) := by
  refine List.filter_cons_of_neg ?_
  rw [hat.isBetween_eq short hloc]
  simp only [Bool.and_eq_true, decide_eq_true_eq, not_and]
  omega

/-- **The nodes inside a loop** are those between its brackets. -/
theorem children_eq (short : source.length < 2 ^ 63) (h : Laid file source i nodes j) :
    ∀ n ∈ everywhere nodes, n.kind = .loop → ∃ o k, n.loc = locationAt file source o ∧
      Partners source o k ∧ i ≤ o ∧ k < j ∧
      everywhere n.children = (everywhere nodes).filter (isBetween file source o k) := by
  induction h with
  | done => simp
  | skip _ _ _ ih =>
    intro n hn hk
    obtain ⟨o, k, hloc, hp, hle, hlt, heq⟩ := ih n hn hk
    exact ⟨o, k, hloc, hp, by omega, hlt, heq⟩
  | @operation i j n nodes hk hloc hat hrest ih =>
    have hpos := hat.width_pos
    simp only [everywhere_cons, hat.formed.childless hk, everywhere_nil, List.nil_append,
      List.forall_mem_cons]
    refine ⟨fun hloop => absurd hloop hk, fun m hm hmk => ?_⟩
    obtain ⟨o, k, hmloc, hp, hle, hlt, heq⟩ := ih m hm hmk
    refine ⟨o, k, hmloc, hp, by omega, hlt, ?_⟩
    rw [filter_cons_isBetween short hloc hat (by omega), heq]
  | @loop i k j n nodes hk hloc hat hp hbody hrest ihc ihr =>
    have hik := hp.1
    have hle := hrest.le
    simp only [everywhere_cons, List.forall_mem_cons, List.forall_mem_append]
    refine ⟨fun _ => ⟨i, k, hloc, hp, le_rfl, by omega, ?_⟩, fun m hm hmk => ?_,
      fun m hm hmk => ?_⟩
    -- the loop itself, then a loop in its body, then a loop after it
    · rw [filter_cons_isBetween short hloc hat le_rfl, List.filter_append,
        hbody.filter_isBetween_eq_self short (by omega) le_rfl,
        hrest.filter_isBetween_eq_nil short (by omega), List.append_nil]
    · obtain ⟨o, k', hmloc, hmp, hmle, hmlt, heq⟩ := ihc m hm hmk
      refine ⟨o, k', hmloc, hmp, by omega, by omega, ?_⟩
      rw [filter_cons_isBetween short hloc hat (by omega), List.filter_append, ← heq,
        hrest.filter_isBetween_eq_nil short (by omega), List.append_nil]
    · obtain ⟨o, k', hmloc, hmp, hmle, hmlt, heq⟩ := ihr m hm hmk
      refine ⟨o, k', hmloc, hmp, by omega, hmlt, ?_⟩
      rw [filter_cons_isBetween short hloc hat (by omega), List.filter_append, ← heq,
        hbody.filter_isBetween_eq_nil short (by omega), List.nil_append]

/-- Every instruction between the two offsets, except a closing bracket, is some node's own. -/
theorem exists_owner (h : Laid file source i nodes j) {p : Nat} {b : UInt8} (hi : i ≤ p)
    (hj : p < j) (hb : source[p]? = some b) (hinstr : isInstruction b)
    (hclose : b ≠ Text.ascii ']') :
    ∃ n ∈ everywhere nodes, ∃ o, n.loc = locationAt file source o ∧ n.StandsAt source o ∧
      o ≤ p ∧ p < o + n.width := by
  induction h with
  | done => omega
  | @skip i j b' nodes hb' hnot _ ih =>
    refine ih ?_ hj
    by_contra hlt
    obtain rfl : i = p := by omega
    rw [hb'] at hb
    cases hb
    rw [hnot] at hinstr
    cases hinstr
  | @operation i j n nodes _ hloc hat _ ih =>
    rw [everywhere_cons]
    by_cases hp : p < i + n.width
    · exact ⟨n, by simp, i, hloc, hat, hi, hp⟩
    · obtain ⟨m, hm, hown⟩ := ih (by omega) hj
      exact ⟨m, by simp [hm], hown⟩
  | @loop i k j n nodes hk hloc hat hpartners _ _ ihc ihr =>
    have hwidth := width_of_loop hk
    rw [everywhere_cons]
    rcases Nat.lt_trichotomy p k with hpk | rfl | hpk
    · by_cases hpi : p = i
      · exact ⟨n, by simp, i, hloc, hat, hi, by omega⟩
      · obtain ⟨m, hm, hown⟩ := ihc (by omega) hpk
        exact ⟨m, by simp [hm], hown⟩
    · rw [hpartners.2.2.1] at hb
      exact absurd (Option.some.inj hb).symm hclose
    · obtain ⟨m, hm, hown⟩ := ihr hpk hj
      exact ⟨m, by simp [hm], hown⟩

end Laid

/-! ## What a source reads as -/

namespace Cursor

variable {c d e : Cursor}

theorem Placed.passRun {b : UInt8} {n : Nat} (h : c.Placed source) :
    (c.passRun b n).2.Placed source ∧ (c.passRun b n).2.file = c.file ∧
      ∃ k, (c.passRun b n).2.before = List.replicate k b ++ c.before ∧
        (c.passRun b n).1 = n + k := by
  fun_induction Cursor.passRun b c n with
  | case1 => exact ⟨h, rfl, 0, rfl, rfl⟩
  | case2 c n d ha hp ih =>
    obtain ⟨hbefore, hfile⟩ := advance?_behind hp ha
    obtain ⟨hplaced, hfile', k, hk, hn⟩ := ih (h.advance? hp ha)
    refine ⟨hplaced, hfile'.trans hfile, k + 1, ?_, by omega⟩
    rw [hk, hbefore, List.replicate_succ', List.append_assoc]
    rfl
  | case3 => exact ⟨h, rfl, 0, rfl, rfl⟩

/-- What spells nodes between two places of a source is balanced. -/
theorem Placed.balanced (hd : d.Placed source) (he : e.Placed source) {nodes : List Node}
    (h : Spells d.after nodes e.after) :
    Balanced ((source.take e.before.length).drop d.before.length) := by
  obtain ⟨text, htext, hbalanced⟩ := h.exists_balanced
  have hbefore : e.before.reverse = d.before.reverse ++ text := by
    have hsource := he.source.trans hd.source.symm
    rw [htext, ← List.append_assoc] at hsource
    exact List.append_cancel_right hsource
  rw [he.take, hbefore, ← List.length_reverse, List.drop_left]
  exact hbalanced

/-- A cursor in a source that stands in no run: what is ahead does not go on from what is behind. -/
structure Clear (c : Cursor) (file source : Bytes) : Prop where
  named : c.file = file
  placed : c.Placed source
  bounded : c.Bounded
  apart : ∀ kind : Kind, kind.coalesces → c.peek? = some kind.byte →
    c.before.head? ≠ some kind.byte

theorem clear_start (short : source.length < 2 ^ 63) : (start file source).Clear file source :=
  ⟨rfl, placed_start file source, bounded_start file short, fun _ _ _ => by simp [start]⟩

theorem Clear.location (h : c.Clear file source) :
    c.location = locationAt file source c.before.length :=
  h.named ▸ h.placed.location

theorem Clear.advance? (h : c.Clear file source) {b : UInt8} (hp : c.peek? = some b)
    (ha : c.advance? = some d) (hb : ∀ kind : Kind, kind.coalesces → kind.byte ≠ b) :
    d.Clear file source ∧ d.before.length = c.before.length + 1 := by
  obtain ⟨hbefore, hfile⟩ := advance?_behind hp ha
  refine ⟨⟨hfile.trans h.named, h.placed.advance? hp ha, (h.bounded.advance? ha).1, ?_⟩, ?_⟩
  · intro kind hco _
    simpa [hbefore] using (hb kind hco).symm
  · simp [hbefore]

/-- A step over a run, and the node that it becomes. -/
theorem Clear.passRun (h : c.Clear file source) {b : UInt8} {kind : Kind} (hp : c.peek? = some b)
    (ha : c.advance? = some d) (hk : Kind.ofByte? b = some kind) (hco : kind.coalesces) :
    let n : Node := { kind, count := Int64.ofNat (d.passRun b 1).1, loc := c.location }
    (d.passRun b 1).2.Clear file source ∧ n.StandsAt source c.before.length ∧
      (d.passRun b 1).2.before.length = c.before.length + n.width := by
  obtain rfl := byte_of_ofByte? hk
  obtain ⟨hbefore, hfile⟩ := advance?_behind hp ha
  obtain ⟨hplaced, hfile', k, hk', hn⟩ :=
    (h.placed.advance? hp ha).passRun (b := kind.byte) (n := 1)
  obtain ⟨-, -, -, hhead⟩ := passRun_after kind.byte d 1
  set r := d.passRun kind.byte 1
  have hsource : c.before.reverse ++ (List.replicate (k + 1) kind.byte ++ r.2.after) = source := by
    rw [← hplaced.source, hk', hbefore]
    simp [List.replicate_succ]
  have hcount : repeats (Int64.ofNat r.1) = k + 1 := by
    have hcolumn := h.bounded.column
    have htop := h.bounded.top
    have hahead := hsource.trans h.placed.source.symm
    rw [List.append_cancel_left_eq] at hahead
    have hlength := congrArg List.length hahead
    rw [List.length_append, List.length_replicate] at hlength
    rw [repeats_ofNat (by omega), hn, Nat.add_comm]
  have hbounded := ((h.bounded.advance? ha).1.passRun (b := kind.byte) 1).1
  refine ⟨⟨hfile'.trans (hfile.trans h.named), hplaced, hbounded, ?_⟩, ?_, ?_⟩
  -- What is behind the run is its last byte, and what is ahead is another one.
  · intro kind' _ hpeek hlast
    have hbyte : kind'.byte = kind.byte := by
      rw [hk', hbefore, List.head?_append, List.head?_replicate] at hlast
      by_cases hzero : k = 0
      · simpa [hzero] using hlast.symm
      · simpa [hzero] using hlast.symm
    rw [hbyte] at hpeek
    exact hhead hpeek
  · rw [← List.length_reverse]
    refine .of_run hk hco hcount hsource ?_ hhead
    rw [List.getLast?_reverse]
    exact h.apart kind hco hp
  · simp only [width, hco, if_true, hcount]
    simp [hk', hbefore]
    omega

/-- **What a source reads as is laid out in it.** -/
theorem laid_of_reads {nodes : List Node} (h : c.Reads nodes e) (hc : c.Clear file source) :
    e.Clear file source ∧ Laid file source c.before.length nodes e.before.length := by
  -- That the cursor stands in no run is carried along: it makes the next run maximal on its left.
  induction h with
  | done c => exact ⟨hc, .done _⟩
  | @skip c d e b nodes hp hopen hclose hk ha _ ih =>
    obtain ⟨hd, hlength⟩ := hc.advance? hp ha (fun kind hco hb => by
      rw [← hb, ofByte?_of_coalesces hco] at hk
      cases hk)
    obtain ⟨he, hlaid⟩ := ih hd
    rw [hlength] at hlaid
    exact ⟨he, .skip (hc.placed.getElem?.trans hp) (not_isInstruction hopen hclose hk) hlaid⟩
  | @run c d e b kind nodes hp hk hco ha _ ih =>
    obtain ⟨hr, hat, hlength⟩ := hc.passRun hp ha hk hco
    obtain ⟨he, hlaid⟩ := ih hr
    rw [hlength] at hlaid
    exact ⟨he, .operation (ne_loop_of_ofByte? hk) hc.location hat hlaid⟩
  | @single c d e b kind nodes hp hk hco ha _ ih =>
    obtain rfl := byte_of_ofByte? hk
    obtain ⟨hd, hlength⟩ := hc.advance? hp ha (fun kind' hco' hb => by
      rw [← hb, ofByte?_of_coalesces hco'] at hk
      cases hk
      rw [hco] at hco'
      cases hco')
    obtain ⟨he, hlaid⟩ := ih hd
    have hat : Node.StandsAt { kind, loc := c.location } source c.before.length :=
      .of_single (mem_known_of_byte hk) hco (fun _ => rfl) (hc.placed.getElem?.trans hp)
    refine ⟨he, .operation (ne_loop_of_ofByte? hk) hc.location hat ?_⟩
    simpa [width, hco, hlength] using hlaid
  | @loop c d e f g children nodes hp ha hreads hp' ha' _ ihc ihr =>
    obtain ⟨hd, hlength⟩ := hc.advance? hp ha fun kind hco =>
      (byte_ne_brackets (ofByte?_of_coalesces hco)).1
    obtain ⟨he, hbody⟩ := ihc hd
    obtain ⟨hf, hlength'⟩ := he.advance? hp' ha' fun kind hco =>
      (byte_ne_brackets (ofByte?_of_coalesces hco)).2
    obtain ⟨hg, hrest⟩ := ihr hf
    have hbalanced := hd.placed.balanced he.placed (spells_of_reads hreads hd.bounded)
    rw [hlength] at hbody hbalanced
    rw [hlength'] at hrest
    have hopen := hc.placed.getElem?.trans hp
    have hclose := he.placed.getElem?.trans hp'
    have hat : Node.StandsAt { kind := .loop, children, loc := c.location } source
        c.before.length := .of_single (by decide) rfl (fun h => absurd rfl h) hopen
    exact ⟨hg, .loop rfl hc.location hat ⟨hbody.le, hopen, hclose, hbalanced⟩ hbody hrest⟩

end Cursor

theorem laid_of_parse {nodes : List Node} (short : source.length < 2 ^ 63)
    (parsed : parse file source = .ok nodes) : Laid file source 0 nodes source.length := by
  obtain ⟨e, hreads, hafter⟩ := reads_of_parse parsed
  obtain ⟨he, hlaid⟩ := Cursor.laid_of_reads hreads (Cursor.clear_start short)
  have hlength := congrArg List.length he.placed.source
  rw [hafter, List.append_nil, List.length_reverse] at hlength
  rw [hlength] at hlaid
  exact hlaid

theorem Laid.owner_unique (short : source.length < 2 ^ 63) {i j p : Nat} {nodes : List Node}
    (h : Laid file source i nodes j) {a b : Node} (ha : a ∈ everywhere nodes)
    (hb : b ∈ everywhere nodes) (hpa : a.Owns file source p) (hpb : b.Owns file source p) :
    a = b := by
  -- Of two nodes, one ends before the other begins.
  have hdisjoint : ∀ {a b : Node}, Precedes file source a b → a.Owns file source p →
      ¬ b.Owns file source p := by
    rintro a b ⟨x, y, hax, hby, hx, hy, hxy⟩ ⟨o, ho, hle, hlt⟩ ⟨o', ho', hle', hlt'⟩
    rw [hx.offset?_eq short hax] at ho
    rw [hy.offset?_eq short hby] at ho'
    cases ho
    cases ho'
    omega
  by_contra hne
  have hpairwise : (everywhere nodes).Pairwise (Relation.SymmGen (Precedes file source)) :=
    h.pairwise_precedes.imp fun h => .inl h
  rcases hpairwise.forall ha hb hne with hab | hba
  · exact hdisjoint hab hpa hpb
  · exact hdisjoint hba hpb hpa

/-- **The nodes of a tree stand at the offsets of their locations**, in preorder, and own every
instruction once. -/
theorem parse_lays_out {file source : Bytes} {nodes : List Node}
    (short : source.length < 2 ^ 63) (parsed : parse file source = .ok nodes) :
    (∀ n ∈ everywhere nodes, ∃ o, offset? file source n.loc = some o ∧ n.StandsAt source o ∧
      (n.kind = .loop → ∃ k, Partners source o k ∧
        everywhere n.children = (everywhere nodes).filter (isBetween file source o k))) ∧
    (everywhere nodes).Pairwise (fun a b => a.loc.place < b.loc.place) ∧
    ∀ p b, source[p]? = some b → isInstruction b → b ≠ Text.ascii ']' →
      ∃! n, n ∈ everywhere nodes ∧ n.Owns file source p := by
  have hlaid := laid_of_parse short parsed
  refine ⟨fun n hn => ?_, ?_, fun p b hb hinstr hclose => ?_⟩
  · obtain ⟨o, hloc, hat, -, -⟩ := hlaid.standsAt n hn
    refine ⟨o, hat.offset?_eq short hloc, hat, fun hk => ?_⟩
    obtain ⟨o', k, hloc', hpartners, -, -, heq⟩ := hlaid.children_eq short n hn hk
    have ho' := (List.getElem?_eq_some_iff.mp hpartners.2.1).1
    obtain rfl := locationAt_inj short hat.lt ho' (hloc.symm.trans hloc')
    exact ⟨k, hpartners, heq⟩
  · refine hlaid.pairwise_precedes.imp ?_
    rintro a b ⟨x, y, ha, hb, hx, hy, hxy⟩
    have hpos := hx.width_pos
    rw [ha, hb]
    exact place_locationAt_lt short (by omega) hy.lt
  · have hp := (List.getElem?_eq_some_iff.mp hb).1
    obtain ⟨n, hn, o, hloc, hat, hle, hlt⟩ :=
      hlaid.exists_owner (Nat.zero_le p) hp hb hinstr hclose
    have howns : n.Owns file source p := ⟨o, hat.offset?_eq short hloc, hle, hlt⟩
    exact ⟨n, ⟨hn, howns⟩, fun m hm => hlaid.owner_unique short hm.1 hn hm.2 howns⟩

/-- A loop with runs and comments in it, on two lines. -/
theorem parse_lays_out_comments :
    ∃ nodes, parse "runs" (utf8 "++ +\n[>,x<<]") = .ok nodes ∧
      (everywhere nodes).Pairwise (fun a b => a.loc.place < b.loc.place) ∧
      ∃! n, n ∈ everywhere nodes ∧ n.Owns "runs" (utf8 "++ +\n[>,x<<]") 10 := by
  obtain ⟨nodes, parsed⟩ : ∃ nodes, parse "runs" (utf8 "++ +\n[>,x<<]") = .ok nodes :=
    exists_parse (bracketErrors_eq_nil.mpr (by decide +kernel))
  obtain ⟨-, hsorted, howner⟩ := parse_lays_out (by decide) parsed
  exact ⟨nodes, parsed, hsorted, howner 10 (Text.ascii '<') (by decide) (by decide) (by decide)⟩

end TapeLang
