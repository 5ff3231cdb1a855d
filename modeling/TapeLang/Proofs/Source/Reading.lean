import Mathlib.Data.List.Basic
import TapeLang.Parse

/-!
# What a source reads as

The tree of a source is described by a relation between two places of the source and the nodes
between them. The parser, which works with a stack of unfinished loops, finds nothing else.

* `Cursor.Reads`: the nodes between two places of a source.
* `Cursor.Closes`: how the rest of a source finishes the loops that are open.
* **`reads_of_parse`**: a tree that the parser returns is what the whole source reads as.
-/

namespace TapeLang

namespace Cursor

/-- From one place of a source to another, the source reads as nodes. -/
inductive Reads : Cursor → List Node → Cursor → Prop
  | done (c : Cursor) : Reads c [] c
  | skip {c d e : Cursor} {b : UInt8} {nodes : List Node} :
    c.peek? = some b → b ≠ Text.ascii '[' → b ≠ Text.ascii ']' → Kind.ofByte? b = none →
      c.advance? = some d → Reads d nodes e → Reads c nodes e
  | run {c d e : Cursor} {b : UInt8} {kind : Kind} {nodes : List Node} :
    c.peek? = some b → Kind.ofByte? b = some kind → kind.coalesces → c.advance? = some d →
      Reads (passRun b d 1).2 nodes e →
      Reads c ({ kind, count := Int64.ofNat (passRun b d 1).1, loc := c.location } :: nodes) e
  | single {c d e : Cursor} {b : UInt8} {kind : Kind} {nodes : List Node} :
    c.peek? = some b → Kind.ofByte? b = some kind → kind.coalesces = false →
      c.advance? = some d → Reads d nodes e → Reads c ({ kind, loc := c.location } :: nodes) e
  | loop {c d e f g : Cursor} {children nodes : List Node} :
    c.peek? = some (Text.ascii '[') → c.advance? = some d → Reads d children e →
      e.peek? = some (Text.ascii ']') → e.advance? = some f → Reads f nodes g →
      Reads c ({ kind := .loop, children, loc := c.location } :: nodes) g

/-- From a place of a source to its end, the source finishes the open loops, and the outermost
scope becomes `result`. -/
inductive Closes (e : Cursor) (result : List Node) : Stack Scope → Cursor → Prop
  | root {root : Scope} {nodes : List Node} {c : Cursor} :
    Reads c nodes e → result = root.nodes.reverse ++ nodes → Closes e result ⟨root, []⟩ c
  | above {root s : Scope} {above : List Scope} {nodes : List Node} {c d f : Cursor} :
    Reads c nodes d → d.peek? = some (Text.ascii ']') → d.advance? = some f →
      Closes e result ((⟨root, above⟩ : Stack Scope).modifyTop
        (·.add { kind := .loop, children := s.nodes.reverse ++ nodes, loc := s.loc })) f →
      Closes e result ⟨root, s :: above⟩ c

variable {c d e : Cursor} {result : List Node} {scopes : Stack Scope}

theorem Closes.skip (h : ∀ nodes g, Reads d nodes g → Reads c nodes g)
    (hd : Closes e result scopes d) : Closes e result scopes c := by
  cases hd with
  | root hr hres => exact .root (h _ _ hr) hres
  | above hr hp ha hc => exact .above (h _ _ hr) hp ha hc

/-- A node before a place is the last of the innermost scope there. -/
theorem Closes.cons {n : Node} (h : ∀ nodes g, Reads d nodes g → Reads c (n :: nodes) g)
    (hd : Closes e result (scopes.modifyTop (·.add n)) d) : Closes e result scopes c := by
  rcases scopes with ⟨root, _ | ⟨s, above⟩⟩
  · rcases hd with ⟨hr, hres⟩
    refine .root (h _ _ hr) ?_
    rw [hres]
    simp [Scope.add]
  · rcases hd with _ | ⟨hr, hp, ha, hc⟩
    refine .above (h _ _ hr) hp ha ?_
    simpa [Scope.add] using hc

theorem closes_openLoop {loc : Location} (hp : c.peek? = some (Text.ascii '['))
    (ha : c.advance? = some d) (hloc : loc = c.location)
    (h : Closes e result (scopes.push { loc }) d) : Closes e result scopes c := by
  rcases h with _ | ⟨hr, hp', ha', hc⟩
  subst hloc
  exact .cons (fun nodes g hg => .loop hp ha hr hp' ha' hg) hc

theorem closes_closeLoop {s : Scope} (hp : c.peek? = some (Text.ascii ']'))
    (ha : c.advance? = some d)
    (h : Closes e result (scopes.modifyTop (·.add s.toLoop)) d) :
    Closes e result (scopes.push s) c := by
  refine .above (.done c) hp ha ?_
  rw [List.append_nil]
  exact h

/-- At the end of the source nothing may be open. -/
theorem closes_end {draft : Draft} (h : draft.allErrors = []) :
    draft.errors = [] ∧ Closes c draft.scopes.root.nodes.reverse draft.scopes c := by
  rw [Draft.allErrors, List.append_eq_nil_iff, List.reverse_eq_nil_iff, List.map_eq_nil_iff] at h
  refine ⟨h.1, ?_⟩
  rcases hs : draft.scopes with ⟨root, above⟩
  rw [hs] at h
  obtain rfl : above = [] := h.2
  exact .root (.done c) (by simp)

/-- **A draft without errors** came from a place where the rest of the source closes its scopes. -/
theorem closes_of_readAll (c : Cursor) (draft : Draft) (h : (c.readAll draft).1.allErrors = []) :
    draft.errors = [] ∧
      Closes (c.readAll draft).2 (c.readAll draft).1.scopes.root.nodes.reverse draft.scopes c := by
  -- One case for each kind of byte; the relation grows at the front as the source is read.
  fun_induction readAll c draft with
  | case1 c draft _ => exact closes_end h
  | case2 c draft d _ _ => exact closes_end h
  | case3 c draft d ha hp ih =>
    obtain ⟨he, hc⟩ := ih h
    exact ⟨he, closes_openLoop hp ha rfl hc⟩
  | case4 c draft d ha hp _ ih =>
    obtain ⟨he, hc⟩ := ih h
    rcases draft with ⟨⟨root, _ | ⟨s, above⟩⟩, errors⟩
    · exact absurd he (by simp [Draft.closeLoop, Stack.pop?])
    · exact ⟨he, closes_closeLoop hp ha hc⟩
  | case5 c draft d ha b hp hopen hclose hk ih =>
    obtain ⟨he, hc⟩ := ih h
    exact ⟨he, hc.skip fun nodes g hg => .skip hp hopen hclose hk ha hg⟩
  | case6 c draft d ha b hp hopen hclose kind hk hco run ih =>
    obtain ⟨he, hc⟩ := ih h
    exact ⟨he, hc.cons fun nodes g hg => .run hp hk hco ha hg⟩
  | case7 c draft d ha b hp hopen hclose kind hk hco ih =>
    obtain ⟨he, hc⟩ := ih h
    exact ⟨he, hc.cons fun nodes g hg => .single hp hk (Bool.eq_false_iff.mpr hco) ha hg⟩

theorem after_eq_nil_of_advance? (h : c.advance? = none) : c.after = [] := by
  unfold advance? at h
  split at h
  next hc => exact hc
  next => split at h <;> cases h

theorem after_readAll (c : Cursor) (draft : Draft) : (c.readAll draft).2.after = [] := by
  fun_induction readAll c draft with
  | case1 c draft ha => exact after_eq_nil_of_advance? ha
  | case2 c draft d ha hp => exact List.head?_eq_none_iff.mp hp
  | case3 | case4 | case5 | case6 | case7 => assumption

end Cursor

/-- **A tree that the parser returns is what the whole source reads as.** -/
theorem reads_of_parse {file source : Bytes} {nodes : List Node}
    (h : parse file source = .ok nodes) :
    ∃ e : Cursor, (Cursor.start file source).Reads nodes e ∧ e.after = [] := by
  set c := Cursor.start file source
  set d := c.readAll (Draft.start c.location) with hd
  have hr : d.1.result = .ok nodes := h
  rw [Draft.result] at hr
  split at hr
  next he =>
    cases hr
    have hc := (Cursor.closes_of_readAll c (Draft.start c.location) he).2
    rcases hc with ⟨hreads, hres⟩
    refine ⟨_, ?_, Cursor.after_readAll c (Draft.start c.location)⟩
    rw [← hd] at hres ⊢
    rw [hres]
    exact hreads
  next => cases hr

end TapeLang
