import TapeLang.Proofs.Reference.Tracking

/-!
# The run of a source and the run of its tree

Every task of the tree is met by the source, and every byte of the source belongs to a task. So
what is true of one run at a time is true of the other at the same time.

* `Begun`, `Forwarding`: how many bytes have begun within some time, and what is at work then.
* **`exists_within`**, **`exists_ends`**: every byte belongs to a task, and every task has a last
  byte.
* **`exists_account`**: the source arrives where the tree does.
* **`done_of_halted`**, **`exists_halted`**: they end together.
-/

namespace TapeLang.Reference

/-- Within so many instructions the first `n` bytes of a source have begun and no more. -/
def Begun (source input : Bytes) (time n : Nat) : Prop :=
  (∀ i < n, (account source input i).elapsed < time) ∧
    (time ≤ (account source input n).elapsed ∨ (account source input n).config.code = [])

/-- A move forward is at work: the last byte that has begun ends one, and its time is not over. -/
def Forwarding (source input : Bytes) (time n : Nat) : Prop :=
  ∃ m, n = m + 1 ∧ (account source input m).config.endsForward ∧
    time < (account source input n).elapsed

theorem account_add (source input : Bytes) (n m : Nat) :
    account source input (n + m) = Account.next^[m] (account source input n) := by
  rw [account, Nat.add_comm, Function.iterate_add_apply]
  rfl

variable {source input : Bytes} {nodes : List Node} {i j n m : Nat}

theorem Stretch.within_account (h : Stretch (account source input n) (work nodes input j) m)
    (hi : i < m) : Within (account source input (n + i)) (work nodes input j) :=
  account_add source input n i ▸ h.within i hi

theorem forall_lt_add {P : Nat → Prop} (h : ∀ i < n, P i) (h' : ∀ i < m, P (n + i)) :
    ∀ i < n + m, P i := by
  intro i hi
  by_cases hin : i < n
  · exact h i hin
  · have := h' (i - n) (by omega)
    rwa [show n + (i - n) = i by omega] at this

theorem tracks_start (h : Spells source nodes []) (input : Bytes) :
    Tracks (account source input 0) (work nodes input 0) :=
  ⟨rfl, .last h, le_rfl⟩

theorem exists_tracks (h : Spells source nodes []) (input : Bytes) (j : Nat) :
    ∃ n, Tracks (account source input n) (work nodes input j) ∧
      ((work nodes input j).todo = [] ∨ j ≤ n) ∧
      ∀ i < n, ∃ k < j, Within (account source input i) (work nodes input k) := by
  induction j with
  | zero => exact ⟨0, tracks_start h input, .inr le_rfl, fun i hi => absurd hi (by omega)⟩
  | succ j ih =>
    obtain ⟨n, ht, hn, hwithin⟩ := ih
    by_cases hdone : (work nodes input j).todo = []
    · rw [work_succ, Work.next_of_done hdone]
      refine ⟨n, ht, .inl hdone, fun i hi => ?_⟩
      obtain ⟨k, hk, hc⟩ := hwithin i hi
      exact ⟨k, Nat.lt_succ_of_lt hk, hc⟩
    · -- The bytes of the task come after the bytes of all tasks before.
      obtain ⟨m, hm⟩ := ht.exists_stretch hdone
      refine ⟨n + m, ?_, .inr ?_, forall_lt_add (fun i hi => ?_) fun i hi => ?_⟩
      · rw [account_add, work_succ]
        exact hm.tracks
      · have := hm.pos
        have := hn.resolve_left hdone
        omega
      · obtain ⟨k, hk, hc⟩ := hwithin i hi
        exact ⟨k, Nat.lt_succ_of_lt hk, hc⟩
      · exact ⟨j, Nat.lt_succ_self j, hm.within_account hi⟩

/-- **The source arrives where the tree does**, in the same time. -/
theorem exists_account (h : Spells source nodes []) (input : Bytes) (j : Nat) :
    ∃ n, Tracks (account source input n) (work nodes input j) := by
  obtain ⟨n, ht, -⟩ := exists_tracks h input j
  exact ⟨n, ht⟩

/-! ## Ends -/

theorem Tracks.exists_rest {a : Account} {w : Work} (h : Tracks a w) (hd : w.todo = []) :
    ∃ m, Account.next^[m] a = w.account [] [] ∧
      ∀ i < m, Within (Account.next^[i] a) w := by
  obtain ⟨heq, hpending, hp⟩ := h
  rw [heq]
  generalize a.config.code = code, a.config.loops = loops at hpending
  rw [hd] at hpending
  -- The induction is on how the bytes spell nothing, so its indices have to be variables.
  generalize ht : [] = todo at hpending
  cases hpending with
  | inside => exact absurd ht (by simp)
  | last hs =>
    generalize hr : [] = rest at hs
    induction hs with
    | done => exact ⟨0, rfl, fun i hi => absurd hi (by omega)⟩
    | run | single | loop => cases ht
    | skip ho hc hk _ ih =>
      obtain ⟨m, hm, hwithin⟩ := ih ht hr
      refine ⟨m + 1, ?_, ?_⟩
      · rw [Function.iterate_succ_apply, Work.next_skip hp ho hc hk]
        exact hm
      · rintro (_ | i) hi
        · exact within_skip ho hc hk
        · rw [Function.iterate_succ_apply, Work.next_skip hp ho hc hk]
          exact hwithin i (Nat.lt_of_succ_lt_succ hi)

/-- **The source ends when the tree is done**, and all bytes before belong to tasks. -/
theorem exists_halted (h : Spells source nodes []) (hd : (work nodes input j).todo = []) :
    ∃ n, account source input n = (work nodes input j).account [] [] ∧
      ∀ i < n, ∃ k ≤ j, Within (account source input i) (work nodes input k) := by
  obtain ⟨n, ht, -, hwithin⟩ := exists_tracks h input j
  obtain ⟨m, hm, hrest⟩ := ht.exists_rest hd
  refine ⟨n + m, by rw [account_add, hm], forall_lt_add (fun i hi => ?_) fun i hi => ?_⟩
  · obtain ⟨k, hk, hc⟩ := hwithin i hi
    exact ⟨k, hk.le, hc⟩
  · rw [account_add]
    exact ⟨j, le_rfl, hrest i hi⟩

theorem within_halted (w : Work) : Within (w.account [] []) w :=
  ⟨rfl, rfl, fun ⟨_, hb, _⟩ => absurd hb (by simp [Work.account])⟩

/-- **Every byte belongs to a task.** -/
theorem exists_within (h : Spells source nodes []) (input : Bytes) (i : Nat) :
    ∃ j, Within (account source input i) (work nodes input j) := by
  obtain ⟨n, -, hn, hwithin⟩ := exists_tracks h input (i + 1)
  rcases hn with hd | hn
  · obtain ⟨n, hhalt, hwithin⟩ := exists_halted h hd
    by_cases hin : i < n
    · obtain ⟨k, -, hc⟩ := hwithin i hin
      exact ⟨k, hc⟩
    · have hi : account source input i = (work nodes input (i + 1)).account [] [] := by
        rw [← hhalt]
        exact account_halted (by rw [hhalt]; rfl) (by omega)
      refine ⟨i + 1, ?_⟩
      rw [hi]
      exact within_halted _
  · obtain ⟨k, -, hc⟩ := hwithin i hn
    exact ⟨k, hc⟩

/-- **The tree is done when the source has ended.** -/
theorem done_of_halted (h : Spells source nodes [])
    (hn : (account source input n).config.code = []) :
    ∃ j, (work nodes input j).todo = [] ∧
      account source input n = (work nodes input j).account [] [] := by
  obtain ⟨m, ht, hm, -⟩ := exists_tracks h input (n + 1)
  have hd : (work nodes input (n + 1)).todo = [] := by
    refine hm.elim id fun hm => ?_
    have hpending := ht.pending
    rw [account_halted hn (by omega), hn] at hpending
    generalize (work nodes input (n + 1)).todo = todo,
      (account source input n).config.loops = loops at hpending
    cases hpending with
    | last hs =>
      cases hs
      rfl
    | inside hs => cases hs
  refine ⟨n + 1, hd, ?_⟩
  obtain ⟨k, hk, -⟩ := exists_halted h hd
  rw [← hk]
  have hk' : (account source input k).config.code = [] := by rw [hk]; rfl
  rcases Nat.le_total n k with hnk | hkn
  · exact (account_halted hn hnk).symm
  · exact account_halted hk' hkn

/-! ## Times -/

/-- A byte of the source is the last of a task of the tree. -/
structure Ends (source input : Bytes) (nodes : List Node) (n j : Nat) : Prop where
  elapsed : (account source input n).elapsed = (work nodes input j).elapsed
  tracks : Tracks (account source input (n + 1)) (work nodes input (j + 1))
  within : ∀ i ≤ n, ∃ k ≤ j, Within (account source input i) (work nodes input k)
  forward : (account source input n).config.endsForward ∨
    (work nodes input (j + 1)).backed = (work nodes input j).backed

/-- Cells are only put into memory by the last byte of a task. -/
theorem Stretch.backed_iterate {a : Account} {w : Work} (h : Stretch a w m)
    (hb : a.backed = w.backed) (hi : i < m) : (Account.next^[i] a).backed = w.backed := by
  induction i with
  | zero => exact hb
  | succ i ih =>
    rw [Function.iterate_succ_apply', Account.backed_next, if_neg, ih (Nat.lt_of_succ_lt hi)]
    intro hf
    exact absurd (h.forward i (Nat.lt_of_succ_lt hi) hf) hi.ne

/-- **Every task has a last byte.** -/
theorem exists_ends (h : Spells source nodes []) (input : Bytes) {j : Nat}
    (ht : (work nodes input j).todo ≠ []) : ∃ n, Ends source input nodes n j := by
  obtain ⟨n, hn, -, hwithin⟩ := exists_tracks h input j
  obtain ⟨m, hm⟩ := hn.exists_stretch ht
  obtain ⟨m, rfl⟩ := Nat.exists_eq_add_one.mpr hm.pos
  have htracks := hm.tracks
  rw [← account_add, ← work_succ] at htracks
  refine ⟨n + m, (hm.within_account (Nat.lt_succ_self m)).elapsed, htracks, ?_, ?_⟩
  · have hall : ∀ i < n + (m + 1), ∃ k ≤ j,
        Within (account source input i) (work nodes input k) := by
      refine forall_lt_add (fun i hi => ?_) fun i hi => ⟨j, le_rfl, hm.within_account hi⟩
      obtain ⟨k, hk, hc⟩ := hwithin i hi
      exact ⟨k, hk.le, hc⟩
    exact fun i hi => hall i (Nat.lt_succ_of_le hi)
  · refine or_iff_not_imp_left.mpr fun hf => ?_
    have hb := hm.backed_iterate hn.backed (Nat.lt_succ_self m)
    rw [← account_add] at hb
    rw [← htracks.backed, ← Nat.add_assoc, account_succ, Account.backed_next, if_neg hf, hb]

theorem exists_access (h : Spells source nodes []) {j : Nat}
    (ha : (work nodes input j).accesses) :
    ∃ n, Within (account source input n) (work nodes input j) ∧
      (account source input n).config.accesses := by
  have ht : (work nodes input j).todo ≠ [] := fun hd => Work.not_accesses_of_done hd ha
  obtain ⟨n, hn⟩ := exists_account h input j
  obtain ⟨m, hm⟩ := hn.exists_stretch ht
  obtain ⟨i, hi, hai⟩ := hm.access ha
  exact ⟨n + i, hm.within_account hi, account_add source input n i ▸ hai⟩

/-- Time tells how many bytes have begun. -/
theorem Begun.eq {time : Nat} (hn : Begun source input time n) (hm : Begun source input time m)
    (hle : time ≤ (account source input m).elapsed) : n = m := by
  rcases Nat.lt_trichotomy n m with hlt | heq | hgt
  · have hbegun := hm.1 n hlt
    have hd := hn.2.resolve_left (Nat.not_le_of_lt hbegun)
    rw [account_halted hd hlt.le] at hle
    omega
  · exact heq
  · have := hn.1 m hgt
    omega

theorem Ends.begun {time : Nat} (h : Ends source input nodes n j) (hnodes : Runnable nodes)
    (hlow : (work nodes input j).elapsed < time)
    (hhigh : time ≤ (work nodes input (j + 1)).elapsed) : Begun source input time (n + 1) := by
  refine ⟨fun i hi => ?_, .inl ?_⟩
  · obtain ⟨k, hk, hc⟩ := h.within i (Nat.le_of_lt_succ hi)
    rw [hc.elapsed]
    exact (work_elapsed_mono hnodes hk).trans_lt hlow
  · rw [h.tracks.elapsed]
    exact hhigh

theorem exists_begun_start (h : Spells source nodes []) (input : Bytes) (j : Nat) :
    ∃ n, Begun source input (work nodes input j).elapsed n ∧
      Tracks (account source input n) (work nodes input j) := by
  induction j with
  | zero =>
    refine ⟨0, ⟨fun i hi => absurd hi (Nat.not_lt_zero i), .inl le_rfl⟩, tracks_start h input⟩
  | succ j ih =>
    by_cases hd : (work nodes input j).todo = []
    · rwa [work_succ, Work.next_of_done hd]
    · obtain ⟨n, hn⟩ := exists_ends h input hd
      have hlt := elapsed_lt h.runnable (Nat.lt_succ_self j) hd
      exact ⟨n + 1, hn.begun h.runnable hlt le_rfl, hn.tracks⟩

theorem exists_begun_of_done (h : Spells source nodes []) {j time : Nat}
    (hd : (work nodes input j).todo = []) (hlow : (work nodes input j).elapsed < time) :
    ∃ n, Begun source input time n ∧
      account source input n = (work nodes input j).account [] [] := by
  obtain ⟨n, hn, hwithin⟩ := exists_halted h hd
  refine ⟨n, ⟨fun i hi => ?_, .inr (by rw [hn]; rfl)⟩, hn⟩
  obtain ⟨k, hk, hc⟩ := hwithin i hi
  rw [hc.elapsed]
  exact (work_elapsed_mono h.runnable hk).trans_lt hlow

end TapeLang.Reference
