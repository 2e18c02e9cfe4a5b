import Voltha.Config.Runs
import Voltha.Config.Sample

/-!
# What a transaction leaves behind

A transaction ends by a cancel or by a commit.  `del_txbranch` takes all of it away: a cancelled
transaction, and one whose commit was rejected, leaves no branch, no revision below the committed
root and no entry in the table of dirty nodes, now and in every later state.  A commit that the
dry run lets through does not touch that table: its entry stays for good, and with it the
branches of nodes that the merge did not come to.

* `Own`: a revision of the transaction is listed by revisions of the transaction only.
* `leavesNothing_iff`: nothing is left exactly if the transaction was cancelled or rejected.
-/

namespace Voltha.Config

variable {P : Proto}

open State Function Option

/-! ## A transaction that has ended -/

variable {K : ℕ → P.Data → Prop} {C : Rev P → Prop} {H : Hop P → Prop} {u : Option ℕ}
  {s s' : State P} {t : ℕ}

theorem Chain.isSome_branches (hc : Chain K C u s s') (ht : u ≠ some t) (n : ℕ) :
    (s'.branches n (some t)).isSome = (s.branches n (some t)).isSome := by
  induction hc with
  | refl => rfl
  | tail _ he ih =>
    rcases he.fork_or t with ⟨-, hb⟩ | ⟨m, c, dirty, hu, -⟩
    · exact (hb n).trans ih
    · exact absurd hu ht

/-- No operation finds a transaction that has ended. -/
theorem Step.ended {op : Op P} {r : Except Err Unit} (hs : Step K H s op r s') (h : Base s)
    (ho : s.isOpen t = false) (ht : t < s.nextTx) :
    s'.isOpen t = false ∧ t < s'.nextTx ∧ s'.dirtyNodes t = s.dirtyNodes t ∧
      ∀ n, (s'.branches n (some t)).isSome = (s.branches n (some t)).isSome := by
  have hne : ∀ {v : ℕ}, s.isOpen v = true → t ≠ v := by
    rintro v hv rfl
    rw [ho] at hv
    cases hv
  have hclose : ∀ (s₁ : State P) (v : ℕ), s₁.isOpen t = false → (s₁.close v).isOpen t = false := by
    intro s₁ v h₁
    rw [isOpen_close]
    split
    · rfl
    · exact h₁
  -- the branches and the dirty nodes of `v` go
  have hforget : ∀ {v : ℕ} (dirty : List ℕ), s.isOpen v = true →
      ((s.forget v dirty).close v).isOpen t = false ∧
        t < ((s.forget v dirty).close v).nextTx ∧
        ((s.forget v dirty).close v).dirtyNodes t = s.dirtyNodes t ∧
        ∀ n, (((s.forget v dirty).close v).branches n (some t)).isSome =
          (s.branches n (some t)).isSome := by
    intro v dirty hv
    refine ⟨hclose _ v ho, ht, update_of_ne (hne hv) _ _, fun n => ?_⟩
    exact congrArg isSome
      (s.forget_branches v dirty fun he => hne hv (some.inj he))
  cases hs with
  | idle err => exact ⟨ho, ht, rfl, fun _ => rfl⟩
  | @wrote _ u r s₁ hu hopen hw =>
    have hc := (hw.written_any h.wf).1.chain
    have hut : u ≠ some t := fun he => hne (hopen t he) rfl
    have hframe := Chain.sameFrame hc
    refine ⟨?_, ?_, ?_, fun n => ?_⟩
    · exact (congrFun hframe.isOpen t).trans ho
    · exact lt_of_lt_of_eq ht hframe.nextTx.symm
    · exact (Chain.dirtyNodes hc hut : s₁.dirtyNodes t = s.dirtyNodes t)
    · exact (Chain.isSome_branches hc hut n :
        (s₁.branches n (some t)).isSome = (s.branches n (some t)).isSome)
  | opened hc =>
    have htne : t ≠ s.nextTx := Nat.ne_of_lt ht
    refine ⟨?_, Nat.lt_succ_of_lt ht, update_of_ne htne _ _, fun n => ?_⟩
    · exact (update_of_ne htne _ _).trans ho
    · exact congrArg isSome
        (setBranch_of_ne s _ (.inr fun he => htne (some.inj he)))
  | cancelled hv hd => exact hforget _ hv
  | rejected hv hd _ => exact hforget _ hv
  | crashed hv _ _ => exact ⟨hclose _ _ ho, ht, rfl, fun _ => rfl⟩
  | committed hv _ _ hset =>
    obtain ⟨hframe, hd, -, hb, -⟩ := hset.tables
    refine ⟨hclose _ _ ?_, ?_, congrFun hd t, fun n => congrArg isSome (hb n t (hne hv))⟩
    · exact (congrFun hframe.isOpen t).trans ho
    · exact lt_of_lt_of_eq ht hframe.nextTx.symm
  | tables r _ _ _ htab =>
    have hr := htab.retabled
    refine ⟨?_, ?_, ?_, fun n => hr.isSome n (some t)⟩
    · rw [hr.rest]
      exact ho
    · rw [hr.rest]
      exact ht
    · rw [hr.rest]

/-! ## Revisions of a transaction -/

/-- A revision of transaction `t` is listed by revisions of `t` only. -/
def Own (t : ℕ) (s : State P) : Prop :=
  ∀ (r e : Rev P) (f : String), s.Has r → e ∈ r.children f → e.txid = some t → r.txid = some t

theorem Own.congr (h : Own t s) (ho : s'.objects = s.objects) : Own t s' := by
  intro r e f hr
  refine h r e f ?_
  unfold State.Has at hr ⊢
  rwa [← ho]

section

variable (hwf : WF s)
include hwf

section

variable (h : Own t s)
include h

/-- A new revision that lists revisions of `t` only if it belongs to `t` itself. -/
theorem Own.alloc {n : ℕ} {v : Option ℕ} {data : P.Data} {children : String → List (Rev P)}
    (hnew : ∀ f, ∀ e ∈ children f, e.txid = some t → v = some t) :
    Own t (s.alloc (s.newRev n v data children)) := by
  intro r e f hr he ht
  rcases hwf.has_alloc.mp hr with rfl | hr
  · exact hnew f e he ht
  · exact h r e f hr he ht

/-- The latest revision of branch `u` lists revisions of `t` only if `u` is `t`. -/
theorem Own.latest {n : ℕ} {b : Branch P} (hb : s.branches n u = some b) {f : String} {e : Rev P}
    (he : e ∈ b.latest.children f) (ht : e.txid = some t) : u = some t := by
  have hown := h _ _ _ (hwf.head hb).has he ht
  rcases (hwf.head hb).txid with hu | hnone
  · rw [← hu, hown]
  · rw [hnone] at hown
    cases hown

theorem Effect.own (he : Effect K C u s s') : Own t s' := by
  cases he with
  | called _ => exact h.congr rfl
  | forked _ _ _ _ => exact h.congr rfl
  | born _ => exact h.congr rfl
  | seated _ _ _ _ hfresh =>
    refine Own.congr (h.alloc hwf ?_) rfl
    intro f e he ht
    rw [hfresh.txid he] at ht
    cases ht
  | @installed n b data children changes hb hd hun =>
    refine Own.congr (h.alloc hwf ?_) (install_objects ..)
    intro f e he ht
    rcases hd.mem he with hmem | ⟨x, -, -, -, htx⟩ | ⟨htx, -⟩
    · exact h.latest hwf hb hmem ht
    · rcases htx with htx | htx
      · rw [← htx, ht]
      · rw [htx] at ht
        cases ht
    · rw [htx] at ht
      cases ht
  | cleared _ _ _ => exact h.congr rfl

theorem Chain.own (hc : Chain K C u s s') : Own t s' := by
  induction hc with
  | refl => exact h
  | tail hc he ih => exact Effect.own (Chain.wf hwf hc) ih he

/-- The merge of another transaction. -/
theorem Settle.own {v : ℕ} (hv : v ≠ t) (hs : Settle v s s') : Own t s' := by
  obtain ⟨n, src, dst, data, children, changes, hsrc, hdst, hset, rfl⟩ := hs.settled hwf
  refine Own.congr (h.alloc hwf ?_) (install_objects ..)
  intro f e he ht
  rcases (hset.entry f e he).2 with hmem | hmem | hnone
  · exact absurd (some.inj (h.latest hwf hsrc hmem ht)) hv
  · exact h.latest hwf hdst hmem ht
  · rw [hnone] at ht
    cases ht

theorem Settles.own {v : ℕ} (hv : v ≠ t) (hs : Settles v s s') : Own t s' := by
  induction hs with
  | refl => exact h
  | tail hs he ih => exact Settle.own (Settles.wf hwf hs) ih hv he

omit h in
omit hwf in
/-- Only a commit of `t` itself can put revisions of `t` elsewhere, and that ends `t`. -/
theorem Step.own {op : Op P} {r : Except Err Unit} (hs : Step K H s op r s') (h : Base s)
    (hown : Own t s) : Own t s' ∨ s.isOpen t = true ∧ s'.isOpen t = false ∧ t < s'.nextTx := by
  cases hs with
  | idle err => exact .inl hown
  | wrote _ _ hw =>
    exact .inl (Own.congr (Chain.own h.wf hown (hw.written_any h.wf).1.chain) rfl)
  | opened _ => exact .inl (hown.congr rfl)
  | cancelled _ _ => exact .inl (hown.congr rfl)
  | rejected _ _ _ => exact .inl (hown.congr rfl)
  | crashed _ _ _ => exact .inl (hown.congr rfl)
  | @committed v r s₁ hv hdry _ hset =>
    by_cases hne : v = t
    · subst hne
      refine .inr ⟨hv, ?_, ?_⟩
      · rw [isOpen_close, if_pos rfl]
      · have hlt : v < s.nextTx := by
          by_contra hle
          rw [(h.later (Nat.not_lt.mp hle)).2] at hv
          cases hv
        exact lt_of_lt_of_eq hlt hset.tables.frame.nextTx.symm
    · exact .inl (Own.congr (Settles.own h.wf hown hne hset) rfl)
  | tables r _ _ _ htab =>
    refine .inl (hown.congr ?_)
    rw [htab.retabled.rest]

/-- What stands below a revision that does not belong to `t` does not belong to `t`. -/
theorem Own.desc {r y : Rev P} (hr : s.Has r) (hy : r.Desc y) (ht : y.txid = some t) :
    r.txid = some t := by
  induction hy with
  | child he => exact h _ _ _ hr he ht
  | step he _ ih => exact h _ _ _ hr he (ih (hwf.child hr he).has ht)

end

end

/-- A transaction that is open, or that has not been made yet, owns its revisions. -/
theorem Reachable.own (h : Reachable s) (ht : s.isOpen t = true ∨ s.nextTx ≤ t) : Own t s := by
  induction h with
  | init hm =>
    exact Chain.own (K := fun _ _ => True) (C := fun _ => True) WF.empty
      (nofun) (mkRoot_made hm).1
  | @step s op h ih =>
    have hs := step_cases_any h.base op
    -- the transaction was open or not yet made before the operation
    have ht' : s.isOpen t = true ∨ s.nextTx ≤ t := by
      by_contra hnot
      rw [not_or, Bool.not_eq_true, not_le] at hnot
      obtain ⟨ho, hlt, -⟩ := hs.ended h.base hnot.1 hnot.2
      rcases ht with ht | ht
      · rw [ho] at ht
        cases ht
      · omega
    rcases hs.own h.base (ih ht') with hown | ⟨-, ho, hlt⟩
    · exact hown
    · rcases ht with ht | ht
      · rw [ho] at ht
        cases ht
      · omega

/-! ## Nothing is left -/

/-- The revisions that a branch holds. -/
def Branch.Holds (b : Branch P) (r : Rev P) : Prop := r = b.latest ∨ ∃ hash, (hash, r) ∈ b.revs

/-- Nothing of transaction `t` is left in the tree. -/
structure LeavesNothing (s : State P) (t : ℕ) : Prop where
  /-- no node that is reachable from a revision of the root's committed branch has a branch -/
  branches : ∀ b, s.branches 0 none = some b → ∀ r, b.Holds r → ∀ y, r.Within y →
    s.branches y.node (some t) = none
  /-- no revision that is reachable from the committed latest one belongs to the transaction -/
  revisions : ∀ b, s.branches 0 none = some b → ∀ y, b.latest.Within y → y.txid ≠ some t
  /-- the transaction has no dirty nodes -/
  dirty : s.dirtyNodes t = none

/-- A transaction of which nothing is left. -/
structure Gone (t : ℕ) (s : State P) : Prop where
  closed : s.isOpen t = false
  lt : t < s.nextTx
  dirty : s.dirtyNodes t = none
  branches : ∀ n, s.branches n (some t) = none
  own : Own t s

theorem Gone.leavesNothing (h : Gone t s) (hwf : WF s) :
    LeavesNothing s t where
  branches b _ r _ y _ := h.branches y.node
  revisions b hb y hy ht := by
    have htx : b.latest.txid = some t := by
      rcases hy with rfl | hy
      · exact ht
      · exact h.own.desc hwf (hwf.head hb).has hy ht
    rw [hwf.txid_committed hb] at htx
    cases htx
  dirty := h.dirty

theorem Gone.step (h : Gone t s) (hs : Base s) (op : Op P) : Gone t (step s op) := by
  obtain ⟨ho, hlt, hd, hb⟩ := (step_cases_any hs op).ended hs h.closed h.lt
  refine ⟨ho, hlt, hd.trans h.dirty, fun n => ?_, ?_⟩
  · have hn := hb n
    rw [h.branches n] at hn
    exact not_isSome_iff_eq_none.mp (by rw [hn]; exact Bool.false_ne_true)
  · rcases (step_cases_any hs op).own hs h.own with hown | ⟨ho', -⟩
    · exact hown
    · rw [h.closed] at ho'
      cases ho'

theorem Gone.run (hg : Gone t s) (h : Reachable s) (ops : List (Op P)) : Gone t (run s ops) := by
  induction ops generalizing s with
  | nil => exact hg
  | cons op ops ih => exact ih (hg.step h.base op) (h.step op)

/-- The entry of a transaction that has ended stays in the table of dirty nodes. -/
theorem dirtyNodes_run (h : Reachable s) (ho : s.isOpen t = false) (ht : t < s.nextTx)
    (ops : List (Op P)) : (run s ops).dirtyNodes t = s.dirtyNodes t := by
  induction ops generalizing s with
  | nil => rfl
  | cons op ops ih =>
    obtain ⟨ho', ht', hd, -⟩ := (step_cases_any h.base op).ended h.base ho ht
    exact (ih (h.step op) ho' ht').trans hd

/-- `del_txbranch` leaves nothing. -/
theorem gone_forget (h : Reachable s) {dirty : List ℕ} (ho : s.isOpen t = true)
    (hd : s.dirtyNodes t = some dirty) :
    Gone t ((s.forget t dirty).close t) where
  closed := by rw [isOpen_close, if_pos rfl]
  lt := by
    by_contra hle
    rw [(h.base.later (Nat.not_lt.mp hle)).2] at ho
    cases ho
  dirty := update_self ..
  branches n := (h.base.live t ho).forget hd n
  own := (h.own (.inl ho)).congr rfl

/-- A commit without a conflict ends the transaction and keeps its dirty nodes. -/
theorem dirtyNodes_commit (h : Base s) (ho : s.isOpen t = true)
    (hne : ∀ text, (mergeRoot t true s).1 ≠ .error (.mergeConflict text)) :
    (step s (.commit t)).isOpen t = false ∧ (step s (.commit t)).nextTx = s.nextTx ∧
      (step s (.commit t)).dirtyNodes t = s.dirtyNodes t := by
  rw [step, exec_commit_open ho]
  rcases mergeRoot_dry t s with ⟨err, hdry⟩ | hdry
  · rw [foldTxbranch_crash hdry fun text he => hne text (by rw [hdry, he])]
    refine ⟨?_, rfl, rfl⟩
    rw [isOpen_close, if_pos rfl]
  · have hreal := mergeRoot_settles (s := s) t false h.wf
    rw [Act.wp_def] at hreal
    rcases hm : mergeRoot t false s with ⟨r, s₁⟩
    rw [hm] at hreal
    obtain ⟨hframe, hd, -⟩ := hreal.settles.tables
    rw [foldTxbranch_merge hdry hm]
    refine ⟨?_, hframe.nextTx, congrFun hd t⟩
    rw [isOpen_close, if_pos rfl]

/-- **What a transaction leaves behind.**  After an open transaction has ended, by a cancel or by
a commit, nothing of it is left, in any later state, exactly if it was cancelled or the dry run of
the commit found a conflict. -/
theorem leavesNothing_iff {s : State P} (h : Reachable s) {t : ℕ} (ho : s.isOpen t = true)
    {op : Op P} (hop : op = .cancel t ∨ op = .commit t) (ops : List (Op P)) :
    LeavesNothing (run (step s op) ops) t ↔
      op = .cancel t ∨ ∃ text, (mergeRoot t true s).1 = .error (.mergeConflict text) := by
  obtain ⟨dirty, hd, -⟩ := h.base.live t ho
  have hrun := (h.step op).run ops
  have hgone : step s op = (s.forget t dirty).close t →
      LeavesNothing (run (step s op) ops) t := by
    intro hs
    have hg := gone_forget h ho hd
    rw [← hs] at hg
    exact (hg.run (h.step op) ops).leavesNothing hrun.base.wf
  rcases hop with rfl | rfl
  · refine ⟨fun _ => .inl rfl, fun _ => hgone ?_⟩
    rw [step, exec_cancel_open h.base ho hd]
  · constructor
    · -- the entry in the table of dirty nodes stays
      intro hleft
      by_contra hnot
      rw [not_or, not_exists] at hnot
      obtain ⟨ho', hnext, hd'⟩ := dirtyNodes_commit h.base ho hnot.2
      have hlt : t < s.nextTx := by
        by_contra hle
        rw [(h.base.later (Nat.not_lt.mp hle)).2] at ho
        cases ho
      have hdirty := hleft.dirty
      rw [dirtyNodes_run (h.step _) ho' (hnext ▸ hlt), hd', hd] at hdirty
      cases hdirty
    · rintro (hc | ⟨text, hdry⟩)
      · cases hc
      · refine hgone ?_
        rw [step, exec_commit_conflict h.base ho hd (Prod.ext hdry (mergeRoot_dry_state t s))]

open Sample

/-- A transaction that is cancelled leaves nothing. -/
theorem leavesNothing_iff_sample :
    LeavesNothing (run (step (run start [.openTransaction,
      .update ["", "adapters", "1"] (leaf .adapter "1" "z") false (some 0)]) (.cancel 0))
      [.openTransaction]) 0 :=
  (leavesNothing_iff (reachable_start.run _) (by decide +kernel) (.inl rfl) _).mpr
    (.inl rfl)

/-- A transaction changes an adapter and changes it back. -/
def Sample.touched : State sample :=
  run start [.openTransaction,
    .update ["", "adapters", "1"] (leaf .adapter "1" "z") false (some 0),
    .update ["", "adapters", "1"] (leaf .adapter "1" "a") false (some 0)]

/-- Its commit succeeds and leaves an entry in the table of dirty nodes, and a branch on the
adapter, which the merge did not come to. -/
theorem commit_leaves_branch :
    (exec (.commit 0) touched).1 = .ok () ∧
      ((step touched (.commit 0)).dirtyNodes 0).isSome ∧
      (((step touched (.commit 0)).branches 0 none).any fun b =>
        (b.latest.children "adapters").any fun e =>
          ((step touched (.commit 0)).branches e.node (some 0)).isSome) = true ∧
      ¬ LeavesNothing (step touched (.commit 0)) 0 := by
  have hd : ((step touched (.commit 0)).dirtyNodes 0).isSome = true := by decide +kernel
  refine ⟨by decide +kernel, hd, by decide +kernel, fun h => ?_⟩
  rw [h.dirty] at hd
  cases hd

end Voltha.Config
