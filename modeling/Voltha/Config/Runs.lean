import Voltha.Config.Operations
import Voltha.Config.Settle

/-!
# Runs

What one operation does to the state, case by case (`Step`), and the facts that hold in every
state of every run (`Base`): the objects fit together, the transactions that are open have
exactly the branches that the table of dirty nodes says, and the queues of callbacks are
empty between operations.

`Step` is parameterized, as `Write` is, by what is known of the data and of the paths of updates;
`step_cases` is the only place where `exec` is taken apart.
-/

namespace Voltha.Config

open List Function Chain

variable {P : Proto}

open State Act

/-! ## The state after an operation -/

/-- The transaction of a write. -/
def Op.writes : Op P → Option (Option ℕ)
  | .update _ _ _ u => some u
  | .add _ _ u => some u
  | .remove _ u => some u
  | _ => none

/-- The state after `del_txbranch`. -/
def State.forget (s : State P) (t : ℕ) (dirty : List ℕ) : State P :=
  { s with
    branches := fun n v => if v = some t ∧ n ∈ dirty then none else s.branches n v
    dirtyNodes := Function.update s.dirtyNodes t none }

/-- The state after `mk_txbranch`, with the transaction open. -/
def State.openTx (s : State P) (point : Rev P) : State P :=
  { s.fork 0 s.nextTx point [0] with
    nextTx := s.nextTx + 1
    isOpen := Function.update s.isOpen s.nextTx true }

/-- Proxies, tags and the revisions kept by hash may differ, the latest revisions do not. -/
structure Retabled (s s' : State P) : Prop where
  branches : ∀ n v, (s'.branches n v).map (fun b => (b.origin, b.latest)) =
    (s.branches n v).map fun b => (b.origin, b.latest)
  rest : s' = { s with branches := s'.branches, proxy := s'.proxy, tags := s'.tags }

/-- The branch of the root after `prune_untagged`. -/
def State.prune (s : State P) (b : Branch P) : Branch P where
  origin := b.origin
  revs := b.revs.filter fun p =>
    some p.1 ∈ s.hashOf b.latest :: s.tags.map fun p => s.hashOf p.2
  latest := b.latest

/-- What the operations on proxies and tags change. -/
inductive Tabled (s : State P) : State P → Prop where
  | same : Tabled s s
  | proxies (proxy : ℕ → Option (Proxy P)) : Tabled s { s with proxy := proxy }
  | tagged {b : Branch P} {rev : Rev P} (name : String) : s.branches 0 none = some b →
      rev = b.latest ∨ (∃ h, b.revs.lookup h = some rev) →
      Tabled s { s with tags := OrderedDict.insert name rev s.tags }
  | untagged (name : String) : Tabled s { s with tags := s.tags.filter fun p => p.1 ≠ name }
  | pruned {b : Branch P} : s.branches 0 none = some b →
      Tabled s (s.setBranch 0 none (some (s.prune b)))

/-- What one operation does: its outcome and the state after it. -/
inductive Step (K : ℕ → P.Data → Prop) (H : Hop P → Prop) (s : State P) :
    Op P → Except Err Unit → State P → Prop where
  /-- raised before anything was done -/
  | idle (op : Op P) (err : Err) : Step K H s op (.error err) s
  | wrote {op : Op P} {u : Option ℕ} {r : Except Err (Rev P)} {s₁ : State P} :
      op.writes = some u → (∀ t, u = some t → s.isOpen t = true) → Write u K H 0 s r s₁ →
      Step K H s op (r.map fun _ => ()) s₁.executeDeferredCallbacks
  | opened {c : Branch P} : s.branches 0 none = some c →
      Step K H s .openTransaction (.ok ()) (s.openTx c.latest)
  | cancelled {t : ℕ} {dirty : List ℕ} : s.isOpen t = true → s.dirtyNodes t = some dirty →
      Step K H s (.cancel t) (.ok ()) ((s.forget t dirty).close t)
  /-- the dry run has found a conflict -/
  | rejected {t : ℕ} {dirty : List ℕ} {text : String} : s.isOpen t = true →
      s.dirtyNodes t = some dirty → mergeRoot t true s = (.error (.mergeConflict text), s) →
      Step K H s (.commit t) (.error (.mergeConflict text)) ((s.forget t dirty).close t)
  /-- the dry run has raised something else -/
  | crashed {t : ℕ} {err : Err} : s.isOpen t = true → mergeRoot t true s = (.error err, s) →
      (∀ text, err ≠ .mergeConflict text) → Step K H s (.commit t) (.error err) (s.close t)
  /-- the dry run has passed -/
  | committed {t : ℕ} {r : Except Err (Option (Rev P))} {s₁ : State P} : s.isOpen t = true →
      mergeRoot t true s = (.ok none, s) → mergeRoot t false s = (r, s₁) → Settles t s s₁ →
      Step K H s (.commit t) (r.map fun _ => ()) (s₁.executeDeferredCallbacks.close t)
  /-- proxies and tags -/
  | tables {op : Op P} {s' : State P} (r : Except Err Unit) : op.writes = none →
      (∀ t, op ≠ .cancel t) → (∀ t, op ≠ .commit t) → Tabled s s' → Step K H s op r s'

/-! ## What holds between operations -/

/-- The branches of a transaction are those of its dirty nodes, and the root has one. -/
def Live (s : State P) (t : ℕ) : Prop :=
  ∃ dirty, s.dirtyNodes t = some dirty ∧ dirty.Nodup ∧ 0 ∈ dirty ∧
    ∀ n, n ∈ dirty ↔ (s.branches n (some t)).isSome

/-- What holds between operations. -/
structure Base (s : State P) : Prop where
  wf : WF s
  root : (s.branches 0 none).isSome
  live : ∀ t, s.isOpen t = true → Live s t
  dirty : ∀ {t n : ℕ}, (s.branches n (some t)).isSome → (s.dirtyNodes t).isSome
  later : ∀ {t : ℕ}, s.nextTx ≤ t → s.dirtyNodes t = none ∧ s.isOpen t = false
  deferred : s.deferred = []
  notifications : s.notifications = []

variable {s s' : State P} {t : ℕ} {K : ℕ → P.Data → Prop} {C : Rev P → Prop} {H : Hop P → Prop}
  {u : Option ℕ}

theorem Live.congr (h : Live s t) (hd : s'.dirtyNodes t = s.dirtyNodes t)
    (hb : ∀ n, (s'.branches n (some t)).isSome = (s.branches n (some t)).isSome) : Live s' t := by
  obtain ⟨dirty, h₁, h₂, h₃, h₄⟩ := h
  refine ⟨dirty, hd.trans h₁, h₂, h₃, fun n => ?_⟩
  rw [hb]
  exact h₄ n

variable {n : ℕ}

section

variable (h : Retabled s s')
include h

open Option

theorem Retabled.latest {v : Option ℕ} {b' : Branch P} (hb : s'.branches n v = some b') :
    ∃ b, s.branches n v = some b ∧ b'.origin = b.origin ∧ b'.latest = b.latest := by
  have heq := h.branches n v
  rw [hb, map_some] at heq
  obtain ⟨b, hb', hbb⟩ := map_eq_some_iff.mp heq.symm
  rw [Prod.mk.injEq] at hbb
  exact ⟨b, hb', hbb.1.symm, hbb.2.symm⟩

theorem Retabled.isSome (n : ℕ) (v : Option ℕ) :
    (s'.branches n v).isSome = (s.branches n v).isSome := by
  rw [← isSome_map (f := fun b => (b.origin, b.latest)), h.branches, isSome_map]

theorem Retabled.later : Later s s' := by
  have hr := h.rest
  refine ⟨?_, ?_, ?_, ?_, ?_, ?_⟩
  · intro r hr'
    rw [hr]
    exact hr'
  · intro r hr' _
    rw [hr] at hr'
    exact hr'
  · rw [hr]
  · rw [hr]
  · intro c _
    rw [hr]
  · intro n hn
    rw [h.isSome]
    exact hn

theorem Retabled.wf (hs : WF s) : WF s' := by
  have hr := h.rest
  refine hs.retable (by rw [hr]) h.later ?_ ?_ ?_ ?_
  · intro c p f hc
    rw [hr] at hc
    exact hs.parent_lt hc
  · rw [hr]
    exact hs.parent_root
  · intro n v b' hb'
    obtain ⟨b, hb, ho, hlat⟩ := h.latest hb'
    have hbo := hs.branch hb
    refine ⟨?_, ?_, ?_⟩
    · rw [hlat]
      exact hbo.latest
    · rw [ho]
      exact hbo.origin
    · rw [ho]
      exact hbo.forked
  · intro c hc
    rw [hr] at hc ⊢
    exact hs.cleared hc

end

/-! ## Taking an operation apart -/

/-- The branches of the dirty nodes of a transaction go one after the other. -/
theorem delBranches_eq (t : ℕ) :
    ∀ (dirty : List ℕ) (s : State P), dirty.Nodup →
      (∀ n ∈ dirty, (s.branches n (some t)).isSome) →
      delBranches t dirty s = (.ok (), { s with
        branches := fun n v => if v = some t ∧ n ∈ dirty then none else s.branches n v })
  | [], s, _, _ => by
    have hb : (fun n v => if v = some t ∧ n ∈ ([] : List ℕ) then none else s.branches n v) =
        s.branches := by
      funext n v
      rw [if_neg fun h => not_mem_nil h.2]
    rw [hb]
    rfl
  | n :: dirty, s, hnodup, hsome => by
    rw [nodup_cons] at hnodup
    obtain ⟨b, hb⟩ := Option.isSome_iff_exists.mp (hsome n mem_cons_self)
    have hstep : delBranches t (n :: dirty) s = delBranches t dirty (s.dropBranch n t) := by
      rw [delBranches, Act.read_bind, hb]
      rfl
    have hrest : ∀ m ∈ dirty, ((s.dropBranch n t).branches m (some t)).isSome := by
      intro m hm
      have hne : m ≠ n := fun h => hnodup.1 (h ▸ hm)
      rw [dropBranch, setBranch_of_ne _ _ (.inl hne)]
      exact hsome m (mem_cons_of_mem _ hm)
    rw [hstep, delBranches_eq t dirty _ hnodup.2 hrest]
    congr 2
    funext m v
    rw [dropBranch, setBranch_apply]
    by_cases hv : v = some t
    · by_cases hm : m = n
      · subst hm
        simp [hv]
      · simp [hv, hm]
    · simp [hv]

/-- `del_txbranch` of an open transaction. -/
theorem delTxbranch_eq {dirty : List ℕ} (hd : s.dirtyNodes t = some dirty) (hnodup : dirty.Nodup)
    (hsome : ∀ n ∈ dirty, (s.branches n (some t)).isSome) :
    delTxbranch t s = (.ok (), s.forget t dirty) := by
  unfold delTxbranch
  rw [Act.read_bind, hd]
  dsimp only
  rw [bind_of_ok (delBranches_eq t dirty s hnodup hsome)]
  rfl

theorem mergeRoot_dry (t : ℕ) (s : State P) :
    (∃ err, mergeRoot t true s = (.error err, s)) ∨ mergeRoot t true s = (.ok none, s) := by
  have h := mergeTxbranch_dry t (s.nextNode + 1) 0 s
  rw [wp_def] at h
  rcases hm : mergeTxbranch t true (s.nextNode + 1) 0 s with ⟨err | o, s'⟩
  · rw [hm] at h
    obtain rfl : s' = s := h.1
    exact .inl ⟨err, hm⟩
  · rw [hm] at h
    obtain rfl : s' = s := h.1
    rw [h.2 o rfl] at hm
    exact .inr hm

theorem mergeRoot_dry_state (t : ℕ) (s : State P) : (mergeRoot t true s).2 = s := by
  rcases mergeRoot_dry t s with ⟨err, h⟩ | h
  · rw [h]
  · rw [h]

theorem mergeRoot_settles (t : ℕ) (dryRun : Bool) (h : WF s) :
    wp (mergeRoot t dryRun) s (NodeMerged t 0 s) :=
  mergeTxbranch_settles t dryRun (s.nextNode + 1) 0 s h

theorem checkOpen_eq (e : Err) (u : Option ℕ) (s : State P) :
    checkOpen e u s = (.error e, s) ∨
      checkOpen e u s = (.ok (), s) ∧ ∀ t, u = some t → s.isOpen t = true := by
  rcases u with _ | t
  · exact .inr ⟨rfl, nofun⟩
  · rw [checkOpen, Act.read_bind]
    by_cases ho : s.isOpen t = true
    · rw [if_pos ho]
      refine .inr ⟨rfl, ?_⟩
      rintro t' ht'
      cases ht'
      exact ho
    · rw [if_neg ho]
      exact .inl rfl

/-- The frames of the transaction and of `ConfigRoot` around a write. -/
theorem rootWrite_step {op : Op P} {write : M P (Rev P)}
    (hop : op.writes = some u) (hw : wp write s fun r s' => Write u K H 0 s r s') :
    wp (do
      checkOpen .closedTransaction u
      let _ ← rootWrite u write
      pure ()) s (Step K H s op) := by
  rw [wp_bind, wp_def]
  rcases checkOpen_eq .closedTransaction u s with hc | ⟨hc, hopen⟩
  · rw [hc]
    exact Step.idle _ _
  rw [hc, seqPost_ok, wp_bind]
  unfold rootWrite checkCallbackQueue
  rw [wp_bind, wp_bind, wp_read, seqPost_ok]
  rcases s.deferred with _ | ⟨q, qs⟩
  · have htx : wp (checkTxid u) s fun r s' => s' = s ∧ ∀ e, r = .error e →
        Write u K H 0 s (.error e) s := by
      rcases u with _ | t
      · exact ⟨rfl, nofun⟩
      · unfold checkTxid
        rw [wp_bind, wp_read, seqPost_ok]
        rcases s.dirtyNodes t with _ | dirty
        · exact ⟨rfl, fun e _ => Write.unopened e⟩
        · exact ⟨rfl, nofun⟩
    rw [wp_pure, seqPost_ok, wp_andFinally, wp_bind]
    refine wp_mono htx ?_
    rintro (e | _) s' ⟨rfl, he⟩
    · exact Step.wrote hop hopen (he e rfl)
    · rw [seqPost_ok]
      refine wp_mono hw ?_
      rintro (e | rev) s₁ hw'
      · exact Step.wrote hop hopen hw'
      · exact Step.wrote hop hopen hw'
  · exact Step.idle op _

/-- The dry run has found a conflict. -/
theorem foldTxbranch_conflict {dirty : List ℕ} {text : String} (hd : s.dirtyNodes t = some dirty)
    (hnodup : dirty.Nodup) (hsome : ∀ n ∈ dirty, (s.branches n (some t)).isSome)
    (hdry : mergeRoot t true s = (.error (.mergeConflict text), s)) :
    foldTxbranch t s = (.error (.mergeConflict text), s.forget t dirty) := by
  unfold foldTxbranch
  rw [hdry]
  dsimp only
  rw [bind_of_ok (delTxbranch_eq hd hnodup hsome)]
  rfl

/-- The dry run has raised something else. -/
theorem foldTxbranch_crash {err : Err} (hdry : mergeRoot t true s = (.error err, s))
    (hne : ∀ text, err ≠ .mergeConflict text) : foldTxbranch t s = (.error err, s) := by
  unfold foldTxbranch
  rw [hdry]
  cases err with
  | mergeConflict text => exact absurd rfl (hne text)
  | _ => rfl

/-- The dry run has passed. -/
theorem foldTxbranch_merge {r : Except Err (Option (Rev P))} {s₁ : State P}
    (hdry : mergeRoot t true s = (.ok none, s)) (hm : mergeRoot t false s = (r, s₁)) :
    foldTxbranch t s = (r.map fun _ => (), s₁.executeDeferredCallbacks) := by
  unfold foldTxbranch
  rw [hdry]
  dsimp only
  rw [Act.andFinally, bind_apply, hm]
  rcases r with err | o
  · rfl
  · rfl

/-- A transaction that holds its id may go on. -/
theorem checkOpen_of_open (e : Err) (ho : s.isOpen t = true) :
    checkOpen e (some t) s = (.ok (), s) := by
  rw [checkOpen, Act.read_bind, if_pos ho]
  rfl

/-- The cancel of an open transaction. -/
theorem exec_cancel_open (h : Base s) {dirty : List ℕ} (ho : s.isOpen t = true)
    (hd : s.dirtyNodes t = some dirty) :
    exec (.cancel t) s = (.ok (), (s.forget t dirty).close t) := by
  obtain ⟨dirty', hd', hnodup, -, hiff⟩ := h.live t ho
  rw [hd] at hd'
  cases hd'
  rw [exec, bind_of_ok (checkOpen_of_open _ ho),
    bind_of_ok (delTxbranch_eq hd hnodup fun n hn => (hiff n).mp hn)]
  rfl

/-- The commit of an open transaction. -/
theorem exec_commit_open (ho : s.isOpen t = true) :
    exec (.commit t) s = ((foldTxbranch t s).1, (foldTxbranch t s).2.close t) := by
  rw [exec, bind_of_ok (checkOpen_of_open _ ho)]
  rfl

/-- The commit of an open transaction whose dry run finds a conflict. -/
theorem exec_commit_conflict (h : Base s) {dirty : List ℕ} {text : String} (ho : s.isOpen t = true)
    (hd : s.dirtyNodes t = some dirty)
    (hdry : mergeRoot t true s = (.error (.mergeConflict text), s)) :
    exec (.commit t) s = (.error (.mergeConflict text), (s.forget t dirty).close t) := by
  obtain ⟨dirty', hd', hnodup, -, hiff⟩ := h.live t ho
  rw [hd] at hd'
  cases hd'
  rw [exec_commit_open ho, foldTxbranch_conflict hd hnodup (fun n hn => (hiff n).mp hn) hdry]

/-- The commit of a transaction that is not open. -/
theorem exec_commit_closed (ho : s.isOpen t = false) :
    ∃ err, exec (.commit t) s = (.error err, s) := by
  refine ⟨.attributeError "'NoneType' object has no attribute '_config'", ?_⟩
  rcases checkOpen_eq (.attributeError "'NoneType' object has no attribute '_config'") (some t) s
    with hc | ⟨-, hopen⟩
  · rw [exec, bind_of_error hc]
  · rw [hopen t rfl] at ho
    cases ho

/-- `fold_txbranch` of an open transaction. -/
theorem commit_step (h : Base s) (ho : s.isOpen t = true) :
    wp (exec (.commit t)) s (Step K H s (.commit t)) := by
  rw [wp_def]
  rcases mergeRoot_dry t s with ⟨err, hdry⟩ | hdry
  · by_cases hc : ∃ text, err = .mergeConflict text
    · obtain ⟨text, rfl⟩ := hc
      obtain ⟨dirty, hd, -⟩ := h.live t ho
      rw [exec_commit_conflict h ho hd hdry]
      exact Step.rejected ho hd hdry
    · have hne : ∀ text, err ≠ .mergeConflict text := fun text he => hc ⟨text, he⟩
      rw [exec_commit_open ho, foldTxbranch_crash hdry hne]
      exact Step.crashed ho hdry hne
  · have hreal := mergeRoot_settles (s := s) t false h.wf
    rw [wp_def] at hreal
    rcases hm : mergeRoot t false s with ⟨r, s₁⟩
    rw [hm] at hreal
    rw [exec_commit_open ho, foldTxbranch_merge hdry hm]
    exact Step.committed ho hdry hm hreal.settles

theorem registerCallback_tabled (path : Path) (exclusive : Bool) (type : CallbackType)
    (cb : Callback P) (s : State P) :
    wp (Config.registerCallback path exclusive type cb) s fun _ s' => Tabled s s' := by
  unfold Config.registerCallback getProxy
  simp only [wp_bind, wp_read, seqPost_ok, wp_ofExcept]
  rcases findNode s path 0 with err | n
  · exact Tabled.same
  · rw [seqPost_ok]
    rcases s.proxy n with _ | proxy
    · exact Tabled.proxies _
    · dsimp only
      split
      · exact Tabled.same
      · exact Tabled.proxies _

theorem tag_tabled (name : String) (hash : Option P.Hash) (s : State P) :
    wp (Config.tag name hash) s fun _ s' => Tabled s s' := by
  unfold Config.tag
  rw [wp_bind, wp_read, seqPost_ok]
  rcases hb : s.branches 0 none with _ | b
  · exact Tabled.same
  · rcases hash with _ | h
    · exact Tabled.tagged name hb (.inl rfl)
    · dsimp only
      rcases hl : b.revs.lookup h with _ | rev
      · exact Tabled.same
      · exact Tabled.tagged name hb (.inr ⟨h, hl⟩)

theorem deleteTag_tabled (name : String) (s : State P) :
    wp (Config.deleteTag name) s fun _ s' => Tabled s s' := by
  unfold Config.deleteTag
  rw [wp_bind, wp_read, seqPost_ok]
  split
  · exact Tabled.untagged name
  · exact Tabled.same

theorem pruneUntagged_tabled (s : State P) : wp Config.pruneUntagged s fun _ s' => Tabled s s' := by
  unfold Config.pruneUntagged
  rw [wp_bind, wp_read, seqPost_ok]
  rcases hb : s.branches 0 none with _ | b
  · exact Tabled.same
  · exact Tabled.pruned hb

theorem Tabled.retabled (h : Tabled s s') : Retabled s s' := by
  cases h with
  | @pruned b hb =>
    refine ⟨fun n v => ?_, rfl⟩
    rw [setBranch_apply]
    split
    · next hnv =>
      rw [hnv.1, hnv.2, hb]
      rfl
    · rfl
  | _ => exact ⟨fun _ _ => rfl, rfl⟩

/-- **What one operation does.** -/
theorem step_cases (h : Base s) (op : Op P)
    (hK : ∀ path data strict u hops, op = .update path data strict u →
      walk s u path 0 = some hops → K (target 0 hops) data.data)
    (hH : ∀ path data strict u hops, op = .update path data strict u →
      walk s u path 0 = some hops → ∀ hop ∈ hops, H hop) :
    wp (exec op) s (Step K H s op) := by
  cases op with
  | update path data strict u =>
    have hw := update_write strict data path 0 s h.wf
      (fun hops hw => hK path data strict u hops rfl hw)
      (fun hops hw => hH path data strict u hops rfl hw)
    exact rootWrite_step rfl (wp_mono hw fun _ _ hw => hw.1)
  | add path data u =>
    exact rootWrite_step rfl (wp_mono (add_write data path 0 s h.wf) fun _ _ hw => hw.1)
  | remove path u =>
    exact rootWrite_step rfl (wp_mono (remove_write path 0 s h.wf) fun _ _ hw => hw.1)
  | openTransaction =>
    obtain ⟨c, hc⟩ := Option.isSome_iff_exists.mp h.root
    have hstep := Step.opened (K := K) (H := H) hc
    rw [exec, wp_bind]
    unfold mkTxbranch
    rw [wp_bind, wp_read, seqPost_ok, hc]
    exact hstep
  | cancel t =>
    rcases checkOpen_eq (.keyError "None") (some t) s with hc | ⟨-, hopen⟩
    · rw [exec, wp_bind, wp_def, hc]
      exact Step.idle _ _
    · have ho := hopen t rfl
      obtain ⟨dirty, hd, -⟩ := h.live t ho
      rw [wp_def, exec_cancel_open h ho hd]
      exact Step.cancelled ho hd
  | commit t =>
    rcases ho : s.isOpen t with _ | _
    · obtain ⟨err, he⟩ := exec_commit_closed ho
      rw [wp_def, he]
      exact Step.idle _ _
    · exact commit_step h ho
  | registerCallback path exclusive type cb =>
    exact wp_mono (registerCallback_tabled path exclusive type cb s) fun r _ h =>
      Step.tables r rfl (by simp) (by simp) h
  | tag name hash =>
    exact wp_mono (tag_tabled name hash s) fun r _ h =>
      Step.tables r rfl (by simp) (by simp) h
  | deleteTag name =>
    exact wp_mono (deleteTag_tabled name s) fun r _ h =>
      Step.tables r rfl (by simp) (by simp) h
  | pruneUntagged =>
    exact wp_mono (pruneUntagged_tabled s) fun r _ h =>
      Step.tables r rfl (by simp) (by simp) h

/-! ## The facts between operations are kept -/

section

variable (he : Effect K C u s s')
include he

/-- The branches and the dirty nodes of a transaction change with a fork only. -/
theorem Effect.fork_or (t : ℕ) :
    (s'.dirtyNodes t = s.dirtyNodes t ∧
        ∀ n, (s'.branches n (some t)).isSome = (s.branches n (some t)).isSome) ∨
      ∃ m c dirty, u = some t ∧ s.branches m (some t) = none ∧ s.dirtyNodes t = some dirty ∧
        s' = s.fork m t c dirty := by
  cases he with
  | called _ => exact .inl ⟨rfl, fun _ => rfl⟩
  | @forked m t' c dirty hu _ hnone hd =>
    by_cases htt : t = t'
    · subst htt
      exact .inr ⟨m, _, dirty, hu, hnone, hd, rfl⟩
    · exact .inl ⟨update_of_ne htt _ _, fun n => congrArg Option.isSome
        (s.setBranch_of_ne _ (.inr (by simpa using htt)))⟩
  | born _ => exact .inl ⟨rfl, fun _ => rfl⟩
  | seated _ _ _ _ _ =>
    exact .inl ⟨rfl, fun n => congrArg Option.isSome (setBranch_of_ne _ _ (.inr (by simp)))⟩
  | @installed m b _ _ _ hb _ _ =>
    refine .inl ⟨by rw [install_dirtyNodes], fun n => ?_⟩
    rw [install_branches _ _ _ hb, setBranch_apply]
    split
    · next hmn =>
      rw [hmn.1, hmn.2, hb]
      rfl
    · rfl
  | cleared _ _ _ => exact .inl ⟨rfl, fun _ => rfl⟩

theorem Effect.dirtyNodes (ht : u ≠ some t) : s'.dirtyNodes t = s.dirtyNodes t := by
  rcases he.fork_or t with ⟨hd, -⟩ | ⟨m, c, dirty, hu, -⟩
  · exact hd
  · exact absurd hu ht

omit he in
theorem State.isSome_fork (s : State P) (m t : ℕ) (c : Rev P) (dirty : List ℕ) (n : ℕ) :
    ((s.fork m t c dirty).branches n (some t)).isSome =
      (decide (n = m) || (s.branches n (some t)).isSome) := by
  rw [fork_branches, setBranch_apply]
  by_cases hn : n = m
  · simp [hn]
  · simp [hn]

omit he in
theorem Live.fork {m : ℕ} {c : Rev P} {dirty : List ℕ} (h : Live s t)
    (hnone : s.branches m (some t) = none) (hd : s.dirtyNodes t = some dirty) :
    Live (s.fork m t c dirty) t := by
  obtain ⟨l, hl, hnodup, h0, hiff⟩ := h
  obtain rfl : l = dirty := Option.some.inj (hl.symm.trans hd)
  have hm : m ∉ l := by
    rw [hiff, hnone]
    simp
  refine ⟨m :: l, ?_, nodup_cons.mpr ⟨hm, hnodup⟩, mem_cons_of_mem _ h0, fun n => ?_⟩
  · unfold State.fork
    dsimp only
    rw [update_self, if_neg hm]
  · rw [isSome_fork, mem_cons, hiff]
    simp

theorem Effect.live (h : Live s t) : Live s' t := by
  rcases he.fork_or t with ⟨hd, hb⟩ | ⟨m, c, dirty, -, hnone, hd, rfl⟩
  · exact h.congr hd hb
  · exact h.fork hnone hd

theorem Effect.dirty (h : ∀ {t n : ℕ}, (s.branches n (some t)).isSome → (s.dirtyNodes t).isSome)
    (hn : (s'.branches n (some t)).isSome) : (s'.dirtyNodes t).isSome := by
  rcases he.fork_or t with ⟨hd, hb⟩ | ⟨m, c, dirty, -, -, -, rfl⟩
  · rw [hb] at hn
    rw [hd]
    exact h hn
  · exact Option.isSome_of_eq_some (update_self ..)

end

namespace Chain

theorem dirtyNodes (hc : Chain K C u s s') (ht : u ≠ some t) :
    s'.dirtyNodes t = s.dirtyNodes t := by
  induction hc with
  | refl => rfl
  | tail _ he ih => exact (he.dirtyNodes ht).trans ih

theorem live (hc : Chain K C u s s') (h : Live s t) : Live s' t := by
  induction hc with
  | refl => exact h
  | tail _ he ih => exact he.live ih

theorem dirty (hc : Chain K C u s s')
    (h : ∀ {t n : ℕ}, (s.branches n (some t)).isSome → (s.dirtyNodes t).isSome) {t : ℕ}
    (hn : (s'.branches n (some t)).isSome) : (s'.dirtyNodes t).isSome := by
  induction hc generalizing t n with
  | refl => exact h hn
  | tail _ he ih => exact he.dirty ih hn

end Chain

/-- What the merge of transaction `v` leaves of the tables. -/
structure TablesKept (v : ℕ) (s s' : State P) : Prop where
  frame : SameFrame s s'
  dirtyNodes : s'.dirtyNodes = s.dirtyNodes
  cleared : s'.cleared = s.cleared
  others : ∀ n t, t ≠ v → s'.branches n (some t) = s.branches n (some t)
  own : ∀ n, (s'.branches n (some v)).isSome → (s.branches n (some v)).isSome

theorem Settle.tables {v : ℕ} (hs : Settle v s s') : TablesKept v s s' := by
  cases hs with
  | @mk n src dst fork changed children changes hsrc hdst _ _ _ _ _ =>
    have hf := s.sameFrame_install n none (s.newRev n none
      (mergedData changed src.latest dst.latest) fun f => (children f).reduceOption) changes
    refine ⟨⟨hf.proxy, hf.tags, hf.isOpen, hf.nextTx⟩, ?_, ?_, ?_, ?_⟩
    · exact install_dirtyNodes ..
    · exact install_cleared ..
    · intro m t ht
      rw [dropBranch, setBranch_of_ne _ _ (.inr (by simpa using ht)),
        install_branches_of_ne _ _ hdst (.inr (by simp))]
    · intro m hm
      obtain ⟨c, hc⟩ := Option.isSome_iff_exists.mp hm
      rcases setBranch_eq_some _ hc with ⟨-, hc⟩ | hc
      · cases hc
      · rw [install_branches_of_ne _ _ hdst (.inr (by simp))] at hc
        exact Option.isSome_of_eq_some hc

theorem Settles.tables {v : ℕ} (hs : Settles v s s') : TablesKept v s s' := by
  induction hs with
  | refl => exact ⟨SameFrame.refl s, rfl, rfl, fun _ _ _ => rfl, fun _ h => h⟩
  | tail _ he ih =>
    obtain ⟨h₁, h₂, h₃, h₄, h₅⟩ := ih
    obtain ⟨g₁, g₂, g₃, g₄, g₅⟩ := he.tables
    exact ⟨h₁.trans g₁, g₂.trans h₂, g₃.trans h₃,
      fun n t ht => (g₄ n t ht).trans (h₄ n t ht), fun n hn => h₅ n (g₅ n hn)⟩

theorem State.forget_branches (s : State P) (t : ℕ) (dirty : List ℕ) {v : Option ℕ}
    (hv : v ≠ some t) : (s.forget t dirty).branches n v = s.branches n v :=
  if_neg fun h => hv h.1

theorem State.forget_eq_some {dirty : List ℕ} {v : Option ℕ} {b : Branch P}
    (h : (s.forget t dirty).branches n v = some b) : s.branches n v = some b := by
  unfold forget at h
  dsimp only at h
  split at h
  · cases h
  · exact h

theorem WF.later_forget (s : State P) (t : ℕ) (dirty : List ℕ) : Later s (s.forget t dirty) where
  has h := h
  old h _ := h
  nextRev_le := le_rfl
  nextNode_le := le_rfl
  parent _ := rfl
  committed hn := by
    rw [forget_branches _ _ _ (by simp)]
    exact hn

theorem WF.forget (h : WF s) (t : ℕ) (dirty : List ℕ) : WF (s.forget t dirty) :=
  h.retable rfl (WF.later_forget s t dirty) h.parent_lt h.parent_root
    (fun hb => h.branch (forget_eq_some hb)) h.cleared

/-- No branch of the transaction is left. -/
theorem Live.forget {dirty : List ℕ} (h : Live s t) (hd : s.dirtyNodes t = some dirty) (n : ℕ) :
    (s.forget t dirty).branches n (some t) = none := by
  obtain ⟨l, hl, -, -, hiff⟩ := h
  obtain rfl : l = dirty := Option.some.inj (hl.symm.trans hd)
  unfold State.forget
  dsimp only
  by_cases hn : n ∈ l
  · rw [if_pos ⟨rfl, hn⟩]
  · rw [if_neg fun h => hn h.2]
    rw [hiff] at hn
    exact Option.not_isSome_iff_eq_none.mp hn

theorem isOpen_close (s : State P) (t v : ℕ) :
    (s.close t).isOpen v = if v = t then false else s.isOpen v := by
  unfold close
  by_cases h : v = t
  · simp [h]
  · simp [h]

/-- A transaction ends: the others keep their branches and their dirty nodes. -/
theorem Base.ended (h : Base s) (hwf : WF s') (hroot : (s'.branches 0 none).isSome)
    (hopen : s'.isOpen = s.isOpen) (hnext : s'.nextTx = s.nextTx)
    (hdirty : ∀ v, v ≠ t → s'.dirtyNodes v = s.dirtyNodes v)
    (hothers : ∀ n v, v ≠ t → s'.branches n (some v) = s.branches n (some v))
    (hown : ∀ n, (s'.branches n (some t)).isSome → (s'.dirtyNodes t).isSome)
    (hlater : s.nextTx ≤ t → s'.dirtyNodes t = none) (hd : s'.deferred = [])
    (hn : s'.notifications = []) : Base (s'.close t) where
  wf := hwf.congr rfl rfl rfl rfl rfl rfl
  root := hroot
  live v hv := by
    rw [isOpen_close, hopen] at hv
    split at hv
    · cases hv
    · next hvt => exact (h.live v hv).congr (hdirty v hvt) fun n => by rw [← hothers n v hvt]; rfl
  dirty {v n} hn := by
    by_cases hvt : v = t
    · subst hvt
      exact hown n hn
    · have hsome : (s.branches n (some v)).isSome := hothers n v hvt ▸ hn
      exact (congrArg Option.isSome (hdirty v hvt)).trans (h.dirty hsome)
  later {v} hv := by
    have hv' : s.nextTx ≤ v := hnext ▸ hv
    refine ⟨?_, ?_⟩
    · by_cases hvt : v = t
      · subst hvt
        exact hlater hv'
      · exact (hdirty v hvt).trans (h.later hv').1
    · rw [isOpen_close, hopen]
      split
      · rfl
      · exact (h.later hv').2
  deferred := hd
  notifications := hn

theorem Base.close (h : Base s) (t : ℕ) : Base (s.close t) :=
  h.ended h.wf h.root rfl rfl (fun _ _ => rfl) (fun _ _ _ => rfl) (fun _ => h.dirty)
    (fun ht => (h.later ht).1) h.deferred h.notifications

theorem Base.forget_close (h : Base s) {dirty : List ℕ} (ho : s.isOpen t = true)
    (hd : s.dirtyNodes t = some dirty) : Base ((s.forget t dirty).close t) := by
  refine h.ended (h.wf.forget t dirty) ((WF.later_forget s t dirty).committed h.root) rfl rfl
    (fun v hvt => Function.update_of_ne hvt _ _)
    (fun n v hvt => forget_branches s t dirty (by simpa using hvt)) (fun n hn => ?_)
    (fun _ => Function.update_self ..) h.deferred h.notifications
  rw [(h.live t ho).forget hd n] at hn
  cases hn

/-- **The facts between operations are kept by every operation.** -/
theorem Base.keep {op : Op P} {r : Except Err Unit} (h : Base s) (hs : Step K H s op r s') :
    Base s' := by
  cases hs with
  | idle err => exact h
  | @wrote _ u r s₁ hop hopen hw =>
    obtain ⟨hw, -⟩ := hw.written_any h.wf
    have hc := hw.chain
    exact
      { wf := (Chain.wf h.wf hc).congr rfl rfl rfl rfl rfl rfl
        root := (Chain.later h.wf hc).committed h.root
        live := fun t ht => by
          have ht' : s.isOpen t = true := (congrFun (sameFrame hc).isOpen t).symm.trans ht
          exact (Chain.live hc (h.live t ht')).congr rfl fun _ => rfl
        dirty := fun hn => Chain.dirty hc h.dirty hn
        later := fun {t} ht => by
          have ht' : s.nextTx ≤ t := (sameFrame hc).nextTx ▸ ht
          have hne : u ≠ some t := by
            intro hu
            have := hopen t hu
            rw [(h.later ht').2] at this
            cases this
          refine ⟨(dirtyNodes hc hne).trans (h.later ht').1, ?_⟩
          exact (congrFun (sameFrame hc).isOpen t).trans (h.later ht').2
        deferred := rfl
        notifications := rfl }
  | @opened c hc =>
    have hnone : ∀ n, s.branches n (some s.nextTx) = none := by
      intro n
      rcases hb : s.branches n (some s.nextTx) with _ | b
      · rfl
      · have := h.dirty (t := s.nextTx) (n := n) (by rw [hb]; rfl)
        rw [(h.later le_rfl).1] at this
        cases this
    have hbr : ∀ n v, v ≠ some s.nextTx → (s.openTx c.latest).branches n v = s.branches n v :=
      fun n v hv => s.setBranch_of_ne _ (.inr hv)
    have hdirty : ∀ v, v ≠ s.nextTx → (s.openTx c.latest).dirtyNodes v = s.dirtyNodes v :=
      fun v hv => update_of_ne hv _ _
    have hself : (s.openTx c.latest).dirtyNodes s.nextTx = some [0] :=
      update_self ..
    exact
      { wf := (h.wf.fork hc s.nextTx [0]).congr rfl rfl rfl rfl rfl rfl
        root := (WF.later_fork s 0 s.nextTx c.latest [0]).committed h.root
        live := fun v hv => by
          by_cases hvt : v = s.nextTx
          · subst hvt
            refine ⟨[0], hself, by simp, by simp, fun n => ?_⟩
            have := s.isSome_fork 0 s.nextTx c.latest [0] n
            rw [hnone n] at this
            rw [show (s.openTx c.latest).branches =
              (s.fork 0 s.nextTx c.latest [0]).branches from rfl, this]
            simp
          · have hv' : s.isOpen v = true :=
              (Function.update_of_ne hvt _ _).symm.trans hv
            exact (h.live v hv').congr (hdirty v hvt) fun n =>
              congrArg Option.isSome (hbr n (some v) (by simpa using hvt))
        dirty := fun {v n} hn => by
          by_cases hvt : v = s.nextTx
          · subst hvt
            rw [hself]
            rfl
          · rw [hdirty v hvt]
            rw [hbr n (some v) (by simpa using hvt)] at hn
            exact h.dirty hn
        later := fun {v} hv => by
          have hlt : s.nextTx < v := hv
          have hne : v ≠ s.nextTx := Nat.ne_of_gt hlt
          exact ⟨(hdirty v hne).trans (h.later hlt.le).1,
            (Function.update_of_ne hne _ _).trans (h.later hlt.le).2⟩
        deferred := h.deferred
        notifications := h.notifications }
  | cancelled ho hd => exact h.forget_close ho hd
  | rejected ho hd _ => exact h.forget_close ho hd
  | crashed _ _ _ => exact h.close _
  | @committed t r s₁ ho hdry hm hset =>
    obtain ⟨hframe, hdirty, -, hother, hself⟩ := hset.tables
    have hd : ∀ v, s₁.dirtyNodes v = s.dirtyNodes v := congrFun hdirty
    exact h.ended ((Settles.wf h.wf hset).congr rfl rfl rfl rfl rfl rfl)
      ((Settles.later h.wf hset).committed h.root) hframe.isOpen hframe.nextTx (fun v _ => hd v)
      hother (fun n hn => (congrArg Option.isSome (hd t)).trans (h.dirty (hself n hn)))
      (fun ht => (hd t).trans (h.later ht).1) rfl rfl
  | tables r _ _ _ htab =>
    have hr := htab.retabled
    have hrest := hr.rest
    exact
      { wf := hr.wf h.wf
        root := hr.later.committed h.root
        live := fun v hv => (h.live v (by rw [hrest] at hv; exact hv)).congr (by rw [hrest])
          fun n => hr.isSome n (some v)
        dirty := fun {v n} hn => by
          rw [hr.isSome] at hn
          rw [hrest]
          exact h.dirty hn
        later := fun {v} hv => by
          rw [hrest] at hv ⊢
          exact h.later hv
        deferred := by
          rw [hrest]
          exact h.deferred
        notifications := by
          rw [hrest]
          exact h.notifications }

/-- The root of a new tree. -/
theorem mkRoot_made {data : Msg P} {rev : Rev P} (h : mkRoot data = (.ok rev, s)) :
    Chain K C none empty s ∧ Grown empty s ∧ Kid empty s none rev ∧
      rev.node = 0 ∧ rev.data = data.data := by
  have hmade := mknode_makes (K := K) (C := C) (u := none) data none empty WF.empty
    (fun _ _ h => nomatch h)
  rw [wp_def, show mknode data none empty = (.ok rev, s) from h] at hmade
  obtain ⟨hc, hg, hkid⟩ := hmade
  obtain ⟨hk, hnode, hdata⟩ := hkid rev rfl
  exact ⟨hc, hg, hk, hnode, hdata⟩

theorem Base.init {data : Msg P} {rev : Rev P} (h : mkRoot data = (.ok rev, s)) : Base s := by
  obtain ⟨hc, hg, hkid, hnode, -⟩ :=
    mkRoot_made (K := fun _ _ => True) (C := fun _ => True) h
  have hframe := sameFrame hc
  have hdirty : ∀ t, s.dirtyNodes t = none := fun t => by
    rw [dirtyNodes hc (by simp)]
    rfl
  exact
    { wf := Chain.wf WF.empty hc
      root := hnode ▸ hkid.committed
      live := fun t ht => by
        rw [hframe.isOpen] at ht
        cases ht
      dirty := fun hn => Chain.dirty hc (fun h => nomatch h) hn
      later := fun {t} _ => ⟨hdirty t, by rw [hframe.isOpen]; rfl⟩
      deferred := by
        rw [hg.rest]
        rfl
      notifications := by
        rw [hg.rest]
        rfl }

/-- What is known of an update without a condition on it. -/
theorem step_cases_any (h : Base s) (op : Op P) :
    Step (fun _ _ => True) (fun _ => True) s op (exec op s).1 (step s op) :=
  step_cases h op (fun _ _ _ _ _ _ _ => trivial) (fun _ _ _ _ _ _ _ _ _ => trivial)

theorem Base.of_step (h : Base s) (op : Op P) : Base (step s op) :=
  h.keep (step_cases_any h op)

/-- Every operation keeps the objects. -/
theorem Base.later_step (h : Base s) (op : Op P) : Later s (step s op) := by
  have hclose : ∀ {s₁ : State P} (t : ℕ), Later s s₁ → Later s (s₁.close t) := fun _ hl =>
    ⟨hl.has, hl.old, hl.nextRev_le, hl.nextNode_le, hl.parent, hl.committed⟩
  have hfin : ∀ {s₁ : State P}, Later s s₁ → Later s s₁.executeDeferredCallbacks := fun hl =>
    ⟨hl.has, hl.old, hl.nextRev_le, hl.nextNode_le, hl.parent, hl.committed⟩
  have hstep := step_cases_any h op
  generalize (exec op s).1 = r at hstep
  generalize step s op = s' at hstep
  cases hstep with
  | idle _ _ => exact Later.refl s
  | wrote _ _ hw =>
    obtain ⟨hwr, -⟩ := hw.written_any h.wf
    exact hfin (Chain.later h.wf hwr.chain)
  | @opened c _ =>
    have hl := WF.later_fork s 0 s.nextTx c.latest [0]
    exact ⟨hl.has, hl.old, hl.nextRev_le, hl.nextNode_le, hl.parent, hl.committed⟩
  | cancelled _ _ => exact hclose _ (WF.later_forget s _ _)
  | rejected _ _ _ => exact hclose _ (WF.later_forget s _ _)
  | crashed _ _ _ => exact hclose _ (Later.refl s)
  | committed _ _ _ hset => exact hclose _ (hfin (Settles.later h.wf hset))
  | tables _ _ _ _ htab => exact htab.retabled.later

/-- **The facts between operations hold in every state of every run.** -/
theorem Reachable.base (h : Reachable s) : Base s := by
  induction h with
  | init h => exact Base.init h
  | step op _ ih => exact ih.of_step op

/-! ## Runs whose steps meet a condition -/

/-- The states of the runs in which every operation meets the condition `C`. -/
inductive ReachableBy (C : State P → Op P → Prop) : State P → Prop where
  | init {data : Msg P} {rev : Rev P} {s : State P} :
      mkRoot data = (.ok rev, s) → ReachableBy C s
  | step {s : State P} {op : Op P} : ReachableBy C s → C s op → ReachableBy C (step s op)

namespace ReachableBy

variable {C C' : State P → Op P → Prop}

theorem reachable (h : ReachableBy C s) : Reachable s := by
  induction h with
  | init hm => exact Reachable.init hm
  | step _ _ ih => exact ih.step _

end ReachableBy

/-- Every operation of a run meets a condition that can be tested. -/
def allAlong (c : State P → Op P → Bool) : State P → List (Op P) → Bool
  | _, [] => true
  | s, op :: ops => c s op && allAlong c (step s op) ops

theorem ReachableBy.run {c : State P → Op P → Bool} (h : ReachableBy (fun s op => c s op = true) s)
    {ops : List (Op P)} (hall : allAlong c s ops = true) :
    ReachableBy (fun s op => c s op = true) (run s ops) := by
  induction ops generalizing s with
  | nil => exact h
  | cons op ops ih =>
    rw [allAlong, Bool.and_eq_true] at hall
    exact ih (h.step hall.1) hall.2

end Voltha.Config
