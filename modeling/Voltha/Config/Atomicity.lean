import Voltha.Config.Runs
import Voltha.Config.Sample

/-!
# A conflicting commit is all or nothing

`fold_txbranch` merges twice, first as a dry run.  The second merge finds the same conflicts as
the first one although it changes the nodes below while it goes: it never looks at a node again
after it has settled it, because the branch of the transaction is gone from there, and the
revisions that the dry run compared are those it compares (`mergeTxbranch_sim`).  So a
transaction that passes the dry run meets no conflict, and one that does not is dropped before
anything has changed.
-/

namespace Voltha.Config

open List

variable {P : Proto}

open State Act

/-! ## The dry run and the merge in lockstep -/

/-- The merge of `t` that started in `s` has come to `s'`: a node is as it was, or the
transaction has no branch on it any more. -/
structure Track (t : ℕ) (s s' : State P) : Prop where
  cleared : s'.cleared = s.cleared
  node : ∀ m, s'.branches m (some t) = none ∨
    s'.branches m (some t) = s.branches m (some t) ∧ s'.branches m none = s.branches m none

theorem Track.refl (t : ℕ) (s : State P) : Track t s s :=
  ⟨rfl, fun _ => .inr ⟨rfl, rfl⟩⟩

variable {s : State P} {t : ℕ}

theorem Track.hashOf {s' : State P} (h : Track t s s') (r : Rev P) : s'.hashOf r = s.hashOf r := by
  unfold State.hashOf
  rw [h.cleared]

theorem Track.settle {s' : State P} (h : Track t s s') (n : ℕ) (rev : Rev P) (changes : Changes P) :
    Track t s ((s'.makeLatest n none rev changes).dropBranch n t) where
  cleared := (makeLatest_cleared ..).trans h.cleared
  node m := by
    by_cases hm : m = n
    · subst hm
      exact .inl (setBranch_self ..)
    · have hb : ∀ v, ((s'.makeLatest n none rev changes).dropBranch n t).branches m v =
          s'.branches m v := by
        intro v
        rw [State.dropBranch, setBranch_of_ne _ _ (.inl hm)]
        rcases hc : s'.branches n none with _ | b
        · rw [State.makeLatest, hc]
        · rw [makeLatest_eq _ hc, setBranch_of_ne _ _ (.inl hm)]
      rw [hb, hb]
      exact h.node m

/-- What the dry run has for a child, and what the merge has. -/
def Agree (d r : Option (Rev P)) : Prop := d = none ∨ r = d

/-- The lists under construction of the two runs. -/
structure AgreeAll (d r : List (Option (Rev P))) : Prop where
  length_eq : d.length = r.length
  item : ∀ {i : ℕ} {x : Rev P}, d[i]? = some (some x) → r[i]? = some (some x)

namespace AgreeAll

variable {d r : List (Option (Rev P))} {x y : Option (Rev P)}

theorem refl (l : List (Option (Rev P))) : AgreeAll l l := ⟨rfl, fun h => h⟩

section

variable (h : AgreeAll d r)
include h

theorem set (hxy : Agree x y) (i : ℕ) : AgreeAll (d.set i x) (r.set i y) where
  length_eq := by rw [length_set, length_set, h.length_eq]
  item {j z} hj := by
    rw [getElem?_set] at hj ⊢
    rw [← h.length_eq]
    split at hj
    · next hij =>
      subst hij
      rw [if_pos rfl]
      split at hj
      · next hlt =>
        rw [if_pos hlt]
        rcases hxy with rfl | rfl
        · cases hj
        · exact hj
      · cases hj
    · next hij =>
      rw [if_neg hij]
      exact h.item hj

theorem concat (hxy : Agree x y) : AgreeAll (d ++ [x]) (r ++ [y]) where
  length_eq := by rw [length_append, length_append, h.length_eq]; rfl
  item {j z} hj := by
    rw [getElem?_append] at hj ⊢
    rw [← h.length_eq]
    split at hj
    · next hlt =>
      rw [if_pos hlt]
      exact h.item hj
    · next hlt =>
      rw [if_neg hlt]
      rcases hxy with rfl | rfl
      · rcases hk : j - d.length with _ | k
        · rw [hk] at hj
          cases hj
        · rw [hk] at hj
          cases hj
      · exact hj

theorem eraseIdx (i : ℕ) : AgreeAll (d.eraseIdx i) (r.eraseIdx i) where
  length_eq := by rw [length_eraseIdx, length_eraseIdx, h.length_eq]
  item {j z} hj := by
    rw [getElem?_eraseIdx] at hj ⊢
    split at hj
    · next hlt =>
      rw [if_pos hlt]
      exact h.item hj
    · next hlt =>
      rw [if_neg hlt]
      exact h.item hj

theorem cons (hxy : Agree x y) : AgreeAll (x :: d) (y :: r) where
  length_eq := by rw [length_cons, length_cons, h.length_eq]
  item {j z} hj := by
    rcases j with _ | j
    · rw [getElem?_cons_zero] at hj ⊢
      rcases hxy with rfl | rfl
      · cases hj
      · exact hj
    · rw [getElem?_cons_succ] at hj ⊢
      exact h.item hj

end

end AgreeAll

section Lockstep

variable {t : ℕ} {s : State P}

/-- The two computations in lockstep, for the merge of `t` from `s`. -/
abbrev Lockstep (t : ℕ) (s : State P) {α β : Type} (R : α → β → Prop) (x : M P α) (y : M P β) :
    Prop :=
  Sim s (Track t s) Err.IsConflict R x y

/-- The lists of the two runs agree. -/
abbrev AgreeLists (d r : Merging P) : Prop := AgreeAll d.1 r.1

theorem analyzeChanges_sim (l₁ l₂ : List (Rev P)) (key : String) :
    Lockstep t s Eq (analyzeChanges l₁ l₂ key) (analyzeChanges l₁ l₂ key) := by
  refine Sim.read.bind ?_
  rintro a b ⟨rfl, hb⟩
  refine (Sim.ofExcept _).bind ?_
  rintro k₁ _ rfl
  refine (Sim.ofExcept _).bind ?_
  rintro k₂ _ rfl
  rw [show b.hashOf = a.hashOf from funext hb.hashOf]
  exact Sim.pure rfl

theorem indexOf_sim (km : KeyMap P) (k : P.Val) :
    Lockstep t s Eq (indexOf km k) (indexOf km k) := by
  unfold indexOf
  rcases km.lookup k with _ | i
  · exact Sim.raise _ _
  · exact Sim.pure rfl

/-- An item that the dry run can read is the item of the merge. -/
theorem itemAt_sim {d r : List (Option (Rev P))} (h : AgreeAll d r) (i : ℕ) :
    Lockstep t s Eq (itemAt d i) (itemAt r i) := by
  unfold itemAt
  rcases hd : d[i]? with _ | _ | rev
  · exact Sim.raise _ _
  · exact Sim.raise _ _
  · rw [h.item hd]
    exact Sim.pure rfl

theorem revOf_sim (l : List (Rev P)) (km : KeyMap P) (k : P.Val) :
    Lockstep t s Eq (revOf l km k) (revOf l km k) := by
  refine (indexOf_sim km k).bind ?_
  rintro i _ rfl
  exact itemAt_sim (AgreeAll.refl _) i

theorem dataOf_sim {x y : Option (Rev P)} (h : Agree x y) :
    Lockstep t s Eq (dataOf x) (dataOf y) := by
  rcases h with rfl | rfl
  · exact Sim.raise _ _
  · unfold dataOf
    rcases y with _ | rev
    · exact Sim.raise _ _
    · exact Sim.pure rfl

variable {mc mc' : MergeChild P} (hmc : ∀ e, Lockstep t s Agree (mc e) (mc' e))
include hmc

section

variable (src : Analysis P) (k : P.Val) (d r : Merging P) (h : AgreeLists d r)
include src k d r h

theorem takeAdded_sim : Lockstep t s AgreeLists (takeAdded mc src d k) (takeAdded mc' src r k) := by
  refine (indexOf_sim _ k).bind ?_
  rintro i _ rfl
  refine (itemAt_sim h i).bind ?_
  rintro rev _ rfl
  refine (hmc rev).bind fun x y hxy => ?_
  refine (dataOf_sim hxy).bind fun _ _ _ => ?_
  exact Sim.pure (h.set hxy i)

theorem takeChanged_sim :
    Lockstep t s AgreeLists (takeChanged mc src d k) (takeChanged mc' src r k) := by
  refine (indexOf_sim _ k).bind ?_
  rintro i _ rfl
  refine (itemAt_sim h i).bind ?_
  rintro rev _ rfl
  refine (hmc rev).bind fun x y hxy => ?_
  exact Sim.pure (h.set hxy i)

end

omit hmc in
theorem takeRemoved_sim (forkList : List (Rev P)) (src : Analysis P) (k : P.Val)
    (d r : Merging P) (h : AgreeLists d r) :
    Lockstep t s AgreeLists (takeRemoved forkList src d k) (takeRemoved forkList src r k) :=
  (revOf_sim forkList _ k).bind fun _ _ _ => Sim.pure h

theorem mergeFromSource_sim (key : String) (forkList srcList : List (Rev P)) :
    Lockstep t s AgreeLists (mergeFromSource mc key forkList srcList)
      (mergeFromSource mc' key forkList srcList) := by
  refine (analyzeChanges_sim forkList srcList key).bind ?_
  rintro src _ rfl
  refine (Sim.foldlM (takeAdded_sim hmc src) _ _ _ (AgreeAll.refl _)).bind fun d r h => ?_
  refine (Sim.foldlM (takeRemoved_sim forkList src) _ _ _ h).bind fun d r h => ?_
  exact Sim.foldlM (takeChanged_sim hmc src) _ _ _ h

theorem addKey_sim (srcList dstList : List (Rev P)) (src dst : Analysis P) (k : P.Val)
    (d r : Merging P) (h : AgreeLists d r) :
    Lockstep t s AgreeLists (addKey mc srcList dstList src dst d k)
      (addKey mc' srcList dstList src dst r k) := by
  unfold addKey
  split
  · refine (revOf_sim dstList _ k).bind ?_
    rintro childDst _ rfl
    refine (revOf_sim srcList _ k).bind ?_
    rintro childSrc _ rfl
    refine Sim.read.bind ?_
    rintro a b ⟨rfl, hb⟩
    rw [hb.hashOf, hb.hashOf]
    split
    · exact (hmc childDst).bind fun _ _ _ => Sim.pure h
    · exact Sim.raise _ _
  · refine (revOf_sim srcList _ k).bind ?_
    rintro childSrc _ rfl
    refine (hmc childSrc).bind fun x y hxy => ?_
    refine (dataOf_sim hxy).bind fun _ _ _ => ?_
    exact Sim.pure (h.concat hxy)

theorem putKey_sim (srcList : List (Rev P)) (src dst : Analysis P) (k : P.Val)
    (d r : Merging P) (h : AgreeLists d r) :
    Lockstep t s AgreeLists (putKey mc srcList src dst d k) (putKey mc' srcList src dst r k) := by
  refine (revOf_sim srcList _ k).bind ?_
  rintro childSrc _ rfl
  refine (hmc childSrc).bind fun x y hxy => ?_
  refine (indexOf_sim _ k).bind ?_
  rintro i _ rfl
  exact Sim.pure (h.set hxy i)

theorem changeKey_sim (srcList dstList : List (Rev P)) (src dst : Analysis P) (k : P.Val)
    (d r : Merging P) (h : AgreeLists d r) :
    Lockstep t s AgreeLists (changeKey mc srcList dstList src dst d k)
      (changeKey mc' srcList dstList src dst r k) := by
  unfold changeKey
  split
  · exact Sim.raise _ _
  · split
    · refine (revOf_sim dstList _ k).bind ?_
      rintro childDst _ rfl
      refine (revOf_sim srcList _ k).bind ?_
      rintro childSrc _ rfl
      refine Sim.read.bind ?_
      rintro a b ⟨rfl, hb⟩
      rw [hb.hashOf, hb.hashOf]
      split
      · exact (hmc childSrc).bind fun _ _ _ => Sim.pure h
      · split
        · exact Sim.raise _ _
        · exact putKey_sim hmc srcList src dst k d r h
    · exact putKey_sim hmc srcList src dst k d r h

omit hmc in
theorem removeKey_sim (dst : Analysis P) (k : P.Val) (d r : Merging P) (h : AgreeLists d r) :
    Lockstep t s AgreeLists (removeKey dst d k) (removeKey dst r k) := by
  unfold removeKey
  split
  · exact Sim.raise _ _
  · split
    · exact Sim.pure h
    · refine (indexOf_sim _ k).bind ?_
      rintro i _ rfl
      rcases hd : d.1[i]? with _ | _ | old
      · exact Sim.raise _ _
      · exact Sim.raise _ _
      · rw [h.item hd]
        exact Sim.pure (h.eraseIdx i)

theorem mergeIntoDst_sim (key : String) (forkList srcList dstList : List (Rev P)) :
    Lockstep t s AgreeLists (mergeIntoDst mc key forkList srcList dstList)
      (mergeIntoDst mc' key forkList srcList dstList) := by
  refine (analyzeChanges_sim forkList srcList key).bind ?_
  rintro src _ rfl
  refine (analyzeChanges_sim forkList dstList key).bind ?_
  rintro dst _ rfl
  refine (Sim.foldlM (addKey_sim hmc srcList dstList src dst) _ _ _ (AgreeAll.refl _)).bind
    fun d r h => ?_
  refine (Sim.foldlM (changeKey_sim hmc srcList dstList src dst) _ _ _ h).bind fun d r h => ?_
  exact Sim.foldlM (removeKey_sim dst) _ _ _ h

theorem mergeAll_sim : ∀ l : List (Rev P),
    Lockstep t s AgreeAll (mergeAll mc l) (mergeAll mc' l)
  | [] => Sim.pure (AgreeAll.refl _)
  | e :: l => (hmc e).bind fun _ _ hxy => (mergeAll_sim l).bind fun _ _ h => Sim.pure (h.cons hxy)

section

variable (name : String) (field : ChildType P.Cls P.Val) (forkList srcList dstList : List (Rev P))
include name field forkList srcList dstList

theorem mergeUnkeyed_sim :
    Lockstep t s AgreeLists (mergeUnkeyed mc name field forkList srcList dstList)
      (mergeUnkeyed mc' name field forkList srcList dstList) := by
  unfold mergeUnkeyed
  split
  · split
    · exact Sim.raise _ _
    · exact (mergeAll_sim hmc srcList).bind fun _ _ h => Sim.pure h
  · split
    · exact Sim.pure (AgreeAll.refl _)
    · exact Sim.raise _ _

theorem mergeList_sim :
    Lockstep t s AgreeLists (mergeList mc name field forkList srcList dstList)
      (mergeList mc' name field forkList srcList dstList) := by
  unfold mergeList
  split
  · exact (mergeAll_sim hmc srcList).bind fun _ _ _ => Sim.pure (AgreeAll.refl _)
  · rcases field.kind with _ | _ | ⟨key, keyFromStr⟩
    · exact mergeUnkeyed_sim hmc name field forkList srcList dstList
    · exact mergeUnkeyed_sim hmc name field forkList srcList dstList
    · unfold mergeKeyed
      dsimp only
      split
      · exact mergeFromSource_sim hmc key forkList srcList
      · exact mergeIntoDst_sim hmc key forkList srcList dstList

end

/-- The merge of one revision: the dry run has looked at everything before a revision is made. -/
theorem merge3way_sim (fork src dst : Rev P) :
    Lockstep t s (fun a _ => a.1 = none) (merge3way fork src dst mc true)
      (merge3way fork src dst mc' false) := by
  refine (Sim.ofExcept _).bind ?_
  rintro changed _ rfl
  refine (Sim.foldlM (R := fun _ _ => True) ?_ _ _ _ trivial).bind fun d r _ => ?_
  · intro field d r _
    exact (mergeList_sim hmc field.1 field.2 _ _ _).bind fun _ _ _ => Sim.pure trivial
  · -- what is left cannot raise a conflict
    intro a s₁ ha s' hs'
    cases ha
    rw [if_neg Bool.false_ne_true, wp_bind]
    refine wp_mono (updateAllChildren_wp dst _ r.1 s') ?_
    rintro (e | rev) s'' (⟨-, err, he, hne⟩ | ⟨-, -, he, rfl⟩)
    · cases he
      rintro ⟨text, rfl⟩
      cases hne
    · cases he
    · cases he
    · exact ⟨rfl, ⟨hs'.cleared, hs'.node⟩, rfl⟩

end Lockstep

/-- **The dry run and the merge go in lockstep.** -/
theorem mergeTxbranch_sim (t : ℕ) (s : State P) :
    ∀ fuel n : ℕ, Lockstep t s Agree (mergeTxbranch t true fuel n) (mergeTxbranch t false fuel n)
  | 0, _ => Sim.raise _ _
  | fuel + 1, n => by
    have hmc : ∀ e, Lockstep t s Agree (mergeChild t (mergeTxbranch t true fuel) e)
        (mergeChild t (mergeTxbranch t false fuel) e) := by
      intro e
      unfold mergeChild
      split
      · exact mergeTxbranch_sim t s fuel e.node
      · exact Sim.pure (.inr rfl)
    rw [mergeTxbranch, mergeTxbranch]
    refine Sim.read.bind ?_
    rintro a b ⟨rfl, hb⟩
    rcases hb.node n with hnone | ⟨hsame, hsame'⟩
    · -- the node has been settled: a `KeyError`
      intro _ _ _ s' _
      rw [hnone]
      rintro ⟨text, he⟩
      cases he
    · rw [hsame, hsame']
      rcases a.branches n (some t) with _ | src
      · exact Sim.raise _ _
      · rcases a.branches n none with _ | dst
        · exact Sim.raise _ _
        · dsimp only
          rcases src.origin with _ | fork
          · exact Sim.raise _ _
          · dsimp only
            refine (merge3way_sim hmc fork src.latest dst.latest).bind ?_
            rintro ⟨d, c⟩ ⟨r, c'⟩ hd
            rw [show d = none from hd]
            intro x s₁ hx s' hs'
            cases hx
            rcases r with _ | rev
            · exact ⟨rfl, hs', .inl rfl⟩
            · exact ⟨rfl, hs'.settle n rev c', .inl rfl⟩

/-- **A transaction that passes the dry run meets no conflict.** -/
theorem mergeRoot_no_conflict {s₁ : State P} {o : Option (Rev P)}
    (h : mergeRoot t true s = (.ok o, s₁)) (text : String) :
    (mergeRoot t false s₁).1 ≠ .error (.mergeConflict text) := by
  obtain rfl : s₁ = s := by simpa [h] using mergeRoot_dry_state t s
  have hsim := mergeTxbranch_sim t s₁ (s₁.nextNode + 1) 0 o s₁ h s₁ (Track.refl t s₁)
  rw [wp_def] at hsim
  intro he
  rw [show (mergeTxbranch t false (s₁.nextNode + 1) 0 s₁).1 = .error (.mergeConflict text) from he]
    at hsim
  exact hsim ⟨text, rfl⟩

/-! ## All or nothing -/

/-- The committed branches, the tags and what was delivered are as before, and the transaction
has no branch left. -/
structure Undone (t : ℕ) (s s' : State P) : Prop where
  committed : ∀ n, s'.branches n none = s.branches n none
  tags : s'.tags = s.tags
  log : s'.log = s.log
  gone : ∀ n, s'.branches n (some t) = none

/-- **A conflicting commit is all or nothing.**  The commit of an open transaction whose dry run
finds a conflict raises it, changes nothing that is committed and drops the transaction; after a
dry run that returns, the merge raises no conflict.  The commit of a transaction that is not open
raises at once. -/
theorem commit_all_or_nothing {s : State P} (h : Reachable s) (t : ℕ) :
    (∀ text s₁, s.isOpen t = true → mergeRoot t true s = (.error (.mergeConflict text), s₁) →
      (exec (.commit t) s).1 = .error (.mergeConflict text) ∧ Undone t s (step s (.commit t))) ∧
    (∀ o s₁, mergeRoot t true s = (.ok o, s₁) →
      ∀ text, (mergeRoot t false s₁).1 ≠ .error (.mergeConflict text)) ∧
    (s.isOpen t = false → ∃ err, exec (.commit t) s = (.error err, s)) := by
  refine ⟨fun text s₁ ho hdry => ?_, fun o s₁ hdry => mergeRoot_no_conflict hdry,
    exec_commit_closed⟩
  have hlive := h.base.live t ho
  obtain ⟨dirty, hd, -⟩ := h.base.live t ho
  obtain rfl : s = s₁ := by simpa [hdry] using (mergeRoot_dry_state t s).symm
  rw [step, exec_commit_conflict h.base ho hd hdry]
  refine ⟨rfl, fun n => ?_, rfl, rfl, fun n => ?_⟩
  · exact s.forget_branches t dirty (Option.some_ne_none t).symm
  · exact hlive.forget hd n

open Sample

/-- Two transactions change one adapter; the first one is committed. -/
def Sample.collision : State sample :=
  run start [.openTransaction, .openTransaction,
    .update ["", "adapters", "1"] (leaf .adapter "1" "y") false (some 0),
    .update ["", "adapters", "1"] (leaf .adapter "1" "z") false (some 1), .commit 0]

theorem commit_all_or_nothing_sample :
    (exec (.commit 1) collision).1 =
        .error (.mergeConflict "Cannot update because it has been changed and different") ∧
      Undone 1 collision (step collision (.commit 1)) := by
  have hdry : raised (mergeRoot 1 true collision).1 =
      some (.mergeConflict "Cannot update because it has been changed and different") := by
    decide +kernel
  exact (commit_all_or_nothing (reachable_start.run _) 1).1 _ _ (by decide +kernel)
    (Prod.ext (raised_eq_some.mp hdry) rfl)

end Voltha.Config
