import Voltha.Config.MergedLists

/-!
# What a commit changes

The second phase of `fold_txbranch` walks down the branches of a transaction.  Each node it
comes to ends with one change: a merged revision becomes the committed head and the branch of
the transaction goes.  `Settle` is that change with what is known of the merged revision, and a
merge of a node is a sequence of such changes (`mergeTxbranch_settles`), whether it returns or
raises.
-/

namespace Voltha.Config

variable {P : Proto}

open State Act

/-! ## The change at one node -/

/-- What the merge of `t` has returned for a child: a revision of another branch itself, and for
a revision of `t` one that can be the committed head of its node. -/
def Returned (t : ℕ) (s : State P) (e : Rev P) (x : Option (Rev P)) : Prop :=
  ∀ y, x = some y → e.txid ≠ some t ∧ y = e ∨ e.txid = some t ∧ s.Head e.node none y

variable {s : State P} {e : Rev P} {t n : ℕ}

theorem Returned.later {s' : State P} {x : Option (Rev P)} (hl : Later s s')
    (h : Returned t s e x) :
    Returned t s' e x := by
  intro y hy
  rcases h y hy with he | ⟨ht, he⟩
  · exact .inl he
  · exact .inr ⟨ht, WF.head_later hl he⟩

/-- The merge of transaction `t` at one node: the merged revision becomes the committed head
and the branch of the transaction goes. -/
inductive Settle (t : ℕ) : State P → State P → Prop where
  | mk {s : State P} {n : ℕ} {src dst : Branch P} {fork : Rev P} {changed : Bool}
      {children : String → List (Option (Rev P))} (changes : Changes P) :
      s.branches n (some t) = some src → s.branches n none = some dst → src.origin = some fork →
      mergeConfig fork src.latest dst.latest = .ok changed →
      ChildrenMerged s.hashOf (Returned t s) fork src.latest dst.latest children →
      (∀ f ∈ P.names (P.typeOf (mergedData changed src.latest dst.latest)), none ∉ children f) →
      s.unhashed (mergedData changed src.latest dst.latest)
        (fun f => (children f).reduceOption) = false →
      Settle t s ((s.install n none (s.newRev n none (mergedData changed src.latest dst.latest)
        fun f => (children f).reduceOption) changes).dropBranch n t)

/-- The changes that the merge of one or several nodes makes. -/
abbrev Settles (t : ℕ) : State P → State P → Prop := Relation.ReflTransGen (Settle t)

section

variable {t : ℕ} {s s' : State P}

/-- The data and the entries of a merged revision. -/
structure Settled (n : ℕ) (s : State P) (src dst : Branch P) (d : P.Data)
    (children : String → List (Rev P)) : Prop where
  data : d = src.latest.data ∨ d = dst.latest.data
  entry : ∀ (f : String) (e : Rev P), e ∈ children f → s.Entry n f e ∧
    (e ∈ src.latest.children f ∨ e ∈ dst.latest.children f ∨ e.txid = none)
  names : ∀ f, f ∉ P.names (P.typeOf d) → children f = []
  hashed : s.unhashed d children = false

/-- Another committed revision of an entry's node can stand in its place. -/
theorem State.Entry.head {f : String} {y : Rev P} (he : s.Entry n f e) (hy : s.Head e.node none y) :
    s.Entry n f y := by
  refine ⟨hy.has, ?_, ?_⟩
  · rw [hy.node]
    exact he.parent
  · rw [hy.node]
    exact he.committed

/-- The entries of the merged lists are entries of the source or of the destination, or committed
revisions of their nodes. -/
theorem ChildrenMerged.origin {h : Rev P → Option P.Hash} {fork src dst : Rev P}
    {children : String → List (Option (Rev P))}
    (hch : ChildrenMerged h (Returned t s) fork src dst children) {f : String}
    (he : e ∈ (children f).reduceOption) :
    ∃ x, (x ∈ src.children f ∨ x ∈ dst.children f) ∧ (e = x ∨ s.Head x.node none e) := by
  rcases hch.mem (List.reduceOption_mem_iff.mp he) with ⟨x, hx, he⟩ | ⟨x, hx, he⟩ | ⟨x, hx, hret⟩
  · exact ⟨x, .inr hx, .inl (Option.some.inj he)⟩
  · exact ⟨x, .inl hx, .inl (Option.some.inj he)⟩
  · rcases hret e rfl with ⟨-, rfl⟩ | ⟨-, hd⟩
    · exact ⟨e, .inl hx, .inl rfl⟩
    · exact ⟨x, .inl hx, .inr hd⟩

section

variable (h : WF s) (hs : Settle t s s')
include h hs

omit hs in
/-- The merged data has the class of the node. -/
theorem WF.typeOf_mergedData {src dst : Branch P} {fork : Rev P}
    (hsrc : s.branches n (some t) = some src) (hdst : s.branches n none = some dst)
    (hfork : src.origin = some fork) (changed : Bool) :
    P.typeOf (mergedData changed src.latest dst.latest) = P.typeOf fork.data := by
  have ho := (h.branch hsrc).origin hfork
  cases changed with
  | true => exact h.cls (h.head hsrc).has ho.has ((h.head hsrc).node.trans ho.node.symm)
  | false => exact h.cls (h.head hdst).has ho.has ((h.head hdst).node.trans ho.node.symm)

/-- **What the merge of a node makes**, without the details of the lists. -/
theorem Settle.settled :
    ∃ n src dst data children changes, s.branches n (some t) = some src ∧
      s.branches n none = some dst ∧ Settled n s src dst data children ∧
      s' = (s.install n none (s.newRev n none data children) changes).dropBranch n t := by
  cases hs with
  | @mk n src dst fork changed children changes hsrc hdst hfork hcfg hch hnone hun =>
    refine ⟨n, src, dst, _, _, changes, hsrc, hdst, ⟨?_, ?_, ?_, hun⟩, rfl⟩
    · cases changed with
      | true => exact .inl rfl
      | false => exact .inr rfl
    · intro f e he
      have hs := h.head hsrc
      have hd := h.head hdst
      obtain ⟨x, hx, hex⟩ := hch.origin he
      have hentry : s.Entry n f x := hx.elim (fun hx => hs.node ▸ h.child hs.has hx)
        fun hx => hd.node ▸ h.child hd.has hx
      rcases hex with rfl | hex
      · exact ⟨hentry, hx.elim .inl fun hx => .inr (.inl hx)⟩
      · exact ⟨hentry.head hex, .inr (.inr (hex.txid.elim id id))⟩
    · intro f hf
      have hcls : P.typeOf dst.latest.data = P.typeOf fork.data :=
        h.typeOf_mergedData hsrc hdst hfork false
      rw [h.typeOf_mergedData hsrc hdst hfork] at hf
      rw [hch.rest f hf, (h.hashed (h.head hdst).has).names (hcls.symm ▸ hf)]
      rfl

theorem Settle.wf : WF s' := by
  obtain ⟨n, src, dst, data, children, changes, hsrc, hdst, hset, rfl⟩ := hs.settled h
  have hcls : P.typeOf data = P.typeOf dst.latest.data := by
    rcases hset.data with rfl | rfl
    · exact h.cls (h.head hsrc).has (h.head hdst).has
        ((h.head hsrc).node.trans (h.head hdst).node.symm)
    · rfl
  refine (h.install hdst ⟨h.lt_nextNode hdst, ?_, hset.names,
    fun he => (hset.entry _ _ he).1⟩ changes).dropBranch n t
  intro r hr hnode
  rw [hcls]
  exact h.cls hr (h.head hdst).has (hnode.trans (h.head hdst).node.symm)

theorem Settle.later : Later s s' := by
  cases hs with
  | mk changes hsrc hdst _ _ _ _ _ =>
    exact (h.later_install hdst _ _ changes).trans (WF.later_dropBranch _ _ _)

end

theorem Settle.cleared (hs : Settle t s s') : s'.cleared = s.cleared := by
  cases hs with
  | mk changes _ _ _ _ _ _ _ => exact install_cleared ..

theorem Settles.wf (h : WF s) (hs : Settles t s s') : WF s' := by
  induction hs with
  | refl => exact h
  | tail _ he ih => exact he.wf ih

theorem Settles.later (h : WF s) (hs : Settles t s s') : Later s s' := by
  induction hs with
  | refl => exact Later.refl s
  | tail hc he ih => exact ih.trans (he.later (Settles.wf h hc))

theorem hashOf_of_cleared (hc : s'.cleared = s.cleared) : s'.hashOf = s.hashOf := by
  funext r
  unfold State.hashOf
  rw [hc]

theorem Settles.hashOf (hs : Settles t s s') : s'.hashOf = s.hashOf := by
  induction hs with
  | refl => rfl
  | tail _ he ih => exact (hashOf_of_cleared he.cleared).trans ih

theorem Settles.nextNode (hs : Settles t s s') : s'.nextNode = s.nextNode := by
  induction hs with
  | refl => rfl
  | tail _ he ih =>
    cases he with
    | mk changes _ _ _ _ _ _ _ => exact (install_nextNode ..).trans ih

end

/-! ## The merge of a node -/

/-- The ways through `_merge_txbranch`: it fails at once, or it merges the latest revision of the
transaction into the committed one. -/
theorem mergeTxbranch_wp {dryRun : Bool} {fuel : ℕ}
    {Q : Except Err (Option (Rev P)) → State P → Prop}
    (hfail : ∀ err : Err, err.followed = false → Q (.error err) s)
    (hmerge : ∀ src dst fork, s.branches n (some t) = some src → s.branches n none = some dst →
      src.origin = some fork →
      wp (merge3way fork src.latest dst.latest (mergeChild t (mergeTxbranch t dryRun fuel)) dryRun)
        s (seqPost (settle n t) Q)) : wp (mergeTxbranch t dryRun (fuel + 1) n) s Q := by
  rw [mergeTxbranch, wp_bind, wp_read, seqPost_ok]
  rcases hsrc : s.branches n (some t) with _ | src
  · exact hfail _ rfl
  · rcases hdst : s.branches n none with _ | dst
    · exact hfail _ rfl
    · dsimp only
      rcases hfork : src.origin with _ | fork
      · exact hfail _ rfl
      · dsimp only
        rw [wp_bind]
        exact hmerge src dst fork hsrc hdst hfork

/-- What the merge of a node leaves and returns. -/
structure NodeMerged (t n : ℕ) (s : State P) (r : Except Err (Option (Rev P))) (s' : State P) :
    Prop where
  settles : Settles t s s'
  branches : ∀ {m : ℕ}, m < n → ∀ v, s'.branches m v = s.branches m v
  head : ∀ rev, r = .ok (some rev) → s'.Head n none rev

theorem settle_wp {rev : Rev P} {changes : Changes P}
    {Q : Except Err (Option (Rev P)) → State P → Prop}
    (h : Q (.ok (some rev)) ((s.install n none rev changes).dropBranch n t)) :
    wp (settle n t (some rev, changes)) (s.alloc rev) Q := h

/-- **The merge of a node is a sequence of changes at single nodes**: it keeps what each of them
keeps.  `T` is what is known of the values that were returned for children, and `V` what is known of
a merged revision. -/
theorem mergeTxbranch_rule {I : State P → Prop} {T : State P → Rev P → Option (Rev P) → Prop}
    {V : ℕ → State P → Rev P → Prop} (hT : ∀ {s e x}, T s e x → Returned t s e x)
    (hown : ∀ {s n v b f e}, I s → s.branches n v = some b → e ∈ b.latest.children f →
      e.txid ≠ some t → T s e (some e))
    (hof : ∀ {s e x}, e.txid = some t → (∀ y, x = some y → s.Head e.node none y ∧ V e.node s y) →
      T s e x)
    (hstep : ∀ {s s' n src dst fork changed} {children : String → List (Option (Rev P))} {rev}
      (changes : Changes P), WF s → I s →
      s.branches n (some t) = some src → s.branches n none = some dst → src.origin = some fork →
      ChildrenMerged s.hashOf (T s) fork src.latest dst.latest children →
      (∀ f ∈ P.names (P.typeOf (mergedData changed src.latest dst.latest)), none ∉ children f) →
      rev = s.newRev n none (mergedData changed src.latest dst.latest)
        (fun f => (children f).reduceOption) → s.unhashed rev.data rev.children = false →
      s' = (s.install n none rev changes).dropBranch n t → Settle t s s' →
      I s' ∧ Kept T s s' ∧ V n s' rev) (dryRun : Bool) :
    ∀ (fuel n : ℕ) (s : State P), WF s → I s → wp (mergeTxbranch t dryRun fuel n) s fun r s' =>
      NodeMerged t n s r s' ∧ I s' ∧ Kept T s s' ∧ ∀ rev, r = .ok (some rev) → V n s' rev
  | 0, n, s, _, hI => ⟨⟨.refl, fun _ _ => rfl, nofun⟩, hI, Kept.refl T s, nofun⟩
  | fuel + 1, n, s, h, hI => by
    refine mergeTxbranch_wp (fun err _ =>
      ⟨⟨.refl, fun _ _ => rfl, nofun⟩, hI, Kept.refl T s, nofun⟩) ?_
    intro src dst fork hsrc hdst hfork
    have hs := h.head hsrc
    have hd := h.head hdst
    -- the states between the merges of the children
    let J : State P → Prop := fun s₁ => Settles t s s₁ ∧ I s₁ ∧ Kept T s s₁ ∧
      ∀ m, m ≤ n → ∀ v, s₁.branches m v = s.branches m v
    have hmc : ∀ name, ∀ e ∈ src.latest.children name ++ dst.latest.children name,
        Handled J T (fun _ => True) (mergeChild t (mergeTxbranch t dryRun fuel)) e := by
      rintro name e hmem s₁ ⟨hset, hI₁, hk, hfr⟩
      obtain ⟨hlt, hme⟩ : n < e.node ∧ (e.txid ≠ some t → T s e (some e)) := by
        rcases List.mem_append.mp hmem with hmem | hmem
        · exact ⟨hs.node ▸ h.node_lt_child hs.has hmem, hown hI hsrc hmem⟩
        · exact ⟨hd.node ▸ h.node_lt_child hd.has hmem, hown hI hdst hmem⟩
      unfold mergeChild
      split
      · next ht =>
        refine wp_mono (mergeTxbranch_rule hT hown hof hstep dryRun fuel e.node s₁
          (Settles.wf h hset) hI₁) ?_
        rintro r s₂ ⟨hm, hI₂, hk₂, hV⟩
        refine ⟨⟨hset.trans hm.settles, hI₂, hk.trans hk₂, fun m hmn v => ?_⟩, hk₂, ?_,
          fun _ _ _ => trivial⟩
        · rw [hm.branches (by omega)]
          exact hfr m hmn v
        · rintro x rfl
          refine hof ht ?_
          rintro y rfl
          exact ⟨hm.head y rfl, hV y rfl⟩
      · next ht => exact Outcome.ok ⟨hset, hI₁, hk, hfr⟩ (hk e _ (hme ht))
    have hJ : J s := ⟨.refl, hI, Kept.refl T s, fun _ _ _ => rfl⟩
    refine wp_mono (merge3way_outcome (h := s.hashOf) (fun s₁ hJ₁ => Settles.hashOf hJ₁.1) hmc
      (fun _ _ => trivial) (fun _ _ => trivial) hJ dryRun) ?_
    intro r s' hm
    cases hm with
    | raised hJ₁ _ _ =>
      obtain ⟨hset, hI₁, hk, hfr⟩ := hJ₁
      exact ⟨⟨hset, fun hm v => hfr _ hm.le v, nofun⟩, hI₁, hk, nofun⟩
    | dry hJ₁ _ _ _ =>
      obtain ⟨hset, hI₁, hk, hfr⟩ := hJ₁
      refine ⟨⟨hset, fun hm v => hfr _ hm.le v, ?_⟩, hI₁, hk, ?_⟩ <;>
      · rintro rev hrev
        cases hrev
    | @made changed children s₁ changes hJ₁ _ hcfg hch hnone hun =>
      obtain ⟨hset, hI₁, hk, hfr⟩ := hJ₁
      have hwf₁ := Settles.wf h hset
      have hsrc₁ : s₁.branches n (some t) = some src := (hfr n le_rfl _).trans hsrc
      have hdst₁ : s₁.branches n none = some dst := (hfr n le_rfl _).trans hdst
      rw [hd.node, h.txid_committed hdst]
      rw [← Settles.hashOf hset] at hch
      have hset' := Settle.mk changes hsrc₁ hdst₁ hfork hcfg (hch.mono fun _ _ => hT) hnone hun
      obtain ⟨hI', hk', hV⟩ := hstep changes hwf₁ hI₁ hsrc₁ hdst₁ hfork hch hnone rfl hun rfl
        hset'
      rw [seqPost_ok]
      refine settle_wp ⟨⟨hset.tail hset', fun {m} hmn v => ?_, ?_⟩, hI', hk.trans hk', ?_⟩
      · have hne : m ≠ n := Nat.ne_of_lt hmn
        rw [State.dropBranch, State.setBranch_of_ne _ _ (.inl hne),
          install_branches_of_ne _ _ hdst₁ (.inl hne)]
        exact hfr m hmn.le v
      · rintro rev hrev
        cases hrev
        exact ⟨hwf₁.has_install.mpr (.inl rfl), rfl, .inl rfl⟩
      · rintro rev hrev
        cases hrev
        exact hV

theorem mergeTxbranch_settles (t : ℕ) (dryRun : Bool) (fuel n : ℕ) (s : State P) (h : WF s) :
    wp (mergeTxbranch t dryRun fuel n) s (NodeMerged t n s) := by
  refine wp_mono (mergeTxbranch_rule (I := fun _ => True) (T := Returned t) (V := fun _ _ _ => True)
    id (fun _ _ _ ht y hy => .inl ⟨ht, (Option.some.inj hy).symm⟩)
    (fun ht hx y hy => .inr ⟨ht, (hx y hy).1⟩) ?_ dryRun fuel n s h trivial) fun _ _ hm => hm.1
  intro s s' n src dst fork changed children rev changes h _ _ _ _ _ _ _ _ _ hset
  exact ⟨trivial, fun e x hx => hx.later (hset.later h), trivial⟩

/-- The merge of a child. -/
theorem mergeChild_settles (t : ℕ) (dryRun : Bool) (fuel : ℕ) (e : Rev P) (h : WF s) :
    wp (mergeChild t (mergeTxbranch t dryRun fuel) e) s fun r s' =>
      Settles t s s' ∧ ∀ x, r = .ok x → Returned t s' e x := by
  unfold mergeChild
  split
  · next ht =>
    refine wp_mono (mergeTxbranch_settles t dryRun fuel e.node s h) ?_
    intro r s' hm
    refine ⟨hm.settles, ?_⟩
    rintro x rfl y rfl
    exact .inr ⟨ht, hm.head y rfl⟩
  · next ht =>
    refine ⟨Relation.ReflTransGen.refl, ?_⟩
    rintro x hx y rfl
    cases hx
    exact .inl ⟨ht, rfl⟩

/-- **The depth of a merge is bounded by the number of nodes**: each call below is on a node that was
made later, so that the bound of `mergeRoot` is never reached. -/
theorem mergeTxbranch_depth (t : ℕ) (dryRun : Bool) :
    ∀ (fuel n : ℕ) (s : State P), WF s → n ≤ s.nextNode → s.nextNode < fuel + n →
      wp (mergeTxbranch t dryRun fuel n) s fun r _ => r ≠ .error .recursionError
  | 0, n, s, _, hle, hlt => by omega
  | fuel + 1, n, s, h, hle, hlt => by
    refine mergeTxbranch_wp (fun err hf he => ?_) ?_
    · cases he
      cases hf
    intro src dst fork hsrc hdst _
    have hs := h.head hsrc
    have hd := h.head hdst
    have hmc : ∀ name, ∀ e ∈ src.latest.children name ++ dst.latest.children name,
        Handled (Settles t s) (fun _ _ _ => True) (· ≠ .recursionError)
          (mergeChild t (mergeTxbranch t dryRun fuel)) e := by
      intro name e hmem s₁ hset
      have he : n < e.node ∧ s.Has e := by
        rcases List.mem_append.mp hmem with hmem | hmem
        · exact ⟨hs.node ▸ h.node_lt_child hs.has hmem, (h.child hs.has hmem).has⟩
        · exact ⟨hd.node ▸ h.node_lt_child hd.has hmem, (h.child hd.has hmem).has⟩
      have hnode := h.node_lt he.2
      have hnext := Settles.nextNode hset
      have hwf₁ := Settles.wf h hset
      unfold mergeChild
      split
      · have hdepth := mergeTxbranch_depth t dryRun fuel e.node s₁ hwf₁ (by omega) (by omega)
        have hm := mergeTxbranch_settles t dryRun fuel e.node s₁ hwf₁
        rw [wp_def] at hdepth hm ⊢
        refine ⟨hset.trans hm.settles, fun _ _ _ => trivial, fun _ _ => trivial, ?_⟩
        rintro err he - rfl
        exact hdepth he
      · exact Outcome.ok hset trivial
    refine wp_mono (merge3way_outcome (fun s₁ hset => Settles.hashOf hset) hmc
      (fun _ _ => nofun) (fun _ _ => nofun) .refl dryRun) ?_
    intro r s' hm
    cases hm with
    | raised _ _ hX =>
      intro he
      cases he
      exact hX rfl rfl
    | dry _ _ _ _ => exact nofun
    | made _ _ _ _ _ _ _ => exact nofun

theorem mergeRoot_depth (h : WF s) (t : ℕ) (dryRun : Bool) :
    (mergeRoot t dryRun s).1 ≠ .error .recursionError :=
  mergeTxbranch_depth t dryRun (s.nextNode + 1) 0 s h (Nat.zero_le _) (Nat.lt_succ_self _)

/-- **A dry run only reads.** -/
theorem mergeTxbranch_dry (t : ℕ) :
    ∀ (fuel n : ℕ) (s : State P), wp (mergeTxbranch t true fuel n) s fun r s' =>
      s' = s ∧ ∀ o, r = .ok o → o = none
  | 0, _, _ => ⟨rfl, nofun⟩
  | fuel + 1, n, s => by
    refine mergeTxbranch_wp (fun err _ => ⟨rfl, nofun⟩) ?_
    intro src dst fork _ _ _
    -- the state is the same after every merge of a child
    have hmc : ∀ name, ∀ e ∈ src.latest.children name ++ dst.latest.children name,
        Handled (· = s) (fun _ _ _ => True) (fun _ => True)
          (mergeChild t (mergeTxbranch t true fuel)) e := by
      rintro name e - s₁ rfl
      unfold mergeChild
      split
      · refine wp_mono (mergeTxbranch_dry t fuel e.node s₁) ?_
        rintro r s₂ ⟨rfl, -⟩
        exact ⟨rfl, fun _ _ _ => trivial, fun _ _ => trivial, fun _ _ _ => trivial⟩
      · exact ⟨rfl, fun _ _ _ => trivial, fun _ _ => trivial, fun _ _ _ => trivial⟩
    refine wp_mono (merge3way_outcome (h := s.hashOf) (fun s₁ hJ₁ => by rw [hJ₁]) hmc
      (fun _ _ => trivial) (fun _ _ => trivial) rfl true) ?_
    intro r s' hm
    cases hm with
    | raised hJ₁ _ _ => exact ⟨hJ₁, nofun⟩
    | dry hJ₁ _ _ _ =>
      refine ⟨hJ₁, ?_⟩
      rintro o ho
      cases ho
      rfl

end Voltha.Config
