import Voltha.Config.Root

/-!
# The objects of a tree fit together

Whatever a run does, the objects of a tree keep the shape of a tree: a revision lists
revisions that were made before it, of nodes that were made for that field of its node, and
each branch of a node holds revisions of the node.  `WF` collects these facts.

Every change to the tables is one of a few primitive ones: a fork, a new node, a new revision
with the place it is put in, a lost hash, a dropped branch.  `WF` is shown for each of them,
and later modules only say which of them a step makes.

* `State.Has`, `State.Entry`, `State.Head`: an object of the tree, an object that can stand
  in a child field of a node, an object that can be the latest one of a branch.
* `State.Later`: what a state keeps from an earlier one.
* `WF.fork`, `WF.born`, `WF.seat`, `WF.install`, `WF.clearHash`, `WF.dropBranch`.
-/

namespace Voltha.Config

open Option

variable {P : Proto} {b : Branch P}

namespace State

/-- The revision is an object of the tree. -/
def Has (s : State P) (r : Rev P) : Prop := s.objects r.ref = some r

/-- The revision can stand in field `f` of node `n`. -/
structure Entry (s : State P) (n : ℕ) (f : String) (e : Rev P) : Prop where
  has : s.Has e
  parent : s.parent e.node = some (n, f)
  committed : (s.branches e.node none).isSome

/-- The revision can be the latest one on branch `v` of node `n`.  A branch that has just
been made still shows the committed revision it was made from. -/
structure Head (s : State P) (n : ℕ) (v : Option ℕ) (r : Rev P) : Prop where
  has : s.Has r
  node : r.node = n
  txid : r.txid = v ∨ r.txid = none

/-- A revision object made now. -/
def newRev (s : State P) (n : ℕ) (v : Option ℕ) (data : P.Data)
    (children : String → List (Rev P)) : Rev P where
  ref := s.nextRev
  node := n
  txid := v
  data := data
  children := children
  hash := Rev.hashContent data children

/-- The state with a new revision as the latest one of its branch. -/
def install (s : State P) (n : ℕ) (v : Option ℕ) (rev : Rev P) (changes : Changes P) :
    State P :=
  (s.alloc rev).makeLatest n v rev changes

section Install

variable (s : State P) {n : ℕ} {v : Option ℕ} (rev : Rev P) (changes : Changes P)

theorem install_branches (hb : s.branches n v = some b) :
    (s.install n v rev changes).branches = (s.setBranch n v (some (s.advance b rev))).branches :=
  makeLatest_eq (s.alloc rev) hb rev changes

omit s in
theorem install_branches_of_ne {s : State P} (hb : s.branches n v = some b) {m : ℕ} {w : Option ℕ}
    (hne : m ≠ n ∨ w ≠ v) : (s.install n v rev changes).branches m w = s.branches m w := by
  rw [install_branches _ _ _ hb]
  exact s.setBranch_of_ne _ hne

@[simp] theorem install_proxy : (s.install n v rev changes).proxy = s.proxy :=
  makeLatest_proxy ..
@[simp] theorem install_dirtyNodes : (s.install n v rev changes).dirtyNodes = s.dirtyNodes :=
  makeLatest_dirtyNodes ..
@[simp] theorem install_cleared : (s.install n v rev changes).cleared = s.cleared :=
  makeLatest_cleared ..
@[simp] theorem install_isOpen : (s.install n v rev changes).isOpen = s.isOpen :=
  makeLatest_isOpen ..
@[simp] theorem install_nextRev : (s.install n v rev changes).nextRev = s.nextRev + 1 :=
  makeLatest_nextRev ..
@[simp] theorem install_nextNode : (s.install n v rev changes).nextNode = s.nextNode :=
  makeLatest_nextNode ..
@[simp] theorem install_nextTx : (s.install n v rev changes).nextTx = s.nextTx :=
  makeLatest_nextTx ..
@[simp] theorem install_parent : (s.install n v rev changes).parent = s.parent :=
  makeLatest_parent ..
@[simp] theorem install_objects : (s.install n v rev changes).objects = (s.alloc rev).objects :=
  makeLatest_objects ..

theorem length_deferred_install :
    (s.install n v rev changes).deferred.length ≤ s.deferred.length + changes.length := by
  show ((s.alloc rev).makeLatest n v rev changes).deferred.length ≤ _
  unfold State.makeLatest
  split
  · exact Nat.le_add_right _ _
  · dsimp only
    split
    · unfold announce
      rw [List.length_append]
      refine Nat.add_le_add_left ?_ _
      split
      · rw [List.length_map]
      · exact Nat.zero_le _
    · exact Nat.le_add_right _ _

end Install

/-- Data and children that a new revision of node `n` can have: the class is that of the node,
and the entries are objects that can stand there. -/
structure Fits (s : State P) (n : ℕ) (data : P.Data) (children : String → List (Rev P)) :
    Prop where
  node_lt : n < s.nextNode
  cls : ∀ {r : Rev P}, s.Has r → r.node = n → P.typeOf r.data = P.typeOf data
  names : ∀ f, f ∉ P.names (P.typeOf data) → children f = []
  entry : ∀ {f : String} {e : Rev P}, e ∈ children f → s.Entry n f e

/-- What every later state keeps: objects stay and are numbered on, nodes keep their parents and
their committed branches. -/
structure Later (s s' : State P) : Prop where
  has : ∀ {r : Rev P}, s.Has r → s'.Has r
  old : ∀ {r : Rev P}, s'.Has r → r.ref < s.nextRev → s.Has r
  nextRev_le : s.nextRev ≤ s'.nextRev
  nextNode_le : s.nextNode ≤ s'.nextNode
  parent : ∀ {c : ℕ}, c < s.nextNode → s'.parent c = s.parent c
  committed : ∀ {n : ℕ}, (s.branches n none).isSome → (s'.branches n none).isSome

theorem Later.refl (s : State P) : Later s s :=
  ⟨fun h => h, fun h _ => h, le_rfl, le_rfl, fun _ => rfl, fun h => h⟩

theorem Later.trans {s₁ s₂ s₃ : State P} (h : Later s₁ s₂) (h' : Later s₂ s₃) : Later s₁ s₃ where
  has hr := h'.has (h.has hr)
  old hr hlt := h.old (h'.old hr (lt_of_lt_of_le hlt h.nextRev_le)) hlt
  nextRev_le := h.nextRev_le.trans h'.nextRev_le
  nextNode_le := h.nextNode_le.trans h'.nextNode_le
  parent hc := (h'.parent (lt_of_lt_of_le hc h.nextNode_le)).trans (h.parent hc)
  committed hn := h'.committed (h.committed hn)

end State

namespace State

/-- A branch that can stand at `v` of node `n`. -/
structure Bough (s : State P) (n : ℕ) (v : Option ℕ) (b : Branch P) : Prop where
  latest : s.Head n v b.latest
  origin : ∀ {o : Rev P}, b.origin = some o → s.Head n none o
  forked : v ≠ none → b.origin.isSome ∧ (s.branches n none).isSome

end State

/-- The objects fit together. -/
structure WF (s : State P) : Prop where
  ref : ∀ {i : ℕ} {r : Rev P}, s.objects i = some r → r.ref = i
  ref_lt : ∀ {r : Rev P}, s.Has r → r.ref < s.nextRev
  node_lt : ∀ {r : Rev P}, s.Has r → r.node < s.nextNode
  hashed : ∀ {r : Rev P}, s.Has r → r.Hashed
  child_lt : ∀ {r e : Rev P} {f : String}, s.Has r → e ∈ r.children f → e.ref < r.ref
  child : ∀ {r e : Rev P} {f : String}, s.Has r → e ∈ r.children f → s.Entry r.node f e
  cls : ∀ {r r' : Rev P}, s.Has r → s.Has r' → r.node = r'.node →
    P.typeOf r.data = P.typeOf r'.data
  parent_lt : ∀ {c p : ℕ} {f : String}, s.parent c = some (p, f) → p < c
  parent_root : s.parent 0 = none
  branch : ∀ {n : ℕ} {v : Option ℕ} {b : Branch P}, s.branches n v = some b → s.Bough n v b
  cleared : ∀ {c : ℕ}, c ∈ s.cleared → ∃ x, s.objects c = some x ∧ (s.parent x.node).isSome

open State

/-- A tree of which nothing has been made yet. -/
theorem WF.empty : WF (State.empty : State P) where
  ref h := nomatch h
  ref_lt h := nomatch h
  node_lt h := nomatch h
  hashed h := nomatch h
  child_lt h := nomatch h
  child h := nomatch h
  cls h := nomatch h
  parent_lt h := nomatch h
  parent_root := rfl
  branch h := nomatch h
  cleared h := nomatch h

namespace WF

variable {s s' : State P} {n : ℕ} {v : Option ℕ} {r : Rev P} {children : String → List (Rev P)}
  {data : P.Data}

section

variable (h : WF s)
include h

theorem entry_later (hl : Later s s') {f : String} {e : Rev P} (he : s.Entry n f e) :
    s'.Entry n f e :=
  ⟨hl.has he.has, by rw [hl.parent (h.node_lt he.has)]; exact he.parent, hl.committed he.committed⟩

omit h in
theorem head_later (hl : Later s s') (hr : s.Head n v r) : s'.Head n v r :=
  ⟨hl.has hr.has, hr.node, hr.txid⟩

theorem head (hb : s.branches n v = some b) : s.Head n v b.latest :=
  (h.branch hb).latest

/-- A child's node was made after its parent's. -/
theorem node_lt_child {e : Rev P} {f : String} (hr : s.Has r) (he : e ∈ r.children f) :
    r.node < e.node :=
  h.parent_lt (h.child hr he).parent

theorem lt_nextNode (hb : s.branches n v = some b) : n < s.nextNode := by
  rw [← (h.head hb).node]
  exact h.node_lt (h.head hb).has

/-- The committed head of a node was made for the committed branch. -/
theorem txid_committed (hb : s.branches n none = some b) : b.latest.txid = none :=
  (h.head hb).txid.elim id id

theorem headOf_head (hr : s.headOf n v = some r) : s.Head n v r := by
  unfold headOf at hr
  rcases hb : s.branches n v with _ | b
  · rw [hb, none_or] at hr
    obtain ⟨b, hb', rfl⟩ := map_eq_some_iff.mp hr
    exact ⟨(h.head hb').has, (h.head hb').node, .inr (h.txid_committed hb')⟩
  · rw [hb, some_or, map_some, some.injEq] at hr
    subst hr
    exact h.head hb

/-- What stands below an object is an object. -/
theorem has_desc {y : Rev P} (hr : s.Has r) (hy : r.Desc y) : s.Has y := by
  induction hy with
  | child he => exact (h.child hr he).has
  | step he _ ih => exact ih (h.child hr he).has

theorem has_within {y : Rev P} (hr : s.Has r) (hy : r.Within y) : s.Has y := by
  rcases hy with rfl | hy
  · exact hr
  · exact h.has_desc hr hy

theorem has_of_objects {i : ℕ} (hi : s.objects i = some r) : s.Has r := by
  unfold Has
  rw [h.ref hi]
  exact hi

/-! ## Changes of the other tables -/

/-- A change that makes no revision object. -/
theorem retable (ho : s'.objects = s.objects) (hl : Later s s')
    (hpar : ∀ {c p : ℕ} {f : String}, s'.parent c = some (p, f) → p < c)
    (hroot : s'.parent 0 = none)
    (hbr : ∀ {n : ℕ} {v : Option ℕ} {b : Branch P}, s'.branches n v = some b → s.Bough n v b)
    (hcl : ∀ {c : ℕ}, c ∈ s'.cleared → ∃ x, s.objects c = some x ∧ (s'.parent x.node).isSome) :
    WF s' := by
  have has : ∀ {r : Rev P}, s'.Has r → s.Has r := by
    intro r hr
    unfold Has at hr ⊢
    rwa [ho] at hr
  exact
    { ref := fun hi => h.ref (ho ▸ hi)
      ref_lt := fun hr => lt_of_lt_of_le (h.ref_lt (has hr)) hl.nextRev_le
      node_lt := fun hr => lt_of_lt_of_le (h.node_lt (has hr)) hl.nextNode_le
      hashed := fun hr => h.hashed (has hr)
      child_lt := fun hr he => h.child_lt (has hr) he
      child := fun hr he => h.entry_later hl (h.child (has hr) he)
      cls := fun hr hr' => h.cls (has hr) (has hr')
      parent_lt := hpar
      parent_root := hroot
      branch := fun hb =>
        have hbo := hbr hb
        ⟨head_later hl hbo.latest, fun ho => head_later hl (hbo.origin ho), fun hv =>
          ⟨(hbo.forked hv).1, hl.committed (hbo.forked hv).2⟩⟩
      cleared := fun hc => by
        rw [ho]
        exact hcl hc }

/-- A change of the tables that `WF` does not read. -/
theorem congr (hb : s'.branches = s.branches) (ho : s'.objects = s.objects)
    (hp : s'.parent = s.parent) (hc : s'.cleared = s.cleared) (hr : s'.nextRev = s.nextRev)
    (hn : s'.nextNode = s.nextNode) : WF s' := by
  have hl : Later s s' :=
    ⟨fun h => by unfold Has; rw [ho]; exact h, fun h _ => by unfold Has at h; rwa [ho] at h,
      hr.ge, hn.ge, fun _ => by rw [hp], fun h => by rw [hb]; exact h⟩
  refine h.retable ho hl (fun hpar => h.parent_lt (hp ▸ hpar)) (hp ▸ h.parent_root)
    (fun hbr => h.branch (hb ▸ hbr)) fun hcl => ?_
  rw [hp]
  exact h.cleared (hc ▸ hcl)

omit h in
theorem later_setBranch (s : State P) (n : ℕ) (v : Option ℕ) (b : Branch P) :
    Later s (s.setBranch n v (some b)) where
  has h := h
  old h _ := h
  nextRev_le := le_rfl
  nextNode_le := le_rfl
  parent _ := rfl
  committed {m} hm := by
    rw [setBranch_apply]
    split
    · rfl
    · exact hm

/-- A branch is set. -/
theorem setBranch (hbo : s.Bough n v b) : WF (s.setBranch n v (some b)) := by
  refine h.retable rfl (later_setBranch s n v b) h.parent_lt h.parent_root (fun hc => ?_) h.cleared
  rcases setBranch_eq_some s hc with ⟨⟨rfl, rfl⟩, heq⟩ | hc
  · exact some.inj heq ▸ hbo
  · exact h.branch hc

omit h in
theorem later_fork (s : State P) (n t : ℕ) (point : Rev P) (dirty : List ℕ) :
    Later s (s.fork n t point dirty) := by
  have hl := later_setBranch s n (some t) ⟨some point, [], point⟩
  exact ⟨hl.has, hl.old, hl.nextRev_le, hl.nextNode_le, hl.parent, hl.committed⟩

/-- A transaction branch is made at the committed head. -/
theorem fork {c : Branch P} (hc : s.branches n none = some c) (t : ℕ) (dirty : List ℕ) :
    WF (s.fork n t c.latest dirty) := by
  have hd := h.head hc
  have hbo : s.Bough n (some t) ⟨some c.latest, [], c.latest⟩ :=
    { latest := ⟨hd.has, hd.node, .inr (show c.latest.txid = none from h.txid_committed hc)⟩
      origin := fun ho => some.inj ho ▸ hd
      forked := fun _ => ⟨rfl, by rw [hc]; rfl⟩ }
  exact (h.setBranch hbo).congr rfl rfl rfl rfl rfl rfl

omit h in
theorem later_dropBranch (s : State P) (n t : ℕ) : Later s (s.dropBranch n t) where
  has h := h
  old h _ := h
  nextRev_le := le_rfl
  nextNode_le := le_rfl
  parent _ := rfl
  committed hm := by
    unfold State.dropBranch
    rw [setBranch_of_ne _ _ (.inr (by simp))]
    exact hm

/-- A transaction branch is taken out. -/
theorem dropBranch (n t : ℕ) : WF (s.dropBranch n t) := by
  refine h.retable rfl (later_dropBranch s n t) h.parent_lt h.parent_root (fun hc => ?_) h.cleared
  rcases setBranch_eq_some s hc with ⟨-, hc⟩ | hc
  · cases hc
  · exact h.branch hc

end

theorem later_clearHash (s : State P) (x : Rev P) : Later s (s.clearHash x) :=
  ⟨fun h => h, fun h _ => h, le_rfl, le_rfl, fun _ => rfl, fun h => h⟩

variable {x : Rev P}

section

variable (h : WF s)
include h

/-- A revision of a child loses its hash. -/
theorem clearHash (hx : s.Has x) (hp : (s.parent x.node).isSome) : WF (s.clearHash x) := by
  refine h.retable rfl (later_clearHash s x) h.parent_lt h.parent_root h.branch fun hc => ?_
  rcases List.mem_cons.mp hc with rfl | hc
  · exact ⟨x, hx, hp⟩
  · exact h.cleared hc

omit h in
theorem later_born (s : State P) (parent : Option (ℕ × String)) : Later s (s.born parent) where
  has h := h
  old h _ := h
  nextRev_le := le_rfl
  nextNode_le := Nat.le_succ _
  parent hc := by rw [born_parent, if_neg (Nat.ne_of_lt hc)]
  committed h := h

/-- A node is made. -/
theorem born {parent : Option (ℕ × String)} (hp : ∀ p f, parent = some (p, f) → p < s.nextNode) :
    WF (s.born parent) := by
  have hl := later_born s parent
  refine h.retable rfl hl ?_ ?_ h.branch ?_
  · intro c p f hc
    rw [born_parent] at hc
    split at hc
    · next hcn => exact hcn ▸ hp p f hc
    · exact h.parent_lt hc
  · rw [born_parent]
    split
    · next h0 =>
      rcases hpp : parent with _ | ⟨p, f⟩
      · rfl
      · exact absurd (hp p f hpp) (by omega)
    · exact h.parent_root
  · intro c hc
    obtain ⟨x, hx, hxp⟩ := h.cleared hc
    exact ⟨x, hx, by rw [hl.parent (h.node_lt (h.has_of_objects hx))]; exact hxp⟩

/-! ## A new revision object -/

/-- The objects after a new one. -/
theorem has_alloc :
    (s.alloc (s.newRev n v data children)).Has x ↔
      x = s.newRev n v data children ∨ s.Has x := by
  unfold Has
  rw [alloc_objects]
  constructor
  · intro hx
    split at hx
    · exact .inl (some.inj hx).symm
    · exact .inr hx
  · rintro (rfl | hx)
    · rw [if_pos rfl]
    · have hne : x.ref ≠ (s.newRev n v data children).ref := Nat.ne_of_lt (h.ref_lt hx)
      rw [if_neg hne]
      exact hx

theorem later_alloc (n : ℕ) (v : Option ℕ) (data : P.Data) (children : String → List (Rev P)) :
    Later s (s.alloc (s.newRev n v data children)) where
  has hr := h.has_alloc.mpr (.inr hr)
  old hr hlt := (h.has_alloc.mp hr).resolve_left fun heq => absurd (heq ▸ hlt) (Nat.lt_irrefl _)
  nextRev_le := Nat.le_succ _
  nextNode_le := le_rfl
  parent _ := rfl
  committed hn := hn

/-- A new revision object. -/
theorem alloc (hf : s.Fits n data children) : WF (s.alloc (s.newRev n v data children)) := by
  have hl := h.later_alloc n v data children
  exact
    { ref := fun {i r} hi => by
        rw [alloc_objects] at hi
        split at hi
        · next hir => exact some.inj hi ▸ hir.symm
        · exact h.ref hi
      ref_lt := fun hx => by
        rcases h.has_alloc.mp hx with rfl | hx
        · exact Nat.lt_succ_self _
        · exact Nat.lt_succ_of_lt (h.ref_lt hx)
      node_lt := fun hx => by
        rcases h.has_alloc.mp hx with rfl | hx
        · exact hf.node_lt
        · exact h.node_lt hx
      hashed := fun hx => by
        rcases h.has_alloc.mp hx with rfl | hx
        · exact Rev.Hashed.mk rfl hf.names fun f e he => h.hashed (hf.entry he).has
        · exact h.hashed hx
      child_lt := fun hx he => by
        rcases h.has_alloc.mp hx with rfl | hx
        · exact h.ref_lt (hf.entry he).has
        · exact h.child_lt hx he
      child := fun hx he => by
        rcases h.has_alloc.mp hx with rfl | hx
        · exact h.entry_later hl (hf.entry he)
        · exact h.entry_later hl (h.child hx he)
      cls := fun hx hx' hnn => by
        rcases h.has_alloc.mp hx with rfl | hx
        · rcases h.has_alloc.mp hx' with rfl | hx'
          · rfl
          · exact (hf.cls hx' hnn.symm).symm
        · rcases h.has_alloc.mp hx' with rfl | hx'
          · exact hf.cls hx hnn
          · exact h.cls hx hx' hnn
      parent_lt := h.parent_lt
      parent_root := h.parent_root
      branch := fun hc =>
        { latest := head_later hl (h.branch hc).latest
          origin := fun ho => head_later hl ((h.branch hc).origin ho)
          forked := (h.branch hc).forked }
      cleared := fun {c} hc => by
        obtain ⟨x, hx, hxp⟩ := h.cleared hc
        have hx' := hl.has (h.has_of_objects hx)
        unfold Has at hx'
        rw [h.ref hx] at hx'
        exact ⟨x, hx', hxp⟩ }

theorem has_install {m : ℕ} {w : Option ℕ} {changes : Changes P} :
    (s.install n v (s.newRev m w data children) changes).Has x ↔
      x = s.newRev m w data children ∨ s.Has x := by
  rw [← h.has_alloc]
  unfold Has
  rw [install_objects]

theorem later_install (hb : s.branches n v = some b) (data : P.Data)
    (children : String → List (Rev P)) (changes : Changes P) :
    Later s (s.install n v (s.newRev n v data children) changes) := by
  have hl := h.later_alloc n v data children
  have hs := later_setBranch s n v (s.advance b (s.newRev n v data children))
  refine ⟨?_, ?_, ?_, ?_, ?_, ?_⟩
  · intro r hr
    exact h.has_install.mpr (.inr hr)
  · intro r hr hlt
    exact hl.old (h.has_alloc.mpr (h.has_install.mp hr)) hlt
  · rw [install_nextRev]
    exact hl.nextRev_le
  · rw [install_nextNode]
  · intro c _
    rw [install_parent]
  · intro m hm
    rw [install_branches _ _ _ hb]
    exact hs.committed hm

/-- A new revision becomes the latest one of its branch. -/
theorem install (hb : s.branches n v = some b) (hf : s.Fits n data children) (changes : Changes P) :
    WF (s.install n v (s.newRev n v data children) changes) := by
  have ha : WF (s.alloc (s.newRev n v data children)) := h.alloc hf
  have hbo := ha.branch (n := n) (v := v) (b := b) hb
  have hnew : (s.alloc (s.newRev n v data children)).Head n v (s.newRev n v data children) :=
    ⟨h.has_alloc.mpr (.inl rfl), rfl, .inl rfl⟩
  have hbo' : (s.alloc (s.newRev n v data children)).Bough n v
      ((s.alloc (s.newRev n v data children)).advance b (s.newRev n v data children)) :=
    { latest := by
        rcases latest_advance (s.alloc (s.newRev n v data children)) b
          (s.newRev n v data children) with hadv | ⟨hadv, -⟩
        · rw [hadv]
          exact hnew
        · rw [hadv]
          exact hbo.latest
      origin := hbo.origin
      forked := hbo.forked }
  refine (ha.setBranch hbo').congr (install_branches s _ _ hb) ?_ ?_ ?_ ?_ ?_
  · rw [install_objects, setBranch_objects]
  · rw [install_parent, setBranch_parent, alloc_parent]
  · rw [install_cleared, setBranch_cleared, alloc_cleared]
  · rw [install_nextRev, setBranch_nextRev, alloc_nextRev]
  · rw [install_nextNode, setBranch_nextNode, alloc_nextNode]

theorem later_seat (n : ℕ) (data : P.Data) (children : String → List (Rev P)) :
    Later s ((s.alloc (s.newRev n none data children)).seat (s.newRev n none data children)) :=
  (h.later_alloc n none data children).trans (later_setBranch _ _ _ _)

/-- The first revision of a node. -/
theorem seat (hf : s.Fits n data children) :
    WF ((s.alloc (s.newRev n none data children)).seat (s.newRev n none data children)) := by
  refine (h.alloc hf).setBranch ⟨⟨h.has_alloc.mpr (.inl rfl), rfl, .inl rfl⟩, ?_, ?_⟩
  · intro o ho
    cases ho
  · intro hv
    exact absurd rfl hv

end

end WF

end Voltha.Config
