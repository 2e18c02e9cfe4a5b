import Voltha.Config.Runs
import Voltha.Config.Sample

/-!
# Which revisions are still held

A revision object is held as long as a chain of strong references leads to it: from a branch of a
node (`_latest` and `_origin`), from `_revs` of the committed branch of the root, or from a tag, and
on from a revision to its children.  `_revs` of the other branches is a `WeakValueDictionary` and
holds nothing: `auto_prune` is off for the root only, and `_mk_txbranch` does not pass it on.

An operation makes new revisions and lets go of old ones, but it never takes one up again that
nothing holds any more (`held_step`).  The proof follows the two ways in which an operation finds
the children of a new revision: a write takes them from the branches on its path, and a merge from
the three revisions that it merges.

* `State.Refers`, `State.Held`: what the tables refer to, and what that holds.
* `Since`, `Sound`: everything that is held was in a given set of revisions or was made later.
* `RootInv`: `_revs` of the root contains the latest revision and the tagged ones.
-/

namespace Voltha.Config

open List OrderedDict Chain Option

variable {P : Proto}

open State Act

/-- A table of the tree refers to the revision. -/
inductive State.Refers (s : State P) : Rev P → Prop where
  | latest {n : ℕ} {v : Option ℕ} {b : Branch P} : s.branches n v = some b → s.Refers b.latest
  | origin {n : ℕ} {v : Option ℕ} {b : Branch P} {r : Rev P} : s.branches n v = some b →
      b.origin = some r → s.Refers r
  | revs {b : Branch P} {h : P.Hash} {r : Rev P} : s.branches 0 none = some b →
      (h, r) ∈ b.revs → s.Refers r
  | tag {name : String} {r : Rev P} : (name, r) ∈ s.tags → s.Refers r

/-- A chain of references leads to the revision. -/
def State.Held (s : State P) (r : Rev P) : Prop := ∃ x, s.Refers x ∧ x.Within r

variable {r : Rev P} {s s' s₁ s₂ : State P} {n N : ℕ} {u : Option ℕ} {b : Branch P}
  {Q C : Rev P → Prop} {K : ℕ → P.Data → Prop} {H : Hop P → Prop}

theorem State.Refers.held (h : s.Refers r) : s.Held r :=
  ⟨r, h, .inl rfl⟩

/-! ## Tables that refer to nothing else -/

open Refers

/-- The state refers to the same revisions as another one, or to fewer. -/
theorem State.Refers.mono (h : s'.Refers r)
    (hb : ∀ {m v c}, s'.branches m v = some c → s.branches m v = some c)
    (ht : ∀ {name r}, (name, r) ∈ s'.tags → s.Refers r) : s.Refers r := by
  cases h with
  | latest hn => exact latest (hb hn)
  | origin hn ho => exact origin (hb hn) ho
  | revs hn hr => exact revs (hb hn) hr
  | tag hr => exact ht hr

theorem State.Refers.congr (h : s'.Refers r) (hb : s'.branches = s.branches)
    (ht : s'.tags = s.tags) : s.Refers r := h.mono (hb ▸ ·) fun hr => tag (ht ▸ hr)

/-- A branch is set. -/
theorem State.Refers.of_setBranch {b : Option (Branch P)} (h : (s.setBranch n u b).Refers r) :
    s.Refers r ∨ ∃ c, b = some c ∧
      (r = c.latest ∨ c.origin = some r ∨ n = 0 ∧ u = none ∧ ∃ k, (k, r) ∈ c.revs) := by
  cases h with
  | latest hn =>
    rcases setBranch_eq_some s hn with ⟨-, hc⟩ | hn
    · exact .inr ⟨_, hc, .inl rfl⟩
    · exact .inl (latest hn)
  | origin hn ho =>
    rcases setBranch_eq_some s hn with ⟨-, hc⟩ | hn
    · exact .inr ⟨_, hc, .inr (.inl ho)⟩
    · exact .inl (origin hn ho)
  | revs hn hr =>
    rcases setBranch_eq_some s hn with ⟨⟨hm, hv⟩, hc⟩ | hn
    · exact .inr ⟨_, hc, .inr (.inr ⟨hm.symm, hv.symm, _, hr⟩)⟩
    · exact .inl (revs hn hr)
  | tag hr => exact .inl (tag hr)

/-- After a new revision, the tables refer to that and to what they referred to before. -/
theorem State.Refers.of_install {rev : Rev P} {changes : Changes P} (hb : s.branches n u = some b)
    (h : (s.install n u rev changes).Refers r) : s.Refers r ∨ r = rev := by
  have h' : (s.setBranch n u (some (s.advance b rev))).Refers r :=
    h.congr (install_branches s rev changes hb) (makeLatest_tags ..)
  rcases h'.of_setBranch with h' | ⟨c, hc, h'⟩
  · exact .inl h'
  · obtain rfl := some.inj hc
    rcases h' with rfl | ho | ⟨rfl, rfl, k, hk⟩
    · rcases s.latest_advance b rev with hl | ⟨hl, -⟩
      · exact .inr hl
      · rw [hl]
        exact .inl (latest hb)
    · exact .inl (origin hb ho)
    · rw [advance] at hk
      split at hk
      · exact .inl (revs hb hk)
      · rcases mem_append.mp hk with hk | hk
        · exact .inl (revs hb hk)
        · exact .inr (Prod.mk.inj (mem_singleton.mp hk)).2

variable {t : ℕ}

theorem State.Refers.of_fork {c : Branch P} {dirty : List ℕ} (hc : s.branches n none = some c)
    (h : (s.fork n t c.latest dirty).Refers r) : s.Refers r := by
  have h' : (s.setBranch n (some t) (some ⟨some c.latest, [], c.latest⟩)).Refers r :=
    h.congr (s := s.setBranch n (some t) (some ⟨some c.latest, [], c.latest⟩)) rfl rfl
  rcases h'.of_setBranch with h' | ⟨b, hb, h'⟩
  · exact h'
  · obtain rfl := some.inj hb
    have hlatest : s.Refers c.latest := latest hc
    rcases h' with rfl | ho | ⟨-, hv, -⟩
    · exact hlatest
    · exact some.inj ho ▸ hlatest
    · cases hv

theorem State.Refers.of_dropBranch (h : (s.dropBranch n t).Refers r) : s.Refers r := by
  rcases h.of_setBranch with h | ⟨b, hb, -⟩
  · exact h
  · exact absurd hb (by simp)

theorem State.Refers.of_forget {dirty : List ℕ} (h : (s.forget t dirty).Refers r) : s.Refers r :=
  h.mono forget_eq_some fun hr => tag hr

/-! ## What an operation can hold after it -/

/-- Every revision within `r` has `Q` or is not among the first `N` objects. -/
def Since (Q : Rev P → Prop) (N : ℕ) (r : Rev P) : Prop := ∀ y, r.Within y → Q y ∨ N ≤ y.ref

/-- What the tables refer to, and every object after the first `N`, is of this kind. -/
structure Sound (Q : Rev P → Prop) (N : ℕ) (s : State P) : Prop where
  le : N ≤ s.nextRev
  refers : ∀ {r : Rev P}, s.Refers r → Since Q N r
  new : ∀ {r : Rev P}, s.Has r → N ≤ r.ref → Since Q N r

theorem Since.child {e : Rev P} {f : String} (h : Since Q N r) (he : e ∈ r.children f) :
    Since Q N e := by
  rintro y (rfl | hy)
  · exact h _ (.inr (Rev.Desc.child he))
  · exact h _ (.inr (Rev.Desc.step he hy))

/-- A new revision of such children. -/
theorem Since.of_children (hr : N ≤ r.ref) (h : ∀ f, ∀ e ∈ r.children f, Since Q N e) :
    Since Q N r := by
  rintro y (rfl | hy)
  · exact .inr hr
  · obtain ⟨f, e, he, hy⟩ := Rev.desc_iff.mp hy
    exact h f e he y hy

theorem Since.update {children : String → List (Rev P)} (name : String) {l : List (Rev P)}
    (h : ∀ f, ∀ e ∈ children f, Since Q N e) (hl : ∀ e ∈ l, Since Q N e) :
    ∀ f, ∀ e ∈ Function.update children name l f, Since Q N e := by
  intro f e he
  by_cases hf : f = name
  · subst hf
    rw [Function.update_self] at he
    exact hl e he
  · rw [Function.update_of_ne hf] at he
    exact h f e he

/-- A change that makes no object and refers to nothing new. -/
theorem Sound.retable (h : Sound Q N s) (ho : s'.objects = s.objects)
    (hn : s'.nextRev = s.nextRev) (hr : ∀ {r : Rev P}, s'.Refers r → s.Refers r) :
    Sound Q N s' where
  le := hn ▸ h.le
  refers hx := h.refers (hr hx)
  new {r} hx := h.new (show s.objects r.ref = some r from ho ▸ hx)

theorem Sound.latest (h : Sound Q N s) (hb : s.branches n u = some b) :
    ∀ f, ∀ e ∈ b.latest.children f, Since Q N e :=
  fun _ _ he => (h.refers (Refers.latest hb)).child he

theorem Sound.install (h : Sound Q N s) (hwf : WF s) (hb : s.branches n u = some b) (m : ℕ)
    (data : P.Data) {children : String → List (Rev P)} (hch : ∀ f, ∀ e ∈ children f, Since Q N e)
    (changes : Changes P) :
    Sound Q N (s.install n u (s.newRev m u data children) changes) ∧
      ∀ new, (.ok (s.newRev m u data children) : Except Err (Rev P)) = .ok new → Since Q N new := by
  have hnew : Since Q N (s.newRev m u data children) := Since.of_children h.le hch
  refine ⟨⟨?_, ?_, ?_⟩, fun new heq => Except.ok.inj heq ▸ hnew⟩
  · rw [install_nextRev]
    exact h.le.trans (Nat.le_succ _)
  · intro r hr
    rcases hr.of_install hb with hr | rfl
    · exact h.refers hr
    · exact hnew
  · intro r hr hN
    rcases hwf.has_install.mp hr with rfl | hr
    · exact hnew
    · exact h.new hr hN

/-! ### Writes -/

/-- An object that was not there before has a new number. -/
theorem Effect.has_or_new (hwf : WF s) (he : Effect K C u s s') (hr : s'.Has r) :
    s.Has r ∨ s.nextRev ≤ r.ref := by
  cases he with
  | called _ => exact .inl hr
  | forked _ _ _ _ => exact .inl hr
  | born _ => exact .inl hr
  | seated _ _ _ _ _ =>
    rcases hwf.has_alloc.mp hr with rfl | hr
    · exact .inr le_rfl
    · exact .inl hr
  | installed _ _ _ =>
    rcases hwf.has_install.mp hr with rfl | hr
    · exact .inr le_rfl
    · exact .inl hr
  | cleared _ _ _ => exact .inl hr

theorem Chain.has_or_new (hwf : WF s) (hc : Chain K C u s s') (hr : s'.Has r) :
    s.Has r ∨ s.nextRev ≤ r.ref := by
  induction hc with
  | refl => exact .inl hr
  | tail hc he ih =>
    rcases he.has_or_new (wf hwf hc) hr with hr | hr
    · exact ih hr
    · exact .inr ((later hwf hc).nextRev_le.trans hr)

theorem Ready.sound (hr : Ready n u s b s₁) (h : Sound Q N s) : Sound Q N s₁ := by
  obtain ⟨s', ho, l, -, rfl⟩ := hr
  have h' : Sound Q N s' := by
    cases ho with
    | found _ => exact h
    | forked _ _ hc _ => exact h.retable rfl rfl fun hr => hr.of_fork hc
  exact h'.retable rfl rfl fun hr => hr.congr (s := s') rfl rfl

/-- The revisions of nodes that were made since are all new. -/
theorem Chain.since (hwf : WF s₁) (hc : Chain K (fun _ => True) u s₁ s₂) (hN : N ≤ s₁.nextRev)
    (hr : s₂.Has r) (hnode : s₁.nextNode ≤ r.node) : Since Q N r := by
  have hwf₂ := wf hwf hc
  have hnew : ∀ {y}, s₂.Has y → s₁.nextNode ≤ y.node → N ≤ y.ref := by
    intro y hy hnode
    rcases has_or_new hwf hc hy with hy | hy
    · exact absurd (hwf.node_lt hy) (Nat.not_lt.mpr hnode)
    · exact hN.trans hy
  induction r using Rev.induct with
  | h r ih =>
    refine Since.of_children (hnew hr hnode) fun f e he => ?_
    have hlt := hwf₂.node_lt_child hr he
    exact ih f e he (hwf₂.child hr he).has (hnode.trans hlt.le)

theorem Sound.grown (h : Sound Q N s₁) (hwf : WF s₁) (hpos : 0 < s₁.nextNode)
    (hc : Chain K (fun _ => True) u s₁ s₂) (hg : Grown s₁ s₂) : Sound Q N s₂ := by
  have hwf₂ := wf hwf hc
  have hold : ∀ {m v c}, s₂.branches m v = some c → m < s₁.nextNode →
      s₁.branches m v = some c := fun hb hm => (hg.branches hm).symm.trans hb
  refine ⟨h.le.trans hg.later.nextRev_le, ?_, ?_⟩
  · intro r hr
    cases hr with
    | @latest m v c hb =>
      by_cases hm : m < s₁.nextNode
      · exact h.refers (Refers.latest (hold hb hm))
      · have hhead := hwf₂.head hb
        exact since hwf hc h.le hhead.has (hhead.node ▸ Nat.not_lt.mp hm)
    | @origin m v c _ hb ho =>
      by_cases hm : m < s₁.nextNode
      · exact h.refers (origin (hold hb hm) ho)
      · have hhead := (hwf₂.branch hb).origin ho
        exact since hwf hc h.le hhead.has (hhead.node ▸ Nat.not_lt.mp hm)
    | revs hb hr => exact h.refers (revs (hold hb hpos) hr)
    | tag hr =>
      rw [hg.rest] at hr
      exact h.refers (Refers.tag hr)
  · intro r hr hN
    rcases hg.old_or_new hr with hr' | hnode
    · exact h.new hr' hN
    · exact since hwf hc h.le hr hnode

/-- **A write takes the children of its revisions from what was held.** -/
theorem Write.sound {r : Except Err (Rev P)} (hw : Write u K H n s r s') (hwf : WF s)
    (h : Sound Q N s) : Sound Q N s' ∧ ∀ new, r = .ok new → Since Q N new := by
  induction hw with
  | unopened err => exact ⟨h, nofun⟩
  | failed err hr => exact ⟨hr.sound h, nofun⟩
  | same hr =>
    refine ⟨hr.sound h, ?_⟩
    rintro new hnew
    cases hnew
    exact (hr.sound h).refers (latest hr.branch)
  | data _ hr _ _ _ =>
    have h₁ := hr.sound h
    exact h₁.install (hr.wf hwf) hr.branch _ _ (h₁.latest hr.branch) _
  | @added n s s₁ s₂ b name key text field keyFromStr k m c changes _ hr _ _ _ _ hmk _ =>
    have h₁ := hr.sound h
    have hwf₁ := hr.wf hwf
    obtain ⟨hc, hg, hkid⟩ := hr.made (K := K) (C := fun _ => True) hwf hmk
    obtain ⟨hkid, -, -⟩ := hkid c rfl
    have hpos := Nat.zero_lt_of_lt (hwf₁.lt_nextNode hr.branch)
    have h₂ := h₁.grown hwf₁ hpos hc hg
    have hb₂ : s₂.branches n u = some b :=
      (hg.branches (hwf₁.lt_nextNode hr.branch)).trans hr.branch
    have hnew := since (Q := Q) hwf₁ hc h₁.le hkid.has hkid.new
    have hentries : ∀ e ∈ b.latest.children name ++ [c], Since Q N e := by
      intro e he
      rcases mem_append.mp he with he | he
      · exact h₂.latest hb₂ name e he
      · exact mem_singleton.mp he ▸ hnew
    exact h₂.install (wf hwf₁ hc) hb₂ b.latest.node b.latest.data
      (Since.update name (h₂.latest hb₂) hentries) changes
  | @addFailed n s s₁ s₂ b name m r err hr hmk =>
    have hwf₁ := hr.wf hwf
    obtain ⟨hc, hg, -⟩ := hr.made (K := K) (C := fun _ => True) hwf hmk
    have hpos := Nat.zero_lt_of_lt (hwf₁.lt_nextNode hr.branch)
    exact ⟨(hr.sound h).grown hwf₁ hpos hc hg, nofun⟩
  | @removed n s s₁ b name i changes _ hr _ =>
    have h₁ := hr.sound h
    have hentries : ∀ e ∈ (b.latest.children name).eraseIdx i, Since Q N e := fun e he =>
      h₁.latest hr.branch name e (mem_of_mem_eraseIdx he)
    exact h₁.install (hr.wf hwf) hr.branch b.latest.node b.latest.data
      (Since.update name (h₁.latest hr.branch) hentries) changes
  | deeper hr _ _ ih => exact ⟨(ih (hr.wf hwf) (hr.sound h)).1, nofun⟩
  | @replaced n s s₁ s₂ b name e new l hr hrep hw _ ih =>
    have hwf₁ := hr.wf hwf
    obtain ⟨h₂, hnew⟩ := ih hwf₁ (hr.sound h)
    obtain ⟨hwr, -⟩ := hw.written_any hwf₁
    have hwf₂ := wf hwf₁ hwr.chain
    have hb₂ : s₂.branches n u = some b :=
      (hwr.branches (hr.lt_child hwf hrep.mem) u).trans hr.branch
    have hentries : ∀ x ∈ l, Since Q N x := by
      intro x hx
      rcases hrep.mem_or hx with hx | rfl
      · exact h₂.latest hb₂ name x hx
      · exact hnew x rfl
    exact h₂.install hwf₂ hb₂ b.latest.node b.latest.data
      (Since.update name (h₂.latest hb₂) hentries) []
  | @kept n s s₁ s₂ b name key k e new hr he hw _ _ ih =>
    have hwf₁ := hr.wf hwf
    obtain ⟨h₂, -⟩ := ih hwf₁ (hr.sound h)
    obtain ⟨hwr, -⟩ := hw.written_any hwf₁
    have hb₂ : s₂.branches n u = some b :=
      (hwr.branches (hr.lt_child hwf he) u).trans hr.branch
    refine ⟨?_, ?_⟩
    · split
      · exact h₂
      · exact h₂.retable rfl rfl fun hr => hr.congr (s := s₂) rfl rfl
    · rintro rev heq
      cases heq
      exact h₂.refers (latest hb₂)
  | refused err hr _ _ _ _ ih => exact ⟨(ih (hr.wf hwf) (hr.sound h)).1, nofun⟩
  | unhashed addr err hr _ _ _ _ ih =>
    exact ⟨(ih (hr.wf hwf) (hr.sound h)).1, nofun⟩

/-! ### Merges -/

/-- **A merge takes the children of its revisions from what was held.** -/
theorem mergeTxbranch_sound (t : ℕ) (dryRun : Bool) (fuel n : ℕ) (hwf : WF s) (h : Sound Q N s) :
    wp (mergeTxbranch t dryRun fuel n) s fun _ s' => Sound Q N s' := by
  refine wp_mono (mergeTxbranch_rule (I := Sound Q N)
    (T := fun s e x => Returned t s e x ∧ ∀ y, x = some y → Since Q N y)
    (V := fun _ _ y => Since Q N y) And.left ?_ ?_ ?_ dryRun fuel n s hwf h) fun _ _ hm => hm.2.1
  · intro s n v b f e h hb he ht
    refine ⟨fun y hy => .inl ⟨ht, (some.inj hy).symm⟩, fun y hy => ?_⟩
    exact some.inj hy ▸ h.latest hb f e he
  · exact fun ht hx => ⟨fun y hy => .inr ⟨ht, (hx y hy).1⟩, fun y hy => (hx y hy).2⟩
  · rintro s _ n src dst fork changed children _ changes hwf h hsrc hdst - hch - rfl - rfl hset
    have hentry : ∀ f, ∀ e ∈ (children f).reduceOption, Since Q N e := by
      intro f e he
      rcases hch.mem (reduceOption_mem_iff.mp he) with ⟨x, hx, heq⟩ | ⟨x, hx, heq⟩ | ⟨x, hx, heq⟩
      · exact some.inj heq ▸ h.latest hdst f x hx
      · exact some.inj heq ▸ h.latest hsrc f x hx
      · exact heq.2 e rfl
    obtain ⟨h', hnew⟩ := h.install hwf hdst n (mergedData changed src.latest dst.latest) hentry
      changes
    exact ⟨h'.retable rfl rfl fun hr => hr.of_dropBranch,
      fun e x hx => ⟨hx.1.later (hset.later hwf), hx.2⟩, hnew _ rfl⟩

/-! ### Tags and proxies -/

/-- The operations on tags and proxies refer to nothing new. -/
theorem Tabled.refers (h : Tabled s s') (hr : s'.Refers r) : s.Refers r := by
  cases h with
  | same => exact hr
  | proxies _ => exact hr.congr rfl rfl
  | tagged name hb hrev =>
    refine hr.mono id fun hr => ?_
    rcases mem_insert hr with heq | hr
    · obtain ⟨-, rfl⟩ := Prod.mk.inj heq
      rcases hrev with rfl | ⟨h, hl⟩
      · exact latest hb
      · exact revs hb (mem_of_lookup hl)
    · exact Refers.tag hr
  | untagged name => exact hr.mono id fun hr => Refers.tag (mem_of_mem_filter hr)
  | @pruned b hb =>
    rcases hr.of_setBranch with hr | ⟨c, hc, hr⟩
    · exact hr
    · obtain rfl := some.inj hc
      have hlatest : s.Refers b.latest := latest hb
      rcases hr with rfl | ho | ⟨-, -, k, hk⟩
      · exact hlatest
      · exact origin hb ho
      · exact revs hb (mem_of_mem_filter hk)

theorem Tabled.objects (h : Tabled s s') : s'.objects = s.objects ∧ s'.nextRev = s.nextRev := by
  cases h <;> exact ⟨rfl, rfl⟩

/-! ### Operations -/

theorem Sound.step (h : Sound Q N s) (hbase : Base s) (op : Op P) : Sound Q N (step s op) := by
  have hfin : ∀ {s₁ : State P}, Sound Q N s₁ → Sound Q N s₁.executeDeferredCallbacks :=
    fun {s₁} h₁ => h₁.retable rfl rfl fun hr => hr.congr (s := s₁) rfl rfl
  have hclose : ∀ {s₁ : State P} (t : ℕ), Sound Q N s₁ → Sound Q N (s₁.close t) :=
    fun {s₁} t h₁ => h₁.retable rfl rfl fun hr => hr.congr (s := s₁) rfl rfl
  have hforget : ∀ (t : ℕ) (dirty : List ℕ), Sound Q N (s.forget t dirty) :=
    fun t dirty => h.retable rfl rfl fun hr => hr.of_forget
  have hstep := step_cases_any hbase op
  generalize (exec op s).1 = r at hstep
  generalize Config.step s op = s' at hstep
  cases hstep with
  | idle _ _ => exact h
  | wrote _ _ hw => exact hfin (hw.sound hbase.wf h).1
  | @opened c hc =>
    have hfork : Sound Q N (s.fork 0 s.nextTx c.latest [0]) :=
      h.retable rfl rfl fun hr => hr.of_fork hc
    exact hfork.retable rfl rfl fun hr => hr.congr (s := s.fork 0 s.nextTx c.latest [0]) rfl rfl
  | cancelled _ _ => exact hclose _ (hforget _ _)
  | rejected _ _ _ => exact hclose _ (hforget _ _)
  | crashed _ _ _ => exact hclose _ h
  | @committed t _ s₁ _ _ hm _ =>
    have hmerge : wp (mergeRoot t false) s fun _ s' => Sound Q N s' :=
      mergeTxbranch_sound t false (s.nextNode + 1) 0 hbase.wf h
    rw [wp_def, hm] at hmerge
    exact hclose _ (hfin hmerge)
  | tables _ _ _ _ htab =>
    exact h.retable htab.objects.1 htab.objects.2 fun hr => htab.refers hr

/-- **Nothing is taken up again**: what is held after an operation was held before it, or is
new. -/
theorem held_step (h : Base s) (op : Op P) (hr : (step s op).Held r) :
    s.Held r ∨ s.nextRev ≤ r.ref := by
  have hsound : Sound s.Held s.nextRev s := by
    refine ⟨le_rfl, fun hr y hy => .inl ⟨_, hr, hy⟩, ?_⟩
    intro r hr hN
    exact absurd (h.wf.ref_lt hr) (Nat.not_lt.mpr hN)
  obtain ⟨x, hx, hr⟩ := hr
  exact (hsound.step h op).refers hx r hr

/-! ## The revisions of the root -/

/-- The revisions that a branch of the root has by their hashes. -/
def State.Shelf (s : State P) (b : Branch P) : Prop :=
  ∀ {h : P.Hash} {r : Rev P}, (h, r) ∈ b.revs → s.Has r ∧ r.node = 0 ∧ r.hash = h

/-- `_revs` of the root contains its latest revision and the tagged ones. -/
structure RootInv (s : State P) : Prop where
  shelf : ∀ {v : Option ℕ} {b : Branch P}, s.branches 0 v = some b → s.Shelf b
  latest : ∀ {b : Branch P}, s.branches 0 none = some b → b.latest.hash ∈ b.revs.map Prod.fst
  tags : ∀ {name : String} {r : Rev P}, (name, r) ∈ s.tags → s.Has r ∧ r.node = 0
  kept : ∀ {b : Branch P} {name : String} {r : Rev P}, s.branches 0 none = some b →
    (name, r) ∈ s.tags → r.hash ∈ b.revs.map Prod.fst
  rooted : s.tags ≠ [] → (s.branches 0 none).isSome
  names : (s.tags.map Prod.fst).Nodup

theorem RootInv.empty : RootInv (empty : State P) where
  shelf h := nomatch h
  latest h := nomatch h
  tags h := nomatch h
  kept h := nomatch h
  rooted h := absurd rfl h
  names := nodup_nil

/-- A change that keeps the root's branches, or drops some of a transaction. -/
theorem RootInv.congr (h : RootInv s) (hhas : ∀ {r : Rev P}, s.Has r → s'.Has r)
    (hb : ∀ {v : Option ℕ} {b : Branch P}, s'.branches 0 v = some b → s.branches 0 v = some b)
    (hroot : s'.branches 0 none = s.branches 0 none) (ht : s'.tags = s.tags) : RootInv s' where
  shelf hn := fun hr => by
    obtain ⟨hx, hrest⟩ := h.shelf (hb hn) hr
    exact ⟨hhas hx, hrest⟩
  latest hn := h.latest (hb hn)
  tags hr := by
    obtain ⟨hx, hnode⟩ := h.tags (ht ▸ hr)
    exact ⟨hhas hx, hnode⟩
  kept hn hr := h.kept (hb hn) (ht ▸ hr)
  rooted hne := by
    rw [hroot]
    exact h.rooted (ht ▸ hne)
  names := ht ▸ h.names

/-- A branch is set.  Only those of the root matter. -/
theorem RootInv.setBranch (h : RootInv s) {v : Option ℕ} {c : Branch P} (hshelf : n = 0 → s.Shelf c)
    (hlatest : n = 0 → v = none → c.latest.hash ∈ c.revs.map Prod.fst)
    (hkept : n = 0 → v = none → ∀ {name : String} {r : Rev P}, (name, r) ∈ s.tags →
      r.hash ∈ c.revs.map Prod.fst) :
    RootInv (s.setBranch n v (some c)) := by
  refine ⟨?_, ?_, h.tags, ?_, ?_, h.names⟩
  · intro w b hb
    rcases setBranch_eq_some s hb with ⟨⟨hn, -⟩, hc⟩ | hb
    · exact some.inj hc ▸ hshelf hn.symm
    · exact h.shelf hb
  · intro b hb
    rcases setBranch_eq_some s hb with ⟨⟨hn, hv⟩, hc⟩ | hb
    · exact some.inj hc ▸ hlatest hn.symm hv.symm
    · exact h.latest hb
  · intro b name r hb hr
    rcases setBranch_eq_some s hb with ⟨⟨hn, hv⟩, hc⟩ | hb
    · exact some.inj hc ▸ hkept hn.symm hv.symm hr
    · exact h.kept hb hr
  · intro hne
    rw [setBranch_apply]
    split
    · rfl
    · exact h.rooted hne

theorem mem_keys_advance (s : State P) (b : Branch P) (rev : Rev P) {k : P.Hash} :
    k ∈ (s.advance b rev).revs.map Prod.fst ↔ k = rev.hash ∨ k ∈ b.revs.map Prod.fst := by
  rw [advance]
  split
  · next hmem =>
    constructor
    · exact .inr
    · rintro (rfl | hk)
      · exact hmem
      · exact hk
  · rw [map_append, mem_append, map_singleton, mem_singleton, or_comm]

/-- A new revision at the end of a branch. -/
theorem RootInv.install (h : RootInv s) (hwf : WF s) {v : Option ℕ} (hb : s.branches n v = some b)
    (data : P.Data) (children : String → List (Rev P)) (changes : Changes P) :
    RootInv (s.install n v (s.newRev n v data children) changes) := by
  have hbr := install_branches s (s.newRev n v data children) changes hb
  have halloc : RootInv (s.alloc (s.newRev n v data children)) :=
    h.congr (fun hr => hwf.has_alloc.mpr (.inr hr)) id rfl rfl
  have hset : RootInv ((s.alloc (s.newRev n v data children)).setBranch n v
      (some (s.advance b (s.newRev n v data children)))) := by
    refine halloc.setBranch ?_ ?_ ?_
    · rintro rfl k r hr
      rw [advance] at hr
      split at hr
      · exact halloc.shelf hb hr
      · rcases mem_append.mp hr with hr | hr
        · exact halloc.shelf hb hr
        · obtain ⟨rfl, rfl⟩ := Prod.mk.inj (mem_singleton.mp hr)
          exact ⟨hwf.has_alloc.mpr (.inl rfl), rfl, rfl⟩
    · rintro rfl rfl
      rw [mem_keys_advance]
      rcases s.latest_advance b (s.newRev 0 none data children) with hl | ⟨hl, -⟩
      · exact .inl (by rw [hl])
      · rw [hl]
        exact .inr (h.latest hb)
    · rintro rfl rfl name r hr
      rw [mem_keys_advance]
      exact .inr (h.kept hb hr)
  refine hset.congr (fun hr => hwf.has_install.mpr (hwf.has_alloc.mp hr)) (fun hc => ?_) ?_
    (makeLatest_tags ..)
  · rw [hbr] at hc
    exact hc
  · rw [hbr]
    rfl

/-- A branch of a transaction is made. -/
theorem RootInv.fork (h : RootInv s) (n t : ℕ) (point : Rev P) (dirty : List ℕ) :
    RootInv (s.fork n t point dirty) := by
  have hset : RootInv (s.setBranch n (some t) (some ⟨some point, [], point⟩)) :=
    h.setBranch (fun _ _ _ hr => absurd hr not_mem_nil) (fun _ hv => nomatch hv)
      (fun _ hv => nomatch hv)
  exact hset.congr id id rfl rfl

theorem Effect.rootInv (he : Effect K C u s s') (hwf : WF s) (h : RootInv s) : RootInv s' := by
  cases he with
  | called _ => exact h.congr id id rfl rfl
  | forked _ _ _ _ => exact h.fork _ _ _ _
  | born _ => exact h.congr id id rfl rfl
  | @seated n data children _ hnone _ _ _ =>
    have halloc : RootInv (s.alloc (s.newRev n none data children)) :=
      h.congr (fun hr => hwf.has_alloc.mpr (.inr hr)) id rfl rfl
    refine halloc.setBranch ?_ ?_ ?_
    · rintro rfl k r hr
      obtain ⟨rfl, rfl⟩ := Prod.mk.inj (mem_singleton.mp hr)
      exact ⟨hwf.has_alloc.mpr (.inl rfl), rfl, rfl⟩
    · exact fun _ _ => mem_singleton.mpr rfl
    · -- nothing is tagged before there is a root
      rintro rfl - name r hr
      have hsome := h.rooted (ne_nil_of_mem hr)
      rw [hnone] at hsome
      cases hsome
  | installed hb _ _ => exact h.install hwf hb _ _ _
  | cleared _ _ _ => exact h.congr id id rfl rfl

theorem Chain.rootInv (hc : Chain K C u s s') (hwf : WF s) (h : RootInv s) : RootInv s' := by
  induction hc with
  | refl => exact h
  | tail hc he ih => exact he.rootInv (wf hwf hc) ih

theorem RootInv.dropBranch (h : RootInv s) (n t : ℕ) : RootInv (s.dropBranch n t) := by
  refine h.congr id (fun {v b} hb => ?_) ?_ rfl
  · rcases setBranch_eq_some s hb with ⟨-, hb⟩ | hb
    · cases hb
    · exact hb
  · rw [State.dropBranch, setBranch_of_ne _ _ (.inr (by simp))]

theorem Settles.rootInv (hs : Settles t s s') (hwf : WF s) (h : RootInv s) : RootInv s' := by
  induction hs with
  | refl => exact h
  | tail hs hstep ih =>
    have hwf₁ := Settles.wf hwf hs
    obtain ⟨n, src, dst, data, children, changes, -, hdst, -, rfl⟩ := hstep.settled hwf₁
    exact (ih.install hwf₁ hdst data children changes).dropBranch n t

theorem RootInv.forget (h : RootInv s) (t : ℕ) (dirty : List ℕ) : RootInv (s.forget t dirty) :=
  h.congr id forget_eq_some (s.forget_branches t dirty (by simp)) rfl

/-- The root has its hash. -/
theorem WF.hashOf_root (hwf : WF s) (hr : s.Has r) (hnode : r.node = 0) :
    s.hashOf r = some r.hash := by
  refine if_neg fun hc => ?_
  obtain ⟨x, hx, hp⟩ := hwf.cleared hc
  rw [Has, hx] at hr
  rw [some.inj hr, hnode, hwf.parent_root] at hp
  cases hp

theorem Tabled.rootInv (hs : Tabled s s') (hwf : WF s) (h : RootInv s) : RootInv s' := by
  cases hs with
  | same => exact h
  | proxies _ => exact h.congr id id rfl rfl
  | @tagged b rev name hb hrev =>
    have hthis : s.Has rev ∧ rev.node = 0 ∧ rev.hash ∈ b.revs.map Prod.fst := by
      rcases hrev with rfl | ⟨k, hk⟩
      · exact ⟨(hwf.head hb).has, (hwf.head hb).node, h.latest hb⟩
      · have hmem := mem_of_lookup hk
        obtain ⟨hx, hnode, rfl⟩ := h.shelf hb hmem
        exact ⟨hx, hnode, mem_map_of_mem hmem⟩
    refine ⟨h.shelf, h.latest, fun hr => ?_, fun {c _ _} hc hr => ?_, fun _ => ?_, ?_⟩
    · rcases mem_insert hr with heq | hr
      · obtain ⟨-, rfl⟩ := Prod.mk.inj heq
        exact ⟨hthis.1, hthis.2.1⟩
      · exact h.tags hr
    · rcases mem_insert hr with heq | hr
      · obtain ⟨-, rfl⟩ := Prod.mk.inj heq
        obtain rfl := some.inj (hb.symm.trans hc)
        exact hthis.2.2
      · exact h.kept hc hr
    · show (s.branches 0 none).isSome
      rw [hb]
      rfl
    · exact nodup_keys_insert h.names
  | untagged name =>
    refine ⟨h.shelf, h.latest, fun hr => h.tags (mem_of_mem_filter hr),
      fun hc hr => h.kept hc (mem_of_mem_filter hr), fun hne => h.rooted fun hnil => ?_, ?_⟩
    · rw [hnil] at hne
      exact hne rfl
    · exact h.names.sublist ((filter_sublist).map Prod.fst)
  | @pruned b hb =>
    have hkeep : ∀ {k : P.Hash}, k ∈ b.revs.map Prod.fst →
        some k ∈ s.hashOf b.latest :: s.tags.map (fun p => s.hashOf p.2) →
        k ∈ (s.prune b).revs.map Prod.fst := by
      intro k hk hmem
      obtain ⟨p, hp, rfl⟩ := mem_map.mp hk
      exact mem_map_of_mem (mem_filter.mpr ⟨hp, decide_eq_true hmem⟩)
    refine h.setBranch (fun _ _ _ hr => h.shelf hb (mem_of_mem_filter hr)) (fun _ _ => ?_) ?_
    · refine hkeep (h.latest hb) ?_
      rw [hwf.hashOf_root (hwf.head hb).has (hwf.head hb).node]
      exact mem_cons_self
    · intro _ _ name r hr
      obtain ⟨hx, hnode⟩ := h.tags hr
      refine hkeep (h.kept hb hr) (mem_cons_of_mem _ (mem_map.mpr ⟨_, hr, ?_⟩))
      exact hwf.hashOf_root hx hnode

theorem RootInv.step (h : RootInv s) (hbase : Base s) (op : Op P) : RootInv (step s op) := by
  have hsame : ∀ {s₁ : State P} (t : ℕ), RootInv s₁ → RootInv (s₁.close t) :=
    fun t h₁ => h₁.congr id id rfl rfl
  have hfin : ∀ {s₁ : State P}, RootInv s₁ → RootInv s₁.executeDeferredCallbacks :=
    fun h₁ => h₁.congr id id rfl rfl
  have hstep := step_cases_any hbase op
  generalize (exec op s).1 = r at hstep
  generalize Config.step s op = s' at hstep
  cases hstep with
  | idle _ _ => exact h
  | wrote _ _ hw =>
    obtain ⟨hwr, -⟩ := hw.written_any hbase.wf
    exact hfin (rootInv hwr.chain hbase.wf h)
  | @opened c _ =>
    exact (h.fork 0 s.nextTx c.latest [0]).congr id id rfl rfl
  | cancelled _ _ => exact hsame _ (h.forget _ _)
  | rejected _ _ _ => exact hsame _ (h.forget _ _)
  | crashed _ _ _ => exact hsame _ h
  | committed _ _ _ hset => exact hsame _ (hfin (Settles.rootInv hset hbase.wf h))
  | tables _ _ _ _ htab => exact htab.rootInv hbase.wf h

/-- What is held is an object of the tree. -/
theorem RootInv.has_of_held (h : RootInv s) (hwf : WF s) (hr : s.Held r) : s.Has r := by
  obtain ⟨x, hx, hr⟩ := hr
  refine hwf.has_within ?_ hr
  cases hx with
  | latest hb => exact (hwf.head hb).has
  | origin hb ho => exact ((hwf.branch hb).origin ho).has
  | revs hb hk => exact (h.shelf hb hk).1
  | tag hk => exact (h.tags hk).1

/-- **The root keeps the revisions it needs**, in every state of every run. -/
theorem Reachable.rootInv (h : Reachable s) : RootInv s := by
  induction h with
  | init hm =>
    obtain ⟨hc, -⟩ := mkRoot_made (K := fun _ _ => True) (C := fun _ => True) hm
    exact Chain.rootInv hc WF.empty RootInv.empty
  | step op hs ih => exact ih.step hs.base op

/-! ## Revisions that nothing refers to -/

/-- Neither a table nor a revision refers to the revision: CPython finalizes it. -/
structure Unreferenced (s : State P) (r : Rev P) : Prop where
  tables : ¬ s.Refers r
  children : ∀ (x : Rev P) (f : String), s.Has x → r ∉ x.children f

/-- The branch refers to the revision with a given number; `_revs` refers weakly unless
`strong`, which is so for the committed branch of the root only. -/
def Branch.refersTo (b : Branch P) (strong : Bool) (ref : ℕ) : Bool :=
  decide (b.latest.ref = ref) || (b.origin.any fun r => decide (r.ref = ref)) ||
    (strong && b.revs.any fun p => decide (p.2.ref = ref))

/-- A table refers to the revision with a given number. -/
def State.refersTo (s : State P) (ref : ℕ) : Bool :=
  ((List.range s.nextNode).any fun n => (none :: (List.range s.nextTx).map some).any fun v =>
      (s.branches n v).any fun b => b.refersTo (decide (n = 0 ∧ v = none)) ref) ||
    s.tags.any fun p => decide (p.2.ref = ref)

/-- A revision refers to the one with a given number. -/
def State.lists (s : State P) (ref : ℕ) : Bool :=
  (List.range s.nextRev).any fun i => (s.objects i).any fun x =>
    (P.names (P.typeOf x.data)).any fun f => (x.children f).any fun e => decide (e.ref = ref)

theorem Base.refersTo_of_refers (h : Base s) (hr : s.Refers r) : s.refersTo r.ref = true := by
  -- a branch stands at a node and a transaction that have been made
  have hbranch : ∀ {n v b}, s.branches n v = some b →
      b.refersTo (decide (n = 0 ∧ v = none)) r.ref = true → s.refersTo r.ref = true := by
    intro n v b hb href
    refine Bool.or_eq_true_iff.mpr (.inl ?_)
    refine any_eq_true.mpr ⟨n, mem_range.mpr (h.wf.lt_nextNode hb), ?_⟩
    refine any_eq_true.mpr ⟨v, ?_, ?_⟩
    · rcases v with _ | t
      · exact mem_cons_self
      · have hdirty := h.dirty (n := n) (t := t) (by rw [hb]; rfl)
        have hlt : t < s.nextTx := by
          by_contra hle
          rw [(h.later (Nat.not_lt.mp hle)).1] at hdirty
          cases hdirty
        exact mem_cons_of_mem _ (mem_map_of_mem (mem_range.mpr hlt))
    · rw [hb]
      exact href
  cases hr with
  | latest hb => exact hbranch hb (by simp [Branch.refersTo])
  | origin hb ho => exact hbranch hb (by simp [Branch.refersTo, ho])
  | revs hb hk =>
    exact hbranch hb (Bool.or_eq_true_iff.mpr (.inr (any_eq_true.mpr ⟨_, hk, decide_eq_true rfl⟩)))
  | tag hk =>
    exact Bool.or_eq_true_iff.mpr (.inr (any_eq_true.mpr ⟨_, hk, decide_eq_true rfl⟩))

theorem WF.lists_of_mem (h : WF s) {e : Rev P} {f : String} (hx : s.Has x) (he : e ∈ x.children f) :
    s.lists e.ref = true := by
  refine any_eq_true.mpr ⟨x.ref, mem_range.mpr (h.ref_lt hx), ?_⟩
  have hf : f ∈ P.names (P.typeOf x.data) := by
    by_contra hnot
    rw [(h.hashed hx).names hnot] at he
    exact absurd he not_mem_nil
  rw [show s.objects x.ref = some x from hx]
  exact any_eq_true.mpr ⟨f, hf, any_eq_true.mpr ⟨e, he, decide_eq_true rfl⟩⟩

/-- References are found by looking through the tables and the revisions. -/
theorem Base.unreferenced (h : Base s) (htables : s.refersTo r.ref = false)
    (hlists : s.lists r.ref = false) : Unreferenced s r where
  tables hr := by
    rw [h.refersTo_of_refers hr] at htables
    cases htables
  children x f hx hr := by
    rw [h.wf.lists_of_mem hx hr] at hlists
    cases hlists

/-- What stands below an object is a child of an object. -/
theorem WF.exists_parent (h : WF s) {y : Rev P} (hy : r.Desc y) :
    s.Has r → ∃ (x : Rev P) (f : String), s.Has x ∧ y ∈ x.children f := by
  induction hy with
  | child he => exact fun hr => ⟨_, _, hr, he⟩
  | step he _ ih => exact fun hr => ih (h.child hr he).has

/-- What nothing refers to is not held. -/
theorem Unreferenced.not_held (h : Unreferenced s r) (hwf : WF s) (hroot : RootInv s) :
    ¬ s.Held r := by
  rintro ⟨x, hx, rfl | hr⟩
  · exact h.tables hx
  · obtain ⟨y, f, hy, hr⟩ := hwf.exists_parent hr (hroot.has_of_held hwf hx.held)
    exact h.children y f hy hr

/-! ## Runs -/

/-- **Nothing is taken up again** in a run. -/
theorem held_run (h : Reachable s) (ops : List (Op P)) (hr : (run s ops).Held r) :
    s.Held r ∨ s.nextRev ≤ r.ref := by
  induction ops generalizing s with
  | nil => exact .inl hr
  | cons op ops ih =>
    rcases ih (h.step op) hr with hr | hle
    · exact held_step h.base op hr
    · exact .inr ((h.base.later_step op).nextRev_le.trans hle)

namespace Sample

/-- An adapter changes, and the revisions before are let go. -/
def renewal : List (Op sample) :=
  [.update ["", "adapters", "2"] (leaf .adapter "2" "z") false none, .pruneUntagged]

/-- The adapter changes again in a transaction. -/
def renewalAgain : List (Op sample) :=
  [.openTransaction, .update ["", "adapters", "2"] (leaf .adapter "2" "b") false (some 0), .commit 0]

/-- The number of the first revision of the root. -/
def firstRoot : ℕ := start.nextRev - 1

end Sample

open Sample

theorem unreferenced_firstRoot : ∃ r, (run start renewal).Has r ∧ r.ref = firstRoot ∧
    Unreferenced (run start renewal) r := by
  have hbase := (reachable_start.run renewal).base
  have hsome : ((run start renewal).objects firstRoot).isSome := by
    decide +kernel
  obtain ⟨r, hr⟩ := isSome_iff_exists.mp hsome
  have href : r.ref = firstRoot := hbase.wf.ref hr
  refine ⟨r, hbase.wf.has_of_objects hr, href, hbase.unreferenced ?_ ?_⟩
  · rw [href]
    decide +kernel
  · rw [href]
    decide +kernel

/-- The pruning lets go of the first revision of the root, and nothing holds it again. -/
theorem held_run_sample : ∃ r, r.ref = firstRoot ∧ ¬ (run start renewal).Held r ∧
    ¬ (run (run start renewal) renewalAgain).Held r := by
  obtain ⟨r, hr, href, hnone⟩ := unreferenced_firstRoot
  have hreach := reachable_start.run renewal
  have hnot := hnone.not_held hreach.base.wf hreach.rootInv
  refine ⟨r, href, hnot, fun hheld => ?_⟩
  rcases held_run hreach renewalAgain hheld with hold | hnew
  · exact hnot hold
  · exact absurd (hreach.base.wf.ref_lt hr) (Nat.not_lt.mpr hnew)

end Voltha.Config
