import Voltha.Config.Objects

/-!
# The elementary effects of a write

A write through the path of a branch `u` changes the state by a sequence of elementary
effects: calls of `PRE_*` callbacks, branches made on the way, new nodes, new revisions that
are put at the end of a branch, and hashes that are taken away.  `Effect` lists them with what
is known at the moment each one is made, and `Chain` is a sequence of them.  An invariant of all
writes is shown once for each effect.

Two parameters keep what only some results need.  `K n d` is a condition on the data `d` that
is written to node `n`, and `C x` a condition on a revision `x` that loses its hash although it
was there before.
-/

namespace Voltha.Config

open List Function

variable {P : Proto}

open State

/-- The `PRE_*` callbacks. -/
def CallbackType.isPre : CallbackType → Bool
  | .preUpdate => true
  | .preAdd => true
  | .preRemove => true
  | _ => false

/-- A call of a `PRE_*` callback. -/
def Delivery.isPre : Delivery P → Bool
  | .called _ type _ => type.isPre
  | .published _ _ _ => false

/-- `new` comes in the place of `e` in a list, or becomes the only entry of the field whose
first entry was `e`. -/
inductive Replaces (l : List (Rev P)) (e new : Rev P) : List (Rev P) → Prop where
  | place {i : ℕ} : l[i]? = some e → Replaces l e new (l.set i new)
  | only {rest : List (Rev P)} : l = e :: rest → Replaces l e new [new]

variable {e : Rev P} {data : P.Data} {n : ℕ}

theorem Replaces.mem {l l' : List (Rev P)} {new : Rev P} (h : Replaces l e new l') : e ∈ l := by
  cases h with
  | place hi => exact mem_of_getElem? hi
  | only hl => exact hl ▸ mem_cons_self

theorem Replaces.mem_or {l l' : List (Rev P)} {new x : Rev P} (h : Replaces l e new l')
    (hx : x ∈ l') : x ∈ l ∨ x = new := by
  cases h with
  | place hi => exact mem_or_eq_of_mem_set hx
  | only hl => exact .inr (mem_singleton.mp hx)

/-- The data and the children of the revision that a write makes after `old`, on branch `u`
of node `n`. -/
inductive Derived (K : ℕ → P.Data → Prop) (s : State P) (n : ℕ) (u : Option ℕ) (old : Rev P) :
    P.Data → (String → List (Rev P)) → Prop where
  | data {d : P.Data} : P.typeOf d = P.typeOf old.data → K n d → Derived K s n u old d old.children
  | replace {name : String} {l : List (Rev P)} {e new : Rev P} :
      Replaces (old.children name) e new l → s.Has new → new.node = e.node →
      new.txid = u ∨ new.txid = none →
      Derived K s n u old old.data (Function.update old.children name l)
  | append {name key text : String} {field : ChildType P.Cls P.Val}
      {keyFromStr : String → Except String P.Val} {k : P.Val} {new : Rev P} :
      P.field (P.typeOf old.data) name = some field → field.kind = .keyed key keyFromStr →
      P.getattr new.data key = some k →
      findRevByKey (old.children name) key k = .error (.keyError text) →
      s.Entry n name new → new.txid = none → (∀ e ∈ old.children name, e.node ≠ new.node) →
      (∀ r, s.Has r → r.node = new.node → r = new) →
      Derived K s n u old old.data
        (Function.update old.children name (old.children name ++ [new]))
  | erase {name : String} {i : ℕ} :
      Derived K s n u old old.data
        (Function.update old.children name ((old.children name).eraseIdx i))

/-- The lists that the first revision of a node can have: nothing else has been made of its
children's nodes yet, and the keys of a keyed field are all different. -/
structure Fresh (s : State P) (data : P.Data) (children : String → List (Rev P)) : Prop where
  txid : ∀ {f : String} {e : Rev P}, e ∈ children f → e.txid = none
  first : ∀ {f : String} {e r : Rev P}, e ∈ children f → s.Has r → r.node = e.node → r = e
  keys : ∀ {f key : String} {field : ChildType P.Cls P.Val}
    {keyFromStr : String → Except String P.Val}, P.field (P.typeOf data) f = some field →
    field.kind = .keyed key keyFromStr → ∃ ks, keysOf key (children f) = .ok ks ∧ ks.Nodup
  nodes : ∀ f : String, ((children f).map Rev.node).Nodup

/-- One elementary effect of a write to branch `u`. -/
inductive Effect (K : ℕ → P.Data → Prop) (C : Rev P → Prop) (u : Option ℕ) :
    State P → State P → Prop where
  | called {s : State P} {l : List (Delivery P)} : (∀ d ∈ l, d.isPre) →
      Effect K C u s { s with log := s.log ++ l }
  | forked {s : State P} {n t : ℕ} {c : Branch P} {dirty : List ℕ} : u = some t →
      s.branches n none = some c → s.branches n (some t) = none → s.dirtyNodes t = some dirty →
      Effect K C u s (s.fork n t c.latest dirty)
  | born {s : State P} {parent : Option (ℕ × String)} :
      (∀ p f, parent = some (p, f) → p < s.nextNode) → Effect K C u s (s.born parent)
  | seated {s : State P} {n : ℕ} {data : P.Data} {children : String → List (Rev P)} :
      s.Fits n data children → (∀ v, s.branches n v = none) → (∀ r, s.Has r → r.node ≠ n) →
      s.unhashed data children = false → Fresh s data children →
      Effect K C u s
        ((s.alloc (s.newRev n none data children)).seat (s.newRev n none data children))
  | installed {s : State P} {n : ℕ} {b : Branch P} {data : P.Data}
      {children : String → List (Rev P)} {changes : Changes P} : s.branches n u = some b →
      Derived K s n u b.latest data children → s.unhashed data children = false →
      Effect K C u s (s.install n u (s.newRev n u data children) changes)
  | cleared {s : State P} {x : Rev P} : s.Has x → (s.parent x.node).isSome →
      x.ref + 1 = s.nextRev ∨ x.ref ∈ s.cleared ∨ C x → Effect K C u s (s.clearHash x)

/-- A sequence of effects of a write to branch `u`. -/
abbrev Chain (K : ℕ → P.Data → Prop) (C : Rev P → Prop) (u : Option ℕ) :
    State P → State P → Prop :=
  Relation.ReflTransGen (Effect K C u)

variable {K : ℕ → P.Data → Prop} {C : Rev P → Prop} {u : Option ℕ} {s s' : State P}

/-! ## What every effect keeps -/

variable {children : String → List (Rev P)}

/-- A revision that a write derives from the latest one of a branch fits its node. -/
theorem Derived.fits (h : WF s) {b : Branch P} (hb : s.branches n u = some b)
    (hd : Derived K s n u b.latest data children) : s.Fits n data children := by
  have hh := h.head hb
  have hent : ∀ {f : String} {e : Rev P}, e ∈ b.latest.children f → s.Entry n f e := fun he =>
    hh.node ▸ h.child hh.has he
  have hnames : ∀ {f : String}, f ∉ P.names (P.typeOf b.latest.data) → b.latest.children f = [] :=
    fun hf => (h.hashed hh.has).names hf
  have hcls : ∀ {r : Rev P}, s.Has r → r.node = n → P.typeOf r.data = P.typeOf b.latest.data :=
    fun hr hn => h.cls hr hh.has (hn.trans hh.node.symm)
  -- a change of the list of one field
  have hupd : ∀ {name : String} {l : List (Rev P)}, (∀ x ∈ l, s.Entry n name x) →
      (name ∉ P.names (P.typeOf b.latest.data) → l = []) →
      s.Fits n b.latest.data (Function.update b.latest.children name l) := by
    intro name l hl hname
    refine ⟨h.lt_nextNode hb, hcls, ?_, ?_⟩
    · intro f hf
      by_cases hfn : f = name
      · subst hfn
        rw [update_self]
        exact hname hf
      · rw [update_of_ne hfn]
        exact hnames hf
    · intro f e he
      by_cases hfn : f = name
      · subst hfn
        rw [update_self] at he
        exact hl e he
      · rw [update_of_ne hfn] at he
        exact hent he
  cases hd with
  | data hty _ =>
    exact ⟨h.lt_nextNode hb, fun hr hn => (hcls hr hn).trans hty.symm,
      fun f hf => hnames (hty ▸ hf), hent⟩
  | @replace name l e new hrep hnew hnode _ =>
    refine hupd ?_ ?_
    · intro x hx
      rcases hrep.mem_or hx with hx | rfl
      · exact hent hx
      · have he := hent hrep.mem
        exact ⟨hnew, by rw [hnode]; exact he.parent, by rw [hnode]; exact he.committed⟩
    · intro hname
      have hmem := hrep.mem
      rw [hnames hname] at hmem
      exact absurd hmem not_mem_nil
  | append hfield _ _ _ hnew _ _ _ =>
    refine hupd ?_ ?_
    · intro x hx
      rcases mem_append.mp hx with hx | hx
      · exact hent hx
      · rw [mem_singleton.mp hx]
        exact hnew
    · intro hname
      exact absurd (P.mem_names_of_field hfield) hname
  | erase =>
    refine hupd ?_ ?_
    · intro x hx
      exact hent (mem_of_mem_eraseIdx hx)
    · intro hname
      rw [hnames hname, eraseIdx_nil]

/-- The data of a derived revision. -/
theorem Derived.data_or {old : Rev P} (hd : Derived K s n u old data children) :
    data = old.data ∨ K n data := by
  cases hd with
  | data _ hK => exact .inr hK
  | replace _ _ _ _ => exact .inl rfl
  | append _ _ _ _ _ _ _ _ => exact .inl rfl
  | erase => exact .inl rfl

/-- An entry of a derived revision was there before, or it is another revision of the node of an
entry, or it is the only revision of a new node. -/
theorem Derived.mem {old : Rev P} (hd : Derived K s n u old data children) {f : String}
    (he : e ∈ children f) :
    e ∈ old.children f ∨
      (∃ x ∈ old.children f, s.Has e ∧ e.node = x.node ∧ (e.txid = u ∨ e.txid = none)) ∨
      e.txid = none ∧ ∀ r, s.Has r → r.node = e.node → r = e := by
  -- the fields other than the one that is written are as before
  have hupd : ∀ {name : String} {l : List (Rev P)},
      e ∈ Function.update old.children name l f → e ∈ old.children f ∨ f = name ∧ e ∈ l := by
    intro name l hmem
    by_cases hf : f = name
    · subst hf
      rw [update_self] at hmem
      exact .inr ⟨rfl, hmem⟩
    · rw [update_of_ne hf] at hmem
      exact .inl hmem
  cases hd with
  | data _ _ => exact .inl he
  | @replace name l x new hrep hnew hnode htx =>
    rcases hupd he with hold | ⟨rfl, hmem⟩
    · exact .inl hold
    · rcases hrep.mem_or hmem with hold | rfl
      · exact .inl hold
      · exact .inr (.inl ⟨x, hrep.mem, hnew, hnode, htx⟩)
  | append _ _ _ _ _ htx _ hfirst =>
    rcases hupd he with hold | ⟨rfl, hmem⟩
    · exact .inl hold
    · rcases mem_append.mp hmem with hold | hnew
      · exact .inl hold
      · rw [mem_singleton.mp hnew]
        exact .inr (.inr ⟨htx, hfirst⟩)
  | erase =>
    rcases hupd he with hold | ⟨rfl, hmem⟩
    · exact .inl hold
    · exact .inl (mem_of_mem_eraseIdx hmem)

theorem Effect.wf (h : WF s) (he : Effect K C u s s') : WF s' := by
  cases he with
  | called _ => exact h.congr rfl rfl rfl rfl rfl rfl
  | forked _ hc _ _ => exact h.fork hc _ _
  | born hp => exact h.born hp
  | seated hf _ _ _ _ => exact h.seat hf
  | installed hb hd _ => exact h.install hb (hd.fits h hb) _
  | cleared hx hp _ => exact h.clearHash hx hp

theorem Effect.later (h : WF s) (he : Effect K C u s s') : Later s s' := by
  cases he with
  | called _ => exact ⟨fun h => h, fun h _ => h, le_rfl, le_rfl, fun _ => rfl, fun h => h⟩
  | forked _ _ _ _ => exact WF.later_fork _ _ _ _ _
  | born _ => exact WF.later_born _ _
  | seated _ _ _ _ _ => exact h.later_seat _ _ _
  | installed hb _ _ => exact h.later_install hb _ _ _
  | cleared _ _ _ => exact WF.later_clearHash _ _

/-- A write to branch `u` leaves the other branches of the nodes it finds alone. -/
theorem Effect.branches_eq (he : Effect K C u s s') {m : ℕ} {v : Option ℕ}
    (hm : (s.branches m none).isSome) (hv : v ≠ u) : s'.branches m v = s.branches m v := by
  cases he with
  | called _ => rfl
  | forked hu _ _ _ => exact s.setBranch_of_ne _ (.inr (hu ▸ hv))
  | born _ => rfl
  | @seated n _ _ _ hnone _ _ _ =>
    refine State.setBranch_of_ne _ _ (.inl ?_)
    rintro rfl
    rw [show s.branches m none = none from hnone none] at hm
    cases hm
  | installed hb _ _ => exact install_branches_of_ne _ _ hb (.inr hv)
  | cleared _ _ _ => rfl

/-- The tables that no write changes. -/
structure SameFrame (s s' : State P) : Prop where
  proxy : s'.proxy = s.proxy
  tags : s'.tags = s.tags
  isOpen : s'.isOpen = s.isOpen
  nextTx : s'.nextTx = s.nextTx

theorem SameFrame.refl (s : State P) : SameFrame s s := ⟨rfl, rfl, rfl, rfl⟩

theorem SameFrame.trans {s₁ s₂ s₃ : State P} (h : SameFrame s₁ s₂) (h' : SameFrame s₂ s₃) :
    SameFrame s₁ s₃ :=
  ⟨h'.proxy.trans h.proxy, h'.tags.trans h.tags, h'.isOpen.trans h.isOpen,
    h'.nextTx.trans h.nextTx⟩

theorem State.sameFrame_install (s : State P) (n : ℕ) (v : Option ℕ) (rev : Rev P)
    (changes : Changes P) : SameFrame s (s.install n v rev changes) :=
  ⟨install_proxy .., makeLatest_tags .., install_isOpen .., install_nextTx ..⟩

theorem Effect.sameFrame (he : Effect K C u s s') : SameFrame s s' := by
  cases he with
  | called _ => exact ⟨rfl, rfl, rfl, rfl⟩
  | forked _ _ _ _ => exact ⟨rfl, rfl, rfl, rfl⟩
  | born _ => exact ⟨rfl, rfl, rfl, rfl⟩
  | seated _ _ _ _ _ => exact ⟨rfl, rfl, rfl, rfl⟩
  | installed _ _ _ => exact s.sameFrame_install _ _ _ _
  | cleared _ _ _ => exact ⟨rfl, rfl, rfl, rfl⟩

namespace Chain

section

variable (h : WF s) (hc : Chain K C u s s')
include h hc

theorem wf : WF s' := by
  induction hc with
  | refl => exact h
  | tail _ he ih => exact he.wf ih

theorem later : Later s s' := by
  induction hc with
  | refl => exact Later.refl s
  | tail hc he ih => exact ih.trans (he.later (Chain.wf h hc))

theorem branches_eq {m : ℕ} {v : Option ℕ} (hm : (s.branches m none).isSome) (hv : v ≠ u) :
    s'.branches m v = s.branches m v := by
  induction hc with
  | refl => rfl
  | tail hc he ih => exact (he.branches_eq ((Chain.later h hc).committed hm) hv).trans ih

end

theorem sameFrame (hc : Chain K C u s s') : SameFrame s s' := by
  induction hc with
  | refl => exact SameFrame.refl s
  | tail _ he ih => exact ih.trans he.sameFrame

end Chain

end Voltha.Config
