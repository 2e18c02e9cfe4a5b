import Voltha.Config.Effects

/-!
# Making nodes

`_mknode` makes the nodes of a whole message, children before parents.  Nothing that was there
before changes (`Grown`), each new node has exactly one revision, and the lists of the keyed
fields have no key twice.  The effects it makes are those of `Effect`, whether it returns or
raises half way.
-/

namespace Voltha.Config

open List Function

variable {P : Proto} {K : ℕ → P.Data → Prop} {C : Rev P → Prop} {u : Option ℕ}

open State Act

/-- What making nodes leaves alone, and that a new node has one revision. -/
structure Grown (s s' : State P) : Prop where
  later : Later s s'
  branches : ∀ {m : ℕ} {v : Option ℕ}, m < s.nextNode → s'.branches m v = s.branches m v
  old_or_new : ∀ {r : Rev P}, s'.Has r → s.Has r ∨ s.nextNode ≤ r.node
  first : ∀ {r r' : Rev P}, s'.Has r → s'.Has r' → s.nextNode ≤ r.node → r.node = r'.node → r = r'
  rest : s' = { s with
    branches := s'.branches, objects := s'.objects, parent := s'.parent,
    nextRev := s'.nextRev, nextNode := s'.nextNode }

variable {s s₁ s₂ : State P} {children : String → List (Rev P)} {data : P.Data}
  {parent : Option (ℕ × String)}

theorem Grown.deferred (h : Grown s s₁) : s₁.deferred = s.deferred := by rw [h.rest]

theorem Grown.refl (h : WF s) : Grown s s where
  later := Later.refl s
  branches _ := rfl
  old_or_new hr := .inl hr
  first hr _ hn _ := absurd (h.node_lt hr) (Nat.not_lt.mpr hn)
  rest := rfl

theorem Grown.trans {s₃ : State P} (h : Grown s₁ s₂) (h' : Grown s₂ s₃) : Grown s₁ s₃ where
  later := h.later.trans h'.later
  branches hm := (h'.branches (lt_of_lt_of_le hm h.later.nextNode_le)).trans (h.branches hm)
  old_or_new hr := by
    rcases h'.old_or_new hr with hr | hr
    · exact h.old_or_new hr
    · exact .inr (h.later.nextNode_le.trans hr)
  first {r r'} hr hr' hn hnn := by
    by_cases hlt : r.node < s₂.nextNode
    · -- both were there before the second part
      have hr₂ := (h'.old_or_new hr).resolve_right (Nat.not_le.mpr hlt)
      have hr₂' := (h'.old_or_new hr').resolve_right (Nat.not_le.mpr (hnn ▸ hlt))
      exact h.first hr₂ hr₂' hn hnn
    · exact h'.first hr hr' (Nat.not_lt.mp hlt) hnn
  rest := by
    have h₂ := h.rest
    have h₃ := h'.rest
    rw [h₂] at h₃
    exact h₃

theorem Grown.born (h : WF s) (parent : Option (ℕ × String)) :
    Grown s (s.born parent) where
  later := WF.later_born s parent
  branches _ := rfl
  old_or_new hr := .inl hr
  first hr _ hn _ := absurd (h.node_lt hr) (Nat.not_lt.mpr hn)
  rest := rfl

variable {n : ℕ}

theorem Grown.seat (h : WF s) (hnew : ∀ r, s.Has r → r.node ≠ n) {s₀ : State P} (hs : Grown s₀ s)
    (hn : s₀.nextNode ≤ n) :
    Grown s₀ ((s.alloc (s.newRev n none data children)).seat (s.newRev n none data children)) where
  later := hs.later.trans (h.later_seat n data children)
  branches {m v} hm := by
    have hne : m ≠ n := by omega
    have hset := State.setBranch_of_ne (s.alloc (s.newRev n none data children)) (u := none)
      (v := v) (some ⟨none, [((s.newRev n none data children).hash, s.newRev n none data children)],
        s.newRev n none data children⟩) (.inl hne)
    exact hset.trans (hs.branches hm)
  old_or_new hr := by
    rcases h.has_alloc.mp hr with rfl | hr
    · exact .inr hn
    · exact hs.old_or_new hr
  first hr hr' hlt hnn := by
    rcases h.has_alloc.mp hr with rfl | hr
    · rcases h.has_alloc.mp hr' with rfl | hr'
      · rfl
      · exact absurd hnn.symm (hnew _ hr')
    · rcases h.has_alloc.mp hr' with rfl | hr'
      · exact absurd hnn (hnew _ hr)
      · exact hs.first hr hr' hlt hnn
  rest := by
    have hrest := hs.rest
    rw [hrest]
    rfl

/-- The first revision of a node that was made since `s`. -/
structure Kid (s s' : State P) (parent : Option (ℕ × String)) (e : Rev P) : Prop where
  has : s'.Has e
  txid : e.txid = none
  new : s.nextNode ≤ e.node
  parent : s'.parent e.node = parent
  committed : (s'.branches e.node none).isSome

theorem Kid.later {e : Rev P} (h : WF s₁) (hl : Later s₁ s₂) (he : Kid s s₁ parent e) :
    Kid s s₂ parent e :=
  ⟨hl.has he.has, he.txid, he.new, (hl.parent (h.node_lt he.has)).trans he.parent,
    hl.committed he.committed⟩

theorem Kid.earlier {s₀ s' : State P} {e : Rev P} (hl : s₀.nextNode ≤ s.nextNode)
    (he : Kid s s' parent e) : Kid s₀ s' parent e :=
  ⟨he.has, he.txid, hl.trans he.new, he.parent, he.committed⟩

/-- The parent is a node that was made before. -/
def ParentLt (s : State P) (parent : Option (ℕ × String)) : Prop :=
  ∀ p f, parent = some (p, f) → p < s.nextNode

theorem ParentLt.later {s' : State P} (h : ParentLt s parent) (hl : Later s s') :
    ParentLt s' parent :=
  fun p f hp => lt_of_lt_of_le (h p f hp) hl.nextNode_le

variable (K C u) in
/-- The step makes a node with data `d` for a field of `parent`. -/
def Makes (d : P.Data) (parent : Option (ℕ × String)) (make : M P (Rev P)) : Prop :=
  ∀ s, WF s → ParentLt s parent → wp make s fun r s' =>
    Chain K C u s s' ∧ Grown s s' ∧
      ∀ rev, r = .ok rev → Kid s s' parent rev ∧ rev.node = s.nextNode ∧ rev.data = d

variable (K C u) in
/-- What the list of one new field is. -/
def MakesList (parent : Option (ℕ × String)) (make : M P (List (Rev P)))
    (Q : List (Rev P) → Prop) : Prop :=
  ∀ s, WF s → ParentLt s parent → wp make s fun r s' =>
    Chain K C u s s' ∧ Grown s s' ∧ ∀ revs, r = .ok revs →
      (∀ e ∈ revs, Kid s s' parent e) ∧ (revs.map Rev.node).Nodup ∧ Q revs

/-- One node made before the nodes of a list. -/
theorem kids_cons {rev : Rev P} {revs : List (Rev P)} (h₁ : WF s₁) (hg₁ : Grown s s₁)
    (hg₂ : Grown s₁ s₂) (hrev : Kid s s₁ parent rev) (hrevs : ∀ e ∈ revs, Kid s₁ s₂ parent e)
    (hnodup : (revs.map Rev.node).Nodup) :
    (∀ e ∈ rev :: revs, Kid s s₂ parent e) ∧ ((rev :: revs).map Rev.node).Nodup := by
  refine ⟨?_, ?_⟩
  · intro e he
    rcases mem_cons.mp he with rfl | he
    · exact hrev.later h₁ hg₂.later
    · exact (hrevs e he).earlier hg₁.later.nextNode_le
  · rw [map_cons, nodup_cons]
    refine ⟨?_, hnodup⟩
    intro hmem
    obtain ⟨e, he, hnode⟩ := mem_map.mp hmem
    have hlt := h₁.node_lt hrev.has
    have hnew := (hrevs e he).new
    omega

/-- The nodes of a list without a key. -/
theorem initList_makes :
    ∀ {makers : Makers P}, (∀ x ∈ makers, Makes K C u x.1 parent x.2) →
      MakesList K C u parent (initList makers) fun _ => True
  | [], _ => fun s hs _ => by
    refine ⟨Relation.ReflTransGen.refl, Grown.refl hs, ?_⟩
    rintro revs hrevs
    cases hrevs
    exact ⟨nofun, nodup_nil, trivial⟩
  | (d, make) :: rest, hmk => fun s hs hp => by
    rw [initList, wp_bind]
    refine wp_mono (hmk (d, make) mem_cons_self s hs hp) ?_
    rintro (e | rev) s₁ ⟨hc₁, hg₁, hr₁⟩
    · exact ⟨hc₁, hg₁, nofun⟩
    · obtain ⟨hkid, -, -⟩ := hr₁ rev rfl
      have hs₁ := Chain.wf hs hc₁
      rw [seqPost_ok, wp_bind]
      refine wp_mono (initList_makes (fun x hx => hmk x (mem_cons_of_mem _ hx)) s₁ hs₁
        (hp.later hg₁.later)) ?_
      rintro (e | revs) s₂ ⟨hc₂, hg₂, hr₂⟩
      · exact ⟨hc₁.trans hc₂, hg₁.trans hg₂, nofun⟩
      · obtain ⟨hkids, hnodup, -⟩ := hr₂ revs rfl
        refine ⟨hc₁.trans hc₂, hg₁.trans hg₂, ?_⟩
        rintro all hall
        cases hall
        obtain ⟨h₁, h₂⟩ := kids_cons hs₁ hg₁ hg₂ hkid hkids hnodup
        exact ⟨h₁, h₂, trivial⟩

/-- The nodes of a keyed list: no key twice, and none of those seen before. -/
theorem initKeyed_makes (key : String) :
    ∀ {makers : Makers P} (seen : List P.Val), (∀ x ∈ makers, Makes K C u x.1 parent x.2) →
      MakesList K C u parent (initKeyed key seen makers) fun revs =>
        ∃ ks, keysOf key revs = .ok ks ∧ ks.Nodup ∧ ∀ k ∈ ks, k ∉ seen
  | [], seen, _ => fun s hs _ => by
    refine ⟨Relation.ReflTransGen.refl, Grown.refl hs, ?_⟩
    rintro revs hrevs
    cases hrevs
    exact ⟨nofun, nodup_nil, [], rfl, nodup_nil,
      nofun⟩
  | (d, make) :: rest, seen, hmk => fun s hs hp => by
    rw [initKeyed, wp_bind]
    refine wp_mono (hmk (d, make) mem_cons_self s hs hp) ?_
    rintro (e | rev) s₁ ⟨hc₁, hg₁, hr₁⟩
    · exact ⟨hc₁, hg₁, nofun⟩
    · obtain ⟨hkid, -, hd⟩ := hr₁ rev rfl
      have hs₁ := Chain.wf hs hc₁
      rw [seqPost_ok]
      have hd' : rev.data = d := hd
      rcases hk : P.getattr d key with _ | k
      · exact ⟨hc₁, hg₁, nofun⟩
      · by_cases hseen : k ∈ seen
        · simp only [hseen, if_true]
          exact ⟨hc₁, hg₁, nofun⟩
        · simp only [hseen, if_false]
          rw [wp_bind]
          refine wp_mono (initKeyed_makes key (k :: seen)
            (fun x hx => hmk x (mem_cons_of_mem _ hx)) s₁ hs₁ (hp.later hg₁.later)) ?_
          rintro (e | revs) s₂ ⟨hc₂, hg₂, hr₂⟩
          · exact ⟨hc₁.trans hc₂, hg₁.trans hg₂, nofun⟩
          · obtain ⟨hkids, hnodup, ks, hks, hksn, hkseen⟩ := hr₂ revs rfl
            refine ⟨hc₁.trans hc₂, hg₁.trans hg₂, ?_⟩
            rintro all hall
            cases hall
            obtain ⟨h₁, h₂⟩ := kids_cons hs₁ hg₁ hg₂ hkid hkids hnodup
            refine ⟨h₁, h₂, k :: ks, ?_, ?_, ?_⟩
            · rw [keysOf, hd', hk, hks]
            · exact nodup_cons.mpr
                ⟨fun hmem => hkseen k hmem mem_cons_self, hksn⟩
            · intro k' hk'
              rcases mem_cons.mp hk' with rfl | hk'
              · exact hseen
              · exact fun hmem => hkseen k' hk' (mem_cons_of_mem _ hmem)

/-- The lists made so far for the first revision of node `n`, from state `s`. -/
structure Filled (s s' : State P) (n : ℕ) (data : P.Data) (children : String → List (Rev P)) :
    Prop where
  kid : ∀ {f : String} {e : Rev P}, e ∈ children f → Kid s s' (some (n, f)) e
  names : ∀ f, f ∉ P.names (P.typeOf data) → children f = []
  nodes : ∀ f, ((children f).map Rev.node).Nodup
  keys : ∀ {f key : String} {field : ChildType P.Cls P.Val}
    {keyFromStr : String → Except String P.Val}, P.field (P.typeOf data) f = some field →
    field.kind = .keyed key keyFromStr → ∃ ks, keysOf key (children f) = .ok ks ∧ ks.Nodup

theorem Filled.update (h₁ : WF s₁) (hl : Later s₁ s₂) (h : Filled s s₁ n data children) {f : String}
    {field : ChildType P.Cls P.Val} (hfield : P.field (P.typeOf data) f = some field)
    {revs : List (Rev P)} (hkids : ∀ e ∈ revs, Kid s s₂ (some (n, f)) e)
    (hnodup : (revs.map Rev.node).Nodup)
    (hkeys : ∀ {key keyFromStr}, field.kind = .keyed key keyFromStr →
      ∃ ks, keysOf key revs = .ok ks ∧ ks.Nodup) :
    Filled s s₂ n data (Function.update children f revs) where
  kid {g e} he := by
    by_cases hg : g = f
    · subst hg
      rw [update_self] at he
      exact hkids e he
    · rw [update_of_ne hg] at he
      exact (h.kid he).later h₁ hl
  names g hg := by
    have hne : g ≠ f := by
      rintro rfl
      exact hg (P.mem_names_of_field hfield)
    rw [update_of_ne hne]
    exact h.names g hg
  nodes g := by
    by_cases hg : g = f
    · subst hg
      rw [update_self]
      exact hnodup
    · rw [update_of_ne hg]
      exact h.nodes g
  keys {g key field' keyFromStr} hf' hkind := by
    by_cases hg : g = f
    · subst hg
      rw [update_self]
      rw [hfield, Option.some.injEq] at hf'
      subst hf'
      exact hkeys hkind
    · rw [update_of_ne hg]
      exact h.keys hf' hkind

/-- The nodes of one child field. -/
theorem initField_makes {makers : String → Option (ℕ × String) → Makers P}
    (hmk : ∀ f p, ∀ x ∈ makers f p, Makes K C u x.1 p x.2) (h₁ : WF s₁) (hn : n < s₁.nextNode)
    (hg : Grown s s₁) (hfill : Filled s s₁ n data children) {field : String × ChildType P.Cls P.Val}
    (hfield : P.field (P.typeOf data) field.1 = some field.2) :
    wp (initField n makers children field) s₁ fun r s₂ =>
      Chain K C u s₁ s₂ ∧ Grown s s₂ ∧ ∀ children', r = .ok children' →
        Filled s s₂ n data children' := by
  obtain ⟨f, field⟩ := field
  have hp : ParentLt s₁ (some (n, f)) := by
    intro p g hpg
    cases hpg
    exact hn
  -- whatever makes the list, its revisions become the list of the field
  have key : ∀ {make : M P (List (Rev P))} {Q : List (Rev P) → Prop},
      MakesList K C u (some (n, f)) make Q →
      (∀ {revs key keyFromStr}, Q revs → field.kind = .keyed key keyFromStr →
        ∃ ks, keysOf key revs = .ok ks ∧ ks.Nodup) →
      wp (make >>= fun revs => pure (Function.update children f revs)) s₁ fun r s₂ =>
        Chain K C u s₁ s₂ ∧ Grown s s₂ ∧ ∀ children', r = .ok children' →
          Filled s s₂ n data children' := by
    intro make Q hmake hQ
    rw [wp_bind]
    refine wp_mono (hmake s₁ h₁ hp) ?_
    rintro (e | revs) s₂ ⟨hc₂, hg₂, hr₂⟩
    · exact ⟨hc₂, hg.trans hg₂, nofun⟩
    · obtain ⟨hkids, hnodup, hq⟩ := hr₂ revs rfl
      refine ⟨hc₂, hg.trans hg₂, ?_⟩
      rintro children' hch
      cases hch
      exact hfill.update h₁ hg₂.later hfield
        (fun e he => (hkids e he).earlier hg.later.nextNode_le) hnodup fun hk => hQ hq hk
  unfold initField
  rcases hkind : field.kind with _ | _ | ⟨keyName, keyFromStr⟩
  · refine key (initList_makes fun x hx => hmk f _ x (mem_of_mem_take hx)) ?_
    intro revs key' kfs _ hk
    exact absurd (hkind.symm.trans hk) (by simp)
  · refine key (initList_makes fun x hx => hmk f _ x hx) ?_
    intro revs key' kfs _ hk
    exact absurd (hkind.symm.trans hk) (by simp)
  · refine key (initKeyed_makes keyName [] fun x hx => hmk f _ x hx) ?_
    rintro revs key' kfs ⟨ks, hks, hksn, -⟩ hk
    rw [hkind, Kind.keyed.injEq] at hk
    exact ⟨ks, hk.1 ▸ hks, hksn⟩

/-- **`_initialize`.** -/
theorem initNode_makes {makers : String → Option (ℕ × String) → Makers P}
    (hmk : ∀ f p, ∀ x ∈ makers f p, Makes K C u x.1 p x.2) :
    Makes K C u data parent (initNode data parent makers) := by
  intro s hs hp
  have hborn : Effect K C u s (s.born parent) := Effect.born hp
  have hs₁ := hborn.wf hs
  have hg₁ := Grown.born hs parent
  -- the loop over the fields: the chain, what it leaves alone, and the lists so far
  have hloop := wp_foldlM (f := initField s.nextNode makers)
    (I := fun rest children s₂ => (∀ x ∈ rest, x ∈ P.childrenFields (P.typeOf data)) ∧
      Chain K C u (s.born parent) s₂ ∧ Grown (s.born parent) s₂ ∧
      Filled (s.born parent) s₂ s.nextNode data children)
    (E := fun _ s₂ => Chain K C u (s.born parent) s₂ ∧ Grown (s.born parent) s₂)
    (fun field rest children s₂ ⟨hrest, hc, hg, hfill⟩ => by
      have hs₂ := Chain.wf hs₁ hc
      have hfield := P.field_eq_some.mpr (hrest field mem_cons_self)
      have hn : s.nextNode < s₂.nextNode :=
        lt_of_lt_of_le (Nat.lt_succ_self _) hg.later.nextNode_le
      refine wp_mono (initField_makes hmk hs₂ hn hg hfill hfield) ?_
      rintro (e | children') s₃ ⟨hc₃, hg₃, hr₃⟩
      · exact ⟨hc.trans hc₃, hg₃⟩
      · exact ⟨fun x hx => hrest x (mem_cons_of_mem _ hx), hc.trans hc₃, hg₃,
          hr₃ children' rfl⟩)
    (P.childrenFields (P.typeOf data)) (fun _ => []) (s.born parent)
    ⟨fun x hx => hx, Relation.ReflTransGen.refl, Grown.refl hs₁,
      { kid := fun he => absurd he not_mem_nil
        names := fun _ _ => rfl
        nodes := fun _ => nodup_nil
        keys := fun _ _ => ⟨[], rfl, nodup_nil⟩ }⟩
  unfold initNode newNode
  simp only [wp_bind, wp_read, wp_modify, wp_pure, seqPost_ok]
  refine wp_mono hloop ?_
  rintro (e | children) s₂ hpost
  · exact ⟨(Relation.ReflTransGen.single hborn).trans hpost.1, hg₁.trans hpost.2,
      by rintro _ ⟨⟩⟩
  · obtain ⟨-, hc, hg, hfill⟩ := hpost
    have hc₂ : Chain K C u s s₂ := (Relation.ReflTransGen.single hborn).trans hc
    have hg₂ : Grown s s₂ := hg₁.trans hg
    have hs₂ := Chain.wf hs₁ hc
    have hn : s.nextNode < s₂.nextNode :=
      lt_of_lt_of_le (Nat.lt_succ_self _) hg.later.nextNode_le
    -- the node itself has no revision and no branch yet
    have hnew : ∀ r, s₂.Has r → r.node ≠ s.nextNode := by
      intro r hr hnode
      rcases hg.old_or_new hr with hr | hr
      · exact absurd (hs.node_lt hr) (by omega)
      · rw [born_nextNode] at hr
        omega
    have hnone : ∀ v, s₂.branches s.nextNode v = none := by
      intro v
      rw [hg.branches (Nat.lt_succ_self _), born_branches]
      rcases hb : s.branches s.nextNode v with _ | b
      · rfl
      · exact absurd (hs.lt_nextNode hb) (Nat.lt_irrefl _)
    unfold mkRev
    simp only [seqPost_ok, wp_bind, wp_read]
    by_cases hun : s₂.unhashed data children = true
    · rw [if_pos hun]
      exact ⟨hc₂, hg₂, by rintro _ ⟨⟩⟩
    · rw [if_neg hun]
      have hfits : s₂.Fits s.nextNode data children :=
        { node_lt := hn
          cls := fun hr hnode => absurd hnode (hnew _ hr)
          names := hfill.names
          entry := fun he => ⟨(hfill.kid he).has, (hfill.kid he).parent, (hfill.kid he).committed⟩ }
      have hfresh : Fresh s₂ data children :=
        { txid := fun he => (hfill.kid he).txid
          first := fun he hr hnode =>
            hg.first hr (hfill.kid he).has (hnode ▸ (hfill.kid he).new) hnode
          keys := fun hf hk => hfill.keys hf hk
          nodes := hfill.nodes }
      have hseat : Effect K C u s₂ ((s₂.alloc (s₂.newRev s.nextNode none data children)).seat
          (s₂.newRev s.nextNode none data children)) :=
        Effect.seated hfits hnone hnew (Bool.eq_false_iff.mpr hun) hfresh
      refine ⟨hc₂.tail hseat, Grown.seat hs₂ hnew hg₂ le_rfl, ?_⟩
      rintro rev hrev
      cases hrev
      have hl := hseat.later hs₂
      refine ⟨⟨hs₂.has_alloc.mpr (.inl rfl), rfl, le_rfl, ?_, ?_⟩, rfl, rfl⟩
      · have hpar := (hg.later.trans hl).parent (c := s.nextNode) (Nat.lt_succ_self _)
        rw [born_parent, if_pos rfl] at hpar
        exact hpar
      · exact Option.isSome_of_eq_some (State.setBranch_self _ _ _ _)

mutual

/-- **`_mknode`.** -/
theorem mknode_makes : ∀ (m : Msg P) (parent : Option (ℕ × String)),
    Makes K C u m.data parent (mknode m parent)
  | .mk data children hasField, parent => by
    rw [mknode]
    exact initNode_makes fun f p => makers_make (children f) p

theorem makers_make : ∀ (ms : List (Msg P)) (parent : Option (ℕ × String)),
    ∀ x ∈ makers ms parent, Makes K C u x.1 parent x.2
  | [], parent, x, hx => by
    rw [makers] at hx
    exact absurd hx not_mem_nil
  | m :: ms, parent, x, hx => by
    rw [makers] at hx
    rcases mem_cons.mp hx with rfl | hx
    · exact mknode_makes m parent
    · exact makers_make ms parent x hx

end

end Voltha.Config
