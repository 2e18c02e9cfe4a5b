import Voltha.Config.Births

/-!
# What a write does, as a relation

`update`, `add` and `remove` have the same shape.  They descend along a path, and at each node
they find or make the branch of their transaction; at the target they make one revision; and on
the way back each node makes a revision that lists the new one of its child, unless the child's
hash did not change.  An exception stops this at any point and undoes nothing.

`Write` says this once, as a relation between the state before, the outcome and the state after,
with one case for each way a call can go.  `update_write`, `add_write` and `remove_write`
derive it from the code; results about writes are inductions over it.

* `walk`: the child revisions that `update` passes on its path, with what it finds there.
* `Write.chain`: a write is a chain of elementary effects, it leaves the nodes made before
  the one it is called on alone, and `Result` describes what it returns.
-/

namespace Voltha.Config

open List

variable {P : Proto}

open State Act

/-! ## The path of an update -/

/-- One step down a path: from the latest revision `head` of `node` to the revision `listed` in
one of its fields, which was found by its key if `addr` gives one; `below` is the latest
revision of the child's node on the branch. -/
structure Hop (P : Proto) where
  node : ℕ
  head : Rev P
  name : String
  addr : Option (String × P.Val)
  listed : Rev P
  below : Option (Rev P)

/-- The steps of `update` down its path; `none` if it raises on the way. -/
def walk (s : State P) (u : Option ℕ) : Path → ℕ → Option (List (Hop P))
  | [], _ => some []
  | name :: path, n =>
    if name = "" then walk s u path n
    else
      match s.headOf n u with
      | none => none
      | some r =>
        match P.field (P.typeOf r.data) name with
        | none => none
        | some field =>
          match field.kind with
          | .single =>
            match r.children name with
            | [] => none
            | e :: _ =>
              (walk s u path e.node).map (⟨n, r, name, none, e, s.headOf e.node u⟩ :: ·)
          | .list => none
          | .keyed key keyFromStr =>
            match path with
            | [] => none
            | keyStr :: rest =>
              if Path.isNil (keyStr :: rest) then none
              else
                match keyFromStr keyStr with
                | .error _ => none
                | .ok k =>
                  match findRevByKey (r.children name) key k with
                  | .error _ => none
                  | .ok found =>
                    (walk s u rest found.2.node).map
                      (⟨n, r, name, some (key, k), found.2, s.headOf found.2.node u⟩ :: ·)

/-- The node that the steps lead to. -/
def target (n : ℕ) (hops : List (Hop P)) : ℕ := (hops.getLast?.map fun h => h.listed.node).getD n

theorem target_cons (n : ℕ) (hop : Hop P) (hops : List (Hop P)) :
    target n (hop :: hops) = target hop.listed.node hops := by
  unfold target
  rcases hops with _ | ⟨hop', hops⟩
  · rfl
  · rw [getLast?_cons_cons, getLast?_cons]
    rfl

/-- The walk reads the latest revisions only. -/
theorem walk_congr {s s' : State P} {u : Option ℕ} (h : ∀ m, s'.headOf m u = s.headOf m u) :
    ∀ (path : Path) (n : ℕ), walk s' u path n = walk s u path n
  | [], _ => by rw [walk, walk]
  | name :: path, n => by
    rw [walk, walk]
    split
    · exact walk_congr h path n
    · rw [h]
      rcases s.headOf n u with _ | r
      · rfl
      · dsimp only
        rcases P.field (P.typeOf r.data) name with _ | field
        · rfl
        · dsimp only
          rcases field.kind with _ | _ | ⟨key, keyFromStr⟩
          · dsimp only
            rcases r.children name with _ | ⟨e, l⟩
            · rfl
            · dsimp only
              rw [walk_congr h path e.node, h]
          · rfl
          · rcases path with _ | ⟨keyStr, rest⟩
            · rfl
            · dsimp only
              split
              · rfl
              · rcases keyFromStr keyStr with _ | k
                · rfl
                · dsimp only
                  rcases findRevByKey (r.children name) key k with _ | found
                  · rfl
                  · dsimp only
                    rw [walk_congr h rest found.2.node, h]

/-! ## Finding a child by its key -/

theorem findRevByKeyFrom_ok {key : String} {k : P.Val} :
    ∀ {l : List (Rev P)} {i j : ℕ} {e : Rev P}, findRevByKeyFrom key k i l = .ok (j, e) →
      i ≤ j ∧ l[j - i]? = some e ∧ P.getattr e.data key = some k
  | [], i, j, e, h => by
    rw [findRevByKeyFrom] at h
    cases h
  | rev :: l, i, j, e, h => by
    rw [findRevByKeyFrom] at h
    rcases hv : P.getattr rev.data key with _ | v
    · rw [hv] at h
      cases h
    · rw [hv] at h
      dsimp only at h
      split at h
      · next hvk =>
        cases h
        rw [Nat.sub_self, getElem?_cons_zero]
        exact ⟨le_rfl, rfl, hvk ▸ hv⟩
      · obtain ⟨hij, hget, hkey⟩ := findRevByKeyFrom_ok h
        refine ⟨by omega, ?_, hkey⟩
        rw [show j - i = (j - (i + 1)) + 1 by omega, getElem?_cons_succ]
        exact hget

/-- The child that is found stands at its index and has the key. -/
theorem findRevByKey_ok {l : List (Rev P)} {key : String} {k : P.Val} {found : ℕ × Rev P}
    (h : findRevByKey l key k = .ok found) :
    l[found.1]? = some found.2 ∧ P.getattr found.2.data key = some k := by
  obtain ⟨j, e⟩ := found
  obtain ⟨-, hget, hkey⟩ := findRevByKeyFrom_ok h
  rw [Nat.sub_zero] at hget
  exact ⟨hget, hkey⟩

/-- A key that is not found is not there. -/
theorem findRevByKey_error {l : List (Rev P)} {key text : String} {k : P.Val}
    (h : findRevByKey l key k = .error (.keyError text)) :
    ∀ e ∈ l, P.getattr e.data key ≠ some k := by
  have hfrom : ∀ (l : List (Rev P)) (i : ℕ),
      findRevByKeyFrom key k i l = .error (.keyError text) →
        ∀ e ∈ l, P.getattr e.data key ≠ some k := by
    intro l
    induction l with
    | nil => exact nofun
    | cons rev l ih =>
      intro i h e he hk
      rw [findRevByKeyFrom] at h
      rcases hv : P.getattr rev.data key with _ | v
      · rw [hv] at h
        cases h
      · rw [hv] at h
        dsimp only at h
        split at h
        · cases h
        · next hne =>
          rcases mem_cons.mp he with rfl | he
          · rw [hv] at hk
            exact hne (Option.some.inj hk)
          · exact ih (i + 1) h e he hk
  exact hfrom l 0 h

/-- What is known of a step down a path. -/
structure Hop.Valid (s : State P) (u : Option ℕ) (hop : Hop P) : Prop where
  head : s.headOf hop.node u = some hop.head
  below : hop.below = s.headOf hop.listed.node u
  found : ∃ field, P.field (P.typeOf hop.head.data) hop.name = some field ∧
    (field.kind = .single ∧ hop.addr = none ∧
        (∃ rest, hop.head.children hop.name = hop.listed :: rest) ∨
      ∃ key keyFromStr k i, field.kind = .keyed key keyFromStr ∧ hop.addr = some (key, k) ∧
        findRevByKey (hop.head.children hop.name) key k = .ok (i, hop.listed))

variable {s s' s₁ s₂ : State P} {K : ℕ → P.Data → Prop} {C : Rev P → Prop} {n : ℕ}
  {u : Option ℕ} {b : Branch P}

theorem Hop.Valid.mem {hop : Hop P} (h : hop.Valid s u) :
    hop.listed ∈ hop.head.children hop.name := by
  obtain ⟨field, -, ⟨-, -, rest, hch⟩ | ⟨key, keyFromStr, k, i, -, -, hfound⟩⟩ := h.found
  · rw [hch]
    exact mem_cons_self
  · exact mem_of_getElem? (findRevByKey_ok hfound).1

/-- The steps from node `n` on follow each other. -/
inductive Walks (s : State P) (u : Option ℕ) : ℕ → List (Hop P) → Prop where
  | nil {n : ℕ} : Walks s u n []
  | cons {hop : Hop P} {hops : List (Hop P)} : hop.Valid s u →
      Walks s u hop.listed.node hops → Walks s u hop.node (hop :: hops)

theorem walk_walks (s : State P) (u : Option ℕ) :
    ∀ (path : Path) (n : ℕ) {hops : List (Hop P)}, walk s u path n = some hops →
      Walks s u n hops
  | [], n, hops, h => by
    rw [walk] at h
    cases h
    exact Walks.nil
  | name :: path, n, hops, h => by
    rw [walk] at h
    split at h
    · exact walk_walks s u path n h
    · split at h
      · cases h
      · next r hr =>
        split at h
        · cases h
        · next field hfield =>
          split at h
          · next hkind =>
            split at h
            · cases h
            · next e l hch =>
              obtain ⟨hops', hwalk, rfl⟩ := Option.map_eq_some_iff.mp h
              have hvalid : Hop.Valid s u ⟨n, r, name, none, e, s.headOf e.node u⟩ :=
                ⟨hr, rfl, field, hfield, .inl ⟨hkind, rfl, l, hch⟩⟩
              exact Walks.cons hvalid (walk_walks s u path e.node hwalk)
          · cases h
          · next key keyFromStr hkind =>
            rcases path with _ | ⟨keyStr, rest⟩
            · cases h
            · dsimp only at h
              split at h
              · cases h
              · split at h
                · cases h
                · next k _ =>
                  split at h
                  · cases h
                  · next found hfound =>
                    obtain ⟨hops', hwalk, rfl⟩ := Option.map_eq_some_iff.mp h
                    have hvalid : Hop.Valid s u
                        ⟨n, r, name, some (key, k), found.2, s.headOf found.2.node u⟩ :=
                      ⟨hr, rfl, field, hfield,
                        .inr ⟨key, keyFromStr, k, found.1, hkind, rfl, hfound⟩⟩
                    exact Walks.cons hvalid (walk_walks s u rest found.2.node hwalk)

theorem walk_valid (s : State P) (u : Option ℕ) (path : Path) (n : ℕ) {hops : List (Hop P)}
    (h : walk s u path n = some hops) : ∀ hop ∈ hops, hop.Valid s u := by
  have hwalks := walk_walks s u path n h
  clear h
  induction hwalks with
  | nil => exact nofun
  | cons hvalid _ ih => exact forall_mem_cons.mpr ⟨hvalid, ih⟩

/-! ## Preparations -/

/-- `openBranch` has found the branch `b` or made it. -/
inductive Opened (n : ℕ) (u : Option ℕ) (s : State P) : Branch P → State P → Prop where
  | found {b : Branch P} : s.branches n u = some b → Opened n u s b s
  | forked {t : ℕ} {c : Branch P} {dirty : List ℕ} : u = some t → s.branches n u = none →
      s.branches n none = some c → s.dirtyNodes t = some dirty →
      Opened n u s ⟨some c.latest, [], c.latest⟩ (s.fork n t c.latest dirty)

variable {m : ℕ} {name : String} {e : Rev P} {r : Except Err (Rev P)}

namespace Opened

variable (h : Opened n u s b s₁)
include h

theorem branch : s₁.branches n u = some b := by
  cases h with
  | found hb => exact hb
  | forked hu _ _ _ =>
    subst hu
    exact s.setBranch_self _ _ _

theorem effects : Chain K C u s s₁ := by
  cases h with
  | found _ => exact Relation.ReflTransGen.refl
  | forked hu hnone hc hd =>
    subst hu
    exact Relation.ReflTransGen.single (Effect.forked rfl hc hnone hd)

theorem branches_of_ne (hm : m ≠ n) (v : Option ℕ) : s₁.branches m v = s.branches m v := by
  cases h with
  | found _ => rfl
  | forked _ _ _ _ => exact s.setBranch_of_ne _ (.inl hm)

/-- Making a branch does not change what any branch of any node shows. -/
theorem headOf_eq (m : ℕ) (v : Option ℕ) : s₁.headOf m v = s.headOf m v := by
  cases h with
  | found _ => rfl
  | @forked t c dirty hu hnone hc _ =>
    subst hu
    unfold headOf
    by_cases hm : m = n
    · subst hm
      have hcom : (s.fork m t c.latest dirty).branches m none = s.branches m none :=
        s.setBranch_of_ne _ (.inr (by simp))
      rw [hcom]
      by_cases hv : v = some t
      · subst hv
        rw [hnone, hc, show (s.fork m t c.latest dirty).branches m (some t) = some
          ⟨some c.latest, [], c.latest⟩ from s.setBranch_self _ _ _]
        rfl
      · rw [show (s.fork m t c.latest dirty).branches m v = s.branches m v from
          s.setBranch_of_ne _ (.inr hv)]
    · rw [show ∀ w, (s.fork n t c.latest dirty).branches m w = s.branches m w from fun w =>
        s.setBranch_of_ne _ (.inl hm)]
      rw [show (s.fork n t c.latest dirty).branches m none = s.branches m none from
        s.setBranch_of_ne _ (.inl hm)]

theorem headOf : s.headOf n u = some b.latest := by
  rw [← h.headOf_eq]
  unfold State.headOf
  rw [h.branch]
  rfl

theorem rest : s₁ = { s with branches := s₁.branches, dirtyNodes := s₁.dirtyNodes } := by
  cases h with
  | found _ => rfl
  | forked _ _ _ _ => rfl

end Opened

theorem openBranch_wp (n : ℕ) (u : Option ℕ) (s : State P) :
    wp (openBranch n u) s fun r s' => match r with
      | .ok b => Opened n u s b s'
      | .error _ => s' = s := by
  unfold openBranch
  simp only [wp_bind, wp_read, seqPost_ok]
  rcases hb : s.branches n u with _ | b
  · rcases u with _ | t
    · rfl
    · dsimp only
      unfold trackDirty
      simp only [wp_bind, wp_read, seqPost_ok]
      rcases hd : s.dirtyNodes t with _ | dirty
      · rfl
      · rcases hc : s.branches n none with _ | c
        · rfl
        · simp only [wp_bind, wp_modify, seqPost_ok, wp_pure]
          exact Opened.forked rfl hb hc hd
  · exact Opened.found hb

/-- Calls of `PRE_*` callbacks were made. -/
def Called (s s' : State P) : Prop :=
  ∃ l : List (Delivery P), (∀ d ∈ l, d.isPre) ∧ s' = { s with log := s.log ++ l }

theorem Called.refl (s : State P) : Called s s :=
  ⟨[], nofun, by rw [append_nil]⟩

theorem Called.trans {s₃ : State P} (h : Called s₁ s₂) (h' : Called s₂ s₃) : Called s₁ s₃ := by
  obtain ⟨l, hl, rfl⟩ := h
  obtain ⟨l', hl', rfl⟩ := h'
  refine ⟨l ++ l', ?_, ?_⟩
  · intro d hd
    rcases mem_append.mp hd with hd | hd
    · exact hl d hd
    · exact hl' d hd
  · rw [append_assoc]

theorem Called.effects (h : Called s s') : Chain K C u s s' := by
  obtain ⟨l, hl, rfl⟩ := h
  exact Relation.ReflTransGen.single (Effect.called hl)

theorem Called.rest (h : Called s s') : s' = { s with log := s'.log } := by
  obtain ⟨l, -, rfl⟩ := h
  rfl

theorem callOne_wp {type : CallbackType} (ht : type.isPre = true) (ctx : Context P)
    (cb : Callback P) (s : State P) : wp (callOne n type ctx cb) s fun _ s' => Called s s' := by
  have hc : Called s { s with log := s.log ++ [.called n type ctx] } := by
    refine ⟨[.called n type ctx], ?_, rfl⟩
    intro d hd
    rw [mem_singleton.mp hd]
    exact ht
  unfold callOne
  simp only [wp_bind, wp_modify, seqPost_ok]
  rcases cb ctx with e | ctx'
  · exact hc
  · exact hc

theorem invokeCallbacks_wp {type : CallbackType} (ht : type.isPre = true) (ctx : Context P)
    (s : State P) : wp (invokeCallbacks n type ctx) s fun _ s' => Called s s' := by
  unfold invokeCallbacks
  simp only [wp_bind, wp_read, seqPost_ok]
  have hloop := wp_foldlM (f := callOne n type) (I := fun _ _ s' => Called s s')
    (E := fun _ s' => Called s s')
    (fun cb _ ctx s₁ h => by
      refine wp_mono (callOne_wp ht ctx cb s₁) ?_
      rintro (e | ctx') s₂ h'
      · exact h.trans h'
      · exact h.trans h')
    (s.callbacksOf n type) ctx s (Called.refl s)
  refine wp_mono hloop ?_
  rintro (e | ctx') s' h
  · exact h
  · exact h

/-- The branch is there and the callbacks were called: the node is ready for a new revision. -/
def Ready (n : ℕ) (u : Option ℕ) (s : State P) (b : Branch P) (s' : State P) : Prop :=
  ∃ s₁, Opened n u s b s₁ ∧ Called s₁ s'

theorem Opened.ready (h : Opened n u s b s₁) : Ready n u s b s₁ :=
  ⟨s₁, h, Called.refl s₁⟩

namespace Ready

variable (h : Ready n u s b s₁)
include h

theorem rest :
    s₁ = { s with branches := s₁.branches, dirtyNodes := s₁.dirtyNodes, log := s₁.log } := by
  obtain ⟨s', ho, hc⟩ := h
  have h₁ := hc.rest
  rw [ho.rest] at h₁
  rw [h₁]

theorem branches_eq : ∃ s', Opened n u s b s' ∧
    s₁.branches = s'.branches := by
  obtain ⟨s', ho, hc⟩ := h
  exact ⟨s', ho, by rw [hc.rest]⟩

theorem branch : s₁.branches n u = some b := by
  obtain ⟨s', ho, hb⟩ := h.branches_eq
  rw [hb]
  exact ho.branch

theorem branches_of_ne (hm : m ≠ n) (v : Option ℕ) : s₁.branches m v = s.branches m v := by
  obtain ⟨s', ho, hb⟩ := h.branches_eq
  rw [hb]
  exact ho.branches_of_ne hm v

theorem headOf_eq (m : ℕ) (v : Option ℕ) : s₁.headOf m v = s.headOf m v := by
  obtain ⟨s', ho, hb⟩ := h.branches_eq
  rw [← ho.headOf_eq]
  unfold State.headOf
  rw [hb]

theorem headOf : s.headOf n u = some b.latest := by
  obtain ⟨s', ho, -⟩ := h.branches_eq
  exact ho.headOf

theorem cleared : s₁.cleared = s.cleared := by rw [h.rest]

theorem deferred : s₁.deferred = s.deferred := by rw [h.rest]

theorem effects : Chain K C u s s₁ := by
  obtain ⟨s', ho, hc⟩ := h
  exact ho.effects.trans hc.effects

theorem wf (hs : WF s) : WF s₁ :=
  Chain.wf hs (h.effects (K := fun _ _ => True) (C := fun _ => True))

/-- The child that a write descends to. -/
theorem entry (hs : WF s) (he : e ∈ b.latest.children name) : s₁.Entry n name e := by
  have hd := (h.wf hs).head h.branch
  exact hd.node ▸ (h.wf hs).child hd.has he

theorem lt_child (hs : WF s) (he : e ∈ b.latest.children name) : n < e.node :=
  (h.wf hs).parent_lt (h.entry hs he).parent

end Ready

/-! ## The relation -/

/-- A write to branch `u`, called on a node.  `K` holds of the data it writes and `H` of the
steps of its path that matter.  Only the target announces a change. -/
inductive Write (u : Option ℕ) (K : ℕ → P.Data → Prop) (H : Hop P → Prop) :
    ℕ → State P → Except Err (Rev P) → State P → Prop where
  /-- raised before anything was done -/
  | unopened {n : ℕ} {s : State P} (err : Err) : Write u K H n s (.error err) s
  /-- raised at this node, before a revision was made -/
  | failed {n : ℕ} {s s₁ : State P} {b : Branch P} (err : Err) : Ready n u s b s₁ →
      Write u K H n s (.error err) s₁
  /-- the data is that of the latest revision -/
  | same {n : ℕ} {s s₁ : State P} {b : Branch P} : Ready n u s b s₁ →
      Write u K H n s (.ok b.latest) s₁
  /-- new data -/
  | data {n : ℕ} {s s₁ : State P} {b : Branch P} {d : P.Data} {changes : Changes P} :
      changes.length ≤ 1 → Ready n u s b s₁ → P.typeOf d = P.typeOf b.latest.data → K n d →
      s₁.unhashed d b.latest.children = false →
      Write u K H n s (.ok (s₁.newRev b.latest.node u d b.latest.children))
        (s₁.install n u (s₁.newRev b.latest.node u d b.latest.children) changes)
  /-- a new child -/
  | added {n : ℕ} {s s₁ s₂ : State P} {b : Branch P} {name key text : String}
      {field : ChildType P.Cls P.Val} {keyFromStr : String → Except String P.Val} {k : P.Val}
      {m : Msg P} {c : Rev P} {changes : Changes P} : changes.length ≤ 1 → Ready n u s b s₁ →
      P.field (P.typeOf b.latest.data) name = some field → field.kind = .keyed key keyFromStr →
      P.getattr m.data key = some k →
      findRevByKey (b.latest.children name) key k = .error (.keyError text) →
      mknode m (some (n, name)) s₁ = (.ok c, s₂) →
      s₂.unhashed b.latest.data
        (Function.update b.latest.children name (b.latest.children name ++ [c])) = false →
      Write u K H n s
        (.ok (s₂.newRev b.latest.node u b.latest.data
          (Function.update b.latest.children name (b.latest.children name ++ [c]))))
        (s₂.install n u (s₂.newRev b.latest.node u b.latest.data
          (Function.update b.latest.children name (b.latest.children name ++ [c]))) changes)
  /-- raised after nodes for a new child were made -/
  | addFailed {n : ℕ} {s s₁ s₂ : State P} {b : Branch P} {name : String} {m : Msg P}
      {r : Except Err (Rev P)} (err : Err) : Ready n u s b s₁ →
      mknode m (some (n, name)) s₁ = (r, s₂) → Write u K H n s (.error err) s₂
  /-- a child is taken out -/
  | removed {n : ℕ} {s s₁ : State P} {b : Branch P} {name : String} {i : ℕ}
      {changes : Changes P} : changes.length ≤ 1 → Ready n u s b s₁ →
      s₁.unhashed b.latest.data
        (Function.update b.latest.children name ((b.latest.children name).eraseIdx i)) = false →
      Write u K H n s
        (.ok (s₁.newRev b.latest.node u b.latest.data
          (Function.update b.latest.children name ((b.latest.children name).eraseIdx i))))
        (s₁.install n u (s₁.newRev b.latest.node u b.latest.data
          (Function.update b.latest.children name ((b.latest.children name).eraseIdx i))) changes)
  /-- raised further down -/
  | deeper {n : ℕ} {s s₁ s₂ : State P} {b : Branch P} {name : String} {e : Rev P} {err : Err} :
      Ready n u s b s₁ → e ∈ b.latest.children name → Write u K H e.node s₁ (.error err) s₂ →
      Write u K H n s (.error err) s₂
  /-- the child has a new revision -/
  | replaced {n : ℕ} {s s₁ s₂ : State P} {b : Branch P} {name : String} {e new : Rev P}
      {l : List (Rev P)} : Ready n u s b s₁ →
      Replaces (b.latest.children name) e new l → Write u K H e.node s₁ (.ok new) s₂ →
      s₂.unhashed b.latest.data (Function.update b.latest.children name l) = false →
      Write u K H n s
        (.ok (s₂.newRev b.latest.node u b.latest.data (Function.update b.latest.children name l)))
        (s₂.install n u
          (s₂.newRev b.latest.node u b.latest.data (Function.update b.latest.children name l))
          [])
  /-- the child's hash did not change: a new object for it loses its hash -/
  | kept {n : ℕ} {s s₁ s₂ : State P} {b : Branch P} {name key : String} {k : P.Val}
      {e new : Rev P} : Ready n u s b s₁ → e ∈ b.latest.children name →
      Write u K H e.node s₁ (.ok new) s₂ → s₂.hashOf new = s₂.hashOf e →
      H ⟨n, b.latest, name, some (key, k), e, s.headOf e.node u⟩ →
      Write u K H n s (.ok b.latest) (if new.ref = e.ref then s₂ else s₂.clearHash new)
  /-- the child has another key -/
  | refused {n : ℕ} {s s₁ s₂ : State P} {b : Branch P} {name key : String} {k : P.Val}
      {e new : Rev P} (err : Err) : Ready n u s b s₁ → e ∈ b.latest.children name →
      Write u K H e.node s₁ (.ok new) s₂ → P.getattr new.data key ≠ some k →
      H ⟨n, b.latest, name, some (key, k), e, s.headOf e.node u⟩ →
      Write u K H n s (.error err) s₂
  /-- a revision in the new list has lost its hash -/
  | unhashed {n : ℕ} {s s₁ s₂ : State P} {b : Branch P} {name : String} {e new : Rev P}
      {l : List (Rev P)} (addr : Option (String × P.Val)) (err : Err) :
      Ready n u s b s₁ → Replaces (b.latest.children name) e new l →
      Write u K H e.node s₁ (.ok new) s₂ →
      s₂.unhashed b.latest.data (Function.update b.latest.children name l) = true →
      new.ref + 1 = s₂.nextRev ∨ H ⟨n, b.latest, name, addr, e, s.headOf e.node u⟩ →
      Write u K H n s (.error err) s₂

/-! ## A write is a chain of effects -/

/-- What a write that started in `s` has returned in `s'`: a revision of the node, which was made
last or was the latest one all along, and whose hash is that of the latest one now. -/
structure Result (u : Option ℕ) (s s' : State P) (n : ℕ) (new : Rev P) : Prop where
  head : s'.Head n u new
  fresh : new.ref + 1 = s'.nextRev ∨ s.headOf n u = some new
  current : ∃ b, s'.branches n u = some b ∧ b.latest.hash = new.hash

/-- A new revision has not lost its hash. -/
theorem WF.hashOf_newRev (h : WF s) (n : ℕ) (v : Option ℕ) (data : P.Data)
    (children : String → List (Rev P)) :
    s.hashOf (s.newRev n v data children) = some (s.newRev n v data children).hash := by
  unfold State.hashOf
  rw [if_neg]
  intro hc
  obtain ⟨x, hx, -⟩ := h.cleared hc
  have hlt := h.ref_lt (h.has_of_objects hx)
  rw [h.ref hx] at hlt
  exact Nat.lt_irrefl _ hlt

theorem State.hashOf_eq_some {r : Rev P} {h : P.Hash} (hr : s.hashOf r = some h) :
    r.ref ∉ s.cleared ∧ r.hash = h := by
  unfold State.hashOf at hr
  split at hr
  · cases hr
  · next hc => exact ⟨hc, Option.some.inj hr⟩

/-- The branch after a new revision: its latest one has the hash of the new one. -/
theorem WF.latest_install (h : WF s) {v : Option ℕ} (hb : s.branches n v = some b)
    (data : P.Data) (children : String → List (Rev P)) (changes : Changes P) :
    ∃ b', (s.install n v (s.newRev n v data children) changes).branches n v = some b' ∧
      b'.latest.hash = (s.newRev n v data children).hash ∧ b'.origin = b.origin ∧
      (b'.latest = s.newRev n v data children ∨ b'.latest = b.latest) := by
  refine ⟨s.advance b (s.newRev n v data children), ?_, ?_, rfl, ?_⟩
  · rw [install_branches _ _ _ hb, setBranch_self]
  · rcases s.latest_advance b (s.newRev n v data children) with hl | ⟨hl, hh⟩
    · rw [hl]
    · rw [hl]
      rw [h.hashOf_newRev] at hh
      exact (hashOf_eq_some hh.symm).2
  · rcases s.latest_advance b (s.newRev n v data children) with hl | ⟨hl, -⟩
    · exact .inl hl
    · exact .inr hl

/-- What is shown of a write that was called on node `n`: it is a chain of effects, it leaves the
nodes that were made before `n` alone, and a hash that was lost stays lost. -/
structure Written (K : ℕ → P.Data → Prop) (C : Rev P → Prop) (u : Option ℕ) (lost : List ℕ)
    (n : ℕ) (s s' : State P) : Prop where
  chain : Chain K C u s s'
  branches : ∀ {m : ℕ}, m < n → ∀ v, s'.branches m v = s.branches m v
  lost : lost ⊆ s'.cleared

variable {H : Hop P → Prop} {lost : List ℕ}

theorem Ready.written (hr : Ready n u s b s₁) (hl : lost ⊆ s.cleared) :
    Written K C u lost n s s₁ where
  chain := hr.effects
  branches hm v := hr.branches_of_ne (Nat.ne_of_lt hm) v
  lost := hr.cleared ▸ hl

/-- A revision derived from the latest one, at the end of its branch. -/
theorem Written.install (h : WF s) (hw : Written K C u lost n s s₁)
    (hb : s₁.branches n u = some b) {data : P.Data} {children : String → List (Rev P)}
    (hd : Derived K s₁ n u b.latest data children) (hun : s₁.unhashed data children = false)
    (changes : Changes P) :
    Written K C u lost n s
        (s₁.install n u (s₁.newRev b.latest.node u data children) changes) ∧
      ∀ new, (.ok (s₁.newRev b.latest.node u data children) : Except Err (Rev P)) = .ok new →
        Result u s (s₁.install n u (s₁.newRev b.latest.node u data children) changes) n new := by
  have h₁ := Chain.wf h hw.chain
  rw [(h₁.head hb).node]
  refine ⟨⟨hw.chain.tail (Effect.installed hb hd hun), ?_, ?_⟩, ?_⟩
  · intro m hm v
    rw [install_branches_of_ne _ _ hb (.inl (Nat.ne_of_lt hm))]
    exact hw.branches hm v
  · rw [install_cleared]
    exact hw.lost
  · rintro new hnew
    cases hnew
    refine ⟨⟨h₁.has_install.mpr (.inl rfl), rfl, .inl rfl⟩, .inl ?_, ?_⟩
    · rw [install_nextRev]
      rfl
    · obtain ⟨b', hb', hh, -, -⟩ := h₁.latest_install hb data children changes
      exact ⟨b', hb', hh⟩

section

variable (h : WF s) (hr : Ready n u s b s₁)
include h hr

/-- A write further down, seen from the node above it. -/
theorem Written.above (he : e ∈ b.latest.children name) (hw : Written K C u lost e.node s₁ s₂) :
    Written K C u lost n s s₂ ∧ s₂.branches n u = some b := by
  have hlt := hr.lt_child h he
  refine ⟨⟨hr.effects.trans hw.chain, ?_, hw.lost⟩, (hw.branches hlt u).trans hr.branch⟩
  intro m hm v
  exact (hw.branches (hm.trans hlt) v).trans (hr.branches_of_ne (Nat.ne_of_lt hm) v)

/-- What is made for a new child. -/
theorem Ready.made {m : Msg P} (hmk : mknode m (some (n, name)) s₁ = (r, s₂)) :
    Chain K C u s₁ s₂ ∧ Grown s₁ s₂ ∧ ∀ c, r = .ok c →
      Kid s₁ s₂ (some (n, name)) c ∧ c.node = s₁.nextNode ∧ c.data = m.data := by
  have h₁ := hr.wf h
  have hmade := mknode_makes (K := K) (C := C) (u := u) m (some (n, name)) s₁ h₁
    (by intro p f hpf; cases hpf; exact h₁.lt_nextNode hr.branch)
  rwa [wp_def, hmk] at hmade

/-- Nodes were made for a new child of `n`. -/
theorem Written.grown (hl : lost ⊆ s.cleared) (hc : Chain K C u s₁ s₂) (hg : Grown s₁ s₂) :
    Written K C u lost n s s₂ ∧ s₂.branches n u = some b := by
  have hlt := (hr.wf h).lt_nextNode hr.branch
  refine ⟨⟨hr.effects.trans hc, ?_, ?_⟩, (hg.branches hlt).trans hr.branch⟩
  · intro m hm v
    exact (hg.branches (hm.trans hlt)).trans (hr.branches_of_ne (Nat.ne_of_lt hm) v)
  · rw [hg.rest]
    exact hr.cleared ▸ hl

end

/-- **A write is a chain of effects.**  `lost` are hashes that were lost before it began. -/
theorem Write.written
    (hC : ∀ hop x, H hop → hop.addr.isSome → hop.below = some x → x.ref ≠ hop.listed.ref →
      x.hash = hop.listed.hash → x.ref ∉ lost → hop.listed.ref ∉ lost → C x)
    (hw : Write u K H n s r s') (h : WF s) (hl : lost ⊆ s.cleared) :
    Written K C u lost n s s' ∧ ∀ new, r = .ok new → Result u s s' n new := by
  induction hw with
  | unopened err =>
    exact ⟨⟨Relation.ReflTransGen.refl, fun _ _ => rfl, hl⟩, nofun⟩
  | failed err hr => exact ⟨hr.written hl, nofun⟩
  | @same n s s₁ b hr =>
    refine ⟨hr.written hl, ?_⟩
    rintro new hnew
    cases hnew
    exact ⟨(hr.wf h).head hr.branch, .inr hr.headOf, b, hr.branch, rfl⟩
  | data _ hr hty hK hun =>
    exact (hr.written hl).install h hr.branch (Derived.data hty hK) hun _
  | @added n s s₁ s₂ b name key text field keyFromStr k m c changes _ hr hfield hkind hk hnot
      hmk hun =>
    obtain ⟨hc, hg, hkid⟩ := hr.made h hmk
    obtain ⟨hkid, -, hdata⟩ := hkid c rfl
    obtain ⟨hw, hb⟩ := Written.grown h hr hl hc hg
    refine hw.install h hb (Derived.append hfield hkind (hdata ▸ hk) hnot
      ⟨hkid.has, hkid.parent, hkid.committed⟩ hkid.txid ?_ ?_) hun changes
    · intro e he hnode
      have hold := (hr.wf h).node_lt (hr.entry h he).has
      have hnew := hkid.new
      omega
    · intro r hr' hnode
      exact hg.first hr' hkid.has (hnode ▸ hkid.new) hnode
  | @addFailed n s s₁ s₂ b name m r err hr hmk =>
    obtain ⟨hc, hg, -⟩ := hr.made h hmk
    exact ⟨(Written.grown h hr hl hc hg).1, nofun⟩
  | removed _ hr hun =>
    exact (hr.written hl).install h hr.branch Derived.erase hun _
  | deeper hr he _ ih =>
    obtain ⟨hw, -⟩ := ih (hr.wf h) (hr.cleared ▸ hl)
    exact ⟨(hw.above h hr he).1, nofun⟩
  | @replaced n s s₁ s₂ b name e new l hr hrep _ hun ih =>
    obtain ⟨hw, hres⟩ := ih (hr.wf h) (hr.cleared ▸ hl)
    have hnew := (hres new rfl).head
    obtain ⟨hw', hb⟩ := hw.above h hr hrep.mem
    exact hw'.install h hb (Derived.replace hrep hnew.has hnew.node hnew.txid) hun []
  | @kept n s s₁ s₂ b name key k e new hr he _ hhash hH ih =>
    obtain ⟨hw, hres⟩ := ih (hr.wf h) (hr.cleared ▸ hl)
    have hnew := hres new rfl
    obtain ⟨hw', hb⟩ := hw.above h hr he
    have h₂ := Chain.wf h hw'.chain
    have hhead := h₂.head hb
    split
    · refine ⟨hw', ?_⟩
      rintro new' hnew'
      cases hnew'
      exact ⟨hhead, .inr hr.headOf, b, hb, rfl⟩
    · next hne =>
      have hpar : (s₂.parent new.node).isSome := by
        have hent := (hr.wf h).entry_later (Chain.later (hr.wf h) hw.chain) (hr.entry h he)
        rw [hnew.head.node, hent.parent]
        rfl
      -- the object that loses its hash was made just now, or has lost it before, or is one of
      -- those that `C` speaks of
      have hguard : new.ref + 1 = s₂.nextRev ∨ new.ref ∈ s₂.cleared ∨ C new := by
        rcases hnew.fresh with hfresh | hbelow
        · exact .inl hfresh
        · by_cases hcl : new.ref ∈ s₂.cleared
          · exact .inr (.inl hcl)
          · rw [show s₂.hashOf new = some new.hash from if_neg hcl] at hhash
            obtain ⟨hecl, hehash⟩ := hashOf_eq_some hhash.symm
            exact .inr (.inr (hC _ new hH rfl ((hr.headOf_eq e.node u).symm.trans hbelow) hne
              hehash.symm (fun hx => hcl (hw.lost hx)) fun hx => hecl (hw.lost hx)))
      refine ⟨⟨hw'.chain.tail (Effect.cleared hnew.head.has hpar hguard), hw'.branches,
        fun x hx => mem_cons_of_mem _ (hw.lost hx)⟩, ?_⟩
      rintro new' hnew'
      cases hnew'
      exact ⟨⟨hhead.has, hhead.node, hhead.txid⟩, .inr hr.headOf, b, hb, rfl⟩
  | refused err hr he _ _ _ ih =>
    obtain ⟨hw, -⟩ := ih (hr.wf h) (hr.cleared ▸ hl)
    exact ⟨(hw.above h hr he).1, nofun⟩
  | unhashed addr err hr hrep _ _ _ ih =>
    obtain ⟨hw, -⟩ := ih (hr.wf h) (hr.cleared ▸ hl)
    exact ⟨(hw.above h hr hrep.mem).1, nofun⟩

/-- The same without a condition on what loses its hash. -/
theorem Write.written_any (hw : Write u K H n s r s') (h : WF s) :
    Written K (fun _ => True) u [] n s s' ∧ ∀ new, r = .ok new → Result u s s' n new :=
  hw.written (fun _ _ _ _ _ _ _ _ _ => trivial) h (nil_subset _)

/-- **A write announces at most one change.** -/
theorem Write.length_deferred_le (hw : Write u K H n s r s') (h : WF s) :
    s'.deferred.length ≤ s.deferred.length + 1 := by
  induction hw with
  | unopened _ => exact Nat.le_succ _
  | failed _ hr => exact hr.deferred ▸ Nat.le_succ _
  | same hr => exact hr.deferred ▸ Nat.le_succ _
  | data hc hr _ _ _ => exact hr.deferred ▸ (length_deferred_install ..).trans (by omega)
  | added hc hr _ _ _ _ hmk _ =>
    have hd := (hr.made (K := K) (C := fun _ => True) h hmk).2.1.deferred.trans hr.deferred
    exact hd ▸ (length_deferred_install ..).trans (by omega)
  | addFailed _ hr hmk =>
    have hd := (hr.made (K := K) (C := fun _ => True) h hmk).2.1.deferred.trans hr.deferred
    exact hd ▸ Nat.le_succ _
  | removed hc hr _ => exact hr.deferred ▸ (length_deferred_install ..).trans (by omega)
  | deeper hr _ _ ih => exact hr.deferred ▸ ih (hr.wf h)
  | replaced hr _ _ _ ih =>
    exact (length_deferred_install ..).trans (hr.deferred ▸ ih (hr.wf h))
  | kept hr _ _ _ _ ih =>
    have hle := hr.deferred ▸ ih (hr.wf h)
    split
    · exact hle
    · exact hle
  | refused _ hr _ _ _ _ ih => exact hr.deferred ▸ ih (hr.wf h)
  | unhashed _ _ hr _ _ _ _ ih => exact hr.deferred ▸ ih (hr.wf h)

end Voltha.Config
