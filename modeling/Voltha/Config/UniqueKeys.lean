import Voltha.Config.MergedKeys
import Voltha.Config.Runs
import Voltha.Config.Sample

/-!
# Keys are unique and stable

Only `add` and the first revision of a node look for a key that is there already, and only
`update` looks whether a key has changed, after the child has taken the new data.  So a rejected
change of a key stays in the child, and the next write below the child puts it into the list.

In the runs whose updates keep the key of the child they are addressed to, `KeyInv` holds: the
keys of every keyed list are unique, and all revisions of a node that was ever listed in a keyed
field have one key.  The second part carries the induction: it says that the new revision of a
child, wherever it comes from, takes its place in the list under the old key.
-/

namespace Voltha.Config

open List Option

variable {P : Proto}

open State

/-- The field of the revision is keyed by `key`. -/
def Rev.KeyedField (r : Rev P) (f key : String) : Prop :=
  ∃ field conv, P.field (P.typeOf r.data) f = some field ∧ field.kind = .keyed key conv

variable {key : String} {s₀ s s' : State P} {n t : ℕ} {data : P.Data}
  {children : String → List (Rev P)} {C : Rev P → Prop} {u : Option ℕ}

theorem Rev.KeyedField.congr {r r' : Rev P} {f : String} (h : r.KeyedField f key)
    (hcls : P.typeOf r'.data = P.typeOf r.data) : r'.KeyedField f key := by
  unfold Rev.KeyedField
  rw [hcls]
  exact h

/-- The keys of the list are there and all different. -/
def UniqueKeys (key : String) (l : List (Rev P)) : Prop := ∃ ks, keysOf key l = .ok ks ∧ ks.Nodup

/-- What is known of keys in all objects of a tree. -/
structure KeyInv (s : State P) : Prop where
  unique : ∀ {r : Rev P} {f key : String}, s.Has r → r.KeyedField f key →
    UniqueKeys key (r.children f)
  /-- all revisions of a node that stands in a keyed field have one key -/
  stable : ∀ {q e r : Rev P} {f key : String}, s.Has q → q.KeyedField f key → e ∈ q.children f →
    s.Has r → r.node = e.node → P.getattr r.data key = P.getattr e.data key

/-! ## New objects -/

theorem KeyInv.congr (h : KeyInv s) (ho : s'.objects = s.objects) : KeyInv s' := by
  have hhas : ∀ {r : Rev P}, s'.Has r → s.Has r := by
    intro r hr
    unfold State.Has at hr ⊢
    rwa [← ho]
  exact ⟨fun hr => h.unique (hhas hr), fun hq hf he hr => h.stable (hhas hq) hf he (hhas hr)⟩

/-- A new revision with unique keys, whose own key and whose entries' keys are those of the other
revisions of their nodes. -/
theorem KeyInv.alloc (hwf : WF s) (h : KeyInv s) {v : Option ℕ}
    (hunique : ∀ f key, (s.newRev n v data children).KeyedField f key →
      UniqueKeys key (children f))
    (hbelow : ∀ f key e, (s.newRev n v data children).KeyedField f key → e ∈ children f →
      s.Entry n f e ∧ ∀ r, s.Has r → r.node = e.node →
        P.getattr r.data key = P.getattr e.data key)
    (habove : ∀ q f key e, s.Has q → q.KeyedField f key → e ∈ q.children f → e.node = n →
      P.getattr data key = P.getattr e.data key) :
    KeyInv (s.alloc (s.newRev n v data children)) where
  unique hr hf := by
    rcases hwf.has_alloc.mp hr with rfl | hr
    · exact hunique _ _ hf
    · exact h.unique hr hf
  stable {q e r f key} hq hf he hr hnode := by
    rcases hwf.has_alloc.mp hq with rfl | hq
    · obtain ⟨hentry, hkey⟩ := hbelow f key e hf he
      rcases hwf.has_alloc.mp hr with rfl | hr
      · -- a node is made before its children's
        exact absurd hnode (Nat.ne_of_lt (hwf.parent_lt hentry.parent))
      · exact hkey r hr hnode
    · rcases hwf.has_alloc.mp hr with rfl | hr
      · exact habove q f key e hq hf he hnode.symm
      · exact h.stable hq hf he hr hnode

/-- The data of another revision of the node has its key. -/
theorem KeyInv.above (h : KeyInv s) {old : Rev P} (hold : s.Has old) (hnode : old.node = n) :
    ∀ q f key e, s.Has q → q.KeyedField f key → e ∈ q.children f → e.node = n →
      P.getattr old.data key = P.getattr e.data key :=
  fun _ _ _ _ hq hf he hen => h.stable hq hf he hold (hnode.trans hen.symm)

/-- Another revision of an entry's node has the keys of all of them. -/
theorem KeyInv.below (h : KeyInv s) {old x e : Rev P} {f : String} (hold : s.Has old)
    (hf : old.KeyedField f key) (hx : x ∈ old.children f) (he : s.Has e) (hnode : e.node = x.node) :
    ∀ r, s.Has r → r.node = e.node → P.getattr r.data key = P.getattr e.data key := by
  intro r hr hre
  rw [h.stable hold hf hx hr (hre.trans hnode), h.stable hold hf hx he hnode]

/-! ## Writes -/

/-- Data that can be written to node `n` in `s`: the node is the root, or it is listed somewhere
and has the key of that entry in the data. -/
def KeySafe (s : State P) (n : ℕ) (data : P.Data) : Prop :=
  n < s.nextNode ∧ s.parent n = none ∨
    ∃ q f e, s.Has q ∧ e ∈ q.children f ∧ e.node = n ∧
      ∀ key, q.KeyedField f key → P.getattr data key = P.getattr e.data key

/-- Safe data has the key of every entry of the node. -/
theorem KeySafe.above (hwf : WF s) (hl : Later s₀ s) (h : KeyInv s) (hs : KeySafe s₀ n data) :
    ∀ q f key e, s.Has q → q.KeyedField f key → e ∈ q.children f → e.node = n →
      P.getattr data key = P.getattr e.data key := by
  intro q f key e hq hf he hen
  have hpar := (hwf.child hq he).parent
  rw [hen] at hpar
  rcases hs with ⟨hlt, hroot⟩ | ⟨q', f', e', hq', he', hen', hkey⟩
  · rw [hl.parent hlt, hroot] at hpar
    cases hpar
  · have hentry := hwf.child (hl.has hq') he'
    have hpar' := hentry.parent
    rw [hen', hpar] at hpar'
    obtain ⟨hnode, rfl⟩ := Prod.ext_iff.mp (some.inj hpar')
    rw [hkey key (hf.congr (hwf.cls (hl.has hq') hq hnode.symm))]
    exact h.stable hq hf he hentry.has (hen'.trans hen.symm)

section

variable (hwf : WF s) (h : KeyInv s)
include hwf h

/-- The keys of a derived revision. -/
theorem KeyInv.derived {K : ℕ → P.Data → Prop} {b : Branch P} (hb : s.branches n u = some b)
    (hd : Derived K s n u b.latest data children) {f : String} (hf : b.latest.KeyedField f key) :
    UniqueKeys key (children f) := by
  have hold := (hwf.head hb).has
  obtain ⟨ks, hks, hnodup⟩ := h.unique hold hf
  -- the fields other than the one that is written are as before
  have hupd : ∀ {name : String} {l : List (Rev P)}, (f = name → UniqueKeys key l) →
      UniqueKeys key (Function.update b.latest.children name l f) := by
    intro name l hl
    by_cases hname : f = name
    · subst hname
      rw [Function.update_self]
      exact hl rfl
    · rw [Function.update_of_ne hname]
      exact ⟨ks, hks, hnodup⟩
  cases hd with
  | data _ _ => exact ⟨ks, hks, hnodup⟩
  | @replace name l e new hrep hnew hnode _ =>
    refine hupd ?_
    rintro rfl
    have hkey := h.stable hold hf hrep.mem hnew hnode
    cases hrep with
    | place hget => exact ⟨ks, keysOf_set hks hget hkey, hnodup⟩
    | only hl =>
      obtain ⟨k, -, hk⟩ := exists_key hks (hl ▸ mem_cons_self)
      refine ⟨[k], ?_, nodup_singleton k⟩
      rw [keysOf, hkey, hk, keysOf]
  | @append name key' text field conv k new hfield hkind hk hnot hentry _ _ _ =>
    refine hupd ?_
    rintro rfl
    obtain ⟨field', conv', hfield', hkind'⟩ := hf
    rw [hfield] at hfield'
    obtain rfl := some.inj hfield'
    rw [hkind] at hkind'
    cases hkind'
    refine ⟨ks ++ [k], keysOf_append hks ?_, ?_⟩
    · rw [keysOf, hk, keysOf]
    · refine List.Nodup.append hnodup (nodup_singleton k) ?_
      intro k' hk' hmem
      rw [mem_singleton.mp hmem] at hk'
      obtain ⟨e, he, hek⟩ := (mem_keysOf hks).mp hk'
      exact findRevByKey_error hnot e he hek
  | erase =>
    refine hupd ?_
    rintro rfl
    obtain ⟨ks', hks', hsub⟩ := keysOf_sublist (eraseIdx_sublist _ _) hks
    exact ⟨ks', hks', hnodup.sublist hsub⟩

omit hwf h in
theorem Effect.keyInv (hwf : WF s) (hl : Later s₀ s) (h : KeyInv s)
    (he : Effect (KeySafe s₀) C u s s') : KeyInv s' := by
  cases he with
  | called _ => exact h.congr rfl
  | forked _ _ _ _ => exact h.congr rfl
  | born _ => exact h.congr rfl
  | @seated n data children hfits _ hnew _ hfresh =>
    refine KeyInv.congr (h.alloc hwf ?_ ?_ ?_) rfl
    · rintro f key ⟨field, conv, hfield, hkind⟩
      exact hfresh.keys hfield hkind
    · intro f key e _ he
      refine ⟨hfits.entry he, fun r hr hnode => ?_⟩
      rw [hfresh.first he hr hnode]
    · intro q f key e hq _ he hen
      exact absurd hen (hnew e (hwf.child hq he).has)
  | @installed n b data children changes hb hd hun =>
    have hhead := hwf.head hb
    have hfits := hd.fits hwf hb
    have hcls : P.typeOf b.latest.data = P.typeOf data := hfits.cls hhead.has hhead.node
    refine KeyInv.congr (h.alloc hwf ?_ ?_ ?_) (install_objects ..)
    · exact fun f key hf => h.derived hwf hb hd (hf.congr hcls)
    · intro f key e hf he
      refine ⟨hfits.entry he, ?_⟩
      rcases hd.mem he with hold | ⟨x, hx, hhas, hnode, -⟩ | ⟨-, hfirst⟩
      · exact h.below hhead.has (hf.congr hcls) hold (hfits.entry he).has rfl
      · exact h.below hhead.has (hf.congr hcls) hx hhas hnode
      · intro r hr hnode
        rw [hfirst r hr hnode]
    · rcases hd.data_or with rfl | hK
      · exact h.above hhead.has hhead.node
      · exact hK.above hwf hl h
  | cleared _ _ _ => exact h.congr rfl

theorem Chain.keyInv (hc : Chain (KeySafe s) C u s s') : KeyInv s' := by
  induction hc with
  | refl => exact h
  | tail hc he ih => exact Effect.keyInv (Chain.wf hwf hc) (Chain.later hwf hc) ih he

/-! ## Merges -/

omit hwf h in
/-- What a merge returns for an entry of a keyed list has the key of the entry. -/
theorem KeyInv.keepsKeys (h : KeyInv s) {q : Rev P} {f : String} (hq : s.Has q)
    (hf : q.KeyedField f key) : KeepsKeys key (Returned t s) (q.children f) := by
  intro e he y hret
  rcases hret y rfl with ⟨-, rfl⟩ | ⟨-, hy⟩
  · rfl
  · exact h.stable hq hf he hy.has hy.node

theorem Settle.keyInv (hs : Settle t s s') : KeyInv s' := by
  cases hs with
  | @mk n src dst fork changed children changes hsrc hdst hfork hcfg hch hnone hun =>
    have hs := hwf.head hsrc
    have hd := hwf.head hdst
    have ho := (hwf.branch hsrc).origin hfork
    -- the merged data is that of the source or of the destination
    obtain ⟨old, hold, holdn, hdata⟩ : ∃ old, s.Has old ∧ old.node = n ∧
        mergedData changed src.latest dst.latest = old.data := by
      cases changed with
      | true => exact ⟨_, hs.has, hs.node, rfl⟩
      | false => exact ⟨_, hd.has, hd.node, rfl⟩
    rw [hdata] at hnone ⊢
    have hcls : ∀ {r : Rev P}, s.Has r → r.node = n → P.typeOf r.data = P.typeOf old.data :=
      fun hr hn => hwf.cls hr hold (hn.trans holdn.symm)
    refine KeyInv.congr (h.alloc hwf ?_ ?_ ?_) (install_objects ..)
    · intro f key hf
      obtain ⟨ks, hks, hksn⟩ := h.unique hs.has (hf.congr (hcls hs.has hs.node))
      obtain ⟨kd, hkd, hkdn⟩ := h.unique hd.has (hf.congr (hcls hd.has hd.node))
      obtain ⟨kf, hkf, hkfn⟩ := h.unique ho.has (hf.congr (hcls ho.has ho.node))
      obtain ⟨field, conv, hfield, hkind⟩ := hf.congr (hcls ho.has ho.node)
      have hmerged := hch.field hfield
      rw [hkind] at hmerged
      obtain ⟨km, hkm, hkmn⟩ := hmerged.exists_keys ⟨hkf, hks, hkd, hkfn, hksn, hkdn⟩
        (h.keepsKeys hs.has (hf.congr (hcls hs.has hs.node)))
      have hname : f ∈ P.names (P.typeOf old.data) := by
        rw [← hcls ho.has ho.node]
        exact P.mem_names_of_field hfield
      exact ⟨km, keysOf_reduceOption hkm (hnone f hname), hkmn⟩
    · intro f key e hf he
      obtain ⟨x, hx, hex⟩ := hch.origin he
      obtain ⟨q, hq, hqn, hxq⟩ : ∃ q, s.Has q ∧ q.node = n ∧ x ∈ q.children f :=
        hx.elim (fun hx => ⟨_, hs.has, hs.node, hx⟩) fun hx => ⟨_, hd.has, hd.node, hx⟩
      have hentry : s.Entry n f x := hqn ▸ hwf.child hq hxq
      have hqf := hf.congr (hcls hq hqn)
      rcases hex with rfl | hy
      · exact ⟨hentry, h.below hq hqf hxq hentry.has rfl⟩
      · exact ⟨hentry.head hy, h.below hq hqf hxq hy.has hy.node⟩
    · exact h.above hold holdn

theorem Settles.keyInv (hs : Settles t s s') : KeyInv s' := by
  induction hs with
  | refl => exact h
  | tail hs he ih => exact Settle.keyInv (Settles.wf hwf hs) ih he

end

/-! ## Runs -/

/-- An update keeps the key of the child it is addressed to. -/
def keepsKey (s : State P) : Op P → Bool
  | .update path data _ u =>
    match walk s u path 0 with
    | none => true
    | some hops => (hops.getLast?.bind Hop.addr).all fun a => P.getattr data.data a.1 = some a.2
  | _ => true

theorem keySafe_of_keepsKey (h : Base s) {path : Path} {data : Msg P} {strict : Bool}
    {hops : List (Hop P)} (hkeep : keepsKey s (.update path data strict u) = true)
    (hwalk : walk s u path 0 = some hops) : KeySafe s (target 0 hops) data.data := by
  rw [keepsKey, hwalk] at hkeep
  dsimp only at hkeep
  unfold target
  rcases hlast : hops.getLast? with _ | hop
  · obtain ⟨b, hb⟩ := isSome_iff_exists.mp h.root
    exact .inl ⟨h.wf.lt_nextNode hb, h.wf.parent_root⟩
  · have hv := walk_valid s u path 0 hwalk hop (mem_of_getLast? hlast)
    refine .inr ⟨hop.head, hop.name, hop.listed, (h.wf.headOf_head hv.head).has, hv.mem, rfl, ?_⟩
    rintro key ⟨field', conv', hfield', hkind'⟩
    obtain ⟨field, hfield, hfound⟩ := hv.found
    rw [hfield] at hfield'
    obtain rfl := some.inj hfield'
    rcases hfound with ⟨hsingle, -⟩ | ⟨key', conv, k, i, hkind, haddr, hfound⟩
    · rw [hsingle] at hkind'
      cases hkind'
    · rw [hkind] at hkind'
      cases hkind'
      rw [hlast, bind_some, haddr, all_some, decide_eq_true_eq] at hkeep
      rw [hkeep, (findRevByKey_ok hfound).2]

theorem Step.keyInv {op : Op P} {r : Except Err Unit} {H : Hop P → Prop}
    (hs : Step (KeySafe s) H s op r s') (h : Base s) (hk : KeyInv s) : KeyInv s' := by
  cases hs with
  | idle err => exact hk
  | wrote _ _ hw => exact KeyInv.congr (Chain.keyInv h.wf hk (hw.written_any h.wf).1.chain) rfl
  | opened _ => exact hk.congr rfl
  | cancelled _ _ => exact hk.congr rfl
  | rejected _ _ _ => exact hk.congr rfl
  | crashed _ _ _ => exact hk.congr rfl
  | committed _ _ _ hset => exact KeyInv.congr (Settles.keyInv h.wf hk hset) rfl
  | tables r _ _ _ htab =>
    refine hk.congr ?_
    rw [htab.retabled.rest]

/-- **The keys in every run whose updates keep them.** -/
theorem ReachableBy.keyInv (h : ReachableBy (fun s op => keepsKey s op = true) s) : KeyInv s := by
  induction h with
  | init hm =>
    exact Chain.keyInv (C := fun _ => True) WF.empty
      ⟨fun hr => (nomatch hr), fun hq => (nomatch hq)⟩ (mkRoot_made hm).1
  | @step s op h hop ih =>
    have hbase := h.reachable.base
    refine Step.keyInv (H := fun _ => True) (step_cases hbase op ?_ ?_) hbase ih
    · rintro path data strict u hops rfl hwalk
      exact keySafe_of_keepsKey hbase hop hwalk
    · exact fun _ _ _ _ _ _ _ _ _ => trivial

/-- The keys in the tree that the committed branch shows: they are unique, and the child that is
found at a key has it, in the revision that is listed and in the committed head of its node. -/
structure KeysHold (s : State P) : Prop where
  unique : ∀ b, s.branches 0 none = some b → ∀ r, b.latest.Within r → ∀ f key,
    r.KeyedField f key → UniqueKeys key (r.children f)
  addressed : ∀ b, s.branches 0 none = some b → ∀ r, b.latest.Within r → ∀ f key,
    r.KeyedField f key → ∀ k found, findRevByKey (r.children f) key k = .ok found →
      P.getattr found.2.data key = some k ∧ ∀ c, s.branches found.2.node none = some c →
        P.getattr c.latest.data key = some k

/-- **Keys stay unique and stable**, in every run whose updates keep the keys of the children they
are addressed to. -/
theorem keys_hold {s : State P} (h : ReachableBy (fun s op => keepsKey s op = true) s) :
    KeysHold s := by
  have hwf := h.reachable.base.wf
  have hk := h.keyInv
  refine ⟨?_, ?_⟩
  · intro b hb r hr f key hf
    exact hk.unique (hwf.has_within (hwf.head hb).has hr) hf
  · intro b hb r hr f key hf k found hfound
    obtain ⟨hget, hkey⟩ := findRevByKey_ok hfound
    refine ⟨hkey, fun c hc => ?_⟩
    rw [hk.stable (hwf.has_within (hwf.head hb).has hr) hf (mem_of_getElem? hget)
      (hwf.head hc).has (hwf.head hc).node, hkey]

namespace Sample

/-- A transaction changes an adapter while another one is added; then it is committed. -/
def mixedOps : List (Op sample) :=
  [.openTransaction, .update ["", "adapters", "1"] (leaf .adapter "1" "z") false (some 0),
    .add ["", "adapters"] (adapter "4" "d" []) none, .commit 0]

/-- The update of an adapter with another key. -/
def rename : Op sample := .update ["", "adapters", "1"] (leaf .adapter "2" "a") false none

/-- A port is added to the adapter after that. -/
def addPort : Op sample := .add ["", "adapters", "1", "ports"] (port "9" "r") none

theorem keyedField_adapters {r : Rev sample} (h : r.data.cls = .voltha) :
    r.KeyedField "adapters" "id" := by
  refine ⟨⟨.keyed "id" fun s => .ok s, .adapter⟩, _, ?_, rfl⟩
  rw [show sample.typeOf r.data = .voltha from h]
  rfl

end Sample

open Sample

theorem keys_hold_sample : KeysHold (run start mixedOps) := by
  obtain ⟨rev, h⟩ := mkRoot_tree
  exact keys_hold ((ReachableBy.init h).run (by decide +kernel))

/-- The update is rejected, but the adapter keeps the new key; the write below it then puts it
into the list, where the key stands twice. -/
theorem rename_duplicates_key :
    (exec rename start).1 = .error (.valueError "Cannot change key field") ∧
      ((step start rename).branches 0 none).map
        (fun b => keysOf "id" (b.latest.children "adapters")) = some (.ok ["1", "2", "3"]) ∧
      (exec addPort (step start rename)).1 = .ok () ∧
      ((run start [rename, addPort]).branches 0 none).map
        (fun b => keysOf "id" (b.latest.children "adapters")) = some (.ok ["2", "2", "3"]) ∧
      ¬ KeysHold (run start [rename, addPort]) := by
  have hdup : ((run start [rename, addPort]).branches 0 none).map
      (fun b => keysOf "id" (b.latest.children "adapters")) = some (.ok ["2", "2", "3"]) := by
    decide +kernel
  refine ⟨by decide +kernel, by decide +kernel, by decide +kernel, hdup, fun hhold => ?_⟩
  obtain ⟨b, hb, hkeys⟩ := map_eq_some_iff.mp hdup
  have hcls : ((run start [rename, addPort]).branches 0 none).map
      (fun b => b.latest.data.cls) = some .voltha := by decide +kernel
  rw [hb] at hcls
  obtain ⟨ks, hks, hnodup⟩ := hhold.unique b hb b.latest (.inl rfl) "adapters" "id"
    (keyedField_adapters (some.inj hcls))
  rw [hkeys] at hks
  cases hks
  revert hnodup
  decide

end Voltha.Config
