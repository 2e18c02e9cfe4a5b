import Voltha.Config.UniqueKeys

/-!
# Merged lists of children, key by key

`merge_3way` of a keyed field is meant to work key by key: the keys of the destination and those
that the source has added, without those that the source has removed, each with the revision of
the side that has changed it.  In the runs whose updates keep keys, it does so exactly if the keys
that the source has removed stand in the destination in the order in which they stand in the fork.
A child that is removed and added again on the committed branch comes to the end of the list and
breaks that order; the merge then pops another child in its place.
-/

namespace Voltha.Config

variable {P : Proto}

open State Act Settles

/-- The revision `y` is what the merge of the child `e` returns, in some state that the merge of
transaction `t` comes to from `s`. -/
def MergedFrom (t fuel : ℕ) (s : State P) (e : Rev P) (x : Option (Rev P)) : Prop :=
  ∃ s₁ s₂, Settles t s s₁ ∧ mergeChild t (mergeTxbranch t false fuel) e s₁ = (.ok x, s₂)

/-- What the merge of a child returns has the child's key. -/
theorem KeyInv.mergedFrom {t fuel : ℕ} {s : State P} (hwf : WF s) (hk : KeyInv s) {q : Rev P}
    {f key : String} (hq : s.Has q) (hf : q.KeyedField f key) :
    KeepsKeys key (MergedFrom t fuel s) (q.children f) := by
  rintro e he y ⟨s₁, s₂, hset, hm⟩
  have h₁ := wf hwf hset
  have hspec := mergeChild_settles t false fuel e h₁
  rw [wp_def, hm] at hspec
  have hset' := hset.trans hspec.1
  exact (keyInv hwf hk hset').keepsKeys ((later hwf hset').has hq) hf e he y
    (hspec.2 _ rfl)

/-- The lists that `merge_3way` makes for a node in the course of a commit. -/
theorem merge3way_children {t fuel n : ℕ} {s s' : State P} (h : WF s) {src dst : Branch P}
    {fork rev : Rev P} {changes : Changes P} (hsrc : s.branches n (some t) = some src)
    (hdst : s.branches n none = some dst) (hfork : src.origin = some fork)
    (hm : merge3way fork src.latest dst.latest (mergeChild t (mergeTxbranch t false fuel)) false s =
      (.ok (some rev, changes), s')) {f : String} {field : ChildType P.Cls P.Val}
    (hfield : P.field (P.typeOf fork.data) f = some field) :
    ∃ l, FieldMerged s.hashOf (MergedFrom t fuel s) field.kind (fork.children f)
      (src.latest.children f) (dst.latest.children f) l ∧ none ∉ l ∧
        rev.children f = l.reduceOption := by
  have hspec : wp (merge3way fork src.latest dst.latest
        (mergeChild t (mergeTxbranch t false fuel)) false) s
      (Merge3 (Settles t s) (fun _ => MergedFrom t fuel s) (fun _ => True) s.hashOf fork
        src.latest dst.latest s false) :=
    merge3way_outcome (fun s₁ hset => hashOf hset) ?_ (fun _ _ => trivial)
      (fun _ _ => trivial) Relation.ReflTransGen.refl false
  · rw [wp_def, hm] at hspec
    cases hspec with
    | @made changed children s₁ _ _ _ _ hch hnone _ =>
      refine ⟨children f, hch.field hfield, hnone f ?_, rfl⟩
      rw [h.typeOf_mergedData hsrc hdst hfork]
      exact P.mem_names_of_field hfield
  · intro name e _ s₁ hset
    rcases hr : mergeChild t (mergeTxbranch t false fuel) e s₁ with ⟨r, s₂⟩
    have hchild := mergeChild_settles t false fuel e (wf h hset)
    rw [wp_def, hr] at hchild
    rw [wp_def, hr]
    refine ⟨hset.trans hchild.1, fun _ _ hx => hx, ?_, fun _ _ _ => trivial⟩
    rintro x rfl
    exact ⟨s₁, s₂, hset, hr⟩

/-- **`merge_3way` works key by key exactly if the removals are in order**, for the fork, the
source and the destination of every node in every state that a commit comes to, in the runs whose
updates keep keys. -/
theorem merge3way_keywise_iff {s₀ s : State P}
    (h : ReachableBy (fun s op => keepsKey s op = true) s₀) {t fuel n : ℕ} (hset : Settles t s₀ s)
    {src dst : Branch P} {fork rev : Rev P} (hsrc : s.branches n (some t) = some src)
    (hdst : s.branches n none = some dst) (hfork : src.origin = some fork)
    {changes : Changes P} {s' : State P}
    (hm : merge3way fork src.latest dst.latest (mergeChild t (mergeTxbranch t false fuel)) false s =
      (.ok (some rev, changes), s')) {f key : String} (hf : fork.KeyedField f key) :
    ∃ kf ks kd, keysOf key (fork.children f) = .ok kf ∧
      keysOf key (src.latest.children f) = .ok ks ∧ keysOf key (dst.latest.children f) = .ok kd ∧
      (KeywiseCorrect s.hashOf (MergedFrom t fuel s) key (fork.children f)
          (src.latest.children f) (dst.latest.children f) (rev.children f) ↔
        RemovalsOrdered kf ks kd) := by
  have hwf := wf h.reachable.base.wf hset
  have hk := keyInv h.reachable.base.wf h.keyInv hset
  have hs := hwf.head hsrc
  have hd := hwf.head hdst
  have ho := (hwf.branch hsrc).origin hfork
  have hfs := hf.congr (hwf.cls hs.has ho.has (hs.node.trans ho.node.symm))
  have hfd := hf.congr (hwf.cls hd.has ho.has (hd.node.trans ho.node.symm))
  obtain ⟨kf, hkf, hkfn⟩ := hk.unique ho.has hf
  obtain ⟨ks, hks, hksn⟩ := hk.unique hs.has hfs
  obtain ⟨kd, hkd, hkdn⟩ := hk.unique hd.has hfd
  refine ⟨kf, ks, kd, hkf, hks, hkd, ?_⟩
  obtain ⟨field, conv, hfield, hkind⟩ := hf
  obtain ⟨l, hl, hnone, hrev⟩ := merge3way_children hwf hsrc hdst hfork hm hfield
  rw [hkind] at hl
  rw [hrev]
  have hhas : ∀ {r : Rev P}, s.Has r → ∀ e ∈ r.children f, s.Has e :=
    fun hr e he => (hwf.child hr he).has
  exact fieldMerged_keywise_iff ⟨hkf, hks, hkd, hkfn, hksn, hkdn⟩
    (eq_of_sameRevs (hhas hd.has) (hhas hs.has)) (eq_of_sameRevs (hhas hd.has) (hhas ho.has))
    (hk.mergedFrom hwf hs.has hfs) hl hnone

namespace Sample

/-- A transaction removes the first two adapters while a fourth one is added. -/
def removing : List (Op sample) :=
  [.openTransaction, .remove ["", "adapters", "1"] (some 0), .remove ["", "adapters", "2"] (some 0),
    .add ["", "adapters"] (adapter "4" "d" []) none]

/-- The same, with the first adapter removed and added again on the committed branch. -/
def reordering : List (Op sample) :=
  [.openTransaction, .remove ["", "adapters", "1"] (some 0), .remove ["", "adapters", "2"] (some 0),
    .remove ["", "adapters", "1"] none,
    .add ["", "adapters"] (adapter "1" "a" [port "7" "p", port "8" "q"]) none,
    .add ["", "adapters"] (adapter "4" "d" []) none]

/-- The merge of the root in a commit of transaction 0: its source, destination and fork, and the
revision that `merge_3way` returns. -/
def rootMerge (s : State sample) :
    Option (Branch sample × Branch sample × Rev sample × Rev sample) :=
  match s.branches 0 (some 0), s.branches 0 none with
  | some src, some dst =>
    match src.origin with
    | none => none
    | some fork =>
      match merge3way fork src.latest dst.latest
          (mergeChild 0 (mergeTxbranch 0 false s.nextNode)) false s with
      | (.ok (some rev, _), _) => some (src, dst, fork, rev)
      | _ => none
  | _, _ => none

theorem rootMerge_eq {s : State sample} {src dst : Branch sample} {fork rev : Rev sample}
    (h : rootMerge s = some (src, dst, fork, rev)) :
    s.branches 0 (some 0) = some src ∧ s.branches 0 none = some dst ∧ src.origin = some fork ∧
      ∃ changes s', merge3way fork src.latest dst.latest
        (mergeChild 0 (mergeTxbranch 0 false s.nextNode)) false s =
          (.ok (some rev, changes), s') := by
  unfold rootMerge at h
  split at h
  · next src' dst' hsrc hdst =>
    split at h
    · cases h
    · next fork' hfork =>
      split at h
      · next hm =>
        cases h
        exact ⟨hsrc, hdst, hfork, _, _, hm⟩
      · cases h
  · cases h

/-- The keys of the adapters of a revision. -/
def adapterKeys (r : Rev sample) : Except Err (List String) := keysOf "id" (r.children "adapters")

/-- The class of the root, and the keys of the adapters in the revisions of a merge. -/
structure MergeKeys where
  cls : SampleCls
  fork : Except Err (List String)
  src : Except Err (List String)
  dst : Except Err (List String)
  merged : Except Err (List String)
  deriving DecidableEq

def mergeKeys (s : State sample) : Option MergeKeys :=
  (rootMerge s).map fun m => ⟨m.2.2.1.data.cls, adapterKeys m.2.2.1, adapterKeys m.1.latest,
    adapterKeys m.2.1.latest, adapterKeys m.2.2.2⟩

end Sample

open Sample

/-- The removals are in order: the merge works key by key. -/
theorem merge3way_keywise_iff_sample :
    ∃ src dst fork rev,
      rootMerge (run start removing) = some (src, dst, fork, rev) ∧
      KeywiseCorrect (run start removing).hashOf
        (MergedFrom 0 (run start removing).nextNode
          (run start removing)) "id" (fork.children "adapters")
        (src.latest.children "adapters") (dst.latest.children "adapters")
        (rev.children "adapters") := by
  have hkeys : mergeKeys (run start removing) = some ⟨.voltha,
      .ok ["1", "2", "3"], .ok ["3"], .ok ["1", "2", "3", "4"], .ok ["3", "4"]⟩ := by
    decide +kernel
  obtain ⟨⟨src, dst, fork, rev⟩, hroot, hkeys⟩ := Option.map_eq_some_iff.mp hkeys
  obtain ⟨hsrc, hdst, hfork, changes, s', hm⟩ := rootMerge_eq hroot
  obtain ⟨rev₀, hinit⟩ := mkRoot_tree
  rw [MergeKeys.mk.injEq] at hkeys
  obtain ⟨hcls, hF, hS, hD, -⟩ := hkeys
  have halong : allAlong keepsKey start removing = true := by decide +kernel
  obtain ⟨kf, ks, kd, hkf, hks, hkd, hiff⟩ := merge3way_keywise_iff
    ((ReachableBy.init hinit).run halong) Relation.ReflTransGen.refl hsrc hdst hfork hm
    (keyedField_adapters hcls)
  refine ⟨src, dst, fork, rev, hroot, hiff.mpr ?_⟩
  cases hkf.symm.trans hF
  cases hks.symm.trans hS
  cases hkd.symm.trans hD
  exact @of_decide_eq_true _ (RemovalsOrdered.decidable (P := sample) _ _ _) rfl

/-- The first adapter has moved to the end of the committed list: the merge pops the new adapter
in its place. -/
theorem reordered_removal_pops_other :
    ∃ src dst fork rev,
      rootMerge (run start reordering) = some (src, dst, fork, rev) ∧
      keysOf "id" (fork.children "adapters") = .ok ["1", "2", "3"] ∧
      keysOf "id" (src.latest.children "adapters") = .ok ["3"] ∧
      keysOf "id" (dst.latest.children "adapters") = .ok ["2", "3", "1", "4"] ∧
      keysOf "id" (rev.children "adapters") = .ok ["3", "1"] ∧
      ¬ KeywiseCorrect (run start reordering).hashOf
        (MergedFrom 0 (run start reordering).nextNode
          (run start reordering)) "id" (fork.children "adapters")
        (src.latest.children "adapters") (dst.latest.children "adapters")
        (rev.children "adapters") := by
  have hkeys : mergeKeys (run start reordering) = some ⟨.voltha,
      .ok ["1", "2", "3"], .ok ["3"], .ok ["2", "3", "1", "4"], .ok ["3", "1"]⟩ := by
    decide +kernel
  obtain ⟨⟨src, dst, fork, rev⟩, hroot, hkeys⟩ := Option.map_eq_some_iff.mp hkeys
  rw [MergeKeys.mk.injEq] at hkeys
  obtain ⟨-, hF, hS, hD, hM⟩ := hkeys
  refine ⟨src, dst, fork, rev, hroot, hF, hS, hD, hM, ?_⟩
  rintro ⟨kf, ks, kd, km, hkf, hks, hkd, hkey⟩
  cases hkf.symm.trans hF
  cases hks.symm.trans hS
  cases hkd.symm.trans hD
  cases hkey.keys.symm.trans hM
  have hmem : "4" ∈ ["3", "1"] := (hkey.mem "4").mpr
    ⟨Or.inl (show "4" ∈ ["2", "3", "1", "4"] by decide),
      fun hrem => absurd (show "4" ∈ ["1", "2", "3"] from hrem.1) (by decide)⟩
  revert hmem
  decide

end Voltha.Config
