import Voltha.Config.Runs
import Voltha.Config.Sample

/-!
# When a merge raises a conflict

An item of a node is its own data, a child field without keys, or one key of a keyed field.  A
merge should raise `MergeConflictException` only if some item was changed since the fork both by
the source and by the destination.  For children it does: `merge3way_outcome` explains every
conflict over a list by such an item.  For the own data it does not: `merge_3way` compares the
destination with the source without asking whether the source has changed anything, so that a
node whose data was changed on the committed branch cannot be merged by a transaction that left
the data alone.

`merge_3way` comes back to itself through `merge_child_func`.  `OwnConflict` is about the conflicts
that a call raises itself, and `mergeTxbranch_collides` about those of all the calls of a commit.
-/

namespace Voltha.Config

variable {P : Proto}

open State Act

/-- The own data was changed on both sides. -/
def ConfigBothChanged (fork src dst : Rev P) : Prop :=
  src.sameConfig fork = false ∧ dst.sameConfig fork = false

/-- Some item of the node was changed since the fork on both sides. -/
def BothChanged (h : Rev P → Option P.Hash) (fork src dst : Rev P) : Prop :=
  ConfigBothChanged fork src dst ∨ ChildBothChanged h fork src dst

theorem sameConfig_eq_true {r r' : Rev P} :
    r.sameConfig r' = true ↔ r.configHash = r'.configHash := by
  rw [Rev.sameConfig, decide_eq_true_eq]

variable {fork src dst : Rev P}

/-- The data of the destination is neither the fork's nor the source's, although the source has
left it alone. -/
theorem configCollides_of_dst (hd : dst.sameConfig fork = false) (hs : src.sameConfig fork = true) :
    ConfigCollides fork src dst := by
  refine ⟨hd, ?_⟩
  rw [sameConfig_eq_true] at hs
  rw [Rev.sameConfig, hs]
  exact hd

/-- The merge of a child, its conflicts told apart: with it every conflict of `merge_3way` is its
own. -/
def apart (mc : MergeChild P) : MergeChild P := fun e s =>
  match mc e s with
  | (.error (.mergeConflict _), s') => (.error .recursionError, s')
  | r => r

/-- `merge_3way` raises a conflict that is not the conflict of a child.  The children are merged as
in a commit of `t`. -/
def OwnConflict (s : State P) (t depth : ℕ) (dryRun : Bool) (fork src dst : Rev P) : Prop :=
  ∃ text s', merge3way fork src dst (apart (mergeChild t (mergeTxbranch t dryRun depth))) dryRun s =
    (.error (.mergeConflict text), s')

/-- The merges of the children raise no conflict and take away no hash. -/
def Quiet (mc : MergeChild P) (s : State P) : Prop :=
  ∀ e s', s'.cleared = s.cleared → wp (mc e) s' fun r s'' =>
    s''.cleared = s.cleared ∧ ∀ text, r ≠ .error (.mergeConflict text)

/-- The merge of a child keeps the hashes if the merge of a node does. -/
theorem mergeChild_cleared {t : ℕ} {mergeNode : ℕ → M P (Option (Rev P))}
    (hmerge : ∀ n s, wp (mergeNode n) s fun _ s' => s'.cleared = s.cleared) (e : Rev P)
    (s : State P) : wp (mergeChild t mergeNode e) s fun _ s' => s'.cleared = s.cleared := by
  unfold mergeChild
  split
  · exact hmerge e.node s
  · exact rfl

/-- If the error is a conflict, `C` holds. -/
def ConflictIs (C : Prop) (err : Err) : Prop := ∀ text, err = .mergeConflict text → C

/-- A conflict comes from the own data or from an item of the children. -/
theorem conflict_collides {s s' : State P} {mc : MergeChild P} (hmc : Quiet mc s) {dryRun : Bool}
    {text : String} (hm : merge3way fork src dst mc dryRun s = (.error (.mergeConflict text), s')) :
    ConfigCollides fork src dst ∨ ChildBothChanged s.hashOf fork src dst := by
  have hspec := merge3way_outcome (J := fun s₁ => s₁.cleared = s.cleared)
    (T := fun _ _ _ => True) (X := ConflictIs (ConfigCollides fork src dst ∨
      ChildBothChanged s.hashOf fork src dst)) (fun s₁ h₁ => hashOf_of_cleared h₁)
    (fun _ e _ s₁ h₁ => wp_mono (hmc e s₁ h₁) fun r s₂ h₂ => ⟨h₂.1, fun _ _ _ => trivial,
      fun _ _ => trivial, fun err he _ text herr => absurd (herr ▸ he) (h₂.2 text)⟩)
    (fun hch _ _ _ => .inr hch) (fun hcfg _ _ _ => .inl hcfg) rfl dryRun
  rw [wp_def, hm] at hspec
  cases hspec with
  | raised _ _ hX => exact hX rfl text rfl

/-- **The merges of a commit clear no hash.**  By induction on the depth: the state is another one
after the merge of a child, with the same hashes. -/
theorem mergeTxbranch_cleared (t : ℕ) (dryRun : Bool) :
    ∀ (fuel n : ℕ) (s : State P), wp (mergeTxbranch t dryRun fuel n) s fun _ s' =>
      s'.cleared = s.cleared
  | 0, _, _ => rfl
  | fuel + 1, n, s => by
    refine mergeTxbranch_wp (fun _ _ => rfl) ?_
    intro src dst fork _ _ _
    have hmc : ∀ name, ∀ e ∈ src.latest.children name ++ dst.latest.children name,
        Handled (fun s₁ => s₁.cleared = s.cleared) (fun _ _ _ => True) (fun _ => True)
          (mergeChild t (mergeTxbranch t dryRun fuel)) e := by
      intro name e _ s₁ h₁
      refine wp_mono (mergeChild_cleared (mergeTxbranch_cleared t dryRun fuel) e s₁) ?_
      intro r s₂ h₂
      exact ⟨h₂.trans h₁, fun _ _ _ => trivial, fun _ _ => trivial, fun _ _ _ => trivial⟩
    refine wp_mono (merge3way_outcome (fun s₁ h₁ => hashOf_of_cleared h₁) hmc
      (fun _ _ => trivial) (fun _ _ => trivial) rfl dryRun) ?_
    intro r s' hm
    cases hm with
    | raised h₁ _ _ => exact h₁
    | dry h₁ _ _ _ => exact h₁
    | made changes h₁ _ _ _ _ _ =>
      rw [seqPost_ok]
      exact settle_wp ((install_cleared ..).trans h₁)

/-- The merges of the children, without their conflicts. -/
theorem quiet_apart (s : State P) (t depth : ℕ) (dryRun : Bool) :
    Quiet (apart (mergeChild t (mergeTxbranch t dryRun depth))) s := by
  intro e s₁ h₁
  have hc := mergeChild_cleared (t := t) (mergeTxbranch_cleared t dryRun depth) e s₁
  rw [wp_def] at hc ⊢
  unfold apart
  split
  · next hm =>
    rw [hm] at hc
    exact ⟨hc.trans h₁, nofun⟩
  · next hne => exact ⟨hc.trans h₁, fun text he => hne text _ (Prod.ext he rfl)⟩

/-! ## The conflicts of a commit -/

/-- What holds of the revisions that a commit of `t` merges at a node. -/
def MergedAt (s : State P) (t n : ℕ) (C : Rev P → Rev P → Rev P → Prop) : Prop :=
  ∃ src dst fork, s.branches n (some t) = some src ∧ s.branches n none = some dst ∧
    src.origin = some fork ∧ C fork src.latest dst.latest

/-- **Every conflict of a commit has its node.**  By induction on the depth of the merge: what
the merge of a node does not explain itself comes from the merge of a child. -/
theorem mergeTxbranch_collides (t : ℕ) :
    ∀ (fuel n : ℕ) (s : State P), wp (mergeTxbranch t true fuel n) s fun r s' =>
      s' = s ∧ ∀ text, r = .error (.mergeConflict text) → ∃ m, MergedAt s t m fun fork src dst =>
        ConfigCollides fork src dst ∨ ChildBothChanged s.hashOf fork src dst
  | 0, _, _ => ⟨rfl, nofun⟩
  | fuel + 1, n, s => by
    refine mergeTxbranch_wp (fun err herr => ⟨rfl, fun text h => ?_⟩) ?_
    · cases h
      cases herr
    intro src dst fork hsrc hdst hfork
    have hmc : ∀ name, ∀ e ∈ src.latest.children name ++ dst.latest.children name,
        Handled (· = s) (fun _ _ _ => True) (ConflictIs (∃ m, MergedAt s t m fun fork src dst =>
          ConfigCollides fork src dst ∨ ChildBothChanged s.hashOf fork src dst))
          (mergeChild t (mergeTxbranch t true fuel)) e := by
      rintro name e - s₁ rfl
      unfold mergeChild
      split
      · refine wp_mono (mergeTxbranch_collides t fuel e.node s₁) ?_
        rintro r s₂ ⟨rfl, hcol⟩
        exact ⟨rfl, fun _ _ _ => trivial, fun _ _ => trivial,
          fun err he _ text herr => hcol text (herr ▸ he)⟩
      · exact ⟨rfl, fun _ _ _ => trivial, fun _ _ => trivial, nofun⟩
    refine wp_mono (merge3way_outcome (h := s.hashOf) (fun s₁ hJ₁ => by rw [hJ₁]) hmc
      (fun hch _ _ _ => ⟨n, src, dst, fork, hsrc, hdst, hfork, .inr hch⟩)
      (fun hcfg _ _ _ => ⟨n, src, dst, fork, hsrc, hdst, hfork, .inl hcfg⟩) rfl true) ?_
    intro r s' hm
    cases hm with
    | raised hJ₁ _ hX =>
      refine ⟨hJ₁, fun text h => ?_⟩
      cases h
      exact hX rfl text rfl
    | dry hJ₁ _ _ _ => exact ⟨hJ₁, nofun⟩

/-- The own data collides before any child is looked at. -/
theorem merge3way_of_collides (hcol : ConfigCollides fork src dst) (mc : MergeChild P)
    (dryRun : Bool) (s : State P) : merge3way fork src dst mc dryRun s =
      (.error (.mergeConflict "Config collision"), s) := by
  have hne : dst.configHash ≠ src.configHash := fun he => by
    cases hcol.2.symm.trans (sameConfig_eq_true.mpr he)
  unfold merge3way mergeConfig
  rw [hcol.1, if_neg Bool.false_ne_true, if_pos hne]
  exact bind_of_error rfl

/-- A collision of the own data is a change on both sides if the source has changed the data. -/
theorem bothChanged_of_collides {h : Rev P → Option P.Hash}
    (hcol : ConfigCollides fork src dst ∨ ChildBothChanged h fork src dst)
    (hcond : dst.sameConfig fork = true ∨ src.sameConfig fork = false ∨
      ChildBothChanged h fork src dst) : BothChanged h fork src dst := by
  rcases hcol with hcol | hboth
  · rcases hcond with hd | hs | hch
    · cases hcol.1.symm.trans hd
    · exact .inl ⟨hs, hcol.1⟩
    · exact .inr hch
  · exact .inr hboth

/-- A destination with the children of the fork has changed no child. -/
theorem not_childBothChanged {h : Rev P → Option P.Hash}
    (hch : ∀ name ∈ P.names (P.typeOf fork.data), dst.children name = fork.children name) :
    ¬ ChildBothChanged h fork src dst := by
  rintro ⟨name, field, hfield, hboth⟩
  rw [P.field_eq_some] at hfield
  rw [hch name (List.mem_map_of_mem hfield)] at hboth
  unfold FieldBothChanged at hboth
  split at hboth
  · obtain ⟨kf, ks, kd, k, hkf, -, hkd, hkey⟩ := hboth
    rw [hkf] at hkd
    cases hkd
    exact hkey.2 rfl
  · have hne := hboth.2
    rw [sameRevs, decide_eq_false_iff_not] at hne
    exact hne rfl

namespace Sample

/-- Transaction 0 updates the data of the root, transaction 1 adds an adapter. -/
def crossing : State sample :=
  run start [.openTransaction, .openTransaction,
    .update ["", ""] (leaf .voltha "root" "v1") false (some 0),
    .add ["", "adapters"] (adapter "4" "d" []) (some 1)]

/-- Transaction 0 is committed first. -/
def crossed : State sample := step crossing (.commit 0)

/-- The revisions that the merge of the root has, as a test: the transaction has left the data
alone, and the committed branch has left all children alone. -/
def oneSided (s : State sample) (n t : ℕ) : Bool :=
  match s.branches n (some t), s.branches n none with
  | some src, some dst => src.origin.any fun fork => src.latest.sameConfig fork &&
      (sample.names (sample.typeOf fork.data)).all fun name =>
        sameRevs (dst.latest.children name) (fork.children name)
  | _, _ => false

end Sample

open Sample

end Voltha.Config
