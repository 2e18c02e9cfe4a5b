import Voltha.Config.Runs
import Voltha.Config.Sample

/-!
# Committed revisions carry their hashes

`update` takes the hash away from a revision that a child has returned if it is another object
than the one that is listed and has the same hash.  That object is meant to be a duplicate that
nobody else holds.  It is one if it was made by this update; but if the child's data did not
change, it is the head of the child's branch, and that can be a live committed revision.

In the runs whose updates pass no such pair of objects (`unaliased`), only revisions that no other
revision lists lose their hashes (`NoLost`), and every revision below the committed root has its
hash.
-/

namespace Voltha.Config

open List

variable {P : Proto}

open State

/-- No revision lists one that has lost its hash. -/
def NoLost (s : State P) : Prop :=
  ∀ (r e : Rev P) (f : String), s.Has r → e ∈ r.children f → e.ref ∉ s.cleared

section Objects

variable {K : ℕ → P.Data → Prop} {u : Option ℕ} {s s' : State P}

theorem NoLost.congr (h : NoLost s) (ho : s'.objects = s.objects) (hc : s'.cleared = s.cleared) :
    NoLost s' := by
  intro r e f hr he
  unfold State.Has at hr
  rw [ho] at hr
  rw [hc]
  exact h r e f hr he

theorem unhashed_eq_false {data : P.Data} {children : String → List (Rev P)}
    (hnames : ∀ f, f ∉ P.names (P.typeOf data) → children f = [])
    (hun : s.unhashed data children = false) {f : String} {e : Rev P} (he : e ∈ children f) :
    e.ref ∉ s.cleared := by
  intro hc
  by_cases hf : f ∈ P.names (P.typeOf data)
  · have htrue : s.unhashed data children = true := by
      unfold State.unhashed
      rw [any_eq_true]
      refine ⟨f, hf, ?_⟩
      rw [any_eq_true]
      exact ⟨e, he, decide_eq_true hc⟩
    rw [hun] at htrue
    cases htrue
  · rw [hnames f hf] at he
    exact absurd he not_mem_nil

section

variable (hwf : WF s)
include hwf

section

variable (h : NoLost s)
include h

/-- A new revision whose entries all have their hashes. -/
theorem NoLost.alloc {n : ℕ} {v : Option ℕ} {data : P.Data} {children : String → List (Rev P)}
    (hnames : ∀ f, f ∉ P.names (P.typeOf data) → children f = [])
    (hun : s.unhashed data children = false) : NoLost (s.alloc (s.newRev n v data children)) := by
  intro r e f hr he
  rcases hwf.has_alloc.mp hr with rfl | hr
  · exact unhashed_eq_false hnames hun he
  · exact h r e f hr he

theorem Effect.noLost (he : Effect K (fun _ => False) u s s') : NoLost s' := by
  cases he with
  | called _ => exact h.congr rfl rfl
  | forked _ _ _ _ => exact h.congr rfl rfl
  | born _ => exact h.congr rfl rfl
  | seated hfits _ _ hun _ => exact NoLost.congr (h.alloc hwf hfits.names hun) rfl rfl
  | installed hb hd hun =>
    exact NoLost.congr (h.alloc hwf (hd.fits hwf hb).names hun) (install_objects ..)
      (install_cleared ..)
  | @cleared x hx _ hwhy =>
    intro r e f hr he hmem
    rcases mem_cons.mp hmem with hex | hmem
    · rcases hwhy with hlast | hold | hfalse
      · -- the revision that was made last is listed by none
        have h₁ := hwf.child_lt hr he
        have h₂ := hwf.ref_lt hr
        omega
      · exact h r e f hr he (hex ▸ hold)
      · exact hfalse
    · exact h r e f hr he hmem

theorem Chain.noLost (hc : Chain K (fun _ => False) u s s') : NoLost s' := by
  induction hc with
  | refl => exact h
  | tail hc he ih => exact Effect.noLost (Chain.wf hwf hc) ih he

theorem Settle.noLost {t : ℕ} (hs : Settle t s s') : NoLost s' := by
  obtain ⟨n, src, dst, data, children, changes, -, -, hset, rfl⟩ := hs.settled hwf
  exact NoLost.congr (h.alloc hwf hset.names hset.hashed) (install_objects ..) (install_cleared ..)

theorem Settles.noLost {t : ℕ} (hs : Settles t s s') : NoLost s' := by
  induction hs with
  | refl => exact h
  | tail hs he ih => exact Settle.noLost (Settles.wf hwf hs) ih he

/-- What stands below an object has its hash. -/
theorem NoLost.desc {r y : Rev P} (hr : s.Has r) (hy : r.Desc y) : y.ref ∉ s.cleared := by
  induction hy with
  | child he => exact h _ _ _ hr he
  | step he _ ih => exact ih (hwf.child hr he).has

end

end

end Objects

/-! ## Runs -/

/-- The head of the child is the revision that is listed, or has another hash. -/
def Hop.unaliased (s : State P) (hop : Hop P) : Bool :=
  hop.addr.isNone || hop.below.all fun x =>
    decide (x.ref = hop.listed.ref) || decide (s.hashOf x ≠ s.hashOf hop.listed)

/-- An update passes no child whose head is another object than the listed one with its hash. -/
def unaliased (s : State P) : Op P → Bool
  | .update path _ _ u => (walk s u path 0).all fun hops => hops.all (Hop.unaliased s)
  | _ => true

variable {s : State P}

/-- In a step of the path that is not aliased nothing that was there loses its hash. -/
theorem Hop.false_of_unaliased {hop : Hop P} {x : Rev P} (h : hop.unaliased s = true)
    (haddr : hop.addr.isSome) (hx : hop.below = some x) (href : x.ref ≠ hop.listed.ref)
    (hhash : x.hash = hop.listed.hash) (hxc : x.ref ∉ s.cleared)
    (hlc : hop.listed.ref ∉ s.cleared) :
    False := by
  unfold Hop.unaliased at h
  rw [Option.isSome_iff_ne_none] at haddr
  rw [Bool.or_eq_true, Option.isNone_iff_eq_none, hx, Option.all_some, Bool.or_eq_true,
    decide_eq_true_eq, decide_eq_true_eq] at h
  rcases h with h | h | h
  · exact haddr h
  · exact href h
  · unfold State.hashOf at h
    rw [if_neg hxc, if_neg hlc, hhash] at h
    exact h rfl

theorem Step.noLost {K : ℕ → P.Data → Prop} {s' : State P} {op : Op P} {r : Except Err Unit}
    (hs : Step K (fun hop => hop.unaliased s = true) s op r s') (h : Base s) (hn : NoLost s) :
    NoLost s' := by
  cases hs with
  | idle err => exact hn
  | wrote _ _ hw =>
    have hwritten := hw.written (C := fun _ => False)
      (fun _ _ hH haddr hx href hhash hxc hlc =>
        Hop.false_of_unaliased hH haddr hx href hhash hxc hlc) h.wf
      (List.Subset.refl s.cleared)
    exact NoLost.congr (Chain.noLost h.wf hn hwritten.1.chain) rfl rfl
  | opened _ => exact hn.congr rfl rfl
  | cancelled _ _ => exact hn.congr rfl rfl
  | rejected _ _ _ => exact hn.congr rfl rfl
  | crashed _ _ _ => exact hn.congr rfl rfl
  | committed _ _ _ hset => exact NoLost.congr (Settles.noLost h.wf hn hset) rfl rfl
  | tables r _ _ _ htab =>
    refine hn.congr ?_ ?_
    · rw [htab.retabled.rest]
    · rw [htab.retabled.rest]

theorem ReachableBy.noLost (h : ReachableBy (fun s op => unaliased s op = true) s) : NoLost s := by
  induction h with
  | init hm =>
    exact Chain.noLost (K := fun _ _ => True) WF.empty (nofun)
      (mkRoot_made hm).1
  | @step s op h hop ih =>
    have hbase := h.reachable.base
    refine Step.noLost (K := fun _ _ => True)
      (step_cases hbase op (fun _ _ _ _ _ _ _ => trivial) ?_) hbase ih
    rintro path data strict u hops rfl hwalk hop' hmem
    rw [unaliased, hwalk, Option.all_some, all_eq_true] at hop
    exact hop hop' hmem

/-- Every revision of the tree that the committed branch shows has its hash, which is that of its
content. -/
def CarriesHashes (s : State P) : Prop :=
  ∀ b, s.branches 0 none = some b → ∀ r, b.latest.Within r →
    s.hashOf r = some (Rev.hashContent r.data r.children)

/-- **Every committed revision carries its content hash**, in every run whose updates are not
aliased. -/
theorem carriesHashes {s : State P} (h : ReachableBy (fun s op => unaliased s op = true) s) :
    CarriesHashes s := by
  have hwf := h.reachable.base.wf
  intro b hb r hr
  have hlatest := hwf.head hb
  have hhas := hwf.has_within hlatest.has hr
  have hnot : r.ref ∉ s.cleared := by
    rcases hr with rfl | hdesc
    · -- the root has no parent
      intro hc
      obtain ⟨x, hx, hpar⟩ := hwf.cleared hc
      rw [hhas] at hx
      rw [← Option.some.inj hx, hlatest.node, hwf.parent_root] at hpar
      cases hpar
    · exact NoLost.desc hwf h.noLost hlatest.has hdesc
  unfold State.hashOf
  rw [if_neg hnot, (hwf.hashed hhas).hash_eq]

namespace Sample

/-- The committed data of an adapter changes and changes back. -/
def flipOps : List (Op sample) :=
  [.openTransaction, .update ["", "adapters", "1"] (leaf .adapter "1" "z") false none,
    .update ["", "adapters", "1"] (leaf .adapter "1" "a") false none]

/-- The transaction then writes the data that the adapter has. -/
def touchOp : Op sample := .update ["", "adapters", "1"] (leaf .adapter "1" "a") false (some 0)

/-- Whether all children of the committed root have their hashes. -/
def rootHashes (s : State sample) : Option Bool :=
  (s.branches 0 none).map fun b =>
    (b.latest.children "adapters").all fun e => (s.hashOf e).isSome

end Sample

open Sample

theorem carriesHashes_sample : CarriesHashes (run start flipOps) := by
  obtain ⟨rev, h⟩ := mkRoot_tree
  exact carriesHashes ((ReachableBy.init h).run (by decide +kernel))

/-- The update of the transaction succeeds and takes the hash of a committed revision away; after
it a new adapter cannot be added, since the hash of the root cannot be computed. -/
theorem touch_clears_committed_hash :
    sample.CollisionFree ∧ (exec touchOp (run start flipOps)).1 = .ok () ∧
      rootHashes (step (run start flipOps) touchOp) = some false ∧
      ¬ CarriesHashes (step (run start flipOps) touchOp) ∧
      (exec (.add ["", "adapters"] (adapter "4" "d" []) none)
        (step (run start flipOps) touchOp)).1 =
          .error (.typeError "sequence item: expected string, NoneType found") := by
  have hlost : rootHashes (step (run start flipOps) touchOp) =
      some false := by decide +kernel
  refine ⟨sample_collisionFree, by decide +kernel, hlost, fun hall => ?_, by decide +kernel⟩
  obtain ⟨b, hb, hfalse⟩ := Option.map_eq_some_iff.mp hlost
  rw [all_eq_false] at hfalse
  obtain ⟨e, he, hnone⟩ := hfalse
  rw [hall b hb e (Or.inr (Rev.Desc.child he))] at hnone
  exact hnone rfl

end Voltha.Config
