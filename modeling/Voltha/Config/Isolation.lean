import Voltha.Config.Runs
import Voltha.Config.Sample

/-!
# Isolation of transactions

What a transaction does is seen by nobody else: no operation that is executed with the id of a
transaction, and no cancel of it, changes what the committed branch or another transaction
reads.  A write to branch `u` is a chain of effects, none of which touches another branch of a
node that was there before, and a read of a branch only looks at the latest revision that the
root has on it and at the callbacks registered for reads.
-/

namespace Voltha.Config

variable {P : Proto}

open State

/-! ## What a read depends on -/

variable {s : State P} {s' : State P}

theorem doGet_congr (hp : s'.proxy = s.proxy) (depth : ℤ) (rev : Rev P) :
    doGet s' depth rev = doGet s depth rev := by
  unfold doGet callbacksOf
  rw [hp]

theorem doGetAll_congr {s' : State P} (hp : s'.proxy = s.proxy) (depth : ℤ) :
    ∀ revs : List (Rev P), doGetAll s' depth revs = doGetAll s depth revs
  | [] => rfl
  | rev :: revs => by
    rw [doGetAll, doGetAll, doGet_congr hp, doGetAll_congr hp depth revs]

/-- A read inside a revision depends on the registered callbacks only. -/
theorem getIn_congr {s' : State P} (hp : s'.proxy = s.proxy) (depth : ℤ) :
    ∀ (path : Path) (rev : Rev P), getIn s' depth path rev = getIn s depth path rev
  | [], rev => by rw [getIn, getIn, doGet_congr hp]
  | name :: path, rev => by
    rw [getIn, getIn, doGet_congr hp, doGetAll_congr hp]
    split
    · rfl
    · rcases P.field (P.typeOf rev.data) name with _ | field
      · rfl
      · dsimp only
        rcases field.kind with _ | _ | ⟨key, keyFromStr⟩
        · dsimp only
          rcases rev.children name with _ | ⟨e, l⟩
          · rfl
          · exact getIn_congr hp depth path e
        · rfl
        · rcases path with _ | ⟨keyStr, rest⟩
          · rfl
          · dsimp only
            split
            · rfl
            · rcases keyFromStr keyStr with _ | k
              · rfl
              · dsimp only
                rcases findRevByKey (rev.children name) key k with _ | found
                · rfl
                · exact getIn_congr hp depth rest found.2

/-- A read of a node shows the latest revision of the branch. -/
theorem get_eq (s : State P) (n : ℕ) (path : Path) (depth : ℤ) (v : Option ℕ) :
    get s n path depth v = match s.headOf n v with
      | none => .error (.keyError "None")
      | some rev => getIn s depth (lstrip path) rev := by
  unfold get State.headOf
  rcases (s.branches n v).or (s.branches n none) with _ | b
  · rfl
  · rfl

/-- A read depends on the latest revision of the branch and on the callbacks. -/
theorem get_congr {n : ℕ} {v : Option ℕ} (hh : s'.headOf n v = s.headOf n v)
    (hp : s'.proxy = s.proxy) (path : Path) (depth : ℤ) :
    get s' n path depth v = get s n path depth v := by
  rw [get_eq, get_eq, hh]
  rcases s.headOf n v with _ | rev
  · rfl
  · exact getIn_congr hp depth _ rev

theorem headOf_congr {n : ℕ} {v : Option ℕ} (hv : s'.branches n v = s.branches n v)
    (hc : s'.branches n none = s.branches n none) : s'.headOf n v = s.headOf n v := by
  unfold State.headOf
  rw [hv, hc]

/-! ## Isolation -/

/-- The operation is executed with the id of transaction `t`, or cancels it. -/
def Op.isOf (t : ℕ) (op : Op P) : Prop := op.writes = some (some t) ∨ op = .cancel t

/-- The branches of the root that are not those of `t`, and the proxies, after an operation of
`t`. -/
theorem isOf_frame (h : Base s) {t : ℕ} {op : Op P} (hop : op.isOf t) :
    (∀ v, v ≠ some t → (step s op).branches 0 v = s.branches 0 v) ∧
      (step s op).proxy = s.proxy := by
  have hs := step_cases_any h op
  generalize step s op = s' at hs ⊢
  generalize (exec op s).1 = r at hs
  cases hs with
  | idle err => exact ⟨fun _ _ => rfl, rfl⟩
  | @wrote _ u r s₁ hu hopen hw =>
    -- a write of the transaction: it does not touch the other branches of the root
    have hut : u = some t := by
      rcases hop with hop | rfl
      · exact Option.some.inj (hu.symm.trans hop)
      · cases hu
    subst hut
    have hc := (hw.written_any h.wf).1.chain
    exact ⟨fun v hv => Chain.branches_eq h.wf hc h.root hv, (Chain.sameFrame hc).proxy⟩
  | opened hc =>
    rcases hop with hop | hop
    · cases hop
    · cases hop
  | @cancelled t' dirty ho hd =>
    have htt : t' = t := by
      rcases hop with hop | hop
      · cases hop
      · exact (Op.cancel.inj hop)
    subst htt
    exact ⟨fun v hv => s.forget_branches t' dirty hv, rfl⟩
  | rejected _ _ _ =>
    rcases hop with hop | hop
    · cases hop
    · cases hop
  | crashed _ _ _ =>
    rcases hop with hop | hop
    · cases hop
    · cases hop
  | committed _ _ _ _ =>
    rcases hop with hop | hop
    · cases hop
    · cases hop
  | tables r hnone hcancel _ _ =>
    rcases hop with hop | hop
    · rw [hnone] at hop
      cases hop
    · exact absurd hop (hcancel t)

/-- **Isolation.**  An operation of transaction `t`, whether it returns or raises, does not change
what any other view reads of the tree. -/
theorem transaction_isolation {s : State P} (h : Reachable s) {t : ℕ} {op : Op P}
    (hop : op.isOf t) {v : Option ℕ} (hv : v ≠ some t) (path : Path) (depth : ℤ) :
    get (step s op) 0 path depth v = get s 0 path depth v := by
  obtain ⟨hb, hp⟩ := isOf_frame h.base hop
  exact get_congr (headOf_congr (hb v hv) (hb none (by simp))) hp path depth

open Sample

/-- A transaction changes an adapter; the second one still reads the old one. -/
theorem transaction_isolation_sample :
    get (step (run start [.openTransaction, .openTransaction])
        (.update ["", "adapters", "1"] (leaf .adapter "1" "z") false (some 0)))
      0 ["", "adapters", "1"] (-1) (some 1) =
    get (run start [.openTransaction, .openTransaction]) 0 ["", "adapters", "1"] (-1)
      (some 1) :=
  transaction_isolation (reachable_start.run _) (Or.inl rfl) (by simp) _ _

end Voltha.Config
