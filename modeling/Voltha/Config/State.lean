import Voltha.Lib.Act
import Voltha.Config.Revision

/-!
# The objects of a configuration tree

`State` holds the mutable attributes of the objects that make up one `ConfigRoot`: for each
node its branches and its proxy, for each transaction the nodes it has dirtied, the two
callback queues of the root.  Nodes, revisions and transactions are named by numbers that are
handed out in the order of creation; the root is node `0`.  `uuid4` is taken to never
repeat.

Three tables are there for the statements only, and nothing below reads them: `objects`,
every revision object made so far; `parent`, the node and field a node was made for; and
`log`, what was delivered to callbacks and to the event bus.
-/

namespace Voltha.Config

open Function Act

/-- `ConfigBranch`: `_origin`, `_revs` and `_latest`; `_node` and `_txid` are where the
branch is stored. -/
structure Branch (P : Proto) where
  origin : Option (Rev P)
  revs : List (P.Hash × Rev P)
  latest : Rev P

/-- `ConfigProxy`, as far as the tree uses it. -/
structure Proxy (P : Proto) where
  exclusive : Bool
  callbacks : CallbackType → List (Callback P)

/-- What has left the tree: a call of a registered callback, or an event published on
the bus. -/
inductive Delivery (P : Proto) where
  | called (node : ℕ) (type : CallbackType) (context : Context P)
  | published (type : CallbackType) (context : Context P) (hash : P.Hash)

/-- Change announcements: `(<callback-type>, <op-context>)`. -/
abbrev Changes (P : Proto) := List (CallbackType × Context P)

/-- The mutable attributes of the objects of one `ConfigRoot`. -/
structure State (P : Proto) where
  /-- `_branches` of each node, by transaction id, `none` for the committed branch -/
  branches : ℕ → Option ℕ → Option (Branch P)
  /-- `_proxy` of each node -/
  proxy : ℕ → Option (Proxy P)
  /-- `_tags` of the root -/
  tags : List (String × Rev P)
  /-- `_dirty_nodes` of the root -/
  dirtyNodes : ℕ → Option (List ℕ)
  /-- the revisions on which `clear_hash` was called -/
  cleared : List ℕ
  /-- `_deferred_callback_queue` -/
  deferred : List (ℕ × CallbackType × Context P)
  /-- `_notification_deferred_callback_queue` -/
  notifications : List (CallbackType × Context P × P.Hash)
  /-- the transactions whose `ConfigTransaction` still holds its id -/
  isOpen : ℕ → Bool
  nextRev : ℕ
  nextNode : ℕ
  nextTx : ℕ
  objects : ℕ → Option (Rev P)
  parent : ℕ → Option (ℕ × String)
  log : List (Delivery P)

/-- A step of the tree. -/
abbrev M (P : Proto) := Act (State P) Err

namespace State

variable {P : Proto}

/-- `rev._hash`: `none` once it was cleared. -/
def hashOf (s : State P) (r : Rev P) : Option P.Hash :=
  if r.ref ∈ s.cleared then none else some r.hash

/-- `_hash_content` fails on a child without a hash. -/
def unhashed (s : State P) (data : P.Data) (children : String → List (Rev P)) : Bool :=
  (P.names (P.typeOf data)).any fun f => (children f).any fun e => e.ref ∈ s.cleared

/-- `clear_hash`. -/
def clearHash (s : State P) (r : Rev P) : State P := { s with cleared := r.ref :: s.cleared }

/-- The state with branch `txid` of node `n` set. -/
def setBranch (s : State P) (n : ℕ) (txid : Option ℕ) (b : Option (Branch P)) : State P :=
  { s with branches := update s.branches n (update (s.branches n) txid b) }

/-- The callbacks registered on a node for one type. -/
def callbacksOf (s : State P) (n : ℕ) (type : CallbackType) : List (Callback P) :=
  match s.proxy n with
  | some proxy => proxy.callbacks type
  | none => []

/-- The announcements that `_make_latest` queues for a node of the committed branch. -/
def announce (s : State P) (n : ℕ) (hash : P.Hash) (changes : Changes P) : State P :=
  { s with
    deferred := s.deferred ++
      (if (s.proxy n).isSome then changes.map fun c => (n, c.1, c.2) else [])
    notifications := s.notifications ++ changes.map fun c => (c.1, c.2, hash) }

/-- The branch after `_make_latest`: the revision is entered in `_revs` unless its hash
is there, and becomes the latest one unless the latest one has its hash. -/
def advance (s : State P) (b : Branch P) (rev : Rev P) : Branch P where
  origin := b.origin
  revs := if rev.hash ∈ b.revs.map Prod.fst then b.revs else b.revs ++ [(rev.hash, rev)]
  latest := if s.hashOf rev = s.hashOf b.latest then b.latest else rev

/-- `_make_latest`.  Only the committed branch announces. -/
def makeLatest (s : State P) (n : ℕ) (txid : Option ℕ) (rev : Rev P) (changes : Changes P) :
    State P :=
  match s.branches n txid with
  | none => s
  | some b =>
    let s' := s.setBranch n txid (some (s.advance b rev))
    if txid = none then s'.announce n rev.hash changes else s'

/-- The state with a revision object added. -/
def alloc (s : State P) (rev : Rev P) : State P :=
  { s with
    nextRev := s.nextRev + 1
    objects := update s.objects rev.ref (some rev) }

/-- The state with a new node, which is made for a field of `parent`. -/
def born (s : State P) (parent : Option (ℕ × String)) : State P :=
  { s with
    nextNode := s.nextNode + 1
    parent := update s.parent s.nextNode parent }

/-- The state with the first revision of a new node. -/
def seat (s : State P) (rev : Rev P) : State P :=
  s.setBranch rev.node none (some ⟨none, [(rev.hash, rev)], rev⟩)

/-- The state with a transaction branch on `n` that starts from `point`, and `n` among the
dirty nodes of the transaction. -/
def fork (s : State P) (n t : ℕ) (point : Rev P) (dirty : List ℕ) : State P :=
  { s.setBranch n (some t) (some ⟨some point, [], point⟩) with
    dirtyNodes := update s.dirtyNodes t (some (if n ∈ dirty then dirty else n :: dirty)) }

/-- The revision that a step on branch `txid` of a node starts from: its latest one on that
branch, or on the committed branch if there is none yet. -/
def headOf (s : State P) (n : ℕ) (txid : Option ℕ) : Option (Rev P) :=
  ((s.branches n txid).or (s.branches n none)).map Branch.latest

/-! ## The tables after a change -/

section Tables

variable (s : State P)

theorem setBranch_self (n : ℕ) (u : Option ℕ) (b : Option (Branch P)) :
    (s.setBranch n u b).branches n u = b := by
  simp [setBranch]

theorem setBranch_of_ne {n m : ℕ} {u v : Option ℕ} (b : Option (Branch P))
    (h : m ≠ n ∨ v ≠ u) : (s.setBranch n u b).branches m v = s.branches m v := by
  rcases h with h | h
  · simp [setBranch, h]
  · by_cases hm : m = n
    · subst hm
      simp [setBranch, h]
    · simp [setBranch, hm]

theorem setBranch_apply (n m : ℕ) (u v : Option ℕ) (b : Option (Branch P)) :
    (s.setBranch n u b).branches m v = if m = n ∧ v = u then b else s.branches m v := by
  by_cases h : m = n ∧ v = u
  · rw [if_pos h, h.1, h.2, setBranch_self]
  · rw [if_neg h, setBranch_of_ne]
    exact not_and_or.mp h

/-- A branch that is there was set, or was there before. -/
theorem setBranch_eq_some {n m : ℕ} {u v : Option ℕ} {b : Option (Branch P)} {c : Branch P}
    (h : (s.setBranch n u b).branches m v = some c) :
    (m = n ∧ v = u) ∧ b = some c ∨ s.branches m v = some c := by
  rw [setBranch_apply] at h
  split at h
  · next hmv => exact .inl ⟨hmv, h⟩
  · exact .inr h

@[simp] theorem setBranch_cleared (n u b) : (s.setBranch n u b).cleared = s.cleared := rfl
@[simp] theorem setBranch_nextRev (n u b) : (s.setBranch n u b).nextRev = s.nextRev := rfl
@[simp] theorem setBranch_nextNode (n u b) : (s.setBranch n u b).nextNode = s.nextNode := rfl
@[simp] theorem setBranch_objects (n u b) : (s.setBranch n u b).objects = s.objects := rfl
@[simp] theorem setBranch_parent (n u b) : (s.setBranch n u b).parent = s.parent := rfl

@[simp] theorem fork_branches (n t point dirty) :
    (s.fork n t point dirty).branches =
      (s.setBranch n (some t) (some ⟨some point, [], point⟩)).branches := rfl
@[simp] theorem alloc_cleared (r) : (s.alloc r).cleared = s.cleared := rfl
@[simp] theorem alloc_nextRev (r) : (s.alloc r).nextRev = s.nextRev + 1 := rfl
@[simp] theorem alloc_nextNode (r) : (s.alloc r).nextNode = s.nextNode := rfl
@[simp] theorem alloc_parent (r) : (s.alloc r).parent = s.parent := rfl

theorem alloc_objects (r : Rev P) (i : ℕ) :
    (s.alloc r).objects i = if i = r.ref then some r else s.objects i := by
  by_cases h : i = r.ref
  · simp [alloc, h]
  · simp [alloc, h]

@[simp] theorem born_branches (p) : (s.born p).branches = s.branches := rfl
@[simp] theorem born_nextNode (p) : (s.born p).nextNode = s.nextNode + 1 := rfl

theorem born_parent (p : Option (ℕ × String)) (c : ℕ) :
    (s.born p).parent c = if c = s.nextNode then p else s.parent c := by
  by_cases h : c = s.nextNode
  · simp [born, h]
  · simp [born, h]

/-- The latest revision after `_make_latest`. -/
theorem latest_advance (b : Branch P) (rev : Rev P) :
    (s.advance b rev).latest = rev ∨
      ((s.advance b rev).latest = b.latest ∧ s.hashOf rev = s.hashOf b.latest) := by
  by_cases hh : s.hashOf rev = s.hashOf b.latest
  · exact Or.inr ⟨if_pos hh, hh⟩
  · exact Or.inl (if_neg hh)

/-- `_make_latest` writes the branch it is called on, and the queues. -/
theorem makeLatest_eq {n : ℕ} {u : Option ℕ} {b : Branch P} (hb : s.branches n u = some b)
    (rev : Rev P) (changes : Changes P) :
    (s.makeLatest n u rev changes).branches =
      (s.setBranch n u (some (s.advance b rev))).branches := by
  unfold makeLatest
  rw [hb]
  by_cases hu : u = none
  · simp only [hu, if_true]
    rfl
  · simp only [hu, if_false]

section

variable (n : ℕ) (u : Option ℕ) (rev : Rev P) (changes : Changes P)

@[simp] theorem makeLatest_proxy : (s.makeLatest n u rev changes).proxy = s.proxy := by
  unfold makeLatest; split <;> [rfl; (split <;> rfl)]
@[simp] theorem makeLatest_tags : (s.makeLatest n u rev changes).tags = s.tags := by
  unfold makeLatest; split <;> [rfl; (split <;> rfl)]
@[simp] theorem makeLatest_dirtyNodes :
    (s.makeLatest n u rev changes).dirtyNodes = s.dirtyNodes := by
  unfold makeLatest; split <;> [rfl; (split <;> rfl)]
@[simp] theorem makeLatest_cleared : (s.makeLatest n u rev changes).cleared = s.cleared := by
  unfold makeLatest; split <;> [rfl; (split <;> rfl)]
@[simp] theorem makeLatest_isOpen : (s.makeLatest n u rev changes).isOpen = s.isOpen := by
  unfold makeLatest; split <;> [rfl; (split <;> rfl)]
@[simp] theorem makeLatest_nextRev : (s.makeLatest n u rev changes).nextRev = s.nextRev := by
  unfold makeLatest; split <;> [rfl; (split <;> rfl)]
@[simp] theorem makeLatest_nextNode : (s.makeLatest n u rev changes).nextNode = s.nextNode := by
  unfold makeLatest; split <;> [rfl; (split <;> rfl)]
@[simp] theorem makeLatest_nextTx : (s.makeLatest n u rev changes).nextTx = s.nextTx := by
  unfold makeLatest; split <;> [rfl; (split <;> rfl)]
@[simp] theorem makeLatest_objects : (s.makeLatest n u rev changes).objects = s.objects := by
  unfold makeLatest; split <;> [rfl; (split <;> rfl)]
@[simp] theorem makeLatest_parent : (s.makeLatest n u rev changes).parent = s.parent := by
  unfold makeLatest; split <;> [rfl; (split <;> rfl)]
end

end Tables

/-! ## Delivering the queues -/

/-- `invoke_callbacks` with `proceed_on_errors`: a callback that raises is skipped. -/
def callAll (n : ℕ) (type : CallbackType) :
    List (Callback P) → Context P → List (Delivery P)
  | [], _ => []
  | cb :: cbs, ctx =>
    .called n type ctx :: callAll n type cbs (match cb ctx with
      | .ok ctx' => ctx'
      | .error _ => ctx)

/-- `IGNORED_CALLBACKS` of the event bus. -/
def ignored : CallbackType → Bool
  | .preAdd => true
  | .get => true
  | .postListchange => true
  | .preRemove => true
  | .preUpdate => true
  | _ => false

/-- `advertise`. -/
def advertise (n : CallbackType × Context P × P.Hash) : List (Delivery P) :=
  if ignored n.1 then [] else [.published n.1 n.2.1 n.2.2]

/-- `execute_deferred_callbacks`.  A callback that writes to the tree does so after the
write that queued it, as a step of its own. -/
def executeDeferredCallbacks (s : State P) : State P :=
  { s with
    deferred := []
    notifications := []
    log := s.log ++ s.deferred.flatMap (fun q => callAll q.1 q.2.1 (s.callbacksOf q.1 q.2.1) q.2.2)
      ++ s.notifications.flatMap advertise }

end State

/-! ## Making revisions and calling back -/

section

variable {P : Proto}

/-- A new revision object (`mkrev`, and `copy` followed by `_finalize`). -/
def mkRev (n : ℕ) (txid : Option ℕ) (data : P.Data) (children : String → List (Rev P)) :
    M P (Rev P) := do
  let s ← read
  if s.unhashed data children then
    raise (.typeError "sequence item: expected string, NoneType found")
  else
    let rev : Rev P :=
      { ref := s.nextRev, node := n, txid := txid, data := data, children := children,
        hash := Rev.hashContent data children }
    modify fun s => s.alloc rev
    pure rev

/-- `update_data`. -/
def updateData (rev : Rev P) (data : P.Data) (txid : Option ℕ) : M P (Rev P) :=
  mkRev rev.node txid data rev.children

/-- `update_children`. -/
def updateChildren (rev : Rev P) (name : String) (children : List (Rev P)) (txid : Option ℕ) :
    M P (Rev P) :=
  mkRev rev.node txid rev.data (update rev.children name children)

/-- `_make_latest`. -/
def makeLatest (n : ℕ) (txid : Option ℕ) (rev : Rev P) (changes : Changes P) : M P Unit :=
  modify fun s => s.makeLatest n txid rev changes

/-- One callback: the call, then its result or its exception. -/
def callOne (n : ℕ) (type : CallbackType) (ctx : Context P) (cb : Callback P) :
    M P (Context P) := do
  modify fun s => { s with log := s.log ++ [.called n type ctx] }
  match cb ctx with
  | .ok ctx' => pure ctx'
  | .error e => raise (.callbackError e)

/-- `invoke_callbacks`; a node without a proxy has no callbacks. -/
def invokeCallbacks (n : ℕ) (type : CallbackType) (ctx : Context P) : M P (Context P) := do
  let s ← read
  (s.callbacksOf n type).foldlM (callOne n type) ctx

/-- `branch._latest`, read again. -/
def readLatest (n : ℕ) (txid : Option ℕ) : M P (Rev P) := do
  let s ← read
  match s.branches n txid with
  | some b => pure b.latest
  | none => raise (.keyError "branch")

end

end Voltha.Config
