import Voltha.Config.Node
import Voltha.Config.Merge

/-!
# The root: transactions, commits and runs

`ConfigRoot` adds transactions to the operations of a node.  A transaction is opened by
forking the root, its writes fork the other nodes when they first touch them, and
`fold_txbranch` merges its branches into the committed ones: first as a dry run, to find
conflicts, then in earnest.

`Op` is what a client can do, through `ConfigRoot`, `ConfigProxy` and `ConfigTransaction`;
`run` is a whole history of a tree, in which an operation that raises leaves the state it
had reached.
-/

namespace Voltha.Config

open Act

variable {P : Proto}

/-! ## Transaction branches -/

/-- The state with the branch of a transaction taken out of a node. -/
def State.dropBranch (s : State P) (n t : ℕ) : State P := s.setBranch n (some t) none

/-- `merge_child`: a child revision of the transaction's own branch is merged at its node,
any other one is taken as it is. -/
def mergeChild (t : ℕ) (mergeNode : ℕ → M P (Option (Rev P))) : MergeChild P := fun childRev =>
  if childRev.txid = some t then mergeNode childRev.node else pure (some childRev)

/-- The merged revision becomes the committed head of its node, and the branch of the
transaction goes. -/
def settle (n t : ℕ) : Option (Rev P) × Changes P → M P (Option (Rev P))
  | (none, _) => pure none
  | (some rev, changes) => do
    makeLatest n none rev changes
    modify fun s => s.dropBranch n t
    pure (some rev)

/-- `_merge_txbranch` for transaction `t`.  The number bounds the depth of nested calls. -/
def mergeTxbranch (t : ℕ) (dryRun : Bool) : ℕ → ℕ → M P (Option (Rev P))
  | 0, _ => raise .recursionError
  | fuel + 1, n => do
    let s ← read
    match s.branches n (some t), s.branches n none with
    | some src, some dst =>
      match src.origin with
      | none => raise (.attributeError "'NoneType' object has no attribute '_config'")
      | some fork => do
        let merged ← merge3way fork src.latest dst.latest
          (mergeChild t (mergeTxbranch t dryRun fuel)) dryRun
        settle n t merged
    | _, _ => raise (.keyError "txid")

/-- `_merge_txbranch` of the root; merges nest no deeper than there are nodes. -/
def mergeRoot (t : ℕ) (dryRun : Bool) : M P (Option (Rev P)) := do
  let s ← read
  mergeTxbranch t dryRun (s.nextNode + 1) 0

/-- `mk_txbranch`. -/
def mkTxbranch : M P ℕ := do
  let s ← read
  match s.branches 0 none with
  | none => raise (.keyError "None")
  | some committed => do
    modify fun s => { s.fork 0 s.nextTx committed.latest [0] with nextTx := s.nextTx + 1 }
    pure s.nextTx

/-- `_del_txbranch` of each of the nodes. -/
def delBranches (t : ℕ) : List ℕ → M P Unit
  | [] => pure ()
  | n :: ns => do
    let s ← read
    match s.branches n (some t) with
    | none => raise (.keyError "txid")
    | some _ => do
      modify fun s => s.dropBranch n t
      delBranches t ns

/-- `del_txbranch`. -/
def delTxbranch (t : ℕ) : M P Unit := do
  let s ← read
  match s.dirtyNodes t with
  | none => raise (.keyError "txid")
  | some dirty => do
    delBranches t dirty
    modify fun s => { s with dirtyNodes := Function.update s.dirtyNodes t none }

/-- `fold_txbranch`.  Only a `MergeConflictException` of the dry run is caught. -/
def foldTxbranch (t : ℕ) : M P Unit := fun s =>
  match mergeRoot t true s with
  | (.error (.mergeConflict text), s') => (do
      delTxbranch t
      raise (.mergeConflict text)) s'
  | (.error e, s') => (.error e, s')
  | (.ok _, s') => ((do
      let _ ← mergeRoot t false
      pure ()) : M P Unit).andFinally State.executeDeferredCallbacks s'

/-! ## Root-level writes -/

/-- `check_callback_queue`. -/
def checkCallbackQueue : M P Unit := do
  let s ← read
  match s.deferred with
  | [] => pure ()
  | _ => raise (.assertionError "")

/-- `dirtied = self._dirty_nodes[txid]`. -/
def checkTxid : Option ℕ → M P Unit
  | none => pure ()
  | some t => do
    let s ← read
    match s.dirtyNodes t with
    | some _ => pure ()
    | none => raise (.keyError "txid")

/-- The frame that `ConfigRoot` puts around a write of `ConfigNode`. -/
def rootWrite (txid : Option ℕ) (write : M P (Rev P)) : M P (Rev P) := do
  checkCallbackQueue
  (do
    checkTxid txid
    write).andFinally State.executeDeferredCallbacks

/-- `ConfigRoot.update`. -/
def rootUpdate (path : Path) (data : Msg P) (strict : Bool) (txid : Option ℕ) : M P (Rev P) :=
  rootWrite txid (update strict txid data path 0)

/-- `ConfigRoot.add`. -/
def rootAdd (path : Path) (data : Msg P) (txid : Option ℕ) : M P (Rev P) :=
  rootWrite txid (add txid data path 0)

/-- `ConfigRoot.remove`. -/
def rootRemove (path : Path) (txid : Option ℕ) : M P (Rev P) :=
  rootWrite txid (remove txid path 0)

/-! ## Proxies and tags -/

/-- The node that `_get_proxy` arrives at, following the committed heads. -/
def findNode (s : State P) : Path → ℕ → Except Err ℕ
  | [], n => .ok n
  | name :: path, n =>
    if name = "" then findNode s path n
    else
      match s.branches n none with
      | none => .error (.keyError "None")
      | some b =>
        match P.field (P.typeOf b.latest.data) name with
        | none => .error (.keyError name)
        | some field =>
          match field.kind with
          | .single =>
            match b.latest.children name with
            | [] => .error (.indexError "list index out of range")
            | childRev :: _ => findNode s path childRev.node
          | .list =>
            if Path.isNil path then .error (.valueError "Cannot proxy a container field")
            else .error (.valueError "Cannot index into container with no keys")
          | .keyed key keyFromStr =>
            match path with
            | [] => .error (.valueError "Cannot proxy a container field")
            | keyStr :: rest =>
              if Path.isNil (keyStr :: rest) then
                .error (.valueError "Cannot proxy a container field")
              else
                match keyFromStr keyStr with
                | .error e => .error (.valueError e)
                | .ok k =>
                  match findRevByKey (b.latest.children name) key k with
                  | .error e => .error e
                  | .ok found => findNode s rest found.2.node

/-- `get_proxy`. -/
def getProxy (path : Path) (exclusive : Bool) : M P ℕ := do
  let s ← read
  let n ← ofExcept (findNode s path 0)
  match s.proxy n with
  | some proxy =>
    if proxy.exclusive then raise (.valueError "Node is already owned exclusively")
    else pure n
  | none => do
    modify fun s =>
      { s with proxy := Function.update s.proxy n (some ⟨exclusive, fun _ => []⟩) }
    pure n

/-- `register_callback`. -/
def Proxy.register (proxy : Proxy P) (type : CallbackType) (cb : Callback P) : Proxy P :=
  ⟨proxy.exclusive, Function.update proxy.callbacks type (proxy.callbacks type ++ [cb])⟩

/-- `get_proxy(path, exclusive).register_callback(type, callback)`. -/
def registerCallback (path : Path) (exclusive : Bool) (type : CallbackType) (cb : Callback P) :
    M P Unit := do
  let n ← getProxy path exclusive
  modify fun s =>
    { s with
      proxy := Function.update s.proxy n ((s.proxy n).map fun proxy => proxy.register type cb) }

/-- `tag`. -/
def tag (name : String) (hash : Option P.Hash) : M P Unit := do
  let s ← read
  match s.branches 0 none with
  | none => raise (.keyError "None")
  | some b =>
    match (match hash with
      | none => some b.latest
      | some h => b.revs.lookup h) with
    | none => raise (.keyError "hash")
    | some rev => modify fun s => { s with tags := OrderedDict.insert name rev s.tags }

/-- `delete_tag`. -/
def deleteTag (name : String) : M P Unit := do
  let s ← read
  if name ∈ s.tags.map Prod.fst then
    modify fun s => { s with tags := s.tags.filter fun p => p.1 ≠ name }
  else raise (.keyError name)

/-- `prune_untagged`: of the root's revisions, the tagged ones and the latest one stay. -/
def pruneUntagged : M P Unit := do
  let s ← read
  match s.branches 0 none with
  | none => raise (.keyError "None")
  | some b =>
    let keep := s.hashOf b.latest :: s.tags.map fun p => s.hashOf p.2
    modify fun s => s.setBranch 0 none
      (some { b with revs := b.revs.filter fun p => some p.1 ∈ keep })

/-! ## Runs -/

/-- What a client can do.  The transaction of a write is given by its id, `none` for a
write to the committed branch. -/
inductive Op (P : Proto) where
  | update (path : Path) (data : Msg P) (strict : Bool) (txid : Option ℕ)
  | add (path : Path) (data : Msg P) (txid : Option ℕ)
  | remove (path : Path) (txid : Option ℕ)
  | openTransaction
  | cancel (t : ℕ)
  | commit (t : ℕ)
  | registerCallback (path : Path) (exclusive : Bool) (type : CallbackType) (cb : Callback P)
  | tag (name : String) (hash : Option P.Hash)
  | deleteTag (name : String)
  | pruneUntagged

/-- A `ConfigTransaction` that has given up its id raises: `ClosedTransactionError` from a
write, and what `del_txbranch` and `fold_txbranch` raise for the id `None` from `cancel` and
`commit`. -/
def checkOpen (e : Err) : Option ℕ → M P Unit
  | none => pure ()
  | some t => do
    let s ← read
    if s.isOpen t then pure () else raise e

/-- The `ConfigTransaction` gives up its id. -/
def State.close (s : State P) (t : ℕ) : State P :=
  { s with isOpen := Function.update s.isOpen t false }

/-- One operation. -/
def exec : Op P → M P Unit
  | .update path data strict txid => do
    checkOpen .closedTransaction txid
    let _ ← rootUpdate path data strict txid
  | .add path data txid => do
    checkOpen .closedTransaction txid
    let _ ← rootAdd path data txid
  | .remove path txid => do
    checkOpen .closedTransaction txid
    let _ ← rootRemove path txid
  | .openTransaction => do
    let t ← mkTxbranch
    modify fun s => { s with isOpen := Function.update s.isOpen t true }
  | .cancel t => do
    checkOpen (.keyError "None") (some t)
    delTxbranch t
    modify fun s => s.close t
  | .commit t => do
    checkOpen (.attributeError "'NoneType' object has no attribute '_config'") (some t)
    (foldTxbranch t).andFinally fun s => s.close t
  | .registerCallback path exclusive type cb => Config.registerCallback path exclusive type cb
  | .tag name hash => Config.tag name hash
  | .deleteTag name => Config.deleteTag name
  | .pruneUntagged => Config.pruneUntagged

/-- The state after an operation, whether it returned or raised. -/
def step (s : State P) (op : Op P) : State P := (exec op s).2

/-- The state after a sequence of operations. -/
def run (s : State P) (ops : List (Op P)) : State P := ops.foldl step s

/-- No objects at all. -/
def State.empty : State P where
  branches := fun _ _ => none
  proxy := fun _ => none
  tags := []
  dirtyNodes := fun _ => none
  cleared := []
  deferred := []
  notifications := []
  isOpen := fun _ => false
  nextRev := 0
  nextNode := 0
  nextTx := 0
  objects := fun _ => none
  parent := fun _ => none
  log := []

/-- `ConfigRoot(initial_data)`. -/
def mkRoot (data : Msg P) : Except Err (Rev P) × State P := mknode data none State.empty

/-- The states of a tree: a root that was made, and any operations on it. -/
inductive Reachable : State P → Prop where
  | init {data : Msg P} {rev : Rev P} {s : State P} : mkRoot data = (.ok rev, s) → Reachable s
  | step {s : State P} (op : Op P) : Reachable s → Reachable (step s op)

theorem Reachable.run {s : State P} (h : Reachable s) (ops : List (Op P)) :
    Reachable (run s ops) := by
  induction ops generalizing s with
  | nil => exact h
  | cons op ops ih => exact ih (h.step op)

end Voltha.Config
