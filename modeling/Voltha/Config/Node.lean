import Voltha.Config.State

/-!
# Operations of a node

`get`, `update`, `add` and `remove` of `ConfigNode`, and the creation of nodes.  A write
walks down the path from the root.  At each node it takes the branch of its transaction,
making one at the committed head of the node if the transaction has none there, finds
the child in the latest revision of that branch, and recurses; on the way back each node puts
the revision it was handed for the child into a new revision of its own.
-/

namespace Voltha.Config

open Act

variable {P : Proto}

/-- `find_rev_by_key`, counting from `i`. -/
def findRevByKeyFrom (key : String) (value : P.Val) : ℕ → List (Rev P) → Except Err (ℕ × Rev P)
  | _, [] => .error (.keyError ("key " ++ key ++ "=" ++ P.str value ++ " not found"))
  | i, rev :: revs =>
    match P.getattr rev.data key with
    | none => .error (.attributeError key)
    | some v => if v = value then .ok (i, rev) else findRevByKeyFrom key value (i + 1) revs

/-- `find_rev_by_key`. -/
def findRevByKey (revs : List (Rev P)) (key : String) (value : P.Val) : Except Err (ℕ × Rev P) :=
  findRevByKeyFrom key value 0 revs

/-! ## Creating nodes -/

/-- The identity of a new node. -/
def newNode (parent : Option (ℕ × String)) : M P ℕ := do
  let s ← read
  modify fun s => s.born parent
  pure s.nextNode

/-- The messages of one child field, each with the step that makes its node. -/
abbrev Makers (P : Proto) := List (P.Data × M P (Rev P))

/-- The nodes of a keyed field: after each new node its key must not have been seen. -/
def initKeyed (key : String) : List P.Val → Makers P → M P (List (Rev P))
  | _, [] => pure []
  | seen, (v, make) :: rest => do
    let rev ← make
    match P.getattr v key with
    | none => raise (.attributeError key)
    | some k =>
      if k ∈ seen then raise (.valueError ("Duplicate key \"" ++ P.str k ++ "\""))
      else do
        let revs ← initKeyed key (k :: seen) rest
        pure (rev :: revs)

/-- The nodes of a list without a key. -/
def initList : Makers P → M P (List (Rev P))
  | [] => pure []
  | (_, make) :: rest => do
    let rev ← make
    let revs ← initList rest
    pure (rev :: revs)

/-- The nodes of one child field. -/
def initField (n : ℕ) (makers : String → Option (ℕ × String) → Makers P)
    (children : String → List (Rev P)) (field : String × ChildType P.Cls P.Val) :
    M P (String → List (Rev P)) := do
  let held := makers field.1 (some (n, field.1))
  let revs ← match field.2.kind with
    | .keyed key _ => initKeyed key [] held
    | .list => initList held
    | .single => initList (held.take 1)
  pure (Function.update children field.1 revs)

/-- `_initialize`: the children's nodes first, then the first revision of the node. -/
def initNode (data : P.Data) (parent : Option (ℕ × String))
    (makers : String → Option (ℕ × String) → Makers P) : M P (Rev P) := do
  let n ← newNode parent
  let children ← (P.childrenFields (P.typeOf data)).foldlM (initField n makers) (fun _ => [])
  let rev ← mkRev n none data children
  modify fun s => s.seat rev
  pure rev

mutual

/-- `_mknode(data).latest`: a new node for a message, and its first revision. -/
def mknode : Msg P → Option (ℕ × String) → M P (Rev P)
  | .mk data children _, parent => initNode data parent fun name p => makers (children name) p

def makers : List (Msg P) → Option (ℕ × String) → Makers P
  | [], _ => []
  | m :: ms, p => (m.data, mknode m p) :: makers ms p

end

/-! ## Branches -/

/-- `track_dirty`: the node joins the dirty nodes of the transaction and gets a branch at
its committed head (`_mk_txbranch`). -/
def trackDirty (n t : ℕ) : M P (Branch P) := do
  let s ← read
  match s.dirtyNodes t, s.branches n none with
  | some dirty, some committed => do
    modify fun s => s.fork n t committed.latest dirty
    pure ⟨some committed.latest, [], committed.latest⟩
  | _, _ => raise (.keyError "None")

/-- `self._branches[txid]`, or `mk_branch(self)`. -/
def openBranch (n : ℕ) (txid : Option ℕ) : M P (Branch P) := do
  let s ← read
  match s.branches n txid with
  | some b => pure b
  | none =>
    match txid with
    | some t => trackDirty n t
    | none => raise (.keyError "None")

/-! ## Update -/

/-- `_test_no_children`. -/
def testNoChildren (data : Msg P) : List (String × ChildType P.Cls P.Val) → M P Unit
  | [] => pure ()
  | (name, field) :: fields =>
    match field.isContainer with
    | true =>
      if (data.children name).length = 0 then testNoChildren data fields
      else raise (.notImplementedError "Cannot update external children")
    | false =>
      if data.hasField name then
        raise (.notImplementedError "Cannot update externel children")
      else testNoChildren data fields

/-- The read-only fields that differ. -/
def violatedFields (new old : P.Data) : List String :=
  ((P.accessRights (P.typeOf new)).filter fun a =>
    a.2 = .readOnly ∧ P.getattr new a.1 ≠ P.getattr old a.1).map Prod.fst

/-- `check_access_violation`. -/
def checkAccessViolation (new old : P.Data) : M P Unit :=
  match violatedFields new old with
  | [] => pure ()
  | fields => raise (.valueError ("Cannot change read-only field(s) " ++
      ", ".intercalate (fields.map fun f => "\"" ++ f ++ "\"")))

/-- The check that `strict` asks for. -/
def checkStrict (strict : Bool) (new old : P.Data) : M P Unit :=
  if strict then checkAccessViolation new old else pure ()

/-- A new revision of the node in the branch, with its announcements. -/
def install (n : ℕ) (txid : Option ℕ) (make : M P (Rev P)) (changes : Rev P → Changes P) :
    M P (Rev P) := do
  let rev ← make
  makeLatest n txid rev (changes rev)
  pure rev

/-- `_do_update`. -/
def doUpdate (n : ℕ) (txid : Option ℕ) (b : Branch P) (data : Msg P) (strict : Bool) :
    M P (Rev P) := do
  if P.typeOf data.data = P.typeOf b.latest.data then do
    testNoChildren data (P.childrenFields (P.typeOf b.latest.data))
    let _ ← invokeCallbacks n .preUpdate (.msg data)
    if b.latest.data = data.data then
      pure b.latest
    else do
      checkStrict strict data.data b.latest.data
      install n txid (updateData b.latest data.data txid)
        fun rev => [(.postUpdate, .data rev.data)]
  else
    raise (.valueError ("\"" ++ P.className (P.typeOf data.data) ++
      "\" is not a valid data type for this node"))

/-- A new revision of the node with `new` in the place `idx` of a child field. -/
def replaceChild (n : ℕ) (txid : Option ℕ) (rev : Rev P) (name : String) (idx : ℕ)
    (new : Rev P) : M P (Rev P) :=
  install n txid (updateChildren rev name ((rev.children name).set idx new) txid) fun _ => []

/-- What `update` does with the revision that a keyed child has returned.  Equal hashes
are taken for no change: the new object, if it is another one, loses its hash. -/
def updateKeyed (n : ℕ) (txid : Option ℕ) (rev : Rev P) (name key : String) (k : P.Val)
    (idx : ℕ) (childRev new : Rev P) : M P (Rev P) := do
  let s ← read
  if s.hashOf new = s.hashOf childRev then do
    if new.ref ≠ childRev.ref then modify fun s => s.clearHash new else pure ()
    readLatest n txid
  else
    match P.getattr new.data key with
    | none => raise (.attributeError key)
    | some k' =>
      if k' ≠ k then raise (.valueError "Cannot change key field")
      else replaceChild n txid rev name idx new

/-- `ConfigNode.update`. -/
def update (strict : Bool) (txid : Option ℕ) (data : Msg P) : Path → ℕ → M P (Rev P)
  | [], n => do
    let b ← openBranch n txid
    doUpdate n txid b data strict
  | name :: path, n =>
    if name = "" then update strict txid data path n
    else do
      let b ← openBranch n txid
      match P.field (P.typeOf b.latest.data) name with
      | none => raise (.keyError name)
      | some field =>
        match field.kind with
        | .single =>
          match b.latest.children name with
          | [] => raise (.indexError "list index out of range")
          | childRev :: _ => do
            let new ← update strict txid data path childRev.node
            install n txid (updateChildren b.latest name [new] txid) fun _ => []
        | .list =>
          if Path.isNil path then raise (.valueError "Cannot update a list")
          else raise (.valueError "Cannot index into container with no keys")
        | .keyed key keyFromStr =>
          match path with
          | [] => raise (.valueError "Cannot update a list")
          | keyStr :: rest =>
            if Path.isNil (keyStr :: rest) then raise (.valueError "Cannot update a list")
            else
              match keyFromStr keyStr with
              | .error e => raise (.valueError e)
              | .ok k => do
                let found ← ofExcept (findRevByKey (b.latest.children name) key k)
                let new ← update strict txid data rest found.2.node
                updateKeyed n txid b.latest name key k found.1 found.2 new

/-! ## Add -/

/-- `find_rev_by_key` is to fail: the key must be new. -/
def checkNewKey (revs : List (Rev P)) (key : String) (k : P.Val) : M P Unit :=
  match findRevByKey revs key k with
  | .error (.keyError _) => pure ()
  | .error e => raise e
  | .ok _ => raise (.valueError ("Duplicate key \"" ++ P.str k ++ "\""))

/-- A new child of a keyed field. -/
def addChild (n : ℕ) (txid : Option ℕ) (rev : Rev P) (name key : String) (data : Msg P) :
    M P (Rev P) := do
  let _ ← invokeCallbacks n .preAdd (.msg data)
  match P.getattr data.data key with
  | none => raise (.attributeError key)
  | some k => do
    checkNewKey (rev.children name) key k
    let childRev ← mknode data (some (n, name))
    install n txid (updateChildren rev name (rev.children name ++ [childRev]) txid)
      fun _ => [(.postAdd, .msg data)]

/-- `ConfigNode.add`. -/
def add (txid : Option ℕ) (data : Msg P) : Path → ℕ → M P (Rev P)
  | [], _ => raise (.valueError "Cannot add to non-container node")
  | name :: path, n =>
    if name = "" then add txid data path n
    else do
      let b ← openBranch n txid
      match P.field (P.typeOf b.latest.data) name with
      | none => raise (.keyError name)
      | some field =>
        match field.kind with
        | .single => raise (.valueError "Cannot add to non-container field")
        | .list =>
          if Path.isNil path then raise (.valueError "Cannot add to non-keyed container")
          else raise (.valueError "Cannot index into container with no keys")
        | .keyed key keyFromStr =>
          match path with
          | [] => addChild n txid b.latest name key data
          | keyStr :: rest =>
            if Path.isNil (keyStr :: rest) then addChild n txid b.latest name key data
            else
              match keyFromStr keyStr with
              | .error e => raise (.valueError e)
              | .ok k => do
                let found ← ofExcept (findRevByKey (b.latest.children name) key k)
                let new ← add txid data rest found.2.node
                replaceChild n txid b.latest name found.1 new

/-! ## Remove -/

/-- A child of a keyed field is taken out. -/
def removeChild (n : ℕ) (txid : Option ℕ) (rev : Rev P) (name : String) (idx : ℕ)
    (childRev : Rev P) : M P (Rev P) := do
  let _ ← invokeCallbacks n .preRemove (.data childRev.data)
  install n txid (updateChildren rev name ((rev.children name).eraseIdx idx) txid)
    fun _ => [(.postRemove, .data childRev.data)]

/-- `ConfigNode.remove`. -/
def remove (txid : Option ℕ) : Path → ℕ → M P (Rev P)
  | [], _ => raise (.valueError "Cannot remove from non-container node")
  | name :: path, n =>
    if name = "" then remove txid path n
    else do
      let b ← openBranch n txid
      match P.field (P.typeOf b.latest.data) name with
      | none => raise (.keyError name)
      | some field =>
        match field.kind with
        | .single => raise (.valueError "Cannot remove non-conatiner field")
        | .list =>
          if Path.isNil path then raise (.valueError "Cannot remove without a key")
          else raise (.valueError "Cannot remove from non-keyed container")
        | .keyed key keyFromStr =>
          match path with
          | [] => raise (.valueError "Cannot remove without a key")
          | keyStr :: rest =>
            if Path.isNil (keyStr :: rest) then
              raise (.valueError "Cannot remove without a key")
            else
              match keyFromStr keyStr with
              | .error e => raise (.valueError e)
              | .ok k => do
                let found ← ofExcept (findRevByKey (b.latest.children name) key k)
                if Path.isNil rest then removeChild n txid b.latest name found.1 found.2
                else do
                  let new ← remove txid rest found.2.node
                  replaceChild n txid b.latest name found.1 new

/-! ## Get -/

/-- What a read returns: one message, or the messages of a list. -/
inductive Reply (P : Proto) where
  | one (m : Msg P)
  | many (ms : List (Msg P))

/-- The callbacks of a read, one after the other. -/
def augment : List (Callback P) → Context P → Except Err (Context P)
  | [], ctx => .ok ctx
  | cb :: cbs, ctx =>
    match cb ctx with
    | .ok ctx' => augment cbs ctx'
    | .error e => .error (.callbackError e)

/-- `_do_get`: the `GET` callbacks of the node may augment the message. -/
def doGet (s : State P) (depth : ℤ) (rev : Rev P) : Except Err (Msg P) :=
  match rev.get depth with
  | .error e => .error e
  | .ok m =>
    match augment (s.callbacksOf rev.node .get) (.msg m) with
    | .error e => .error e
    | .ok (.msg m') => .ok m'
    | .ok _ => .error (.attributeError "DESCRIPTOR")

/-- The reads of the revisions of a list. -/
def doGetAll (s : State P) (depth : ℤ) : List (Rev P) → Except Err (List (Msg P))
  | [] => .ok []
  | rev :: revs =>
    match doGet s depth rev with
    | .error e => .error e
    | .ok m =>
      match doGetAll s depth revs with
      | .error e => .error e
      | .ok ms => .ok (m :: ms)

/-- `_get`. -/
def getIn (s : State P) (depth : ℤ) : Path → Rev P → Except Err (Reply P)
  | [], rev => (doGet s depth rev).map .one
  | name :: path, rev =>
    if Path.isNil (name :: path) then (doGet s depth rev).map .one
    else
      match P.field (P.typeOf rev.data) name with
      | none => .error (.keyError name)
      | some field =>
        match field.kind with
        | .single =>
          match rev.children name with
          | [] => .error (.indexError "list index out of range")
          | childRev :: _ => getIn s depth path childRev
        | .list =>
          if Path.isNil path then (doGetAll s depth (rev.children name)).map .many
          else .error (.lookupError "Cannot index into container with no key defined")
        | .keyed key keyFromStr =>
          match path with
          | [] => (doGetAll s depth (rev.children name)).map .many
          | keyStr :: rest =>
            if Path.isNil (keyStr :: rest) then (doGetAll s depth (rev.children name)).map .many
            else
              match keyFromStr keyStr with
              | .error e => .error (.valueError e)
              | .ok k =>
                match findRevByKey (rev.children name) key k with
                | .error e => .error e
                | .ok found => getIn s depth rest found.2

/-- `while path.startswith('/')`. -/
def lstrip : Path → Path
  | [] => []
  | name :: path => if name = "" then lstrip path else name :: path

/-- `ConfigNode.get`, with `depth = -1` for `deep`: the branch of the transaction if the
node has one, else the committed one. -/
def get (s : State P) (n : ℕ) (path : Path) (depth : ℤ) (txid : Option ℕ) :
    Except Err (Reply P) :=
  match (s.branches n txid).or (s.branches n none) with
  | none => .error (.keyError "None")
  | some b => getIn s depth (lstrip path) b.latest

end Voltha.Config
