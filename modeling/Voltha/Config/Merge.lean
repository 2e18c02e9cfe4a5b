import Voltha.Lib.OrderedDict
import Voltha.Config.State

/-!
# The three-way merge

`merge_3way` merges the latest revision of a transaction branch (`src`) into the committed
head of the same node (`dst`), knowing the revision at which the branch was made (`fork`).
It works field by field; a child that the transaction has a branch on is merged by the
function it is handed (`merge_child_func`), which returns no revision on a dry run.

The definitions follow the source loop by loop.  A list under construction is a list of
`Option (Rev P)`, `none` for the `None` that a dry run leaves in it.
-/

namespace Voltha.Config

open Act

variable {P : Proto}

/-- `merge_child_func`. -/
abbrev MergeChild (P : Proto) := Rev P → M P (Option (Rev P))

/-- A list under construction, with the changes to announce. -/
abbrev Merging (P : Proto) := List (Option (Rev P)) × Changes P

/-- `==` between lists of revisions: the same objects. -/
def sameRevs (l l' : List (Rev P)) : Bool := l.map Rev.ref = l'.map Rev.ref

/-! ## Analysing the changes of a keyed list -/

/-- The keys of the entries of a list. -/
def keysOf (key : String) : List (Rev P) → Except Err (List P.Val)
  | [] => .ok []
  | rev :: revs =>
    match P.getattr rev.data key with
    | none => .error (.attributeError key)
    | some k =>
      match keysOf key revs with
      | .error e => .error e
      | .ok ks => .ok (k :: ks)

/-- From keys to positions. -/
abbrev KeyMap (P : Proto) := List (P.Val × ℕ)

/-- `OrderedDict((getattr(rev, keyname), i) for i, rev in enumerate(lst))`. -/
def keymap (keys : List P.Val) : KeyMap P := OrderedDict.ofList keys.zipIdx

/-- The entry of a key. -/
def entry (l : List (Rev P)) (km : KeyMap P) (k : P.Val) : Option (Rev P) :=
  (km.lookup k).bind fun i => l[i]?

/-- `AnalyzeChanges`. -/
structure Analysis (P : Proto) where
  keymap1 : KeyMap P
  keymap2 : KeyMap P
  addedKeys : List P.Val
  removedKeys : List P.Val
  changedKeys : List P.Val

/-- `AnalyzeChanges(lst1, lst2, keyname)`, for lists with these keys. -/
def analyze (hashOf : Rev P → Option P.Hash) (l₁ l₂ : List (Rev P)) (keys₁ keys₂ : List P.Val) :
    Analysis P :=
  let km₁ := keymap keys₁
  let km₂ := keymap keys₂
  { keymap1 := km₁
    keymap2 := km₂
    addedKeys := (km₂.map Prod.fst).filter fun k => k ∉ km₁.map Prod.fst
    removedKeys := (km₁.map Prod.fst).filter fun k => k ∉ km₂.map Prod.fst
    changedKeys := (km₁.map Prod.fst).filter fun k =>
      k ∈ km₂.map Prod.fst ∧ (entry l₁ km₁ k).map hashOf ≠ (entry l₂ km₂ k).map hashOf }

/-- `AnalyzeChanges(lst1, lst2, keyname)`. -/
def analyzeChanges (l₁ l₂ : List (Rev P)) (key : String) : M P (Analysis P) := do
  let s ← read
  let keys₁ ← ofExcept (keysOf key l₁)
  let keys₂ ← ofExcept (keysOf key l₂)
  pure (analyze s.hashOf l₁ l₂ keys₁ keys₂)

/-- `keymap[key]`. -/
def indexOf (km : KeyMap P) (k : P.Val) : M P ℕ :=
  match km.lookup k with
  | some i => pure i
  | none => raise (.keyError (P.str k))

/-- `lst[i]`, handed to a function that reads the revision. -/
def itemAt (l : List (Option (Rev P))) (i : ℕ) : M P (Rev P) :=
  match l[i]? with
  | some (some rev) => pure rev
  | some none => raise (.attributeError "'NoneType' object has no attribute '_branch'")
  | none => raise (.indexError "list index out of range")

/-- `lst[keymap[key]]`. -/
def revOf (l : List (Rev P)) (km : KeyMap P) (k : P.Val) : M P (Rev P) := do
  let i ← indexOf km k
  itemAt (l.map some) i

/-- `new_rev.data`. -/
def dataOf : Option (Rev P) → M P P.Data
  | some rev => pure rev.data
  | none => raise (.attributeError "'NoneType' object has no attribute 'data'")

/-! ## A keyed field whose destination did not change -/

/-- `for key in src.added_keys`. -/
def takeAdded (mc : MergeChild P) (src : Analysis P) (acc : Merging P) (k : P.Val) :
    M P (Merging P) := do
  let idx ← indexOf src.keymap2 k
  let rev ← itemAt acc.1 idx
  let new ← mc rev
  let data ← dataOf new
  pure (acc.1.set idx new, acc.2 ++ [(.postAdd, .data data)])

/-- `for key in src.removed_keys`. -/
def takeRemoved (forkList : List (Rev P)) (src : Analysis P) (acc : Merging P) (k : P.Val) :
    M P (Merging P) := do
  let old ← revOf forkList src.keymap1 k
  pure (acc.1, acc.2 ++ [(.postRemove, .data old.data)])

/-- `for key in src.changed_keys`. -/
def takeChanged (mc : MergeChild P) (src : Analysis P) (acc : Merging P) (k : P.Val) :
    M P (Merging P) := do
  let idx ← indexOf src.keymap2 k
  let rev ← itemAt acc.1 idx
  let new ← mc rev
  pure (acc.1.set idx new, acc.2)

/-- The destination did not change: the list starts from the source's. -/
def mergeFromSource (mc : MergeChild P) (key : String) (forkList srcList : List (Rev P)) :
    M P (Merging P) := do
  let src ← analyzeChanges forkList srcList key
  let acc ← src.addedKeys.foldlM (takeAdded mc src) (srcList.map some, [])
  let acc ← src.removedKeys.foldlM (takeRemoved forkList src) acc
  src.changedKeys.foldlM (takeChanged mc src) acc

/-! ## A keyed field whose destination changed -/

/-- `for key in src.added_keys`. -/
def addKey (mc : MergeChild P) (srcList dstList : List (Rev P)) (src dst : Analysis P)
    (acc : Merging P) (k : P.Val) : M P (Merging P) :=
  if k ∈ dst.addedKeys then do
    let childDst ← revOf dstList dst.keymap2 k
    let childSrc ← revOf srcList src.keymap2 k
    let s ← read
    if s.hashOf childDst = s.hashOf childSrc then do
      -- the destination's revision is handed over, not the source's
      let _ ← mc childDst
      pure acc
    else raise (.mergeConflict "Cannot add because it has been added and different")
  else do
    let childSrc ← revOf srcList src.keymap2 k
    let new ← mc childSrc
    let data ← dataOf new
    pure (acc.1 ++ [new], acc.2 ++ [(.postAdd, .data data)])

/-- The merged child in the place of the destination's. -/
def putKey (mc : MergeChild P) (srcList : List (Rev P)) (src dst : Analysis P)
    (acc : Merging P) (k : P.Val) : M P (Merging P) := do
  let childSrc ← revOf srcList src.keymap2 k
  let new ← mc childSrc
  let idx ← indexOf dst.keymap2 k
  pure (acc.1.set idx new, acc.2)

/-- `for key in src.changed_keys`. -/
def changeKey (mc : MergeChild P) (srcList dstList : List (Rev P)) (src dst : Analysis P)
    (acc : Merging P) (k : P.Val) : M P (Merging P) :=
  if k ∈ dst.removedKeys then
    raise (.mergeConflict "Cannot change because it has been removed")
  else if k ∈ dst.changedKeys then do
    let childDst ← revOf dstList dst.keymap2 k
    let childSrc ← revOf srcList src.keymap2 k
    let s ← read
    if s.hashOf childDst = s.hashOf childSrc then do
      let _ ← mc childSrc
      pure acc
    else if childDst.configHash ≠ childSrc.configHash then
      raise (.mergeConflict "Cannot update because it has been changed and different")
    else putKey mc srcList src dst acc k
  else putKey mc srcList src dst acc k

/-- `for key in reversed(src.removed_keys)`: the position was taken before any removal. -/
def removeKey (dst : Analysis P) (acc : Merging P) (k : P.Val) : M P (Merging P) :=
  if k ∈ dst.changedKeys then
    raise (.mergeConflict "Cannot remove because it has changed")
  else if k ∈ dst.removedKeys then pure acc
  else do
    let idx ← indexOf dst.keymap2 k
    match acc.1[idx]? with
    | none => raise (.indexError "pop index out of range")
    | some old => do
      let data ← dataOf old
      pure (acc.1.eraseIdx idx, acc.2 ++ [(.postRemove, .data data)])

/-- The destination changed as well: the list starts from the destination's. -/
def mergeIntoDst (mc : MergeChild P) (key : String) (forkList srcList dstList : List (Rev P)) :
    M P (Merging P) := do
  let src ← analyzeChanges forkList srcList key
  let dst ← analyzeChanges forkList dstList key
  let acc ← src.addedKeys.foldlM (addKey mc srcList dstList src dst) (dstList.map some, [])
  let acc ← src.changedKeys.foldlM (changeKey mc srcList dstList src dst) acc
  src.removedKeys.reverse.foldlM (removeKey dst) acc

/-! ## One field, and the whole revision -/

/-- `[merge_child_func(rev) for rev in src_list]`. -/
def mergeAll (mc : MergeChild P) : List (Rev P) → M P (List (Option (Rev P)))
  | [] => pure []
  | rev :: revs => do
    let new ← mc rev
    let news ← mergeAll mc revs
    pure (new :: news)

/-- A field without a key: the source's list if only the source changed it. -/
def mergeUnkeyed (mc : MergeChild P) (name : String) (field : ChildType P.Cls P.Val)
    (forkList srcList dstList : List (Rev P)) : M P (Merging P) :=
  if sameRevs dstList forkList then
    if sameRevs srcList forkList then raise (.assertionError "We should not be here otherwise")
    else do
      let news ← mergeAll mc srcList
      pure (news, if field.isContainer then [(.postListchange, .operation name)] else [])
  else if sameRevs srcList forkList then pure (dstList.map some, [])
  else raise (.mergeConflict
    "Cannot merge because single child node or un-keyedchildren list has changed")

/-- A keyed field. -/
def mergeKeyed (mc : MergeChild P) (key : String) (forkList srcList dstList : List (Rev P)) :
    M P (Merging P) :=
  if sameRevs dstList forkList then mergeFromSource mc key forkList srcList
  else mergeIntoDst mc key forkList srcList dstList

/-- The new list of one field, with the changes to announce. -/
def mergeList (mc : MergeChild P) (name : String) (field : ChildType P.Cls P.Val)
    (forkList srcList dstList : List (Rev P)) : M P (Merging P) :=
  if sameRevs dstList srcList then do
    let _ ← mergeAll mc srcList
    pure (dstList.map some, [])
  else
    match field.kind with
    | .keyed key _ => mergeKeyed mc key forkList srcList dstList
    | .list => mergeUnkeyed mc name field forkList srcList dstList
    | .single => mergeUnkeyed mc name field forkList srcList dstList

/-- `new_children`, with the changes to announce. -/
abbrev MergingAll (P : Proto) := (String → List (Option (Rev P))) × Changes P

/-- `for field_name, field in _children_fields`. -/
def mergeField (mc : MergeChild P) (fork src dst : Rev P) (acc : MergingAll P)
    (field : String × ChildType P.Cls P.Val) : M P (MergingAll P) := do
  let merged ← mergeList mc field.1 field.2
    (fork.children field.1) (src.children field.1) (dst.children field.1)
  pure (Function.update acc.1 field.1 merged.1, acc.2 ++ merged.2)

/-- The collision check on the nodes' own data: has it changed? -/
def mergeConfig (fork src dst : Rev P) : Except Err Bool :=
  if dst.sameConfig fork then .ok (!dst.sameConfig src)
  else if dst.configHash ≠ src.configHash then .error (.mergeConflict "Config collision")
  else .ok true

/-- `update_all_children` on the branch of `dst`. -/
def updateAllChildren (dst : Rev P) (data : P.Data)
    (children : String → List (Option (Rev P))) : M P (Rev P) :=
  if (P.names (P.typeOf data)).any fun f => (children f).any Option.isNone then
    raise (.attributeError "'NoneType' object has no attribute '_hash'")
  else mkRev dst.node dst.txid data fun f => (children f).reduceOption

/-- `merge_3way`. -/
def merge3way (fork src dst : Rev P) (mc : MergeChild P) (dryRun : Bool) :
    M P (Option (Rev P) × Changes P) := do
  let configChanged ← ofExcept (mergeConfig fork src dst)
  let acc ← (P.childrenFields (P.typeOf fork.data)).foldlM (mergeField mc fork src dst)
    (fun f => (dst.children f).map some, [])
  if dryRun then pure (none, [])
  else do
    let data := if configChanged then src.data else dst.data
    let rev ← updateAllChildren dst data acc.1
    pure (some rev, if configChanged then acc.2 ++ [(.postUpdate, .data rev.data)] else acc.2)

end Voltha.Config
