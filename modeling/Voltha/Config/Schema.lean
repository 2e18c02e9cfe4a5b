import Mathlib

/-!
# Messages, schemas and exceptions of the configuration tree

The configuration tree (`voltha/core/config`) stores protobuf messages.  A field that
carries the `child_node` annotation is not stored with its message but in nodes of its
own, and `children_fields` lists these fields with what the tree needs to know of each.
`Proto` collects what the tree reads of the protobuf library and of the message classes:
descriptors, attribute access and digests.  Everything else about a message is its own
data, which the tree only compares, copies and hashes.
-/

namespace Voltha.Config

open List

/-- The exceptions the tree can raise, with their texts. -/
inductive Err where
  | keyError (text : String)
  | valueError (text : String)
  | lookupError (text : String)
  | notImplementedError (text : String)
  | attributeError (text : String)
  | typeError (text : String)
  | indexError (text : String)
  | assertionError (text : String)
  /-- `MergeConflictException` -/
  | mergeConflict (text : String)
  /-- `ClosedTransactionError` -/
  | closedTransaction
  /-- raised by a registered callback -/
  | callbackError (text : String)
  /-- `DecodeError` of protobuf -/
  | decodeError (text : String)
  /-- the interpreter's bound on nested calls -/
  | recursionError
  deriving DecidableEq, Repr

/-- `MergeConflictException`. -/
def Err.IsConflict (e : Err) : Prop := ∃ text, e = .mergeConflict text

/-- The `access` annotation of a field (`meta.proto`). -/
inductive Access where
  | config
  | readOnly
  | realTime
  deriving DecidableEq

/-- How a `child_node` field holds its children: one child, a list without a key, or a
list addressed by a key field.  `keyFromStr` is `key_from_str`: the identity for string
keys, `int` for integer keys, which raises on text that is no number. -/
inductive Kind (Val : Type) where
  | single
  | list
  | keyed (key : String) (keyFromStr : String → Except String Val)

/-- `_ChildType`. -/
structure ChildType (Cls Val : Type) where
  kind : Kind Val
  type : Cls

namespace ChildType

variable {Cls Val : Type}

def isContainer (field : ChildType Cls Val) : Bool :=
  match field.kind with
  | .single => false
  | .list => true
  | .keyed _ _ => true

end ChildType

/-- The message classes a tree is built of.  `hashData` is `_hash_data` of
`ConfigDataRevision`; `hashContent` is the digest that `_hash_content` takes of the
digest of a node's data and the digests of its children, field by field in the order of
the field names. -/
structure Proto where
  Cls : Type
  Data : Type
  Val : Type
  Hash : Type
  [decCls : DecidableEq Cls]
  [decData : DecidableEq Data]
  [decVal : DecidableEq Val]
  [decHash : DecidableEq Hash]
  className : Cls → String
  typeOf : Data → Cls
  /-- `getattr(data, name)`; there is no such attribute on `none` -/
  getattr : Data → String → Option Val
  /-- a value as `format` prints it -/
  str : Val → String
  childrenFields : Cls → List (String × ChildType Cls Val)
  accessRights : Cls → List (String × Access)
  hashData : Data → Hash
  hashContent : Hash → List (List Hash) → Hash
  /-- `children_fields` is a dict: no name twice -/
  names_nodup : ∀ c, ((childrenFields c).map Prod.fst).Nodup

namespace Proto

attribute [instance] decCls decData decVal decHash

variable (P : Proto)

instance : LawfulBEq P.Val := inferInstance

instance : LawfulBEq (Option P.Hash) := inferInstance

/-- The child fields of a class. -/
def names (c : P.Cls) : List String := (P.childrenFields c).map Prod.fst

/-- `sorted(self._children.keys())`. -/
def sortedNames (c : P.Cls) : List String := (P.names c).insertionSort (· ≤ ·)

/-- `children_fields(cls)[name]`. -/
def field (c : P.Cls) (name : String) : Option (ChildType P.Cls P.Val) :=
  (P.childrenFields c).lookup name

/-- Equal digests mean equal content: what the tree relies on when it compares
revisions by their hashes ("a unique hash based on the config data which can be used to
establish equivalence"). -/
structure CollisionFree : Prop where
  hashData_inj : ∀ {d d' : P.Data}, P.hashData d = P.hashData d' → d = d'
  hashContent_inj : ∀ {h h' : P.Hash} {l l' : List (List P.Hash)},
    P.hashContent h l = P.hashContent h' l' → h = h' ∧ l = l'

variable {name : String} {c : P.Cls}

theorem mem_sortedNames : name ∈ P.sortedNames c ↔ name ∈ P.names c := by
  unfold sortedNames
  exact mem_insertionSort _

theorem field_eq_some {field : ChildType P.Cls P.Val} :
    P.field c name = some field ↔ (name, field) ∈ P.childrenFields c := by
  have hnodup := P.names_nodup c
  unfold Proto.field
  generalize P.childrenFields c = l at hnodup
  induction l with
  | nil => simp
  | cons p l ih =>
    obtain ⟨n, t⟩ := p
    rw [map_cons, nodup_cons] at hnodup
    rw [lookup_cons]
    by_cases hn : name = n
    · subst hn
      have hnot : ∀ t', (name, t') ∉ l := fun t' ht =>
        hnodup.1 (mem_map.mpr ⟨(name, t'), ht, rfl⟩)
      simp only [beq_self_eq_true, Option.some.injEq, mem_cons, Prod.mk.injEq, true_and]
      constructor
      · intro h
        exact Or.inl h.symm
      · rintro (h | h)
        · exact h.symm
        · exact absurd h (hnot field)
    · rw [beq_false_of_ne hn]
      simp only [ih hnodup.2, mem_cons, Prod.mk.injEq, hn, false_and, false_or]

theorem mem_names_of_field {field : ChildType P.Cls P.Val} (h : P.field c name = some field) :
    name ∈ P.names c :=
  mem_map.mpr ⟨(name, field), P.field_eq_some.mp h, rfl⟩

end Proto

/-- A message as a caller hands it in: its own data and, under each child field, the
messages it holds there.  For a single field the list has one entry, the message that
attribute access returns (the default one when the field is not set); `hasField` tells
whether it is set. -/
inductive Msg (P : Proto) where
  | mk (data : P.Data) (children : String → List (Msg P)) (hasField : String → Bool)

namespace Msg

variable {P : Proto}

def data : Msg P → P.Data
  | mk data _ _ => data

def children : Msg P → String → List (Msg P)
  | mk _ children _ => children

def hasField : Msg P → String → Bool
  | mk _ _ hasField => hasField

end Msg

/-- A path, as the list of its segments between slashes: `/adapters/2` is
`["", "adapters", "2"]`.  The rest after the last segment of a path is the empty text,
written `[]` or `[""]`. -/
abbrev Path := List String

/-- `not path`, for the rest of a path. -/
def Path.isNil : Path → Bool
  | [] => true
  | [name] => name = ""
  | _ => false

/-- `CallbackType`. -/
inductive CallbackType where
  | get
  | preUpdate
  | postUpdate
  | preAdd
  | postAdd
  | preRemove
  | postRemove
  | postListchange
  deriving DecidableEq

/-- What a callback or a notification is handed: a caller's message, the own data of a
revision, or the `OperationContext` of a bulk change of a list field. -/
inductive Context (P : Proto) where
  | msg (m : Msg P)
  | data (d : P.Data)
  | operation (fieldName : String)

/-- A registered callback: it returns the context to go on with, or raises. -/
abbrev Callback (P : Proto) := Context P → Except String (Context P)

end Voltha.Config
