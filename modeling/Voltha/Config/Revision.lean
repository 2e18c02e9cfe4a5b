import Voltha.Config.Schema

/-!
# Revisions

A `ConfigRevision` is a node's own data together with the revisions of its children, per
field.  Two things about it are not content: the branch it was made for (`node`, `txid`),
and which object it is (`ref`).  The comparisons of the merge are made on both:
`==` between revisions, and between lists of them, is identity of objects, and `hash` is a
digest of the content.

`_finalize` keeps one data object for each digest in `_rev_cache`, so that two live
revisions hold the same data object exactly when the digests of their data agree;
`sameConfig` is `is` between the data objects of two revisions.

* `Rev.tree`: the content of a revision, without branches and objects.
* `Rev.Desc`: the revisions below a revision.
* `tree_eq_of_hash_eq`: under collision freedom, revisions of one hash have one content.
-/

namespace Voltha.Config

open List

/-- `ConfigRevision`.  `node` and `txid` are `_branch._node` and `_branch._txid`; `hash`
is the value that `_finalize` gives to `_hash`. -/
structure Rev (P : Proto) where
  ref : ℕ
  node : ℕ
  txid : Option ℕ
  data : P.Data
  children : String → List (Rev P)
  hash : P.Hash

/-- The content below a node: its data and the contents of its children. -/
inductive Tree (P : Proto) where
  | mk (data : P.Data) (children : String → List (Tree P))

namespace Tree

variable {P : Proto}

def data : Tree P → P.Data
  | mk data _ => data

def children : Tree P → String → List (Tree P)
  | mk _ children => children

@[simp] theorem data_mk (d : P.Data) (ch : String → List (Tree P)) : (mk d ch).data = d := rfl

@[simp] theorem children_mk (d : P.Data) (ch : String → List (Tree P)) :
    (mk d ch).children = ch := rfl

theorem ext {t t' : Tree P} (hd : t.data = t'.data) (hc : t.children = t'.children) : t = t' := by
  obtain ⟨d, ch⟩ := t
  obtain ⟨d', ch'⟩ := t'
  rw [data_mk, data_mk] at hd
  rw [children_mk, children_mk] at hc
  rw [hd, hc]

end Tree

namespace Rev

variable {P : Proto}

/-- `_config.hash`. -/
def configHash (r : Rev P) : P.Hash := P.hashData r.data

/-- `r._config is r'._config`. -/
def sameConfig (r r' : Rev P) : Bool := r.configHash = r'.configHash

mutual

/-- The content of a revision. -/
def tree : Rev P → Tree P
  | ⟨_, _, _, data, children, _⟩ => .mk data fun f => trees (children f)

def trees : List (Rev P) → List (Tree P)
  | [] => []
  | r :: rs => r.tree :: trees rs

end

theorem trees_eq_map (l : List (Rev P)) : trees l = l.map tree := by
  induction l with
  | nil => rw [trees, map_nil]
  | cons r rs ih => rw [trees, ih, map_cons]

theorem tree_eq (r : Rev P) : r.tree = .mk r.data fun f => (r.children f).map tree := by
  obtain ⟨ref, node, txid, data, children, hash⟩ := r
  rw [tree]
  congr 1
  funext f
  exact trees_eq_map _

@[simp] theorem data_tree (r : Rev P) : r.tree.data = r.data := by rw [tree_eq, Tree.data_mk]

@[simp] theorem children_tree (r : Rev P) (f : String) :
    r.tree.children f = (r.children f).map tree := by rw [tree_eq, Tree.children_mk]

/-- Induction over a revision: what holds of a revision as soon as it holds of its
children holds of every revision. -/
theorem induct {p : Rev P → Prop}
    (h : ∀ r : Rev P, (∀ f, ∀ e ∈ r.children f, p e) → p r) (r : Rev P) : p r := by
  refine Rev.rec (motive_1 := p) (motive_2 := fun l => ∀ e ∈ l, p e) ?_ ?_ ?_ r
  · intro ref node txid data children hash ih
    exact h _ ih
  · intro e he
    exact absurd he (not_mem_nil)
  · intro r rs hr hrs e he
    rcases mem_cons.mp he with rfl | he
    · exact hr
    · exact hrs e he

/-- `r.Desc y`: the revision `y` stands below `r`. -/
inductive Desc : Rev P → Rev P → Prop where
  | child {r e : Rev P} {f : String} : e ∈ r.children f → Desc r e
  | step {r e y : Rev P} {f : String} : e ∈ r.children f → Desc e y → Desc r y

/-- The revision `y` is `r` or stands below it. -/
def Within (r y : Rev P) : Prop := y = r ∨ r.Desc y

variable {r : Rev P}

/-- Below a revision stand its children and what stands below these. -/
theorem desc_iff {y : Rev P} : r.Desc y ↔ ∃ f, ∃ e ∈ r.children f, y = e ∨ e.Desc y := by
  constructor
  · rintro (he | ⟨he, hy⟩)
    · exact ⟨_, _, he, Or.inl rfl⟩
    · exact ⟨_, _, he, Or.inr hy⟩
  · rintro ⟨f, e, he, rfl | hy⟩
    · exact Desc.child he
    · exact Desc.step he hy

/-! ## The digest of a revision -/

/-- `_hash_content`, when every child has a hash. -/
def hashContent (data : P.Data) (children : String → List (Rev P)) : P.Hash :=
  P.hashContent (P.hashData data)
    ((P.sortedNames (P.typeOf data)).map fun f => (children f).map hash)

/-- The hash of a revision, and of every revision below it, is the digest of its
content, and its children stand under the child fields of its class. -/
inductive Hashed : Rev P → Prop where
  | mk {r : Rev P} (hash_eq : r.hash = hashContent r.data r.children)
      (names : ∀ f, f ∉ P.names (P.typeOf r.data) → r.children f = [])
      (child : ∀ f, ∀ e ∈ r.children f, Hashed e) : Hashed r

theorem Hashed.hash_eq (h : Hashed r) : r.hash = hashContent r.data r.children := by
  cases h with
  | mk hash_eq _ _ => exact hash_eq

theorem Hashed.names (h : Hashed r) {f : String} (hf : f ∉ P.names (P.typeOf r.data)) :
    r.children f = [] := by
  cases h with
  | mk _ names _ => exact names f hf

theorem Hashed.child {e : Rev P} {f : String} (h : Hashed r) (he : e ∈ r.children f) :
    Hashed e := by
  cases h with
  | mk _ _ child => exact child f e he

/-- Lists of one list of hashes have one list of contents, if the hashes of their
entries determine the contents. -/
theorem map_tree_eq_of_map_hash_eq :
    ∀ {l l' : List (Rev P)}, (∀ e ∈ l, ∀ e' ∈ l', e.hash = e'.hash → e.tree = e'.tree) →
      l.map hash = l'.map hash → l.map tree = l'.map tree
  | [], [], _, _ => rfl
  | [], _ :: _, _, h => by simp at h
  | _ :: _, [], _, h => by simp at h
  | e :: l, e' :: l', hl, h => by
    rw [map_cons, map_cons, List.cons.injEq] at h
    rw [map_cons, map_cons, hl e mem_cons_self e' mem_cons_self h.1]
    congr 1
    exact map_tree_eq_of_map_hash_eq
      (fun a ha b hb => hl a (mem_cons_of_mem _ ha) b (mem_cons_of_mem _ hb)) h.2

/-- The parts of equal content digests. -/
theorem hashContent_inj (hP : P.CollisionFree) {d d' : P.Data}
    {ch ch' : String → List (Rev P)} (h : hashContent d ch = hashContent d' ch') :
    d = d' ∧ ∀ f ∈ P.names (P.typeOf d), (ch f).map hash = (ch' f).map hash := by
  obtain ⟨hd, hl⟩ := hP.hashContent_inj h
  have hdd := hP.hashData_inj hd
  subst hdd
  refine ⟨rfl, fun f hf => ?_⟩
  rw [map_inj_left] at hl
  exact hl f (P.mem_sortedNames.mpr hf)

/-- **Equal hashes mean equal content.** -/
theorem tree_eq_of_hash_eq (hP : P.CollisionFree) (hr : Hashed r) :
    ∀ {r' : Rev P}, Hashed r' → r.hash = r'.hash → r.tree = r'.tree := by
  -- induction on the left revision; the fields are those of the common class
  induction r using induct with
  | h r ih =>
    intro r' hr' heq
    rw [hr.hash_eq, hr'.hash_eq] at heq
    obtain ⟨hd, hf⟩ := hashContent_inj hP heq
    refine Tree.ext ?_ ?_
    · rw [data_tree, data_tree, hd]
    · funext f
      rw [children_tree, children_tree]
      by_cases hmem : f ∈ P.names (P.typeOf r.data)
      · exact map_tree_eq_of_map_hash_eq
          (fun e he e' he' hee => ih f e he (hr.child he) (hr'.child he') hee) (hf f hmem)
      · rw [hr.names hmem, hr'.names (hd ▸ hmem)]

end Rev

/-! ## What a revision reads as -/

section Get

variable {P : Proto}

/-- The children of one field, merged into the message one after the other.  `MergeFrom`
refuses a child whose class is not that of the field. -/
def mergeChildren (field : ChildType P.Cls P.Val) :
    List (Except Err (Msg P)) → Except Err (List (Msg P))
  | [] => .ok []
  | .error e :: _ => .error e
  | .ok m :: ms =>
    if P.typeOf m.data = field.type then
      match mergeChildren field ms with
      | .error e => .error e
      | .ok held => .ok (m :: held)
    else .error (.typeError "Parameter to MergeFrom() must be instance of same class")

/-- The children of the fields of a message, field by field. -/
def mergeFields (held : String → List (Except Err (Msg P))) :
    List (String × ChildType P.Cls P.Val) → Except Err (String → List (Msg P))
  | [] => .ok fun _ => []
  | (name, field) :: fields =>
    match mergeChildren field (held name) with
    | .error e => .error e
    | .ok ms =>
      match mergeFields held fields with
      | .error e => .error e
      | .ok rest => .ok (Function.update rest name ms)

/-- The message of a node with the messages of its children. -/
def assemble (data : P.Data) (held : String → List (Except Err (Msg P))) : Except Err (Msg P) :=
  match mergeFields held (P.childrenFields (P.typeOf data)) with
  | .error e => .error e
  | .ok children => .ok (.mk data children fun f =>
      match P.field (P.typeOf data) f with
      | some field => !field.isContainer
      | none => false)

mutual

/-- `ConfigRevision.get`: the data of a node, with the messages of its children down to
`depth` levels, or all of them for a negative `depth`. -/
def Tree.get : Tree P → ℤ → Except Err (Msg P)
  | .mk data children, depth =>
    if depth = 0 then .ok (.mk data (fun _ => []) (fun _ => false))
    else assemble data fun f => Tree.getAll (children f) (depth - 1)

def Tree.getAll : List (Tree P) → ℤ → List (Except Err (Msg P))
  | [], _ => []
  | t :: ts, depth => t.get depth :: Tree.getAll ts depth

end

/-- `ConfigRevision.get`. -/
def Rev.get (r : Rev P) (depth : ℤ) : Except Err (Msg P) := r.tree.get depth

end Get

end Voltha.Config
