import Voltha.Config.Persistence

/-!
# Loading a persisted tree

`ConfigRoot.load` makes a new root of the default message and then builds the trees that the record
`'root'` names: for each tag the tagged tree, and at the end the latest one.  `load_latest` builds a
node from a hash: it reads the entry of the revision and that of its data, makes a node for each
hash of a child and loads it, and puts the new revision into a new committed branch of its node.

So every tree is loaded into a branch of the root of its own, and only the last of these branches
stays.  The tagged revisions are still there under their tags, but `_revs` of the root contains
only the latest revision.  `diff_by_tag` looks the tagged revisions up in `_revs`, and fails.

* `storedHash`: the hash of the tree that the entries of a store denote, if they denote one.
* `loadLatest_loads`: what is loaded has that hash and the declared classes, and nothing is loaded
  where there is none.
* `storedHash_eq`: a tree whose entries are there, and whose children have the classes that their
  fields declare, is denoted by its hash.
* `load_faithful_iff`: what can be read of a loaded root is what could be read of the persisted one
  exactly if the classes are the declared ones, all tags name the latest revision, and the root has
  no callback that changes what is read.
-/

namespace Voltha.Config

open List OrderedDict
open Option (bind_some isSome_iff_exists some)

variable {P : Proto} {C : Codec P}

open State Act

/-! ## `load` -/

/-- The children of one field: a node for each hash. -/
def loadChildren (load : ℕ → P.Hash → M P (Rev P)) (n : ℕ) (name : String) :
    List P.Hash → M P (List (Rev P))
  | [] => pure []
  | hash :: hashes => do
    let child ← newNode (some (n, name))
    let rev ← load child hash
    let revs ← loadChildren load n name hashes
    pure (rev :: revs)

/-- `for field_name, meta in children_fields(msg_cls)`. -/
def loadField (load : P.Cls → ℕ → P.Hash → M P (Rev P)) (n : ℕ)
    (lists : List (String × List P.Hash)) (children : String → List (Rev P))
    (field : String × ChildType P.Cls P.Val) : M P (String → List (Rev P)) :=
  match lists.lookup field.1 with
  | none => raise (.keyError field.1)
  | some hashes => do
    let revs ← loadChildren (load field.2.type) n field.1 hashes
    pure (Function.update children field.1 revs)

/-- `PersistedConfigRevision.load` of a revision with the data `data`, and the new branch of its
node. -/
def loadNode (load : P.Cls → ℕ → P.Hash → M P (Rev P)) (cls : P.Cls) (n : ℕ)
    (lists : List (String × List P.Hash)) (data : P.Data) : M P (Rev P) := do
  let children ← (P.childrenFields cls).foldlM (loadField load n lists) (fun _ => [])
  let rev ← mkRev n none data children
  modify fun s => s.seat rev
  pure rev

/-- `load_config`. -/
def loadConfig (blobs : Blobs C) (cls : P.Cls) (hash : P.Hash) : Except Err P.Data :=
  match blobs hash with
  | none => .error (.keyError "config_hash")
  | some (.rev _ _) => .error (.decodeError "Error parsing message")
  | some (.config bytes) =>
    match C.parse cls bytes with
    | none => .error (.decodeError "Error parsing message")
    | some data => .ok data

/-- `load_latest` of node `n` of class `cls`.  The number bounds the depth of nested calls. -/
def loadLatest (blobs : Blobs C) : ℕ → P.Cls → ℕ → P.Hash → M P (Rev P)
  | 0, _, _, _ => raise .recursionError
  | fuel + 1, cls, n, hash =>
    match blobs hash with
    | none => raise (.keyError "hash")
    | some (.config _) => raise (.valueError "No JSON object could be decoded")
    | some (.rev lists config) => do
      let data ← ofExcept (loadConfig blobs cls config)
      loadNode (loadLatest blobs fuel) cls n lists data

/-- `for tag, hash in root_data['tags'].iteritems()`. -/
def loadTags (blobs : Blobs C) (fuel : ℕ) (cls : P.Cls) : List (String × P.Hash) → M P Unit
  | [] => pure ()
  | (tag, hash) :: tags => do
    let rev ← loadLatest blobs fuel cls 0 hash
    modify fun s => { s with tags := insert tag rev s.tags }
    loadTags blobs fuel cls tags

/-- `load_from_persistence`. -/
def loadFromPersistence (p : Persisted C) (fuel : ℕ) (cls : P.Cls) : M P Unit :=
  match p.record with
  | none => raise (.keyError "root")
  | some data => do
    loadTags p.blobs fuel cls data.tags
    let _ ← loadLatest p.blobs fuel cls 0 data.latest

/-- `ConfigRoot.load(cls, kv_store)`; `initial` is `cls()`. -/
def load (p : Persisted C) (fuel : ℕ) (initial : Msg P) : Except Err Unit × State P :=
  match mkRoot initial with
  | (.error e, s) => (.error e, s)
  | (.ok _, s) => loadFromPersistence p fuel (P.typeOf initial.data) s

/-! ## What can be read of a root -/

/-- `latest.hash`. -/
def latestHash (s : State P) : Option P.Hash :=
  (s.branches 0 none).bind fun b => s.hashOf b.latest

/-- `tags`. -/
def tagNames (s : State P) : List String := (s.tags.map Prod.fst).insertionSort (· ≤ ·)

/-- `by_tag`. -/
def byTag (s : State P) (tag : String) : Except Err (Rev P) :=
  match s.tags.lookup tag with
  | none => .error (.keyError tag)
  | some rev => .ok rev

/-- `branch[hash]`. -/
def revByHash (b : Branch P) (hash : Option P.Hash) : Except Err (Rev P) :=
  match hash.bind fun h => b.revs.lookup h with
  | none => .error (.keyError "hash")
  | some rev => .ok rev

section Diff

variable {D : Type} (makePatch : P.Data → P.Data → D) (noPatch : D)

/-- `diff` of two revisions of the committed branch. -/
def diff (s : State P) (hash1 hash2 : Option P.Hash) : Except Err D :=
  match s.branches 0 none with
  | none => .error (.keyError "None")
  | some b => do
    let rev1 ← revByHash b hash1
    let rev2 ← if hash2.isSome then revByHash b hash2 else .ok b.latest
    if s.hashOf rev1 = s.hashOf rev2 then .ok noPatch
    else .ok (makePatch rev1.data rev2.data)

/-- `diff_by_tag`. -/
def diffByTag (s : State P) (tag1 tag2 : String) : Except Err D := do
  let rev1 ← byTag s tag1
  let rev2 ← byTag s tag2
  diff makePatch noPatch s (s.hashOf rev1) (s.hashOf rev2)

/-- The reads of two roots agree; `diff_by_tag` is read for the tags of the first one. -/
structure SameReads (s s' : State P) : Prop where
  get : get s' 0 [] (-1) none = get s 0 [] (-1) none
  latest : latestHash s' = latestHash s
  tags : tagNames s' = tagNames s
  byTag : ∀ tag, (byTag s' tag).map s'.hashOf = (byTag s tag).map s.hashOf
  diff : ∀ tag1 tag2, tag1 ∈ tagNames s → tag2 ∈ tagNames s →
    diffByTag makePatch noPatch s' tag1 tag2 = diffByTag makePatch noPatch s tag1 tag2

end Diff

/-! ## Declared classes -/

/-- The node is of the class, and its children are of the classes that their fields declare. -/
inductive Tree.Declared : P.Cls → Tree P → Prop where
  | mk {cls : P.Cls} {t : Tree P} : P.typeOf t.data = cls →
      (∀ f field, P.field cls f = some field → ∀ e ∈ t.children f, Declared field.type e) →
      Declared cls t

variable {cls : P.Cls} {s : State P} {fuel : ℕ} {b : Branch P} {r₂ r₁ : Rev P}

theorem Tree.Declared.typeOf {t : Tree P} (h : t.Declared cls) : P.typeOf t.data = cls := by
  cases h with
  | mk h _ => exact h

theorem Tree.Declared.child {t e : Tree P} (h : t.Declared cls) {f : String}
    {field : ChildType P.Cls P.Val} (hf : P.field cls f = some field) (he : e ∈ t.children f) :
    e.Declared field.type := by
  cases h with
  | mk _ h => exact h f field hf e he

/-! ## What loading leaves alone -/

/-- The tables that loading a tree does not change. -/
structure Plain (s s' : State P) : Prop where
  cleared : s'.cleared = s.cleared
  tags : s'.tags = s.tags
  proxy : s'.proxy = s.proxy

theorem Plain.refl (s : State P) : Plain s s := ⟨rfl, rfl, rfl⟩

theorem Plain.trans {s₁ s₂ s₃ : State P} (h : Plain s₁ s₂) (h' : Plain s₂ s₃) : Plain s₁ s₃ :=
  ⟨h'.cleared.trans h.cleared, h'.tags.trans h.tags, h'.proxy.trans h.proxy⟩

/-! ## What a store denotes -/

/-- The hashes of the children that the lists of a revision's entry denote, field by field. -/
def storedField (stored : P.Cls → P.Hash → Option P.Hash) (lists : List (String × List P.Hash))
    (children : String → List P.Hash) (field : String × ChildType P.Cls P.Val) :
    Option (String → List P.Hash) := do
  let hashes ← lists.lookup field.1
  let hashes ← hashes.mapM (stored field.2.type)
  return Function.update children field.1 hashes

/-- The hash of the tree that the entries of a store denote under a hash, for a class.  There is
none if an entry is missing or does not parse. -/
def storedHash (blobs : Blobs C) : ℕ → P.Cls → P.Hash → Option P.Hash
  | 0, _, _ => none
  | fuel + 1, cls, hash =>
    match blobs hash with
    | some (.rev lists config) => do
      let data ← (loadConfig blobs cls config).toOption
      let children ←
        (P.childrenFields cls).foldlM (storedField (storedHash blobs fuel) lists) fun _ => []
      return P.hashContent (P.hashData data) ((P.sortedNames (P.typeOf data)).map children)
    | _ => none

section Loads

variable {α β γ δ : Type} {R : State P → α → γ → Prop} {R' : State P → β → δ → Prop}
  {o : Option γ} {g : γ → Option δ} {x : M P α} {f : α → M P β}

/-- In a state where no hash has been cleared, the computation leaves the tables alone, and either
returns a value that is related to the one denoted, or raises and nothing is denoted. -/
def Loads (R : State P → α → γ → Prop) (o : Option γ) (x : M P α) : Prop :=
  ∀ s, s.cleared = [] → wp x s fun res s' => Plain s s' ∧ match o, res with
    | none, .error _ => True
    | some c, .ok a => R s' a c
    | _, _ => False

namespace Loads

theorem pure {a : α} {c : γ} (h : ∀ s, R s a c) : Loads R (some c) (Pure.pure a) :=
  fun s _ => ⟨Plain.refl s, h s⟩

theorem raise (e : Err) : Loads R none (raise e) := fun s _ => ⟨Plain.refl s, trivial⟩

theorem ofExcept (x : Except Err α) :
    Loads (P := P) (fun _ a a' => a = a' ∧ x = .ok a) x.toOption (ofExcept x) := by
  intro s _
  rcases x with e | a
  · exact ⟨Plain.refl s, trivial⟩
  · exact ⟨Plain.refl s, rfl, rfl⟩

theorem mono {Q : State P → α → γ → Prop} (h : Loads R o x) (hQ : ∀ s a c, R s a c → Q s a c) :
    Loads Q o x := by
  intro s hs
  refine wp_mono (h s hs) ?_
  rintro (e | a) s' ⟨hplain, hres⟩ <;> rcases o with _ | c
  · exact ⟨hplain, trivial⟩
  · exact hres.elim
  · exact hres.elim
  · exact ⟨hplain, hQ s' a c hres⟩

theorem bind (hx : Loads R o x) (hf : ∀ s a c, R s a c → Loads R' (g c) (f a)) :
    Loads R' (o >>= g) (x >>= f) := by
  intro s hs
  rw [wp_bind]
  refine wp_mono (hx s hs) ?_
  rintro (e | a) s₁ ⟨hplain, hres⟩ <;> rcases o with _ | c
  · exact ⟨hplain, trivial⟩
  · exact hres.elim
  · exact hres.elim
  · rw [seqPost_ok]
    refine wp_mono (hf s₁ a c hres s₁ (hplain.cleared.trans hs)) ?_
    exact fun _ _ h => ⟨hplain.trans h.1, h.2⟩

theorem foldlM {R : α → γ → Prop} {f : α → β → M P α} {g : γ → β → Option γ} :
    ∀ {l : List β} {a : α} {c : γ},
      (∀ b ∈ l, ∀ a c, R a c → Loads (fun _ => R) (g c b) (f a b)) → R a c →
      Loads (fun _ => R) (l.foldlM g c) (l.foldlM f a)
  | [], _, _, _, h => pure fun _ => h
  | b :: l, a, c, hf, h => by
    rw [foldlM_cons, foldlM_cons]
    exact (hf b mem_cons_self a c h).bind fun _ _ _ h' =>
      foldlM (fun b' hb' => hf b' (mem_cons_of_mem b hb')) h'

end Loads

end Loads

/-! ## What is loaded -/

/-- The revision was loaded as one of the class and of the hash.  If the data of a class is parsed
as such, it has the declared classes and right hashes. -/
structure LoadedAs (C : Codec P) (cls : P.Cls) (rev : Rev P) (h : P.Hash) : Prop where
  hash : rev.hash = h
  sound : C.Faithful → rev.Hashed ∧ rev.tree.Declared cls

theorem loadChildren_loads {load : ℕ → P.Hash → M P (Rev P)} {stored : P.Hash → Option P.Hash}
    {R : Rev P → P.Hash → Prop} (h : ∀ c k, Loads (fun _ => R) (stored k) (load c k)) (n : ℕ)
    (name : String) : ∀ hashes : List P.Hash,
      Loads (fun _ => Forall₂ R) (hashes.mapM stored) (loadChildren load n name hashes)
  | [] => Loads.pure fun _ => Forall₂.nil
  | hash :: hashes => by
    have hnode : Loads (fun _ _ (_ : Unit) => True) (some ()) (newNode (P := P) (some (n, name))) :=
      fun _ _ => ⟨⟨rfl, rfl, rfl⟩, trivial⟩
    rw [mapM_cons]
    exact hnode.bind fun _ c _ _ => (h c hash).bind fun _ _ _ hrev =>
      (loadChildren_loads h n name hashes).bind fun _ _ _ hrevs =>
        Loads.pure fun _ => Forall₂.cons hrev hrevs

/-- The children of a node of class `cls` were loaded for the fields of the class. -/
def ChildrenLoaded (C : Codec P) (cls : P.Cls) (children : String → List (Rev P))
    (hashes : String → List P.Hash) : Prop :=
  ∀ f, List.Forall₂ (fun e h => ∃ field, P.field cls f = some field ∧ LoadedAs C field.type e h)
    (children f) (hashes f)

theorem loadField_loads {load : P.Cls → ℕ → P.Hash → M P (Rev P)}
    {stored : P.Cls → P.Hash → Option P.Hash}
    (h : ∀ cls c k, Loads (fun _ => LoadedAs C cls) (stored cls k) (load cls c k)) (n : ℕ)
    (lists : List (String × List P.Hash)) {field : String × ChildType P.Cls P.Val}
    (hfield : field ∈ P.childrenFields cls) {children : String → List (Rev P)}
    {hashes : String → List P.Hash} (hc : ChildrenLoaded C cls children hashes) :
    Loads (fun _ => ChildrenLoaded C cls) (storedField stored lists hashes field)
      (loadField load n lists children field) := by
  unfold loadField storedField
  rcases lists.lookup field.1 with _ | l
  · exact Loads.raise _
  · refine (loadChildren_loads (h field.2.type) n field.1 l).bind fun _ revs ks hrevs =>
      Loads.pure fun _ f => ?_
    by_cases hf : f = field.1
    · subst hf
      rw [Function.update_self, Function.update_self]
      exact hrevs.imp fun _ _ he => ⟨field.2, P.field_eq_some.mpr hfield, he⟩
    · rw [Function.update_of_ne hf, Function.update_of_ne hf]
      exact hc f

/-- A revision that is made of children that were loaded. -/
theorem ChildrenLoaded.rev (rev : Rev P) {hashes : String → List P.Hash}
    (h : ChildrenLoaded C cls rev.children hashes)
    (hcls : C.Faithful → P.typeOf rev.data = cls)
    (hhash : rev.hash = Rev.hashContent rev.data rev.children) :
    LoadedAs C cls rev (P.hashContent (P.hashData rev.data)
      ((P.sortedNames (P.typeOf rev.data)).map hashes)) where
  hash := by
    rw [hhash, Rev.hashContent]
    congr 2
    funext f
    rw [← forall₂_eq_eq_eq, forall₂_map_left_iff]
    exact (h f).imp fun _ _ ⟨_, _, he⟩ => he.hash
  sound hC := by
    have hchild : ∀ {f : String} {e : Rev P}, e ∈ rev.children f →
        ∃ field, P.field cls f = some field ∧ e.Hashed ∧ e.tree.Declared field.type := by
      intro f e he
      obtain ⟨_, -, field, hfield, hloaded⟩ := forall₂_exists (h f) he
      exact ⟨field, hfield, hloaded.sound hC⟩
    constructor
    · refine .mk hhash (fun f hf => ?_) fun f e he => ?_
      · refine eq_nil_iff_forall_not_mem.mpr fun e he => hf ?_
        obtain ⟨field, hfield, -⟩ := hchild he
        rw [hcls hC]
        exact mem_map.mpr ⟨_, P.field_eq_some.mp hfield, rfl⟩
      · obtain ⟨_, -, he, -⟩ := hchild he
        exact he
    · refine .mk (by rw [Rev.data_tree, hcls hC]) fun f field hfield x hx => ?_
      rw [Rev.children_tree, mem_map] at hx
      obtain ⟨e, he, rfl⟩ := hx
      obtain ⟨field', hfield', -, hdecl⟩ := hchild he
      obtain rfl : field' = field := some.inj (hfield'.symm.trans hfield)
      exact hdecl

theorem typeOf_loadConfig (hC : C.Faithful) {blobs : Blobs C} {hash : P.Hash} {data : P.Data}
    (h : loadConfig blobs cls hash = .ok data) : P.typeOf data = cls := by
  unfold loadConfig at h
  split at h
  · cases h
  · cases h
  · split at h
    · cases h
    · next hparse => exact hC.typeOf_parse (Except.ok.inj h ▸ hparse)

/-- **What is loaded has the hash that the entries denote**, and nothing is loaded where they denote
nothing.  The last thing that is done is to seat the revision. -/
theorem loadLatest_loads (blobs : Blobs C) :
    ∀ (fuel : ℕ) (cls : P.Cls) (n : ℕ) (hash : P.Hash),
      Loads (fun s' rev h => LoadedAs C cls rev h ∧
          s'.branches n none = some ⟨none, [(rev.hash, rev)], rev⟩)
        (storedHash blobs fuel cls hash) (loadLatest blobs fuel cls n hash)
  | 0, _, _, _ => Loads.raise _
  | fuel + 1, cls, n, hash => by
    rw [loadLatest, storedHash]
    rcases blobs hash with _ | ⟨lists, config⟩ | bytes
    · exact Loads.raise _
    · refine (Loads.ofExcept _).bind fun _ data _ hdata => ?_
      obtain ⟨rfl, hconfig⟩ := hdata
      have hfields : Loads (fun _ => ChildrenLoaded C cls)
          ((P.childrenFields cls).foldlM (storedField (storedHash blobs fuel) lists) fun _ => [])
          ((P.childrenFields cls).foldlM (loadField (loadLatest blobs fuel) n lists)
            fun _ => []) :=
        Loads.foldlM (fun field hfield _ _ hc => loadField_loads (fun cls c k =>
          (loadLatest_loads blobs fuel cls c k).mono fun _ _ _ h => h.1) n lists hfield hc)
          fun _ => Forall₂.nil
      refine hfields.bind fun _ children hashes hc s hs => ?_
      have hall : s.unhashed data children = false := by
        simp [State.unhashed, hs]
      rw [wp_bind, mkRev, wp_bind, wp_read, seqPost_ok, hall]
      refine ⟨⟨rfl, rfl, rfl⟩, ?_, setBranch_self ..⟩
      exact ChildrenLoaded.rev (s.newRev n none data children) hc
        (fun hC => typeOf_loadConfig hC hconfig) rfl
    · exact Loads.raise _

/-! ## What persisted trees denote -/

theorem mapM_eq_self {α : Type} {g : α → Option α} :
    ∀ {l : List α}, (∀ a ∈ l, g a = some a) → l.mapM g = some l
  | [], _ => rfl
  | a :: l, h => by
    rw [mapM_cons, h a mem_cons_self, mapM_eq_self fun b hb => h b (mem_cons_of_mem a hb)]
    rfl

variable {r : Rev P} {p : Persisted C}

theorem storedFields_eq {stored : P.Cls → P.Hash → Option P.Hash}
    {lists : List (String × List P.Hash)} :
    ∀ {fields : List (String × ChildType P.Cls P.Val)} (hashes : String → List P.Hash),
      (∀ field ∈ fields, lists.lookup field.1 = some ((r.children field.1).map Rev.hash) ∧
        ∀ e ∈ r.children field.1, stored field.2.type e.hash = some e.hash) →
      ∃ hashes', fields.foldlM (storedField stored lists) hashes = some hashes' ∧
        ∀ f, f ∈ fields.map Prod.fst ∨ hashes f = (r.children f).map Rev.hash →
          hashes' f = (r.children f).map Rev.hash
  | [], hashes, _ => ⟨hashes, rfl, fun _ hf => hf.resolve_left not_mem_nil⟩
  | field :: fields, hashes, h => by
    obtain ⟨hlookup, hall⟩ := h field mem_cons_self
    have hmap : ((r.children field.1).map Rev.hash).mapM (stored field.2.type) =
        some ((r.children field.1).map Rev.hash) := mapM_eq_self (by simpa using hall)
    have hfield : storedField stored lists hashes field =
        some (Function.update hashes field.1 ((r.children field.1).map Rev.hash)) := by
      rw [storedField, hlookup]
      show ((r.children field.1).map Rev.hash).mapM (stored field.2.type) >>= _ = _
      rw [hmap]
      rfl
    obtain ⟨hashes', hrun, heq⟩ := storedFields_eq (Function.update hashes field.1
      ((r.children field.1).map Rev.hash)) fun field' hmem => h field' (mem_cons_of_mem _ hmem)
    refine ⟨hashes', by rw [foldlM_cons, hfield]; exact hrun, fun f hf => heq f ?_⟩
    by_cases hname : f = field.1
    · exact .inr (by rw [hname, Function.update_self])
    · rw [map_cons, mem_cons] at hf
      rw [Function.update_of_ne hname]
      exact hf.imp_left fun hf => hf.resolve_left hname

/-- **A tree whose entries are there is denoted by its hash**, if its classes are the declared
ones. -/
theorem storedHash_eq {t : State P} (hwf : WF t) {blobs : Blobs C} :
    ∀ {fuel : ℕ} {cls : P.Cls} {r : Rev P}, t.Has r → r.ref < fuel →
      (∀ y, r.Within y → Decodes blobs y) → r.tree.Declared cls →
      storedHash blobs fuel cls r.hash = some r.hash
  | 0, _, _, _, hlt, _, _ => absurd hlt (Nat.not_lt_zero _)
  | fuel + 1, cls, r, hr, hlt, hdec, hdecl => by
    obtain ⟨⟨lists, hblob, hlists⟩, ⟨bytes, hconfig, hparse⟩⟩ := hdec r (.inl rfl)
    have hcls : P.typeOf r.data = cls := by
      rw [← hdecl.typeOf, Rev.data_tree]
    subst hcls
    have hload : loadConfig blobs (P.typeOf r.data) r.configHash = .ok r.data := by
      rw [loadConfig, hconfig]
      dsimp only
      rw [hparse]
    obtain ⟨hashes, hfields, heq⟩ := @storedFields_eq P r (storedHash blobs fuel) lists
      (P.childrenFields (P.typeOf r.data)) (fun _ => [])
      fun field hfield => ⟨hlists field.1 (mem_map.mpr ⟨_, hfield, rfl⟩), fun e he =>
        storedHash_eq hwf (hwf.child hr he).has (by have := hwf.child_lt hr he; omega)
          (fun y hy => hdec y (.inr (hy.elim (fun heq => heq ▸ .child he) (.step he))))
          (hdecl.child (P.field_eq_some.mpr hfield) (by
            rw [Rev.children_tree]
            exact mem_map_of_mem he))⟩
    rw [storedHash, hblob]
    dsimp only
    rw [hload, hfields, (hwf.hashed hr).hash_eq]
    refine congrArg some (congrArg (P.hashContent (P.hashData r.data)) ?_)
    exact map_congr_left fun f hf => heq f (.inl ((mem_insertionSort _).mp hf))

/-! ## The record -/

theorem latestHash_eq (hb : s.branches 0 none = some b)
    (hh : s.hashOf b.latest = some b.latest.hash) : latestHash s = some b.latest.hash := by
  rw [latestHash, hb]
  exact hh

/-- The tagged trees are loaded one after the other. -/
theorem loadTags_loads (blobs : Blobs C) (fuel : ℕ) (cls : P.Cls) :
    ∀ (l : List (String × P.Hash)) (s : State P), s.cleared = [] →
      wp (loadTags blobs fuel cls l) s fun res s' => s'.cleared = [] ∧ s'.proxy = s.proxy ∧
        ((∀ x ∈ l, storedHash blobs fuel cls x.2 = some x.2) →
          ((s.tags.map Prod.fst) ++ l.map Prod.fst).Nodup → res = .ok () ∧
            (s'.tags.map fun x => (x.1, x.2.hash)) = (s.tags.map fun x => (x.1, x.2.hash)) ++ l)
  | [], _, hs => ⟨hs, rfl, fun _ _ => ⟨rfl, (append_nil _).symm⟩⟩
  | (tag, hash) :: l, s, hs => by
    rw [loadTags, wp_bind]
    refine wp_mono (loadLatest_loads blobs fuel cls 0 hash s hs) ?_
    rintro (e | rev) s₁ ⟨hplain, hres⟩
    · refine ⟨hplain.cleared.trans hs, hplain.proxy, fun hall _ => ?_⟩
      rw [hall _ mem_cons_self] at hres
      exact hres.elim
    · rw [seqPost_ok, wp_bind, wp_modify, seqPost_ok]
      refine wp_mono (loadTags_loads blobs fuel cls l _ (hplain.cleared.trans hs)) ?_
      rintro res s₂ ⟨hcl, hproxy, hok⟩
      refine ⟨hcl, hproxy.trans hplain.proxy, fun hall hnodup => ?_⟩
      rw [hall _ mem_cons_self] at hres
      obtain ⟨⟨rfl, -⟩, -⟩ := hres
      have hnot : tag ∉ s.tags.map Prod.fst := fun hmem =>
        (nodup_append.mp hnodup).2.2 tag hmem tag mem_cons_self rfl
      have htags : insert tag rev s₁.tags = s.tags ++ [(tag, rev)] := by
        rw [hplain.tags, insert_of_notMem hnot]
      obtain ⟨hdone, hmap⟩ := hok (fun x hx => hall x (mem_cons_of_mem _ hx)) (by
        show (((insert tag rev s₁.tags).map Prod.fst) ++ l.map Prod.fst).Nodup
        rw [htags, map_append, append_assoc]
        exact hnodup)
      refine ⟨hdone, hmap.trans ?_⟩
      show (insert tag rev s₁.tags).map _ ++ _ = _
      rw [htags, map_append, append_assoc]
      rfl

/-- What every loaded root looks like. -/
structure LoadedRoot (cls : P.Cls) (rev : Rev P) (s : State P) : Prop where
  branch : s.branches 0 none = some ⟨none, [(rev.hash, rev)], rev⟩
  hashed : rev.Hashed
  declared : rev.tree.Declared cls
  cleared : s.cleared = []
  proxy : s.proxy = fun _ => none

theorem mkRoot_plain {initial : Msg P} {rev : Rev P} (h : mkRoot initial = (.ok rev, s)) :
    Plain State.empty s := by
  obtain ⟨-, hg, -⟩ := mkRoot_made (K := fun _ _ => True) (C := fun _ => True) h
  rw [hg.rest]
  exact ⟨rfl, rfl, rfl⟩

section Load

variable {initial : Msg P} {rev₀ : Rev P} {s₀ L : State P} {data : RootData P}

/-- What is loaded from a record. -/
theorem loadFromPersistence_loads (fuel : ℕ) (hroot : mkRoot initial = (.ok rev₀, s₀))
    (hrecord : p.record = some data) :
    wp (loadFromPersistence p fuel (P.typeOf initial.data)) s₀ fun res L =>
      (C.Faithful → res = .ok () → ∃ rev, LoadedRoot (P.typeOf initial.data) rev L) ∧
      ((∀ x ∈ data.tags, storedHash p.blobs fuel (P.typeOf initial.data) x.2 = some x.2) →
        (data.tags.map Prod.fst).Nodup →
        storedHash p.blobs fuel (P.typeOf initial.data) data.latest = some data.latest →
        res = .ok () ∧ latestHash L = some data.latest ∧
          (L.tags.map fun x => (x.1, x.2.hash)) = data.tags) := by
  have hempty := mkRoot_plain hroot
  rw [loadFromPersistence, hrecord]
  rw [wp_bind]
  refine wp_mono (loadTags_loads p.blobs fuel (P.typeOf initial.data) data.tags s₀
    hempty.cleared) ?_
  rw [hempty.tags, hempty.proxy]
  rintro (e | _) s₁ ⟨hcl, hproxy, htags⟩
  · exact ⟨nofun, fun hall hnodup _ => nomatch (htags hall hnodup).1⟩
  · rw [seqPost_ok, wp_bind]
    refine wp_mono (loadLatest_loads p.blobs fuel (P.typeOf initial.data) 0 data.latest s₁ hcl) ?_
    rintro (e | rev) L ⟨hplain, hres⟩
    · refine ⟨nofun, fun _ _ hlatest => ?_⟩
      rw [hlatest] at hres
      exact hres.elim
    · rw [seqPost_ok, wp_pure]
      have hcleared := hplain.cleared.trans hcl
      rcases hst : storedHash p.blobs fuel (P.typeOf initial.data) data.latest with _ | h
      · rw [hst] at hres
        exact hres.elim
      · rw [hst] at hres
        obtain ⟨hloaded, hseat⟩ := hres
        refine ⟨fun hC _ => ⟨rev, hseat, (hloaded.sound hC).1, (hloaded.sound hC).2, hcleared,
          hplain.proxy.trans hproxy⟩, fun hall hnodup hlatest => ⟨rfl, ?_, ?_⟩⟩
        · rw [latestHash_eq hseat (by rw [State.hashOf, hcleared, if_neg not_mem_nil])]
          exact congrArg some (hloaded.hash.trans (some.inj hlatest))
        · rw [hplain.tags]
          exact (htags hall hnodup).2

theorem load_returned (hC : C.Faithful) (h : load p fuel initial = (.ok (), L)) :
    ∃ rev, LoadedRoot (P.typeOf initial.data) rev L := by
  unfold load at h
  split at h
  · cases h
  · next hroot =>
    rcases hrecord : p.record with _ | data
    · rw [loadFromPersistence, hrecord] at h
      cases h
    · have hload := (loadFromPersistence_loads fuel hroot hrecord).1 hC
      rw [h] at hload
      exact hload rfl

end Load

/-! ## What is read of the two roots -/

section Reads

variable {s : State P} {b : Branch P}

/-- A tag is looked up by its name. -/
theorem byTag_eq (h : (s.tags.map Prod.fst).Nodup) {name : String} (hr : (name, r) ∈ s.tags) :
    byTag s name = .ok r := by
  rw [byTag, (lookup_eq_some_iff_mem h).mpr hr]

theorem mem_tagNames {name : String} : name ∈ tagNames s ↔ name ∈ s.tags.map Prod.fst :=
  mem_insertionSort _

variable {D : Type} (makePatch : P.Data → P.Data → D) (noPatch : D)

/-- `diff` of two hashes that `_revs` has. -/
theorem diff_eq (hb : s.branches 0 none = some b) {h₁ h₂ : P.Hash}
    (hr₁ : b.revs.lookup h₁ = some r₁) (hr₂ : b.revs.lookup h₂ = some r₂) :
    diff makePatch noPatch s (some h₁) (some h₂) =
      if s.hashOf r₁ = s.hashOf r₂ then .ok noPatch else .ok (makePatch r₁.data r₂.data) := by
  rw [diff, hb]
  dsimp only
  rw [revByHash, revByHash, bind_some, bind_some, hr₁, hr₂]
  rfl

/-- `diff_by_tag` looks up the hashes of the tags. -/
theorem diffByTag_eq {tag₁ tag₂ : String} {h₁ h₂ : Option P.Hash}
    (ht₁ : (byTag s tag₁).map s.hashOf = .ok h₁) (ht₂ : (byTag s tag₂).map s.hashOf = .ok h₂) :
    diffByTag makePatch noPatch s tag₁ tag₂ = diff makePatch noPatch s h₁ h₂ := by
  rw [diffByTag]
  rcases hr₁ : byTag s tag₁ with _ | r₁ <;> rw [hr₁] at ht₁
  · cases ht₁
  · rcases hr₂ : byTag s tag₂ with _ | r₂ <;> rw [hr₂] at ht₂
    · cases ht₂
    · cases ht₁
      cases ht₂
      rfl

/-- The hashes of the tags, when the tagged revisions have theirs. -/
theorem map_byTag (h : ∀ x ∈ s.tags, s.hashOf x.2 = some x.2.hash) (tag : String) :
    (byTag s tag).map s.hashOf =
      match (s.tags.map fun x => (x.1, x.2.hash)).lookup tag with
      | none => .error (.keyError tag)
      | some h => .ok (some h) := by
  rw [byTag, lookup_map_snd]
  rcases hr : s.tags.lookup tag with _ | r
  · rfl
  · show Except.ok (s.hashOf r) = .ok (some r.hash)
    rw [h _ (mem_of_lookup hr)]

theorem tagNames_eq (s : State P) :
    tagNames s = ((s.tags.map fun x => (x.1, x.2.hash)).map Prod.fst).insertionSort (· ≤ ·) := by
  rw [tagNames, map_map]
  rfl

/-- Without `GET` callbacks a revision reads as it is. -/
theorem doGet_of_callbacksOf (h : s.callbacksOf r.node .get = []) (depth : ℤ) :
    doGet s depth r = r.get depth := by
  rw [doGet, h]
  rcases r.get depth with _ | m <;> rfl

/-- A read of the whole tree. -/
theorem get_root (hb : s.branches 0 none = some b) (depth : ℤ) :
    get s 0 [] depth none = (doGet s depth b.latest).map .one := by
  rw [get, hb]
  rfl

/-- `diff` of tagged revisions, in a tree that was never reloaded. -/
theorem RootInv.diff (h : RootInv s) (hb : s.branches 0 none = some b) {name₁ name₂ : String}
    (hr₁ : (name₁, r₁) ∈ s.tags) (hr₂ : (name₂, r₂) ∈ s.tags) :
    ∃ d, Config.diff makePatch noPatch s (some r₁.hash) (some r₂.hash) = .ok d ∧
      (r₁.hash = r₂.hash → d = noPatch) := by
  obtain ⟨x₁, hx₁⟩ := exists_lookup (h.kept hb hr₁)
  obtain ⟨x₂, hx₂⟩ := exists_lookup (h.kept hb hr₂)
  have hdiff := diff_eq makePatch noPatch hb hx₁ hx₂
  split at hdiff
  · exact ⟨noPatch, hdiff, fun _ => rfl⟩
  · next hne =>
    refine ⟨_, hdiff, fun heq => absurd ?_ hne⟩
    rw [heq] at hx₁
    rw [some.inj (hx₁.symm.trans hx₂)]

end Reads

section Loaded

variable {cls : P.Cls} {rev : Rev P} {L : State P} (h : LoadedRoot cls rev L)
include h

theorem LoadedRoot.hashOf (r : Rev P) : L.hashOf r = some r.hash := by
  rw [State.hashOf, h.cleared, if_neg not_mem_nil]

theorem LoadedRoot.latestHash : latestHash L = some rev.hash :=
  latestHash_eq h.branch (h.hashOf rev)

/-- A loaded root has no callbacks. -/
theorem LoadedRoot.get : Config.get L 0 [] (-1) none = (rev.get (-1)).map .one := by
  rw [get_root h.branch, doGet_of_callbacksOf]
  rw [State.callbacksOf, h.proxy]

variable {D : Type} (makePatch : P.Data → P.Data → D) (noPatch : D)

/-- `diff` finds the latest revision only. -/
theorem LoadedRoot.diff (h₁ h₂ : P.Hash) :
    (h₁ = rev.hash ∧ h₂ = rev.hash ∧
        Config.diff makePatch noPatch L (some h₁) (some h₂) = .ok noPatch) ∨
      ¬ (h₁ = rev.hash ∧ h₂ = rev.hash) ∧
        ∃ e, Config.diff makePatch noPatch L (some h₁) (some h₂) = .error e := by
  have hlookup : ∀ k, [(rev.hash, rev)].lookup k = if k = rev.hash then some rev else none := by
    intro k
    rw [lookup_cons, lookup_nil]
    by_cases hk : k = rev.hash
    · simp [hk]
    · rw [beq_false_of_ne hk, if_neg hk]
  by_cases hk₁ : h₁ = rev.hash
  · by_cases hk₂ : h₂ = rev.hash
    · have hdiff := diff_eq makePatch noPatch h.branch
        ((hlookup h₁).trans (if_pos hk₁)) ((hlookup h₂).trans (if_pos hk₂))
      rw [if_pos rfl] at hdiff
      exact .inl ⟨hk₁, hk₂, hdiff⟩
    · refine .inr ⟨fun hk => hk₂ hk.2, .keyError "hash", ?_⟩
      rw [Config.diff, h.branch]
      dsimp only
      rw [revByHash, revByHash, bind_some, bind_some, hlookup, hlookup, if_pos hk₁,
        if_neg hk₂]
      rfl
  · refine .inr ⟨fun hk => hk₁ hk.1, .keyError "hash", ?_⟩
    rw [Config.diff, h.branch]
    dsimp only
    rw [revByHash, bind_some, hlookup, if_neg hk₁]
    rfl

/-- **The differences of tagged revisions survive exactly if both are the latest one.** -/
theorem LoadedRoot.diffByTag_iff (hinv : RootInv s) (hwf : WF s) (hb : s.branches 0 none = some b)
    (htags : ∀ tag, (byTag L tag).map L.hashOf = (byTag s tag).map s.hashOf) {name₁ name₂ : String}
    (hr₁ : (name₁, r₁) ∈ s.tags) (hr₂ : (name₂, r₂) ∈ s.tags) :
    diffByTag makePatch noPatch L name₁ name₂ = diffByTag makePatch noPatch s name₁ name₂ ↔
      r₁.hash = rev.hash ∧ r₂.hash = rev.hash := by
  have hash : ∀ {name : String} {r : Rev P}, (name, r) ∈ s.tags →
      (byTag s name).map s.hashOf = .ok (some r.hash) := by
    intro name r hr
    obtain ⟨hhas, hnode⟩ := hinv.tags hr
    rw [byTag_eq hinv.names hr, ← hwf.hashOf_root hhas hnode]
    rfl
  rw [diffByTag_eq makePatch noPatch (hash hr₁) (hash hr₂),
    diffByTag_eq makePatch noPatch ((htags _).trans (hash hr₁)) ((htags _).trans (hash hr₂))]
  obtain ⟨d, hd, hsame⟩ := hinv.diff makePatch noPatch hb hr₁ hr₂
  rw [hd]
  rcases h.diff makePatch noPatch r₁.hash r₂.hash with ⟨h₁, h₂, hdiff⟩ | ⟨hne, e, hdiff⟩
  · rw [hdiff, hsame (h₁.trans h₂.symm)]
    exact iff_of_true rfl ⟨h₁, h₂⟩
  · rw [hdiff]
    exact iff_of_false (fun heq => nomatch heq) hne

end Loaded

/-- Trees with entries under their hashes decode. -/
theorem Persisted.Inv.decodes (hP : P.CollisionFree) (hsep : P.Separated) (hC : C.Faithful)
    (hp : p.Inv) (hr : p.tree.InRecord r) (hsome : (p.blobs r.hash).isSome) :
    Decodes p.blobs r := by
  have hwf := hp.tree.base.wf
  have hhas := hp.tree.rootInv.has_of_held hwf hr.held
  exact (hp.correct.stored hP hsep hwf hhas hsome).decodes hC

/-- What a loaded root agrees on, apart from differences. -/
theorem load_reads (hP : P.CollisionFree) (hC : C.Faithful) (hp : p.Inv)
    (hb : p.tree.branches 0 none = some b) (htrees : ∀ r, p.tree.InRecord r → Decodes p.blobs r)
    (hfuel : p.tree.nextRev ≤ fuel) {initial : Msg P} {rev₀ : Rev P} {s₀ : State P}
    (hroot : mkRoot initial = (.ok rev₀, s₀))
    (hlatest : b.latest.tree.Declared (P.typeOf initial.data))
    (htags : ∀ x ∈ p.tree.tags, x.2.tree.Declared (P.typeOf initial.data)) :
    ∃ L rev, load p fuel initial = (.ok (), L) ∧ LoadedRoot (P.typeOf initial.data) rev L ∧
      rev.tree = b.latest.tree ∧ rev.hash = b.latest.hash ∧ tagNames L = tagNames p.tree ∧
      ∀ tag, (byTag L tag).map L.hashOf = (byTag p.tree tag).map p.tree.hashOf := by
  have hwf := hp.tree.base.wf
  have hinv := hp.tree.rootInv
  have hhas := (hwf.head hb).has
  have hrecord : p.record = some ⟨b.latest.hash, p.tree.tags.map fun x => (x.1, x.2.hash)⟩ := by
    rw [hp.record, rootData, hb]
    rfl
  have hstored : ∀ {r : Rev P}, p.tree.Has r → (∀ y, r.Within y → p.tree.InRecord y) →
      r.tree.Declared (P.typeOf initial.data) →
      storedHash p.blobs fuel (P.typeOf initial.data) r.hash = some r.hash := fun hr hin hdecl =>
    storedHash_eq hwf hr ((hwf.ref_lt hr).trans_le hfuel) (fun y hy => htrees y (hin y hy)) hdecl
  have htag : ∀ x ∈ p.tree.tags.map fun x => (x.1, x.2.hash),
      storedHash p.blobs fuel (P.typeOf initial.data) x.2 = some x.2 := by
    intro x hx
    obtain ⟨y, hy, rfl⟩ := mem_map.mp hx
    exact hstored (hinv.tags hy).1 (fun z hz => .inr ⟨y.1, y.2, hy, hz⟩) (htags y hy)
  have hload : load p fuel initial = loadFromPersistence p fuel (P.typeOf initial.data) s₀ := by
    rw [load, hroot]
  obtain ⟨hfits, hok⟩ := loadFromPersistence_loads fuel hroot hrecord
  rw [← hload] at hfits hok
  obtain ⟨hok, hlatest', hall⟩ := hok htag (by rw [map_map]; exact hinv.names)
    (hstored hhas (fun y hy => .inl ⟨b, hb, hy⟩) hlatest)
  obtain ⟨rev, hL⟩ := hfits hC hok
  have hhash : rev.hash = b.latest.hash := some.inj (hL.latestHash.symm.trans hlatest')
  refine ⟨_, rev, Prod.ext hok rfl, hL,
    Rev.tree_eq_of_hash_eq hP hL.hashed (hwf.hashed hhas) hhash, hhash, ?_, fun tag => ?_⟩
  · rw [tagNames_eq, tagNames_eq, hall]
  · rw [map_byTag (fun x _ => hL.hashOf x.2) tag, map_byTag (fun x hx => ?_) tag, hall]
    obtain ⟨hhas, hnode⟩ := hinv.tags hx
    exact hwf.hashOf_root hhas hnode

theorem Reply.map_one_inj {x y : Except Err (Msg P)}
    (h : x.map Reply.one = y.map Reply.one) : x = y := by
  rcases x with e | m <;> rcases y with e' | m'
  · exact congrArg Except.error (Except.error.inj h)
  · cases h
  · cases h
  · exact congrArg Except.ok (Reply.one.inj (Except.ok.inj h))

/-- **Reloading.**  Take any run of a new root over a kv store that still has an entry for every
revision of the latest tree and of the tagged ones.  `load` returns a root of which everything reads
as before exactly if the nodes of the latest tree are of the classes that their fields declare,
every tag names a revision of the latest hash, and the `GET` callbacks of the root do not change
what is read.  If the classes are the declared ones, all reads but the differences are right, and
the difference of two tags is right exactly if both name revisions of the latest hash. -/
theorem load_faithful_iff (hP : P.CollisionFree) (hsep : P.Separated) (hC : C.Faithful)
    {data : Msg P} {rev : Rev P} {s : State P} (h : mkRoot data = (.ok rev, s))
    (events : List (Event P)) {p : Persisted C}
    (hp : p = events.foldl Persisted.after (Persisted.made C s))
    (hpresent : ∀ r, p.tree.InRecord r → (p.blobs r.hash).isSome) {b : Branch P}
    (hb : p.tree.branches 0 none = some b) {initial : Msg P} {rev₀ : Rev P} {s₀ : State P}
    (hinitial : mkRoot initial = (.ok rev₀, s₀)) {fuel : ℕ} (hfuel : p.tree.nextRev ≤ fuel)
    {D : Type} (makePatch : P.Data → P.Data → D) (noPatch : D) :
    ((∃ L, load p fuel initial = (.ok (), L) ∧ SameReads makePatch noPatch p.tree L) ↔
      b.latest.tree.Declared (P.typeOf initial.data) ∧
        (∀ x ∈ p.tree.tags, x.2.hash = b.latest.hash) ∧
        doGet p.tree (-1) b.latest = b.latest.get (-1)) ∧
    (b.latest.tree.Declared (P.typeOf initial.data) →
      (∀ x ∈ p.tree.tags, x.2.tree.Declared (P.typeOf initial.data)) →
      ∃ L, load p fuel initial = (.ok (), L) ∧
        get L 0 [] (-1) none = (b.latest.get (-1)).map .one ∧
        latestHash L = latestHash p.tree ∧ tagNames L = tagNames p.tree ∧
        (∀ tag, (byTag L tag).map L.hashOf = (byTag p.tree tag).map p.tree.hashOf) ∧
        ∀ x ∈ p.tree.tags, ∀ y ∈ p.tree.tags,
          diffByTag makePatch noPatch L x.1 y.1 = diffByTag makePatch noPatch p.tree x.1 y.1 ↔
            x.2.hash = b.latest.hash ∧ y.2.hash = b.latest.hash) := by
  have hinv : p.Inv := hp ▸ Persisted.Inv.run hP hsep h events
  have hwf := hinv.tree.base.wf
  have hroot := hinv.tree.rootInv
  have htrees : ∀ r, p.tree.InRecord r → Decodes p.blobs r := fun r hr =>
    hinv.decodes hP hsep hC hr (hpresent r hr)
  have hlatest := latestHash_eq hb (hwf.hashOf_root (hwf.head hb).has (hwf.head hb).node)
  refine ⟨⟨?_, ?_⟩, ?_⟩
  · rintro ⟨L, hload, hsame⟩
    obtain ⟨rev', hL⟩ := load_returned hC hload
    have hhash : rev'.hash = b.latest.hash :=
      some.inj (hL.latestHash.symm.trans (hsame.latest.trans hlatest))
    have htree := Rev.tree_eq_of_hash_eq hP hL.hashed (hwf.hashed (hwf.head hb).has) hhash
    refine ⟨htree ▸ hL.declared, fun x hx => ?_, ?_⟩
    · have hname : x.1 ∈ tagNames p.tree := mem_tagNames.mpr (mem_map_of_mem hx)
      have hdiff := hsame.diff x.1 x.1 hname hname
      rw [← hhash]
      exact ((hL.diffByTag_iff makePatch noPatch hroot hwf hb hsame.byTag hx hx).mp hdiff).1
    · have hget := hsame.get
      rw [hL.get, get_root hb] at hget
      rw [← Reply.map_one_inj hget, Rev.get, Rev.get, htree]
  · rintro ⟨hdecl, hall, hcalls⟩
    have htags : ∀ x ∈ p.tree.tags, x.2.tree.Declared (P.typeOf initial.data) := fun x hx => by
      rw [Rev.tree_eq_of_hash_eq hP (hwf.hashed (hroot.tags hx).1)
        (hwf.hashed (hwf.head hb).has) (hall x hx)]
      exact hdecl
    obtain ⟨L, rev', hload, hL, htree, hhash, hnames, hby⟩ :=
      load_reads hP hC hinv hb htrees hfuel hinitial hdecl htags
    refine ⟨L, hload, ?_, ?_, hnames, hby, fun tag₁ tag₂ h₁ h₂ => ?_⟩
    · rw [hL.get, get_root hb, hcalls, Rev.get, Rev.get, htree]
    · rw [hL.latestHash, hlatest, hhash]
    · obtain ⟨x, hx, rfl⟩ := mem_map.mp (mem_tagNames.mp h₁)
      obtain ⟨y, hy, rfl⟩ := mem_map.mp (mem_tagNames.mp h₂)
      refine (hL.diffByTag_iff makePatch noPatch hroot hwf hb hby hx hy).mpr ?_
      rw [hhash]
      exact ⟨hall x hx, hall y hy⟩
  · intro hdecl htags
    obtain ⟨L, rev', hload, hL, htree, hhash, hnames, hby⟩ :=
      load_reads hP hC hinv hb htrees hfuel hinitial hdecl htags
    refine ⟨L, hload, ?_, ?_, hnames, hby, fun x hx y hy => ?_⟩
    · rw [hL.get, Rev.get, Rev.get, htree]
    · rw [hL.latestHash, hlatest, hhash]
    · rw [← hhash]
      exact hL.diffByTag_iff makePatch noPatch hroot hwf hb hby hx hy

/-- Operations lose no entry. -/
theorem recorded_of_ops (hP : P.CollisionFree) (hsep : P.Separated) (hC : C.Faithful)
    {data : Msg P} {rev : Rev P} (h : mkRoot data = (.ok rev, s)) (ops : List (Op P)) :
    Recorded (Persisted.run C s (ops.map .op)) :=
  recorded_of_madeSince hP hsep h _ hC fun _ _ _ _ _ hsplit hfin =>
    absurd hfin (Event.not_finalizes hsplit)

namespace Sample

/-- A default message. -/
def initial : Msg sample := root "" []

/-- A patch, as the pair of what it is made from. -/
def makePatch (d d' : SampleData) : List (SampleData × SampleData) := [(d, d')]

/-- An adapter changes and the tree gets two tags. -/
def tagged : List (Op sample) :=
  [.update ["", "adapters", "2"] (leaf .adapter "2" "z") false none, .tag "a" none, .tag "b" none]

/-- The tree gets a tag, and then an adapter changes. -/
def outdated : List (Op sample) :=
  [.tag "a" none, .update ["", "adapters", "2"] (leaf .adapter "2" "z") false none]

/-- The root that is loaded after a run. -/
def reloaded (ops : List (Op sample)) : State sample :=
  (load (persisted (ops.map .op)) 100 initial).2

theorem mkRoot_initial : ∃ rev s, mkRoot initial = (.ok rev, s) := by
  have h : (mkRoot initial).1.toBool = true := by decide +kernel
  rcases hr : mkRoot initial with ⟨e | rev, s⟩
  · rw [hr] at h
    cases h
  · exact ⟨rev, s, rfl⟩

end Sample

open Sample

theorem load_faithful_sample :
    (load (persisted (tagged.map .op)) 100 initial).1 = .ok () ∧
      SameReads makePatch [] (persisted (tagged.map .op)).tree
        (reloaded tagged) := by
  obtain ⟨rev, hmade⟩ := mkRoot_tree
  obtain ⟨rev₀, s₀, hinitial⟩ := mkRoot_initial
  have hinv : (persisted (tagged.map .op)).Inv :=
    Persisted.Inv.run sample_collisionFree separated hmade _
  have hrecorded : Recorded (persisted (tagged.map .op)) :=
    recorded_of_ops sample_collisionFree separated codec_faithful hmade tagged
  obtain ⟨b, hb⟩ := isSome_iff_exists.mp hinv.tree.base.root
  have hwf := hinv.tree.base.wf
  have hfuel : (persisted (tagged.map .op)).tree.nextRev ≤ 100 := by decide +kernel
  have hmain := load_faithful_iff sample_collisionFree separated
    codec_faithful hmade (tagged.map .op) rfl
    (fun r hr => by
      obtain ⟨lists, hlists, -⟩ := (hrecorded.trees r hr).rev
      exact Option.isSome_of_eq_some hlists)
    hb hinitial hfuel makePatch []
  have hok : (load (persisted (tagged.map .op)) 100 initial).1 = .ok () := by
    decide +kernel
  have hdecl : b.latest.tree.Declared (sample.typeOf initial.data) := by
    -- what was loaded has the declared classes and the hash of the latest revision
    obtain ⟨rev', hL⟩ := load_returned codec_faithful (Prod.ext hok rfl)
    have hhash : latestHash (reloaded tagged) =
        latestHash (persisted (tagged.map .op)).tree := by
      decide +kernel
    have hlatest := latestHash_eq hb (hwf.hashOf_root (hwf.head hb).has (hwf.head hb).node)
    have heq : rev'.hash = b.latest.hash :=
      some.inj (hL.latestHash.symm.trans (hhash.trans hlatest))
    rw [← Rev.tree_eq_of_hash_eq sample_collisionFree hL.hashed (hwf.hashed (hwf.head hb).has) heq]
    exact hL.declared
  have htags : ∀ x ∈ (persisted (tagged.map .op)).tree.tags,
      x.2.hash = b.latest.hash := by
    have hall : ((persisted (tagged.map .op)).tree.branches 0 none).all (fun b =>
        (persisted (tagged.map .op)).tree.tags.all fun x =>
          decide (x.2.hash = b.latest.hash)) = true := by
      decide +kernel
    rw [hb] at hall
    exact fun x hx => of_decide_eq_true (all_eq_true.mp hall x hx)
  have hcalls : (persisted (tagged.map .op)).tree.callbacksOf 0 .get = [] := by
    rw [← List.isEmpty_iff]
    decide +kernel
  obtain ⟨L, hload, hsame⟩ := hmain.1.mpr ⟨hdecl, htags,
    doGet_of_callbacksOf (by rw [(hwf.head hb).node]; exact hcalls) (-1)⟩
  refine ⟨hok, ?_⟩
  rw [reloaded, persisted, hload]
  exact hsame

/-- The tagged revision is in the tree and in the store, and its hash can be read from its tag, but
it cannot be compared with itself in the loaded root. -/
theorem reload_loses_tagged_diff :
    Recorded (persisted (outdated.map .op)) ∧
      (load (persisted (outdated.map .op)) 100 initial).1 = .ok () ∧
      diffByTag makePatch [] (persisted (outdated.map .op)).tree "a" "a" =
        .ok [] ∧
      diffByTag makePatch [] (reloaded outdated) "a" "a" =
        .error (.keyError "hash") := by
  obtain ⟨rev, hmade⟩ := mkRoot_tree
  exact ⟨recorded_of_ops sample_collisionFree separated codec_faithful hmade outdated,
    by decide +kernel, by decide +kernel, by decide +kernel⟩

end Voltha.Config
