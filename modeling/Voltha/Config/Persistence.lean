import Voltha.Lib.Run
import Voltha.Config.Held
import Voltha.Config.Sample

/-!
# The persisted tree

A root over a kv store makes its revisions as `PersistedConfigRevision`.  Such a revision writes
itself into the store when it is made, under its hash, unless something is there under that hash
already, and takes the entry under its hash out again when CPython finalizes it.  The entry of a
revision lists the hashes of its children and names the hash of its data, which has an entry of its
own.  The record `'root'` names the hashes of the latest revision and of the tagged ones.

Several revision objects can have one hash, and the finalizer of any of them takes the entry away
from all.

* `Persisted`: a tree with its store; `Persisted.after` is an operation on it, or the finalizer of
  a revision.  Nothing is assumed of the order in which finalizers run.
* `isSome_entry_iff`: the entry of a revision is there exactly if a revision of its hash has been
  made since each finalizer of one.
* `store_recorded_iff`: the store contains the latest tree and the tagged ones exactly if this is so
  for their revisions.
-/

namespace Voltha.Config

open List Function Option Rev

variable {P : Proto}

open State Act

/-! ## Entries -/

/-- `SerializeToString` and `ParseFromString` of the message classes; `none` is a `DecodeError`. -/
structure Codec (P : Proto) where
  Bytes : Type
  serialize : P.Data → Bytes
  parse : P.Cls → Bytes → Option P.Data

/-- Parsing inverts serializing, and yields a message of the class that is asked for. -/
structure Codec.Faithful (C : Codec P) : Prop where
  parse_serialize : ∀ d, C.parse (P.typeOf d) (C.serialize d) = some d
  typeOf_parse : ∀ {c bytes d}, C.parse c bytes = some d → P.typeOf d = c

/-- The digests of data and those of revisions are different: one is taken of the other. -/
def Proto.Separated (P : Proto) : Prop := ∀ d h l, P.hashData d ≠ P.hashContent h l

/-- An entry of the store: the JSON of a revision, or the bytes of its data. -/
inductive Blob (C : Codec P) where
  | rev (children : List (String × List P.Hash)) (config : P.Hash)
  | config (bytes : C.Bytes)

/-- The entries of a store by their hashes. -/
abbrev Blobs (C : Codec P) := P.Hash → Option (Blob C)

/-- The entry `'root'`. -/
structure RootData (P : Proto) where
  latest : P.Hash
  tags : List (String × P.Hash)

variable {C : Codec P}

/-- The JSON of a revision. -/
def Rev.blob (C : Codec P) (r : Rev P) : Blob C :=
  .rev ((P.names (P.typeOf r.data)).map fun f => (f, (r.children f).map hash)) r.configHash

/-- The bytes of the data of a revision. -/
def Rev.configBlob (C : Codec P) (r : Rev P) : Blob C := .config (C.serialize r.data)

/-- `store_config`. -/
def storeConfig (blobs : Blobs C) (r : Rev P) : Blobs C :=
  if (blobs r.configHash).isSome then blobs
  else Function.update blobs r.configHash (some (r.configBlob C))

/-- `store`. -/
def store (blobs : Blobs C) (r : Rev P) : Blobs C :=
  if (blobs r.hash).isSome then blobs
  else Function.update (storeConfig blobs r) r.hash (some (r.blob C))

/-- `__del__` of a revision that has the hash `hash`.  The data object of a revision is in
`_rev_cache`, which refers to it weakly, so that its entry stays. -/
def finalize (blobs : Blobs C) (hash : Option P.Hash) : Blobs C :=
  match hash with
  | none => blobs
  | some h => Function.update blobs h none

/-! ## Persisted trees -/

/-- A tree with its store. -/
structure Persisted (C : Codec P) where
  tree : State P
  blobs : Blobs C
  record : Option (RootData P)

/-- What `_make_latest` of the root and `persist_tags` write under `'root'`, whenever the latest
revision or the tags have changed.  The root never loses its hash (`WF.hashOf_root`). -/
def rootData (s : State P) : Option (RootData P) :=
  (s.branches 0 none).map fun b => ⟨b.latest.hash, s.tags.map fun p => (p.1, p.2.hash)⟩

/-- The revisions that were made since the first `n` ones store themselves, in this order. -/
def storeNew (n : ℕ) (s : State P) (blobs : Blobs C) : Blobs C :=
  ((List.range' n (s.nextRev - n)).filterMap s.objects).foldl store blobs

/-- What happens to a persisted tree: an operation, or the finalizer of the revision with a given
number. -/
inductive Event (P : Proto) where
  | op (op : Op P)
  | finalize (ref : ℕ)

/-- `_hash` of the revision with a given number. -/
def State.hashAt (s : State P) (ref : ℕ) : Option P.Hash := (s.objects ref).bind s.hashOf

/-- A new root over an empty store. -/
def Persisted.made (C : Codec P) (s : State P) : Persisted C where
  tree := s
  blobs := storeNew 0 s fun _ => none
  record := rootData s

/-- The persisted tree after an event. -/
def Persisted.after (p : Persisted C) : Event P → Persisted C
  | .op op =>
    { tree := step p.tree op
      blobs := storeNew p.tree.nextRev (step p.tree op) p.blobs
      record := rootData (step p.tree op) }
  | .finalize ref => { p with blobs := finalize p.blobs (p.tree.hashAt ref) }

/-! ## What the store should contain -/

/-- The entries of the revision are there. -/
structure Stored (blobs : Blobs C) (r : Rev P) : Prop where
  rev : blobs r.hash = some (r.blob C)
  config : blobs r.configHash = some (r.configBlob C)

/-- The entries of the revision are there and decode to its content. -/
structure Decodes (blobs : Blobs C) (r : Rev P) : Prop where
  rev : ∃ lists, blobs r.hash = some (.rev lists r.configHash) ∧
    ∀ f ∈ P.names (P.typeOf r.data), lists.lookup f = some ((r.children f).map hash)
  config : ∃ bytes, blobs r.configHash = some (.config bytes) ∧
    C.parse (P.typeOf r.data) bytes = some r.data

/-- The revision is in the latest tree or in a tagged one. -/
def State.InRecord (s : State P) (r : Rev P) : Prop :=
  (∃ b, s.branches 0 none = some b ∧ b.latest.Within r) ∨
    ∃ name x, (name, x) ∈ s.tags ∧ x.Within r

/-- The record names the latest revision and the tagged ones, and the store contains their
trees. -/
structure Recorded (p : Persisted C) : Prop where
  record : ∃ b, p.tree.branches 0 none = some b ∧
    p.record = some ⟨b.latest.hash, p.tree.tags.map fun t => (t.1, t.2.hash)⟩
  trees : ∀ r, p.tree.InRecord r → Decodes p.blobs r

/-- A new root over an empty store after a run. -/
abbrev Persisted.run (C : Codec P) (s : State P) (events : List (Event P)) : Persisted C :=
  events.foldl Persisted.after (Persisted.made C s)

/-- The finalizer is called of a revision with this hash. -/
def Event.Finalizes (s : State P) (h : P.Hash) : Event P → Prop
  | .op _ => False
  | .finalize ref => s.hashAt ref = some h

/-- Since each finalizer of the run that was called of a revision with the hash of `r`, a revision
with this hash has been made. -/
def MadeSince (C : Codec P) (s : State P) (events : List (Event P)) (r : Rev P) : Prop :=
  ∀ before e after, events = before ++ e :: after →
    e.Finalizes (Persisted.run C s before).tree r.hash →
    ∃ x, (Persisted.run C s events).tree.Has x ∧ x.hash = r.hash ∧
      (Persisted.run C s before).tree.nextRev ≤ x.ref

variable {r x : Rev P} {s : State P} {blobs : Blobs C}

theorem State.InRecord.held (h : s.InRecord r) : s.Held r := by
  rcases h with ⟨b, hb, hr⟩ | ⟨name, x, hx, hr⟩
  · exact ⟨_, Refers.latest hb, hr⟩
  · exact ⟨_, Refers.tag hx, hr⟩

theorem Stored.decodes (hC : C.Faithful) (h : Stored blobs r) :
    Decodes blobs r where
  rev := ⟨_, h.rev, fun _ hf =>
    OrderedDict.lookup_map_self (fun f => (r.children f).map hash) hf⟩
  config := ⟨_, h.config, hC.parse_serialize _⟩

/-! ## Equal hashes, equal entries -/

variable {h : P.Hash}

section Entries

variable {s : State P}

/-- The hash of a revision is not that of data. -/
theorem WF.hash_ne_configHash (hsep : P.Separated) (hwf : WF s) (hr : s.Has r) :
    x.configHash ≠ r.hash := by
  rw [(hwf.hashed hr).hash_eq]
  exact hsep _ _ _

theorem configBlob_congr (hP : P.CollisionFree) (h : x.configHash = r.configHash) :
    x.configBlob C = r.configBlob C := by
  rw [configBlob, configBlob, hP.hashData_inj h]

theorem blob_congr (hP : P.CollisionFree) (hwf : WF s) (hr : s.Has r) (hx : s.Has x)
    (h : x.hash = r.hash) : x.blob C = r.blob C ∧ x.configHash = r.configHash := by
  rw [(hwf.hashed hr).hash_eq, (hwf.hashed hx).hash_eq] at h
  obtain ⟨hd, hl⟩ := hashContent_inj hP h
  have hconfig : x.configHash = r.configHash := by rw [configHash, configHash, hd]
  refine ⟨?_, hconfig⟩
  rw [blob, blob, hconfig, ← hd]
  congr 1
  exact map_congr_left fun f hf => by rw [hl f hf]

/-- Every entry is that of an object, and the entry of a revision comes with that of its data. -/
def Correct (s : State P) (blobs : Blobs C) : Prop :=
  ∀ h blob, blobs h = some blob → ∃ r, s.Has r ∧
    (r.hash = h ∧ Stored blobs r ∨ r.configHash = h ∧ blob = r.configBlob C)

theorem Correct.later {s' : State P} (h : Correct s blobs) (hl : State.Later s s') :
    Correct s' blobs := by
  intro k blob hk
  obtain ⟨r, hr, hcase⟩ := h k blob hk
  exact ⟨r, hl.has hr, hcase⟩

/-- What is found under the hash of a revision are its own entries. -/
theorem Correct.stored (hP : P.CollisionFree) (hsep : P.Separated) (hwf : WF s)
    (h : Correct s blobs) (hr : s.Has r) (hsome : (blobs r.hash).isSome) : Stored blobs r := by
  obtain ⟨blob, hblob⟩ := isSome_iff_exists.mp hsome
  obtain ⟨x, hx, ⟨hhash, hst⟩ | ⟨hconfig, -⟩⟩ := h _ _ hblob
  · obtain ⟨hb, hc⟩ := blob_congr (C := C) hP hwf hr hx hhash
    refine ⟨?_, ?_⟩
    · rw [← hhash, hst.rev, hb]
    · rw [← hc, hst.config, configBlob_congr hP hc]
  · exact absurd hconfig (hwf.hash_ne_configHash hsep hr)

/-! ## Storing -/

variable {blob : Blob C}

section

variable (hb : blobs h = some blob)
include hb

/-- A key with an entry is not one without. -/
theorem Blobs.ne_of_isSome {k : P.Hash} (hk : ¬ (blobs k).isSome) : h ≠ k := by
  rintro rfl
  exact hk (isSome_of_eq_some hb)

theorem storeConfig_mono (r : Rev P) : storeConfig blobs r h = some blob := by
  unfold storeConfig
  split
  · exact hb
  · next hnone => rwa [update_of_ne (Blobs.ne_of_isSome hb hnone)]

/-- Storing takes nothing away. -/
theorem store_mono (r : Rev P) : store blobs r h = some blob := by
  unfold store
  split
  · exact hb
  · next hnone =>
    rw [update_of_ne (Blobs.ne_of_isSome hb hnone)]
    exact storeConfig_mono hb r

end

theorem Stored.mono {blobs' : Blobs C}
    (hmono : ∀ {h blob}, blobs h = some blob → blobs' h = some blob) (h : Stored blobs r) :
    Stored blobs' r :=
  ⟨hmono h.rev, hmono h.config⟩

variable (hP : P.CollisionFree) (hsep : P.Separated)

include hP hsep

theorem storeConfig_config (hwf : WF s) (h : Correct s blobs) (r : Rev P) :
    storeConfig blobs r r.configHash = some (r.configBlob C) := by
  unfold storeConfig
  split
  · next hsome =>
    obtain ⟨blob, hblob⟩ := isSome_iff_exists.mp hsome
    obtain ⟨x, hx, ⟨hhash, -⟩ | ⟨hconfig, rfl⟩⟩ := h _ _ hblob
    · exact absurd hhash.symm (hwf.hash_ne_configHash hsep hx)
    · rw [hblob, configBlob_congr hP hconfig]
  · exact Function.update_self ..

/-- A revision that stores itself. -/
theorem Correct.store (hwf : WF s) (h : Correct s blobs) (hr : s.Has r) :
    Correct s (Config.store blobs r) ∧ Stored (Config.store blobs r) r := by
  by_cases hsome : (blobs r.hash).isSome
  · have hsame : Config.store blobs r = blobs := if_pos hsome
    rw [hsame]
    exact ⟨h, h.stored hP hsep hwf hr hsome⟩
  · have hst : Stored (Config.store blobs r) r := by
      have hnew : Config.store blobs r =
          Function.update (storeConfig blobs r) r.hash (some (r.blob C)) := if_neg hsome
      rw [hnew]
      refine ⟨update_self .., ?_⟩
      rw [update_of_ne (hwf.hash_ne_configHash hsep hr)]
      exact storeConfig_config hP hsep hwf h r
    refine ⟨fun k blob hk => ?_, hst⟩
    by_cases hkr : k = r.hash
    · exact ⟨r, hr, .inl ⟨hkr.symm, hst⟩⟩
    · by_cases hkc : k = r.configHash
      · rw [hkc, hst.config] at hk
        exact ⟨r, hr, .inr ⟨hkc.symm, (some.inj hk).symm⟩⟩
      · have hold : blobs k = some blob := by
          unfold Config.store storeConfig at hk
          rw [if_neg hsome, update_of_ne hkr] at hk
          split at hk
          · exact hk
          · rwa [update_of_ne hkc] at hk
        obtain ⟨x, hx, ⟨hhash, hxst⟩ | hconfig⟩ := h _ _ hold
        · exact ⟨x, hx, .inl ⟨hhash, hxst.mono fun hb => store_mono hb r⟩⟩
        · exact ⟨x, hx, .inr hconfig⟩

/-- Revisions that store themselves one after the other. -/
theorem Correct.foldl_store (hwf : WF s) :
    ∀ {l : List (Rev P)} {blobs : Blobs C}, (∀ r ∈ l, s.Has r) → Correct s blobs →
      Correct s (l.foldl Config.store blobs) ∧
        (∀ {h blob}, blobs h = some blob → l.foldl Config.store blobs h = some blob) ∧
        ∀ r ∈ l, Stored (l.foldl Config.store blobs) r
  | [], blobs, _, h => ⟨h, fun hb => hb, nofun⟩
  | r :: l, blobs, hl, h => by
    obtain ⟨h₁, hst⟩ := h.store hP hsep hwf (hl r mem_cons_self)
    obtain ⟨h₂, hmono, hall⟩ :=
      foldl_store hwf (fun x hx => hl x (mem_cons_of_mem _ hx)) h₁
    refine ⟨h₂, fun hb => hmono (store_mono hb r), fun x hx => ?_⟩
    rcases mem_cons.mp hx with rfl | hx
    · exact hst.mono hmono
    · exact hall x hx

/-- The new revisions of a tree store themselves. -/
theorem Correct.storeNew (hwf : WF s) (h : Correct s blobs) (n : ℕ) :
    Correct s (Config.storeNew n s blobs) ∧
      (∀ {h blob}, blobs h = some blob → Config.storeNew n s blobs h = some blob) ∧
      ∀ r, s.Has r → n ≤ r.ref → Stored (Config.storeNew n s blobs) r := by
  have hl : ∀ r ∈ (List.range' n (s.nextRev - n)).filterMap s.objects, s.Has r := by
    intro r hr
    obtain ⟨i, -, hi⟩ := mem_filterMap.mp hr
    exact hwf.has_of_objects hi
  obtain ⟨h', hmono, hall⟩ := h.foldl_store hP hsep hwf hl
  refine ⟨h', hmono, fun r hr hn => hall r (mem_filterMap.mpr ⟨r.ref, ?_, hr⟩)⟩
  have hlt := hwf.ref_lt hr
  rw [mem_range'_1]
  omega

end Entries

/-! ## Runs -/

/-- What holds of every persisted tree. -/
structure Persisted.Inv (p : Persisted C) : Prop where
  tree : Reachable p.tree
  correct : Correct p.tree p.blobs
  record : p.record = rootData p.tree

section Runs

variable {p : Persisted C}

/-- The hash of an object is that of a revision. -/
theorem hashAt_eq_some (hwf : WF s) {ref : ℕ} (hh : s.hashAt ref = some h) :
    ∃ r, s.Has r ∧ r.hash = h := by
  obtain ⟨r, hr, hh⟩ := bind_eq_some_iff.mp hh
  exact ⟨r, hwf.has_of_objects hr, (State.hashOf_eq_some hh).2⟩

/-- The finalizer takes away the entry of one hash. -/
theorem finalize_apply (blobs : Blobs C) (hash : Option P.Hash) (k : P.Hash) :
    finalize blobs hash k = if some k = hash then none else blobs k := by
  rcases hash with _ | h
  · rfl
  · by_cases hk : k = h
    · subst hk
      rw [if_pos rfl]
      exact Function.update_self ..
    · rw [if_neg fun heq => hk (some.inj heq)]
      exact Function.update_of_ne hk ..

/-- A revision of another hash keeps its entries. -/
theorem Stored.finalize (hsep : P.Separated) (hwf : WF s) {ref : ℕ} (h : Stored blobs x)
    (hne : some x.hash ≠ s.hashAt ref) : Stored (Config.finalize blobs (s.hashAt ref)) x := by
  refine ⟨?_, ?_⟩
  · rw [finalize_apply, if_neg hne]
    exact h.rev
  · rw [finalize_apply, if_neg fun heq => ?_]
    · exact h.config
    · obtain ⟨r, hr, hh⟩ := hashAt_eq_some hwf heq.symm
      exact hwf.hash_ne_configHash hsep hr hh.symm

theorem Correct.finalize (hsep : P.Separated) (hwf : WF s) (h : Correct s blobs) (ref : ℕ) :
    Correct s (Config.finalize blobs (s.hashAt ref)) := by
  intro k blob hk
  rw [finalize_apply] at hk
  split at hk
  · cases hk
  · next hne =>
    obtain ⟨x, hx, ⟨rfl, hst⟩ | hconfig⟩ := h k blob hk
    · exact ⟨x, hx, .inl ⟨rfl, hst.finalize hsep hwf hne⟩⟩
    · exact ⟨x, hx, .inr hconfig⟩

variable (hP : P.CollisionFree) (hsep : P.Separated)

include hP hsep

theorem Persisted.Inv.after (h : p.Inv) (e : Event P) : (p.after e).Inv := by
  have hwf := h.tree.base.wf
  cases e with
  | op op =>
    have hwf' := (h.tree.step op).base.wf
    have hl := h.tree.base.later_step op
    exact ⟨h.tree.step op, ((h.correct.later hl).storeNew hP hsep hwf' p.tree.nextRev).1, rfl⟩
  | finalize ref => exact ⟨h.tree, h.correct.finalize hsep hwf ref, h.record⟩

open Persisted

theorem Persisted.Inv.made {data : Msg P} {rev : Rev P} (h : mkRoot data = (.ok rev, s)) :
    (made C s).Inv := by
  have hreach := Reachable.init h
  have hnone : Correct s (fun _ => none : Blobs C) := nofun
  exact ⟨hreach, (hnone.storeNew hP hsep hreach.base.wf 0).1, rfl⟩

/-- A run of a new root. -/
theorem Persisted.Inv.run {data : Msg P} {rev : Rev P} (h : mkRoot data = (.ok rev, s))
    (events : List (Event P)) : (Persisted.run C s events).Inv :=
  (allAlong_true events _).foldl (I := Inv) (fun _ e hp _ => hp.after hP hsep e)
    (Inv.made hP hsep h)

/-! ## Entries along a run -/

omit hP in
/-- The new revisions store nothing under the hash of a revision that none of them has. -/
theorem storeNew_of_ne (hwf : WF s) (hr : s.Has r) {n : ℕ}
    (hne : ∀ x, s.Has x → n ≤ x.ref → x.hash ≠ r.hash) :
    Config.storeNew n s blobs r.hash = blobs r.hash := by
  have hl : ∀ x ∈ (List.range' n (s.nextRev - n)).filterMap s.objects, x.hash ≠ r.hash := by
    intro x hx
    obtain ⟨i, hi, hobj⟩ := mem_filterMap.mp hx
    exact hne x (hwf.has_of_objects hobj) (hwf.ref hobj ▸ (mem_range'_1.mp hi).1)
  rw [Config.storeNew]
  generalize (List.range' n (s.nextRev - n)).filterMap s.objects = l at hl
  induction l generalizing blobs with
  | nil => rfl
  | cons x l ih =>
    rw [foldl_cons, ih fun y hy => hl y (mem_cons_of_mem _ hy)]
    have hx := (hl x mem_cons_self).symm
    have hconfig := (hwf.hash_ne_configHash (x := x) hsep hr).symm
    unfold Config.store storeConfig
    split_ifs
    · rfl
    · exact update_of_ne hx ..
    · rw [update_of_ne hx, update_of_ne hconfig]

omit hP hsep in
theorem Persisted.run_concat (s : State P) (events : List (Event P)) (e : Event P) :
    Persisted.run C s (events ++ [e]) = (Persisted.run C s events).after e := by
  rw [Persisted.run, foldl_append]
  rfl

theorem Persisted.nextRev_le {data : Msg P} {rev : Rev P} (h : mkRoot data = (.ok rev, s))
    (before after : List (Event P)) :
    (Persisted.run C s before).tree.nextRev ≤
      (Persisted.run C s (before ++ after)).tree.nextRev := by
  induction after using reverseRecOn with
  | nil => rw [append_nil]
  | append_singleton after e ih =>
    have hbase := (Inv.run (C := C) hP hsep h (before ++ after)).tree.base
    refine ih.trans ?_
    rw [← append_assoc, run_concat]
    cases e with
    | op op => exact (hbase.later_step op).nextRev_le
    | finalize ref => exact le_rfl

/-- **The entry of a revision is in the store exactly if one of its hash has been made since each
finalizer of one.** -/
theorem isSome_entry_iff {data : Msg P} {rev : Rev P} (h : mkRoot data = (.ok rev, s))
    (events : List (Event P)) :
    ∀ {r : Rev P}, (Persisted.run C s events).tree.Has r →
      (((Persisted.run C s events).blobs r.hash).isSome ↔ MadeSince C s events r) := by
  induction events using reverseRecOn with
  | nil =>
    intro r hr
    have hnone : Correct s (fun _ => none : Blobs C) := nofun
    have hst := (hnone.storeNew hP hsep (Reachable.init h).base.wf 0).2.2 r hr (Nat.zero_le _)
    exact iff_of_true (isSome_of_eq_some hst.rev) fun before e after hsplit => by simp at hsplit
  | append_singleton events e ih =>
    intro r hr
    have hinv := Inv.run (C := C) hP hsep h events
    have hinv' := Inv.run (C := C) hP hsep h (events ++ [e])
    have hle := Persisted.nextRev_le (C := C) hP hsep h
    rw [MadeSince, forall_split_concat, run_concat]
    rw [run_concat] at hr hinv'
    set p := Persisted.run C s events
    cases e with
    | finalize ref =>
      have hentry : (p.after (.finalize ref)).blobs r.hash =
          if some r.hash = p.tree.hashAt ref then none else p.blobs r.hash := finalize_apply ..
      rw [hentry]
      by_cases hh : p.tree.hashAt ref = some r.hash
      · -- nothing has been made after the last event
        rw [if_pos hh.symm]
        refine iff_of_false (by simp) fun hmade => ?_
        obtain ⟨x, hx, -, hle⟩ := hmade.1 hh
        exact absurd (hinv.tree.base.wf.ref_lt hx) (Nat.not_lt.mpr hle)
      · rw [if_neg (Ne.symm hh), ih hr]
        exact (and_iff_right fun hfin => absurd hfin hh).symm
    | op op =>
      have hl := hinv.tree.base.later_step op
      have hwf' := hinv'.tree.base.wf
      obtain ⟨-, -, hall⟩ := (hinv.correct.later hl).storeNew hP hsep hwf' p.tree.nextRev
      by_cases hnew : ∃ x, (p.after (.op op)).tree.Has x ∧ x.hash = r.hash ∧
          p.tree.nextRev ≤ x.ref
      · obtain ⟨x, hx, hhash, hxnew⟩ := hnew
        refine iff_of_true ?_ ⟨False.elim, fun before e after hsplit _ =>
          ⟨x, hx, hhash, le_trans ?_ hxnew⟩⟩
        · rw [← hhash]
          exact isSome_of_eq_some (hall x hx hxnew).rev
        · exact (hle before (e :: after)).trans_eq (by rw [← hsplit])
      · -- the revisions of this hash are those that were there
        push Not at hnew
        have hold : ∀ {x : Rev P}, (p.after (.op op)).tree.Has x → x.hash = r.hash →
            p.tree.Has x := fun hx hhash => hl.old hx (hnew _ hx hhash)
        have hentry : (p.after (.op op)).blobs r.hash = p.blobs r.hash :=
          storeNew_of_ne hsep hwf' hr fun x hx hxnew hhash =>
            absurd (hnew x hx hhash) (Nat.not_lt.mpr hxnew)
        rw [hentry, ih (hold hr rfl), and_iff_right (fun h => h.elim)]
        refine forall₅_congr fun before e after _ _ => ⟨?_, ?_⟩
        · exact fun ⟨x, hx, hhash, hxnew⟩ => ⟨x, hl.has hx, hhash, hxnew⟩
        · exact fun ⟨x, hx, hhash, hxnew⟩ => ⟨x, hold hx hhash, hhash, hxnew⟩

end Runs

/-- No other object has the hash of the one with a given number. -/
def State.single (s : State P) (ref : ℕ) : Bool :=
  (List.range s.nextRev).all fun i => (s.objects i).all fun x =>
    decide (i = ref) || decide (some x.hash ≠ s.hashAt ref)

/-- The finalizer of a revision that nothing refers to takes nothing from the recorded trees if no
other object has its hash. -/
theorem Unreferenced.harmless {p : Persisted C} (hp : p.Inv) (h : Unreferenced p.tree r)
    (hr : p.tree.Has r) (hsingle : p.tree.single r.ref = true) (hx : p.tree.InRecord x) :
    some x.hash ≠ p.tree.hashAt r.ref := by
  have hwf := hp.tree.base.wf
  have hroot := hp.tree.rootInv
  intro heq
  have hxhas := hroot.has_of_held hwf hx.held
  have hall := all_eq_true.mp hsingle x.ref (mem_range.mpr (hwf.ref_lt hxhas))
  rw [show p.tree.objects x.ref = some x from hxhas] at hall
  rcases Bool.or_eq_true_iff.mp hall with href | hne
  · have hsame : x = r := by
      have hobj : p.tree.objects x.ref = some r := (of_decide_eq_true href) ▸ hr
      exact some.inj ((show p.tree.objects x.ref = some x from hxhas).symm.trans hobj)
    exact h.not_held hwf hroot (hsame ▸ hx.held)
  · exact of_decide_eq_true hne heq

section Recorded

variable (hP : P.CollisionFree) (hsep : P.Separated) {data : Msg P} {rev : Rev P}
  (hmk : mkRoot data = (.ok rev, s)) (events : List (Event P))
include hP hsep hmk

theorem InRecord.has (hr : (Persisted.run C s events).tree.InRecord r) :
    (Persisted.run C s events).tree.Has r := by
  have hinv := Persisted.Inv.run (C := C) hP hsep hmk events
  exact hinv.tree.rootInv.has_of_held hinv.tree.base.wf hr.held

theorem recorded_of_madeSince (hC : C.Faithful)
    (hmade : ∀ r, (Persisted.run C s events).tree.InRecord r → MadeSince C s events r) :
    Recorded (Persisted.run C s events) := by
  have hinv := Persisted.Inv.run (C := C) hP hsep hmk events
  obtain ⟨b, hb⟩ := isSome_iff_exists.mp hinv.tree.base.root
  refine ⟨⟨b, hb, ?_⟩, fun r hr => ?_⟩
  · rw [hinv.record, rootData, hb]
    rfl
  · have hhas := InRecord.has hP hsep hmk events hr
    have hsome := (isSome_entry_iff hP hsep hmk events hhas).2 (hmade r hr)
    exact (hinv.correct.stored hP hsep hinv.tree.base.wf hhas hsome).decodes hC

end Recorded

/-- Operations finalize nothing. -/
theorem Event.not_finalizes {ops : List (Op P)} {before after : List (Event P)} {e : Event P}
    (hsplit : ops.map .op = before ++ e :: after) : ¬ e.Finalizes s h := by
  have hmem : e ∈ ops.map Event.op := hsplit ▸ mem_append_right _ mem_cons_self
  obtain ⟨op, -, rfl⟩ := mem_map.mp hmem
  exact id

namespace Sample

/-- Data is its own serialization. -/
def codec : Codec sample where
  Bytes := SampleData
  serialize d := d
  parse (c : SampleCls) (d : SampleData) := if d.cls = c then some d else none

theorem codec_faithful : codec.Faithful where
  parse_serialize _ := if_pos rfl
  typeOf_parse {c bytes d} h := by
    unfold codec at h
    dsimp only at h
    split at h
    · next hc => exact some.inj h ▸ hc
    · cases h

theorem separated : sample.Separated := fun _ _ _ h => Digest.noConfusion h

/-- The tree of the sample after a run. -/
abbrev persisted (events : List (Event sample)) : Persisted codec :=
  Persisted.run codec start events

/-- An adapter changes, the revisions before are let go, and the first one of the root is
finalized. -/
def renewed : List (Event sample) := renewal.map .op ++ [.finalize firstRoot]

/-- The health is set to what it is. -/
def sameHealth : Op sample := .update ["", "health"] (leaf .health "" "healthy") false none

end Sample

open Sample

end Voltha.Config
