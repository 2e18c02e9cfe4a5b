import Voltha.Config.Keys

/-!
# What a merge makes of the lists of children

`merge_3way` builds the new list of each field from the lists of the fork, the source and the
destination and from what the merges of children return.  `FieldMerged` says which list that is,
for each of the ways through the code, and `mergeList_outcome` derives it.

The analysis does not look into the merges of children.  `J` is an invariant of the states
between them, `T s e x` stands for what is known in state `s` of a value `x` that was returned for
the child `e`, and `X` is what follows from an error.
-/

namespace Voltha.Config

open List Option Rev

variable {P : Proto}

open State Act

/-! ## Following the merges of children -/

/-- What is known of the values that were returned for children is not lost. -/
def Kept (T : State P → Rev P → Option (Rev P) → Prop) (s s' : State P) : Prop :=
  ∀ e x, T s e x → T s' e x

/-- A conflict, and the end of the recursion: the errors that are followed through a merge. -/
def Err.followed : Err → Bool
  | .mergeConflict _ => true
  | .recursionError => true
  | _ => false

/-- How a part of the merge that starts in `s` goes: the invariant holds after it, the value has
`V` if it returns, and `X` holds of an error that is followed. -/
structure Outcome (J : State P → Prop) (T : State P → Rev P → Option (Rev P) → Prop)
    (X : Err → Prop)
    {α : Type} (V : State P → α → Prop) (s : State P) (r : Except Err α) (s' : State P) :
    Prop where
  inv : J s'
  kept : Kept T s s'
  value : ∀ a, r = .ok a → V s' a
  raised : ∀ err, r = .error err → err.followed = true → X err

variable {J : State P → Prop} {T : State P → Rev P → Option (Rev P) → Prop} {X : Err → Prop}
  {h : Rev P → Option P.Hash} {mc : MergeChild P}

section Rules

variable {α β : Type} {V : State P → α → Prop} {W : State P → β → Prop} {s s₁ s₂ : State P}

theorem Kept.refl (T : State P → Rev P → Option (Rev P) → Prop) (s : State P) : Kept T s s :=
  fun _ _ h => h

theorem Kept.trans (h : Kept T s s₁) (h' : Kept T s₁ s₂) : Kept T s s₂ :=
  fun e x hx => h' e x (h e x hx)

namespace Outcome

theorem ok (hJ : J s) {a : α} (hV : V s a) : Outcome J T X V s (.ok a) s where
  inv := hJ
  kept := Kept.refl T s
  value b hb := by
    cases hb
    exact hV
  raised _ h := nomatch h

theorem raises (hJ : J s) {e : Err} (he : e.followed = false) :
    Outcome J T X V s (.error e) s where
  inv := hJ
  kept := Kept.refl T s
  value _ h := nomatch h
  raised err h hf := by
    cases h
    cases he.symm.trans hf

theorem conflicts (hJ : J s) (hX : ∀ text, X (.mergeConflict text)) (text : String) :
    Outcome J T X V s (.error (.mergeConflict text)) s where
  inv := hJ
  kept := Kept.refl T s
  value _ h := nomatch h
  raised err h _ := by
    cases h
    exact hX text

theorem trans {r : Except Err α} (hk : Kept T s s₁) (h : Outcome J T X V s₁ r s₂) :
    Outcome J T X V s r s₂ :=
  ⟨h.inv, hk.trans h.kept, h.value, h.raised⟩

theorem mono {x : M P α} {U : State P → α → Prop} (hx : wp x s (Outcome J T X V s))
    (hV : ∀ s' a, Kept T s s' → V s' a → U s' a) : wp x s (Outcome J T X U s) :=
  wp_mono hx fun _ s' h => ⟨h.inv, h.kept, fun a ha => hV s' a h.kept (h.value a ha), h.raised⟩

theorem bind {x : M P α} {f : α → M P β} (hx : wp x s (Outcome J T X V s))
    (hf : ∀ a s₁, J s₁ → Kept T s s₁ → V s₁ a → wp (f a) s₁ (Outcome J T X W s₁)) :
    wp (x >>= f) s (Outcome J T X W s) := by
  rw [wp_bind]
  refine wp_mono hx ?_
  rintro (e | a) s₁ h
  · refine ⟨h.inv, h.kept, fun _ h => (nomatch h), fun err he => ?_⟩
    cases he
    exact h.raised e rfl
  · rw [seqPost_ok]
    exact wp_mono (hf a s₁ h.inv h.kept (h.value a rfl)) fun r s₂ h' => h'.trans h.kept

/-- A loop over keys; `I done` is what holds after the keys `done`. -/
theorem foldlM {γ : Type} {f : β → γ → M P β} {keys : List γ} {I : List γ → State P → β → Prop}
    (hstep : ∀ done k rest b s₁, keys = done ++ k :: rest → J s₁ → Kept T s s₁ → I done s₁ b →
      wp (f b k) s₁ (Outcome J T X (I (done ++ [k])) s₁))
    (b : β) (hJ : J s) (hI : I [] s b) :
    wp (keys.foldlM f b) s (Outcome J T X (I keys) s) := by
  have key : ∀ (rest done : List γ) (b : β) (s₁ : State P), keys = done ++ rest → J s₁ →
      Kept T s s₁ → I done s₁ b → wp (rest.foldlM f b) s₁ (Outcome J T X (I keys) s₁) := by
    intro rest
    induction rest with
    | nil =>
      intro done b s₁ hkeys hJ₁ _ hI₁
      rw [append_nil] at hkeys
      subst hkeys
      exact Outcome.ok hJ₁ hI₁
    | cons k rest ih =>
      intro done b s₁ hkeys hJ₁ hk₁ hI₁
      rw [foldlM_cons]
      refine Outcome.bind (hstep done k rest b s₁ hkeys hJ₁ hk₁ hI₁) ?_
      intro b' s₂ hJ₂ hk₂ hI₂
      refine ih (done ++ [k]) b' s₂ ?_ hJ₂ (hk₁.trans hk₂) hI₂
      rw [hkeys, append_assoc, singleton_append]
  exact key keys [] b s rfl hJ (Kept.refl T s) hI

end Outcome

variable {keys done rest : List β} {k : β}

theorem mem_of_split (hkeys : keys = done ++ k :: rest) : k ∈ keys := by
  rw [hkeys]
  exact mem_append_cons_self

theorem not_mem_of_split (hkeys : keys = done ++ k :: rest) (hnodup : keys.Nodup) : k ∉ done := by
  rw [hkeys] at hnodup
  exact fun hmem => disjoint_of_nodup_append hnodup hmem mem_cons_self

end Rules

/-! ## Reading entries -/

variable {l : List (Option (Rev P))} {k : P.Val} {R : Rev P → Option (Rev P) → Prop}
  {x : Option (Rev P)}

section Reading

variable {s : State P} {km : KeyMap P} {i : ℕ}

theorem wp_indexOf (h : km.lookup k = some i) (Q : Except Err ℕ → State P → Prop) :
    wp (indexOf km k) s Q ↔ Q (.ok i) s := by
  unfold indexOf
  rw [h]
  exact Iff.rfl

theorem wp_itemAt {e : Rev P} (h : l[i]? = some (some e))
    (Q : Except Err (Rev P) → State P → Prop) : wp (itemAt l i) s Q ↔ Q (.ok e) s := by
  unfold itemAt
  rw [h]
  exact Iff.rfl

theorem wp_revOf {l : List (Rev P)} {e : Rev P} (h : entry l km k = some e)
    (Q : Except Err (Rev P) → State P → Prop) : wp (revOf l km k) s Q ↔ Q (.ok e) s := by
  obtain ⟨i, hi, he⟩ := bind_eq_some_iff.mp h
  unfold revOf
  rw [wp_bind, wp_indexOf hi, seqPost_ok, wp_itemAt]
  rw [getElem?_map, he]
  rfl

theorem dataOf_outcome (x : Option (Rev P)) (hJ : J s) :
    wp (dataOf x) s (Outcome J T X (fun _ _ => True) s) := by
  rcases x with _ | rev
  · exact Outcome.raises hJ rfl
  · exact Outcome.ok hJ trivial

end Reading

/-! ## The merged list of a field -/

/-- The value was returned for the source's entry of the key. -/
def FromEntry (T : Rev P → Option (Rev P) → Prop) (l : List (Rev P)) (ks : List P.Val) (k : P.Val)
    (x : Option (Rev P)) : Prop :=
  ∃ e, entry l (keymap ks) k = some e ∧ T e x

/-- The entry of the key is not the fork's, neither in the source nor in the destination. -/
def KeyBothChanged (h : Rev P → Option P.Hash) (F S D : List (Rev P)) (kf ks kd : List P.Val)
    (k : P.Val) : Prop :=
  (entry S (keymap ks) k).map h ≠ (entry F (keymap kf) k).map h ∧
    (entry D (keymap kd) k).map h ≠ (entry F (keymap kf) k).map h

/-- A field, or one key of a keyed field, was changed since the fork on both sides. -/
def FieldBothChanged (h : Rev P → Option P.Hash) (kind : Kind P.Val) (F S D : List (Rev P)) :
    Prop :=
  match kind with
  | .keyed key _ => ∃ kf ks kd k, keysOf key F = .ok kf ∧ keysOf key S = .ok ks ∧
      keysOf key D = .ok kd ∧ KeyBothChanged h F S D kf ks kd k
  | _ => sameRevs S F = false ∧ sameRevs D F = false

/-- The keys that are added by the source only. -/
def addedOnly (src dst : Analysis P) : List P.Val :=
  src.addedKeys.filter fun k => k ∉ dst.addedKeys

/-- The changed keys whose merged child comes in the place of the destination's. -/
def putKeys (h : Rev P → Option P.Hash) (S D : List (Rev P)) (ks kd : List P.Val)
    (src dst : Analysis P) : List P.Val :=
  src.changedKeys.filter fun k => ¬ (k ∈ dst.changedKeys ∧
    (entry D (keymap kd) k).map h = (entry S (keymap ks) k).map h)

/-- The positions that are popped. -/
def popPositions (kd : List P.Val) (dst : Analysis P) (keys : List P.Val) : List ℕ :=
  (keys.filter fun k => k ∉ dst.removedKeys).filterMap (position kd)

variable {dst : Analysis P} {R' : Rev P → Option (Rev P) → Prop}

/-- A key that the destination has removed as well is not popped. -/
theorem popPositions_concat_of_removed {kd : List P.Val} {keys : List P.Val}
    (hk : k ∈ dst.removedKeys) : popPositions kd dst (keys ++ [k]) = popPositions kd dst keys := by
  rw [popPositions, filter_concat_of_neg]
  · rfl
  · exact not_not_intro hk

theorem popPositions_concat {kd : List P.Val} {keys : List P.Val} (hk : k ∉ dst.removedKeys) {i : ℕ}
    (hi : position kd k = some i) :
    popPositions kd dst (keys ++ [k]) = popPositions kd dst keys ++ [i] := by
  rw [popPositions, filter_concat_of_pos, filterMap_append]
  · simp [popPositions, hi]
  · exact hk

/-- The list `l` before the removals, when both sides have changed: the destination's with merged
children in their places, and `adds` behind it. -/
structure Mixed (h : Rev P → Option P.Hash) (T : Rev P → Option (Rev P) → Prop)
    (S D : List (Rev P)) (ks kd : List P.Val) (src dst : Analysis P)
    (adds l : List (Option (Rev P))) : Prop where
  appended : List.Forall₂ (FromEntry T S ks) (addedOnly src dst) adds
  puts : Puts (position kd) (FromEntry T S ks) (putKeys h S D ks kd src dst)
    (D.map some ++ adds) l
  /-- every changed child was merged -/
  called : ∀ k ∈ src.changedKeys, ∃ x, FromEntry T S ks k x
  /-- a child that both have added is the same one -/
  added : ∀ k ∈ src.addedKeys, k ∈ dst.addedKeys →
    (entry D (keymap kd) k).map h = (entry S (keymap ks) k).map h
  /-- a changed child was not removed, and has changed in the same way if it has -/
  changed : ∀ k ∈ src.changedKeys, k ∉ dst.removedKeys ∧ (k ∈ dst.changedKeys →
    (entry D (keymap kd) k).map h = (entry S (keymap ks) k).map h ∨
      (entry D (keymap kd) k).map configHash = (entry S (keymap ks) k).map configHash)

/-- The list that the merge makes of a field with the lists `F` of the fork, `S` of the source and
`D` of the destination. -/
inductive FieldMerged (h : Rev P → Option P.Hash) (T : Rev P → Option (Rev P) → Prop)
    (kind : Kind P.Val) (F S D : List (Rev P)) : List (Option (Rev P)) → Prop where
  /-- source and destination are the same -/
  | same : sameRevs D S = true → (∀ e ∈ S, ∃ x, T e x) → FieldMerged h T kind F S D (D.map some)
  /-- a field without keys that only the source has changed -/
  | sourceAll {l : List (Option (Rev P))} : (∀ key conv, kind ≠ .keyed key conv) →
      sameRevs D S = false → sameRevs D F = true → List.Forall₂ T S l →
      FieldMerged h T kind F S D l
  /-- a field without keys that the source has not changed -/
  | dstAll : (∀ key conv, kind ≠ .keyed key conv) → sameRevs D S = false →
      sameRevs S F = true → FieldMerged h T kind F S D (D.map some)
  /-- a keyed field that the destination has not changed -/
  | source {key : String} {conv : String → Except String P.Val} {kf ks : List P.Val}
      {l : List (Option (Rev P))} : kind = .keyed key conv → sameRevs D S = false →
      sameRevs D F = true → keysOf key F = .ok kf → keysOf key S = .ok ks →
      Puts (position ks) (FromEntry T S ks)
        ((analyze h F S kf ks).addedKeys ++ (analyze h F S kf ks).changedKeys) (S.map some) l →
      FieldMerged h T kind F S D l
  /-- a keyed field that the destination has changed -/
  | mixed {key : String} {conv : String → Except String P.Val} {kf ks kd : List P.Val}
      {adds l : List (Option (Rev P))} : kind = .keyed key conv → sameRevs D S = false →
      sameRevs D F = false → keysOf key F = .ok kf → keysOf key S = .ok ks →
      keysOf key D = .ok kd →
      Mixed h T S D ks kd (analyze h F S kf ks) (analyze h F D kf kd) adds l →
      (∀ k ∈ (analyze h F S kf ks).removedKeys, k ∉ (analyze h F D kf kd).changedKeys) →
      PopsIn (popPositions kd (analyze h F D kf kd) (analyze h F S kf ks).removedKeys.reverse) l →
      FieldMerged h T kind F S D
        (popAll (popPositions kd (analyze h F D kf kd) (analyze h F S kf ks).removedKeys.reverse) l)

/-! ## The destination did not change -/

section Lists

variable {s : State P} {key : String} {F S D : List (Rev P)} {kf ks kd : List P.Val}
  {conv : String → Except String P.Val} {field : ChildType P.Cls P.Val}

variable (J T X mc) in
/-- The merge of the child is followed. -/
def Handled (e : Rev P) : Prop :=
  ∀ s, J s → wp (mc e) s (Outcome J T X (fun s' x => T s' e x) s)

theorem FromEntry.mono (hR : ∀ e x, R e x → R' e x) {l : List (Rev P)} (hx : FromEntry R l ks k x) :
    FromEntry R' l ks k x := by
  obtain ⟨e, he, hT⟩ := hx
  exact ⟨e, he, hR e x hT⟩

variable {adds : List (Option (Rev P))}

theorem Mixed.mono (hR : ∀ e x, R e x → R' e x) {src : Analysis P}
    (hm : Mixed h R S D ks kd src dst adds l) : Mixed h R' S D ks kd src dst adds l where
  appended := hm.appended.imp fun _ _ hx => hx.mono hR
  puts := hm.puts.mono fun _ _ _ hx => hx.mono hR
  called k hk := (hm.called k hk).imp fun _ hx => hx.mono hR
  added := hm.added
  changed := hm.changed

variable {done : List P.Val} {acc : Merging P}

/-- The entry of a key that has not been set yet, and the list after it has been. -/
theorem puts_take (hS : keysOf key S = .ok ks) (hk : k ∈ ks) (hnot : k ∉ done)
    (hputs : Puts (position ks) (FromEntry (T s) S ks) done (S.map some) l) :
    ∃ i e, position ks k = some i ∧ l[i]? = some (some e) ∧ e ∈ S ∧
      ∀ s' x, Kept T s s' → T s' e x →
        Puts (position ks) (FromEntry (T s') S ks) (done ++ [k]) (S.map some) (l.set i x) := by
  obtain ⟨i, e, hi, hget, he, -⟩ := exists_entry hS hk
  have hne : ∀ k' ∈ done, position ks k' ≠ some i := by
    rintro k' hk' hi'
    exact hnot (position_inj hi hi' ▸ hk')
  have hli : l[i]? = some (some e) := by
    rw [hputs.rest i hne, getElem?_map, hget]
    rfl
  refine ⟨i, e, hi, hli, mem_of_getElem? hget, fun s' x hkept hx => ?_⟩
  refine (hputs.mono fun k' _ y hy => hy.mono hkept).set hi ?_ hne ⟨e, he, hx⟩
  exact lt_of_getElem? hli

section

variable (hmc : ∀ e ∈ S, Handled J T X mc e) (hS : keysOf key S = .ok ks) (hk : k ∈ ks)
  (hnot : k ∉ done) (hJ : J s)
  (hputs : Puts (position ks) (FromEntry (T s) S ks) done (S.map some) acc.1)
include hmc hS hk hnot hJ hputs

theorem takeAdded_outcome :
    wp (takeAdded mc (analyze h F S kf ks) acc k) s (Outcome J T X (fun s' acc' =>
      Puts (position ks) (FromEntry (T s') S ks) (done ++ [k]) (S.map some) acc'.1) s) := by
  obtain ⟨i, e, hi, hli, he, hset⟩ := puts_take hS hk hnot hputs
  unfold takeAdded
  rw [analyze_keymap2, wp_bind, wp_indexOf hi, seqPost_ok, wp_bind, wp_itemAt hli, seqPost_ok]
  refine Outcome.bind (hmc e he s hJ) fun x s₁ hJ₁ hk₁ hx => ?_
  refine Outcome.bind (dataOf_outcome x hJ₁) fun _ s₂ hJ₂ hk₂ _ => ?_
  exact Outcome.ok hJ₂ (hset s₂ _ (hk₁.trans hk₂) (hk₂ e _ hx))

theorem takeChanged_outcome :
    wp (takeChanged mc (analyze h F S kf ks) acc k) s (Outcome J T X (fun s' acc' =>
      Puts (position ks) (FromEntry (T s') S ks) (done ++ [k]) (S.map some) acc'.1) s) := by
  obtain ⟨i, e, hi, hli, he, hset⟩ := puts_take hS hk hnot hputs
  unfold takeChanged
  rw [analyze_keymap2, wp_bind, wp_indexOf hi, seqPost_ok, wp_bind, wp_itemAt hli, seqPost_ok]
  refine Outcome.bind (hmc e he s hJ) fun x s₁ hJ₁ hk₁ hx => ?_
  exact Outcome.ok hJ₁ (hset s₁ x hk₁ hx)

end

section

variable (hh : ∀ s, J s → s.hashOf = h)
include hh

/-- What `AnalyzeChanges` finds. -/
theorem analyzeChanges_outcome (F S : List (Rev P)) (key : String) (hJ : J s) :
    wp (analyzeChanges F S key) s fun r s' => s' = s ∧
      ((∃ err, r = .error err ∧ err.followed = false) ∨
        ∃ kf ks, keysOf key F = .ok kf ∧ keysOf key S = .ok ks ∧
          r = .ok (analyze h F S kf ks)) := by
  have herr : ∀ {l : List (Rev P)} {err : Err}, keysOf key l = .error err →
      err.followed = false := by
    intro l
    induction l with
    | nil =>
      intro err he
      cases he
    | cons r l ih =>
      intro err he
      rw [keysOf] at he
      rcases hk : P.getattr r.data key with _ | k
      · rw [hk] at he
        cases he
        rfl
      · rw [hk] at he
        rcases hl : keysOf key l with err' | ks
        · rw [hl] at he
          cases he
          exact ih hl
        · rw [hl] at he
          cases he
  unfold analyzeChanges
  rw [wp_bind, wp_read, seqPost_ok, wp_bind, wp_ofExcept]
  rcases hF : keysOf key F with err | kf
  · exact ⟨rfl, .inl ⟨err, rfl, herr hF⟩⟩
  · rw [seqPost_ok, wp_bind, wp_ofExcept]
    rcases hS : keysOf key S with err | ks
    · exact ⟨rfl, .inl ⟨err, rfl, herr hS⟩⟩
    · refine ⟨rfl, .inr ⟨kf, ks, rfl, rfl, ?_⟩⟩
      rw [hh s hJ]
      rfl

/-- The same, before another step. -/
theorem analyzeChanges_bind {α : Type} {f : Analysis P → M P α} {V : State P → α → Prop} (hJ : J s)
    (hf : ∀ kf ks, keysOf key F = .ok kf → keysOf key S = .ok ks →
      wp (f (analyze h F S kf ks)) s (Outcome J T X V s)) :
    wp (analyzeChanges F S key >>= f) s (Outcome J T X V s) := by
  rw [wp_bind]
  refine wp_mono (analyzeChanges_outcome hh F S key hJ) ?_
  rintro r s' ⟨rfl, ⟨err, rfl, hne⟩ | ⟨kf, ks, hF, hS, rfl⟩⟩
  · exact Outcome.raises hJ hne
  · exact hf kf ks hF hS

/-- A keyed field that the destination has not changed. -/
theorem mergeFromSource_outcome (hmc : ∀ e ∈ S, Handled J T X mc e)
    (hkind : field.kind = .keyed key conv) (hDS : sameRevs D S = false) (hDF : sameRevs D F = true)
    (hJ : J s) :
    wp (mergeFromSource mc key F S) s (Outcome J T X (fun s' acc =>
      FieldMerged h (T s') field.kind F S D acc.1) s) := by
  refine analyzeChanges_bind hh hJ fun kf ks hF hS => ?_
  -- the added keys
  refine Outcome.bind (Outcome.foldlM (I := fun done s' (acc : Merging P) => Puts (position ks)
    (FromEntry (T s') S ks) done (S.map some) acc.1) ?_ _ hJ (Puts.nil _ _ _)) ?_
  · intro done k rest acc s₁ hkeys hJ₁ _ hputs
    exact takeAdded_outcome hmc hS (mem_addedKeys.mp (mem_of_split hkeys)).1
      (not_mem_of_split hkeys (nodup_addedKeys h F S kf ks)) hJ₁ hputs
  · intro acc₁ s₁ hJ₁ _ hputs
    -- the removed ones only announce
    refine Outcome.bind (Outcome.foldlM (I := fun _ s' (acc : Merging P) => Puts (position ks)
      (FromEntry (T s') S ks) (analyze h F S kf ks).addedKeys (S.map some) acc.1) ?_ _ hJ₁ hputs) ?_
    · intro done k rest acc s₂ hkeys hJ₂ _ hputs₂
      obtain ⟨i, e, -, -, he, -⟩ := exists_entry hF (mem_removedKeys.mp (mem_of_split hkeys)).1
      unfold takeRemoved
      rw [analyze_keymap1, wp_bind, wp_revOf he, seqPost_ok]
      exact Outcome.ok hJ₂ hputs₂
    · intro acc₂ s₂ hJ₂ _ hputs₂
      -- the changed ones
      refine Outcome.mono (Outcome.foldlM (I := fun done s' (acc : Merging P) =>
        Puts (position ks) (FromEntry (T s') S ks) ((analyze h F S kf ks).addedKeys ++ done)
          (S.map some) acc.1) ?_ _ hJ₂ (by rw [append_nil]; exact hputs₂)) ?_
      · intro done k rest acc s₃ hkeys hJ₃ _ hputs₃
        have hkf := mem_changedKeys.mp (mem_of_split hkeys)
        have hnot : k ∉ (analyze h F S kf ks).addedKeys ++ done := by
          rw [mem_append, not_or]
          exact ⟨fun hmem => (mem_addedKeys.mp hmem).2 hkf.1,
            not_mem_of_split hkeys (nodup_changedKeys h F S kf ks)⟩
        rw [← append_assoc]
        exact takeChanged_outcome hmc hS hkf.2.1 hnot hJ₃ hputs₃
      · intro s' acc _ hputs'
        exact .source hkind hDS hDF hF hS hputs'

end

/-! ## Both sides have changed -/

section Mixed

variable (hX : (∃ k, KeyBothChanged h F S D kf ks kd k) → ∀ text, X (.mergeConflict text))
include hX

/-- The lists while the added keys are handled. -/
structure Appended (h : Rev P → Option P.Hash) (T : Rev P → Option (Rev P) → Prop)
    (S D : List (Rev P)) (ks kd : List P.Val) (dst : Analysis P) (done : List P.Val)
    (acc : Merging P) : Prop where
  list : ∃ adds, acc.1 = D.map some ++ adds ∧
    List.Forall₂ (FromEntry T S ks) (done.filter fun k => k ∉ dst.addedKeys) adds
  added : ∀ k ∈ done, k ∈ dst.addedKeys →
    (entry D (keymap kd) k).map h = (entry S (keymap ks) k).map h

theorem addKey_outcome (hh : ∀ s, J s → s.hashOf = h) (hmc : ∀ e ∈ S ++ D, Handled J T X mc e)
    (hS : keysOf key S = .ok ks) (hD : keysOf key D = .ok kd)
    (hk : k ∈ (analyze h F S kf ks).addedKeys) (hJ : J s)
    (hacc : Appended h (T s) S D ks kd (analyze h F D kf kd) done acc) :
    wp (addKey mc S D (analyze h F S kf ks) (analyze h F D kf kd) acc k) s
      (Outcome J T X (fun s' acc' =>
        Appended h (T s') S D ks kd (analyze h F D kf kd) (done ++ [k]) acc') s) := by
  obtain ⟨hks, hkf⟩ := mem_addedKeys.mp hk
  obtain ⟨_, e, -, hget, he, -⟩ := exists_entry hS hks
  obtain ⟨⟨adds, hl, hadds⟩, hadded⟩ := hacc
  have hkept : ∀ {s'}, Kept T s s' → Forall₂ (FromEntry (T s') S ks)
      (done.filter fun k => k ∉ (analyze h F D kf kd).addedKeys) adds := fun hk' =>
    hadds.imp fun _ _ hx => hx.mono hk'
  unfold addKey
  rw [analyze_keymap2, analyze_keymap2]
  by_cases hdst : k ∈ (analyze h F D kf kd).addedKeys
  · -- added on both sides
    rw [if_pos hdst]
    obtain ⟨_, d, -, hgetd, hd, -⟩ := exists_entry hD (mem_addedKeys.mp hdst).1
    rw [wp_bind, wp_revOf hd, seqPost_ok, wp_bind, wp_revOf he, seqPost_ok, wp_bind, wp_read,
      seqPost_ok, hh s hJ]
    by_cases heq : h d = h e
    · rw [if_pos heq]
      have hmem : d ∈ S ++ D := mem_append_right _ (mem_of_getElem? hgetd)
      refine Outcome.bind (hmc d hmem s hJ) fun x s₁ hJ₁ hk₁ hx => Outcome.ok hJ₁ ?_
      refine ⟨⟨adds, hl, ?_⟩, ?_⟩
      · rw [filter_concat_of_neg]
        · exact hkept hk₁
        · exact not_not_intro hdst
      · refine forall_mem_concat hadded fun _ => ?_
        rw [hd, he, map_some, map_some, heq]
    · rw [if_neg heq]
      refine Outcome.conflicts hJ (hX ⟨k, ?_⟩) _
      rw [KeyBothChanged, entry_eq_none hkf, hd, he, map_some, map_some]
      exact ⟨some_ne_none _, some_ne_none _⟩
  · -- a new key
    rw [if_neg hdst, wp_bind, wp_revOf he, seqPost_ok]
    have hmem : e ∈ S ++ D := mem_append_left _ (mem_of_getElem? hget)
    refine Outcome.bind (hmc e hmem s hJ) fun x s₁ hJ₁ hk₁ hx => ?_
    refine Outcome.bind (dataOf_outcome x hJ₁) fun _ s₂ hJ₂ hk₂ _ => Outcome.ok hJ₂ ?_
    refine ⟨⟨adds ++ [x], ?_, ?_⟩, ?_⟩
    · rw [hl, append_assoc]
    · rw [filter_concat_of_pos]
      · exact rel_append (hkept (hk₁.trans hk₂))
          (Forall₂.cons ⟨e, he, hk₂ e _ hx⟩ Forall₂.nil)
      · exact hdst
    · exact forall_mem_concat hadded fun hdst' => absurd hdst' hdst

/-- The lists while the changed keys are handled. -/
structure Changed (h : Rev P → Option P.Hash) (T : Rev P → Option (Rev P) → Prop)
    (S D : List (Rev P)) (ks kd : List P.Val) (dst : Analysis P) (base : List (Option (Rev P)))
    (done : List P.Val) (acc : Merging P) : Prop where
  puts : Puts (position kd) (FromEntry T S ks) (done.filter fun k => ¬ (k ∈ dst.changedKeys ∧
    (entry D (keymap kd) k).map h = (entry S (keymap ks) k).map h)) base acc.1
  called : ∀ k ∈ done, ∃ x, FromEntry T S ks k x
  changed : ∀ k ∈ done, k ∉ dst.removedKeys ∧ (k ∈ dst.changedKeys →
    (entry D (keymap kd) k).map h = (entry S (keymap ks) k).map h ∨
      (entry D (keymap kd) k).map configHash = (entry S (keymap ks) k).map configHash)

omit hX in
theorem Changed.kept {s' : State P} {base : List (Option (Rev P))} (hk : Kept T s s')
    (hc : Changed h (T s) S D ks kd dst base done acc) :
    Changed h (T s') S D ks kd dst base done acc where
  puts := hc.puts.mono fun _ _ _ hx => hx.mono hk
  called k hk' := (hc.called k hk').imp fun _ hx => hx.mono hk
  changed := hc.changed

omit hX in
/-- A merged child comes in the place of the destination's. -/
theorem putKey_outcome (hmc : ∀ e ∈ S ++ D, Handled J T X mc e) (hS : keysOf key S = .ok ks)
    (hD : keysOf key D = .ok kd) (hks : k ∈ ks) (hkd : k ∈ kd) (hnot : k ∉ done) (hJ : J s)
    (hacc : Changed h (T s) S D ks kd (analyze h F D kf kd) (D.map some ++ adds) done acc)
    (hput : ¬ (k ∈ (analyze h F D kf kd).changedKeys ∧
      (entry D (keymap kd) k).map h = (entry S (keymap ks) k).map h))
    (hchanged : k ∉ (analyze h F D kf kd).removedKeys ∧
      (k ∈ (analyze h F D kf kd).changedKeys →
        (entry D (keymap kd) k).map h = (entry S (keymap ks) k).map h ∨
        (entry D (keymap kd) k).map configHash = (entry S (keymap ks) k).map configHash)) :
    wp (putKey mc S (analyze h F S kf ks) (analyze h F D kf kd) acc k) s
      (Outcome J T X (fun s' acc' => Changed h (T s') S D ks kd (analyze h F D kf kd)
        (D.map some ++ adds) (done ++ [k]) acc') s) := by
  obtain ⟨_, e, -, hget, he, -⟩ := exists_entry hS hks
  obtain ⟨i, d, hi, hgetd, -, -⟩ := exists_entry hD hkd
  have hmem : e ∈ S ++ D := mem_append_left _ (mem_of_getElem? hget)
  unfold putKey
  rw [analyze_keymap2, analyze_keymap2, wp_bind, wp_revOf he, seqPost_ok]
  refine Outcome.bind (hmc e hmem s hJ) fun x s₁ hJ₁ hk₁ hx => ?_
  rw [wp_bind, wp_indexOf hi, seqPost_ok]
  have hacc₁ := hacc.kept hk₁
  refine Outcome.ok hJ₁ ⟨?_, ?_, forall_mem_concat hacc.changed hchanged⟩
  · rw [filter_concat_of_pos]
    · refine hacc₁.puts.set hi ?_ ?_ ⟨e, he, hx⟩
      · rw [hacc₁.puts.length_eq, length_append, length_map]
        have := lt_of_getElem? hgetd
        omega
      · rintro k' hk' hi'
        exact hnot (position_inj hi hi' ▸ (mem_filter.mp hk').1)
    · exact hput
  · exact forall_mem_concat hacc₁.called ⟨x, e, he, hx⟩

theorem changeKey_outcome (hh : ∀ s, J s → s.hashOf = h) (hmc : ∀ e ∈ S ++ D, Handled J T X mc e)
    (hF : keysOf key F = .ok kf) (hS : keysOf key S = .ok ks) (hD : keysOf key D = .ok kd)
    (hk : k ∈ (analyze h F S kf ks).changedKeys) (hnot : k ∉ done) (hJ : J s)
    (hacc : Changed h (T s) S D ks kd (analyze h F D kf kd) (D.map some ++ adds) done acc) :
    wp (changeKey mc S D (analyze h F S kf ks) (analyze h F D kf kd) acc k) s
      (Outcome J T X (fun s' acc' => Changed h (T s') S D ks kd (analyze h F D kf kd)
        (D.map some ++ adds) (done ++ [k]) acc') s) := by
  obtain ⟨hkf, hks, hne⟩ := mem_changedKeys.mp hk
  obtain ⟨_, e, -, hget, he, -⟩ := exists_entry hS hks
  obtain ⟨_, f, -, -, hf, -⟩ := exists_entry hF hkf
  unfold changeKey
  by_cases hrem : k ∈ (analyze h F D kf kd).removedKeys
  · rw [if_pos hrem]
    refine Outcome.conflicts hJ (hX ⟨k, hne.symm, ?_⟩) _
    rw [entry_eq_none (mem_removedKeys.mp hrem).2, hf]
    exact nofun
  · have hkd : k ∈ kd := by
      by_contra hkd
      exact hrem (mem_removedKeys.mpr ⟨hkf, hkd⟩)
    rw [if_neg hrem]
    by_cases hchg : k ∈ (analyze h F D kf kd).changedKeys
    · obtain ⟨_, d, -, -, hd, -⟩ := exists_entry hD hkd
      rw [if_pos hchg, analyze_keymap2, analyze_keymap2, wp_bind, wp_revOf hd, seqPost_ok, wp_bind,
        wp_revOf he, seqPost_ok, wp_bind, wp_read, seqPost_ok, hh s hJ]
      by_cases heq : h d = h e
      · -- the same change: the destination's entry stays
        rw [if_pos heq]
        have hmap : (entry D (keymap kd) k).map h = (entry S (keymap ks) k).map h := by
          rw [hd, he, map_some, map_some, heq]
        have hmem : e ∈ S ++ D := mem_append_left _ (mem_of_getElem? hget)
        refine Outcome.bind (hmc e hmem s hJ) fun x s₁ hJ₁ hk₁ hx => Outcome.ok hJ₁ ?_
        have hacc₁ := hacc.kept hk₁
        refine ⟨?_, forall_mem_concat hacc₁.called ⟨x, e, he, hx⟩,
          forall_mem_concat hacc.changed ⟨hrem, fun _ => .inl hmap⟩⟩
        rw [filter_concat_of_neg]
        · exact hacc₁.puts
        · exact not_not_intro ⟨hchg, hmap⟩
      · rw [if_neg heq]
        have hmap : (entry D (keymap kd) k).map h ≠ (entry S (keymap ks) k).map h := by
          rw [hd, he, map_some, map_some]
          exact fun hc => heq (some.inj hc)
        by_cases hcfg : d.configHash = e.configHash
        · rw [if_neg (not_not_intro hcfg)]
          refine putKey_outcome hmc hS hD hks hkd hnot hJ hacc (fun hc => hmap hc.2) ⟨hrem, ?_⟩
          refine fun _ => .inr ?_
          rw [hd, he, map_some, map_some, hcfg]
        · rw [if_pos hcfg]
          exact Outcome.conflicts hJ (hX ⟨k, hne.symm, (mem_changedKeys.mp hchg).2.2.symm⟩) _
    · rw [if_neg hchg]
      exact putKey_outcome hmc hS hD hks hkd hnot hJ hacc (fun hc => hchg hc.1)
        ⟨hrem, fun hc => absurd hc hchg⟩

theorem removeKey_outcome (hF : keysOf key F = .ok kf) (hk : k ∈ (analyze h F S kf ks).removedKeys)
    (hJ : J s) (hpops : PopsIn (popPositions kd (analyze h F D kf kd) done) l)
    (hlist : acc.1 = popAll (popPositions kd (analyze h F D kf kd) done) l)
    (hno : ∀ k ∈ done, k ∉ (analyze h F D kf kd).changedKeys) :
    wp (removeKey (analyze h F D kf kd) acc k) s (Outcome J T X (fun _ acc' =>
      PopsIn (popPositions kd (analyze h F D kf kd) (done ++ [k])) l ∧
        acc'.1 = popAll (popPositions kd (analyze h F D kf kd) (done ++ [k])) l ∧
        ∀ k' ∈ done ++ [k], k' ∉ (analyze h F D kf kd).changedKeys) s) := by
  obtain ⟨hkf, hks⟩ := mem_removedKeys.mp hk
  obtain ⟨_, f, -, -, hf, -⟩ := exists_entry hF hkf
  unfold removeKey
  by_cases hchg : k ∈ (analyze h F D kf kd).changedKeys
  · rw [if_pos hchg]
    refine Outcome.conflicts hJ (hX ⟨k, ?_, (mem_changedKeys.mp hchg).2.2.symm⟩) _
    rw [entry_eq_none hks, hf]
    exact nofun
  · rw [if_neg hchg]
    by_cases hrem : k ∈ (analyze h F D kf kd).removedKeys
    · rw [if_pos hrem]
      rw [popPositions_concat_of_removed hrem]
      exact Outcome.ok hJ ⟨hpops, hlist, forall_mem_concat hno hchg⟩
    · have hkd : k ∈ kd := by
        by_contra hkd
        exact hrem (mem_removedKeys.mpr ⟨hkf, hkd⟩)
      obtain ⟨i, hi⟩ := exists_position hkd
      rw [if_neg hrem, analyze_keymap2, wp_bind, wp_indexOf hi, seqPost_ok]
      rcases hget : acc.1[i]? with _ | old
      · exact Outcome.raises hJ rfl
      · refine Outcome.bind (dataOf_outcome old hJ) fun _ s₁ hJ₁ _ _ => Outcome.ok hJ₁ ?_
        have hlt : i < acc.1.length := lt_of_getElem? hget
        rw [popPositions_concat hrem hi, popAll_append]
        exact ⟨popsIn_append.mpr ⟨hpops, hlist ▸ hlt, trivial⟩, by rw [← hlist]; rfl,
          forall_mem_concat hno hchg⟩

end Mixed

/-- A keyed field that both sides have changed. -/
theorem mergeIntoDst_outcome (hh : ∀ s, J s → s.hashOf = h)
    (hmc : ∀ e ∈ S ++ D, Handled J T X mc e) (hkind : field.kind = .keyed key conv)
    (hX : FieldBothChanged h (.keyed key conv) F S D → ∀ text, X (.mergeConflict text))
    (hDS : sameRevs D S = false) (hDF : sameRevs D F = false) (hJ : J s) :
    wp (mergeIntoDst mc key F S D) s (Outcome J T X (fun s' acc =>
      FieldMerged h (T s') field.kind F S D acc.1) s) := by
  refine analyzeChanges_bind hh hJ fun kf ks hF hS => ?_
  refine analyzeChanges_bind hh hJ fun kf' kd hF' hD => ?_
  obtain rfl : kf = kf' := by
    rw [hF] at hF'
    exact Except.ok.inj hF'
  have hX' : (∃ k, KeyBothChanged h F S D kf ks kd k) → ∀ text, X (.mergeConflict text) :=
    fun ⟨k, hk⟩ => hX ⟨kf, ks, kd, k, hF, hS, hD, hk⟩
  -- the added keys
  refine Outcome.bind (Outcome.foldlM (I := fun done s' (acc : Merging P) => Appended h (T s') S D
    ks kd (analyze h F D kf kd) done acc) ?_ _ hJ
    ⟨⟨[], (append_nil _).symm, Forall₂.nil⟩, nofun⟩) ?_
  · intro done k rest acc s₁ hkeys hJ₁ _ hacc
    exact addKey_outcome hX' hh hmc hS hD (mem_of_split hkeys) hJ₁ hacc
  · rintro acc₁ s₁ hJ₁ - ⟨⟨adds, hl, hadds⟩, hadded⟩
    -- the changed ones
    refine Outcome.bind (Outcome.mono (Outcome.foldlM (I := fun done s' (acc : Merging P) =>
      Changed h (T s') S D ks kd (analyze h F D kf kd) (D.map some ++ adds) done acc) ?_ _ hJ₁
      ⟨hl ▸ Puts.nil _ _ _, nofun, nofun⟩) (U := fun s' acc => Mixed h (T s') S D ks kd
        (analyze h F S kf ks) (analyze h F D kf kd) adds acc.1) ?_) ?_
    · intro done k rest acc s₂ hkeys hJ₂ _ hacc
      exact changeKey_outcome hX' hh hmc hF hS hD (mem_of_split hkeys)
        (not_mem_of_split hkeys (nodup_changedKeys h F S kf ks)) hJ₂ hacc
    · intro s₂ acc' hk₂ hc
      exact ⟨hadds.imp fun _ _ hx => hx.mono hk₂, hc.puts, hc.called, hadded, hc.changed⟩
    · intro acc₂ s₂ hJ₂ _ hmixed
      -- the removed ones
      refine Outcome.mono (Outcome.foldlM (I := fun done _ (acc : Merging P) =>
        PopsIn (popPositions kd (analyze h F D kf kd) done) acc₂.1 ∧
          acc.1 = popAll (popPositions kd (analyze h F D kf kd) done) acc₂.1 ∧
          ∀ k ∈ done, k ∉ (analyze h F D kf kd).changedKeys) ?_ acc₂ hJ₂
        ⟨trivial, rfl, nofun⟩) ?_
      · rintro done k rest acc s₃ hkeys hJ₃ - ⟨hpops, hlist, hno⟩
        exact removeKey_outcome hX' hF (mem_reverse.mp (mem_of_split hkeys)) hJ₃ hpops hlist hno
      · rintro s₃ acc hk₃ ⟨hpops, hlist, hno⟩
        rw [hlist]
        exact .mixed hkind hDS hDF hF hS hD (hmixed.mono hk₃)
          (fun k hk => hno k (mem_reverse.mpr hk)) hpops

/-! ## One field -/

theorem mergeAll_outcome :
    ∀ (l : List (Rev P)) (s : State P), (∀ e ∈ l, Handled J T X mc e) → J s →
      wp (mergeAll mc l) s (Outcome J T X (fun s' news => Forall₂ (T s') l news) s)
  | [], s, _, hJ => Outcome.ok hJ Forall₂.nil
  | e :: l, s, hmc, hJ => by
    refine Outcome.bind (hmc e mem_cons_self s hJ) fun x s₁ hJ₁ hk₁ hx => ?_
    refine Outcome.bind (mergeAll_outcome l s₁ (fun e he => hmc e (mem_cons_of_mem _ he)) hJ₁) ?_
    exact fun news s₂ hJ₂ hk₂ hnews => Outcome.ok hJ₂ (Forall₂.cons (hk₂ e x hx) hnews)

/-- A field without keys. -/
theorem mergeUnkeyed_outcome (hmc : ∀ e ∈ S, Handled J T X mc e) (name : String)
    (field : ChildType P.Cls P.Val) (hkind : ∀ key conv, field.kind ≠ .keyed key conv)
    (hX : FieldBothChanged h field.kind F S D → ∀ text, X (.mergeConflict text))
    (hDS : sameRevs D S = false) (hJ : J s) :
    wp (mergeUnkeyed mc name field F S D) s (Outcome J T X (fun s' acc =>
      FieldMerged h (T s') field.kind F S D acc.1) s) := by
  unfold mergeUnkeyed
  by_cases hDF : sameRevs D F = true
  · rw [if_pos hDF]
    by_cases hSF : sameRevs S F = true
    · rw [if_pos hSF]
      exact Outcome.raises hJ rfl
    · rw [if_neg hSF]
      refine Outcome.bind (mergeAll_outcome S s hmc hJ) fun news s₁ hJ₁ _ hnews => ?_
      exact Outcome.ok hJ₁ (.sourceAll hkind hDS hDF hnews)
  · rw [if_neg hDF]
    by_cases hSF : sameRevs S F = true
    · rw [if_pos hSF]
      exact Outcome.ok hJ (.dstAll hkind hDS hSF)
    · rw [if_neg hSF]
      refine Outcome.conflicts hJ (hX ?_) _
      have hboth : sameRevs S F = false ∧ sameRevs D F = false :=
        ⟨Bool.eq_false_iff.mpr hSF, Bool.eq_false_iff.mpr hDF⟩
      unfold FieldBothChanged
      rcases hk : field.kind with _ | _ | ⟨key, conv⟩
      · exact hboth
      · exact hboth
      · exact absurd hk (hkind key conv)

/-- **The merge of one field.** -/
theorem mergeList_outcome (hh : ∀ s, J s → s.hashOf = h) (hmc : ∀ e ∈ S ++ D, Handled J T X mc e)
    (name : String) (field : ChildType P.Cls P.Val)
    (hX : FieldBothChanged h field.kind F S D → ∀ text, X (.mergeConflict text)) (hJ : J s) :
    wp (mergeList mc name field F S D) s (Outcome J T X (fun s' acc =>
      FieldMerged h (T s') field.kind F S D acc.1) s) := by
  have hmcS : ∀ e ∈ S, Handled J T X mc e := fun e he => hmc e (mem_append_left _ he)
  unfold mergeList
  by_cases hDS : sameRevs D S = true
  · rw [if_pos hDS]
    refine Outcome.bind (mergeAll_outcome S s hmcS hJ) fun news s₁ hJ₁ _ hnews => ?_
    refine Outcome.ok hJ₁ (.same hDS fun e he => ?_)
    obtain ⟨x, -, hx⟩ := forall₂_exists hnews he
    exact ⟨x, hx⟩
  · rw [if_neg hDS]
    have hDS' := Bool.eq_false_iff.mpr hDS
    have hunkeyed := fun hkind => mergeUnkeyed_outcome hmcS name field hkind hX hDS' hJ
    split
    · next key conv hkind =>
      unfold mergeKeyed
      by_cases hDF : sameRevs D F = true
      · rw [if_pos hDF]
        exact mergeFromSource_outcome hh hmcS hkind hDS' hDF hJ
      · rw [if_neg hDF]
        exact mergeIntoDst_outcome hh hmc hkind (hkind ▸ hX) hDS' (Bool.eq_false_iff.mpr hDF) hJ
    · next hkind => exact hunkeyed fun _ _ h => nomatch hkind.symm.trans h
    · next hkind => exact hunkeyed fun _ _ h => nomatch hkind.symm.trans h

end Lists

/-! ## All fields -/

section Fields

variable {s : State P} {fork src dst : Rev P}

theorem FieldMerged.mono {kind : Kind P.Val} {F S D : List (Rev P)}
    (hl : FieldMerged h R kind F S D l) (hR : ∀ e x, R e x → R' e x) :
    FieldMerged h R' kind F S D l := by
  cases hl with
  | same hDS hall => exact FieldMerged.same hDS fun e he => (hall e he).imp fun x hx => hR e x hx
  | sourceAll hkind hDS hDF hnews => exact FieldMerged.sourceAll hkind hDS hDF (hnews.imp hR)
  | dstAll hkind hDS hSF => exact FieldMerged.dstAll hkind hDS hSF
  | source hkind hDS hDF hF hS hputs =>
    exact FieldMerged.source hkind hDS hDF hF hS (hputs.mono fun _ _ _ hx => hx.mono hR)
  | mixed hkind hDS hDF hF hS hD hm hno hpops =>
    exact FieldMerged.mixed hkind hDS hDF hF hS hD (hm.mono hR) hno hpops

/-- Where the entries of a merged list come from. -/
theorem FieldMerged.mem {kind : Kind P.Val} {F S D : List (Rev P)}
    (hl : FieldMerged h R kind F S D l) (hx : x ∈ l) :
    (∃ e ∈ D, x = some e) ∨ (∃ e ∈ S, x = some e) ∨ ∃ e ∈ S, R e x := by
  have hmap : ∀ {l : List (Rev P)}, x ∈ l.map some → ∃ e ∈ l, x = some e := by
    intro l hx
    obtain ⟨e, he, rfl⟩ := mem_map.mp hx
    exact ⟨e, he, rfl⟩
  have hfrom : ∀ {key ks k}, keysOf key S = .ok ks → FromEntry R S ks k x → ∃ e ∈ S, R e x :=
    fun hS ⟨e, he, hR⟩ => ⟨e, (entry_key hS he).1, hR⟩
  cases hl with
  | same hDS _ => exact .inl (hmap hx)
  | sourceAll _ _ _ hnews =>
    obtain ⟨e, he, hR⟩ := forall₂_exists hnews.flip hx
    exact .inr (.inr ⟨e, he, hR⟩)
  | dstAll _ _ _ => exact .inl (hmap hx)
  | source _ _ _ _ hS hputs =>
    rcases hputs.mem hx with hx | ⟨k, -, hx⟩
    · exact .inr (.inl (hmap hx))
    · exact .inr (.inr (hfrom hS hx))
  | mixed _ _ _ _ hS _ hm _ _ =>
    rcases hm.puts.mem ((popAll_sublist _ _).subset hx) with hx | ⟨k, -, hx⟩
    · rcases mem_append.mp hx with hx | hx
      · exact .inl (hmap hx)
      · obtain ⟨k, -, hk⟩ := forall₂_exists hm.appended.flip hx
        exact .inr (.inr (hfrom hS hk))
    · exact .inr (.inr (hfrom hS hx))

/-- The new lists of all fields. -/
structure ChildrenMerged (h : Rev P → Option P.Hash) (R : Rev P → Option (Rev P) → Prop)
    (fork src dst : Rev P) (children : String → List (Option (Rev P))) : Prop where
  field : ∀ {name : String} {field : ChildType P.Cls P.Val},
    P.field (P.typeOf fork.data) name = some field → FieldMerged h R field.kind
      (fork.children name) (src.children name) (dst.children name) (children name)
  rest : ∀ name, name ∉ P.names (P.typeOf fork.data) →
    children name = (dst.children name).map some

theorem ChildrenMerged.mono {children : String → List (Option (Rev P))}
    (hc : ChildrenMerged h R fork src dst children) (hR : ∀ e x, R e x → R' e x) :
    ChildrenMerged h R' fork src dst children :=
  ⟨fun hf => (hc.field hf).mono hR, hc.rest⟩

theorem ChildrenMerged.mem {children : String → List (Option (Rev P))}
    (hc : ChildrenMerged h R fork src dst children) {name : String} (hx : x ∈ children name) :
    (∃ e ∈ dst.children name, x = some e) ∨ (∃ e ∈ src.children name, x = some e) ∨
      ∃ e ∈ src.children name, R e x := by
  by_cases hname : name ∈ P.names (P.typeOf fork.data)
  · obtain ⟨⟨name', field⟩, hmem, rfl⟩ := mem_map.mp hname
    exact (hc.field (P.field_eq_some.mpr hmem)).mem hx
  · rw [hc.rest name hname] at hx
    obtain ⟨e, he, rfl⟩ := mem_map.mp hx
    exact .inl ⟨e, he, rfl⟩

/-- Some child field, or one key of a keyed one, was changed on both sides. -/
def ChildBothChanged (h : Rev P → Option P.Hash) (fork src dst : Rev P) : Prop :=
  ∃ name field, P.field (P.typeOf fork.data) name = some field ∧
    FieldBothChanged h field.kind (fork.children name) (src.children name) (dst.children name)

/-- The lists of all fields. -/
theorem mergeFields_outcome (hh : ∀ s, J s → s.hashOf = h)
    (hmc : ∀ name, ∀ e ∈ src.children name ++ dst.children name, Handled J T X mc e)
    (hX : ChildBothChanged h fork src dst → ∀ text, X (.mergeConflict text)) (hJ : J s) :
    wp ((P.childrenFields (P.typeOf fork.data)).foldlM (mergeField mc fork src dst)
      (fun f => (dst.children f).map some, [])) s (Outcome J T X (fun s' acc =>
        ChildrenMerged h (T s') fork src dst acc.1) s) := by
  have hnodup := P.names_nodup (P.typeOf fork.data)
  refine Outcome.mono (Outcome.foldlM (I := fun done s' (acc : MergingAll P) =>
    (∀ p ∈ done, FieldMerged h (T s') p.2.kind (fork.children p.1) (src.children p.1)
      (dst.children p.1) (acc.1 p.1)) ∧
    ∀ name, name ∉ done.map Prod.fst → acc.1 name = (dst.children name).map some) ?_ _ hJ
    ⟨nofun, fun _ _ => rfl⟩) ?_
  · rintro done ⟨name, field⟩ rest acc s₁ hfields hJ₁ - ⟨hdone, hrest⟩
    have hfield : P.field (P.typeOf fork.data) name = some field := by
      rw [P.field_eq_some]
      exact mem_of_split hfields
    have hnew : name ∉ done.map Prod.fst := by
      rw [hfields, map_append, map_cons] at hnodup
      exact not_mem_of_split rfl hnodup
    refine Outcome.bind (mergeList_outcome hh (hmc name) name field
      (fun hb => hX ⟨name, field, hfield, hb⟩) hJ₁) fun merged s₂ hJ₂ hk₂ hmerged => ?_
    refine Outcome.ok hJ₂ ⟨forall_mem_concat (fun p hp => ?_) ?_, fun g hg => ?_⟩
    · have hne : p.1 ≠ name := by
        rintro rfl
        exact hnew (mem_map_of_mem hp)
      dsimp only
      rw [Function.update_of_ne hne]
      exact (hdone p hp).mono hk₂
    · dsimp only
      rw [Function.update_self]
      exact hmerged
    · rw [map_append, mem_append, not_or] at hg
      have hne : g ≠ name := by
        rintro rfl
        exact hg.2 (mem_singleton_self _)
      dsimp only
      rw [Function.update_of_ne hne]
      exact hrest g hg.1
  · rintro s' acc - ⟨hall, hrest⟩
    exact ⟨fun hf => hall _ (P.field_eq_some.mp hf), hrest⟩

end Fields

/-! ## The merged revision -/

/-- `update_all_children` refuses a list with a `None` in it. -/
theorem updateAllChildren_wp (dst : Rev P) (data : P.Data)
    (children : String → List (Option (Rev P))) (s : State P) :
    wp (updateAllChildren dst data children) s fun r s' =>
      (s' = s ∧ ∃ err, r = .error err ∧ err.followed = false) ∨
        (∀ f ∈ P.names (P.typeOf data), none ∉ children f) ∧
        s.unhashed data (fun f => (children f).reduceOption) = false ∧
        r = .ok (s.newRev dst.node dst.txid data fun f => (children f).reduceOption) ∧
        s' = s.alloc (s.newRev dst.node dst.txid data fun f => (children f).reduceOption) := by
  unfold updateAllChildren
  split
  · exact .inl ⟨rfl, _, rfl, rfl⟩
  · next hnone =>
    unfold mkRev
    rw [wp_bind, wp_read, seqPost_ok]
    split
    · exact .inl ⟨rfl, _, rfl, rfl⟩
    · next hun =>
      refine .inr ⟨?_, Bool.eq_false_iff.mpr hun, rfl, rfl⟩
      intro f hf hmem
      refine hnone (any_eq_true.mpr ⟨f, hf, any_eq_true.mpr ⟨none, hmem, rfl⟩⟩)

/-- The data of a merged revision. -/
def mergedData (changed : Bool) (src dst : Rev P) : P.Data :=
  if changed then src.data else dst.data

/-- The own data of the node was changed on the destination's side, and the source has other
data. -/
def ConfigCollides (fork src dst : Rev P) : Prop :=
  dst.sameConfig fork = false ∧ dst.sameConfig src = false

theorem mergeConfig_cases (fork src dst : Rev P) :
    (∃ changed, mergeConfig fork src dst = .ok changed ∧
      (changed = false → dst.sameConfig src = true)) ∨
      ConfigCollides fork src dst ∧
        mergeConfig fork src dst = .error (.mergeConflict "Config collision") := by
  unfold mergeConfig
  by_cases hdf : dst.sameConfig fork = true
  · rw [if_pos hdf]
    refine .inl ⟨_, rfl, ?_⟩
    intro hc
    rcases hds : dst.sameConfig src with _ | _
    · rw [hds] at hc
      cases hc
    · rfl
  · rw [if_neg hdf]
    by_cases hds : dst.configHash = src.configHash
    · rw [if_neg (not_not_intro hds)]
      exact .inl ⟨true, rfl, nofun⟩
    · rw [if_pos hds]
      refine .inr ⟨⟨Bool.eq_false_iff.mpr hdf, ?_⟩, rfl⟩
      rw [sameConfig]
      exact decide_eq_false hds

/-- How `merge_3way` goes that starts in state `s`. -/
inductive Merge3 (J : State P → Prop) (T : State P → Rev P → Option (Rev P) → Prop)
    (X : Err → Prop)
    (h : Rev P → Option P.Hash) (fork src dst : Rev P) (s : State P) :
    Bool → Except Err (Option (Rev P) × Changes P) → State P → Prop where
  | raised {dryRun : Bool} {err : Err} {s₁ : State P} : J s₁ → Kept T s s₁ →
      (err.followed = true → X err) →
      Merge3 J T X h fork src dst s dryRun (.error err) s₁
  /-- nothing was made -/
  | dry {changed : Bool} {children : String → List (Option (Rev P))} {s₁ : State P} : J s₁ →
      Kept T s s₁ → mergeConfig fork src dst = .ok changed →
      ChildrenMerged h (T s₁) fork src dst children →
      Merge3 J T X h fork src dst s true (.ok (none, [])) s₁
  /-- the merged revision was made last -/
  | made {changed : Bool} {children : String → List (Option (Rev P))} {s₁ : State P}
      (changes : Changes P) : J s₁ → Kept T s s₁ → mergeConfig fork src dst = .ok changed →
      ChildrenMerged h (T s₁) fork src dst children →
      (∀ f ∈ P.names (P.typeOf (mergedData changed src dst)), none ∉ children f) →
      s₁.unhashed (mergedData changed src dst) (fun f => (children f).reduceOption) = false →
      Merge3 J T X h fork src dst s false
        (.ok (some (s₁.newRev dst.node dst.txid (mergedData changed src dst)
          fun f => (children f).reduceOption), changes))
        (s₁.alloc (s₁.newRev dst.node dst.txid (mergedData changed src dst)
          fun f => (children f).reduceOption))

/-- **`merge_3way`.** -/
theorem merge3way_outcome {s : State P} {fork src dst : Rev P} (hh : ∀ s, J s → s.hashOf = h)
    (hmc : ∀ name, ∀ e ∈ src.children name ++ dst.children name, Handled J T X mc e)
    (hX : ChildBothChanged h fork src dst → ∀ text, X (.mergeConflict text))
    (hc : ConfigCollides fork src dst → ∀ text, X (.mergeConflict text)) (hJ : J s)
    (dryRun : Bool) :
    wp (merge3way fork src dst mc dryRun) s (Merge3 J T X h fork src dst s dryRun) := by
  unfold merge3way
  rw [wp_bind, wp_ofExcept]
  rcases mergeConfig_cases fork src dst with ⟨changed, hcfg, -⟩ | ⟨hcol, hcfg⟩
  · rw [hcfg, seqPost_ok, wp_bind]
    refine wp_mono (mergeFields_outcome hh hmc hX hJ) ?_
    rintro (err | acc) s₁ ho
    · exact Merge3.raised ho.inv ho.kept (ho.raised err rfl)
    · have hch := ho.value acc rfl
      rw [seqPost_ok]
      cases dryRun with
      | true => exact Merge3.dry ho.inv ho.kept hcfg hch
      | false =>
        rw [if_neg Bool.false_ne_true, wp_bind]
        refine wp_mono (updateAllChildren_wp dst _ acc.1 s₁) ?_
        rintro r s₂ (⟨rfl, err, rfl, hne⟩ | ⟨hnone, hun, rfl, rfl⟩)
        · refine Merge3.raised ho.inv ho.kept fun hf => ?_
          cases hne.symm.trans hf
        · exact Merge3.made _ ho.inv ho.kept hcfg hch hnone hun
  · rw [hcfg]
    exact Merge3.raised hJ (Kept.refl T s) fun _ => hc hcol _

end Voltha.Config
