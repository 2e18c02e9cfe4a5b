import Voltha.Config.Write

/-!
# `update`, `add` and `remove` are writes

The three operations of `ConfigNode` that change a tree are shown to be writes in the sense of
`Write`, with the steps of `walk` as the path of an `update`.
-/

namespace Voltha.Config

open List Write

variable {P : Proto}

open State Act

variable {u : Option ℕ} {K : ℕ → P.Data → Prop} {H : Hop P → Prop} {n : ℕ} {s s₁ s₂ : State P}
  {b : Branch P}

/-- A new revision is made and installed, or a child has lost its hash. -/
theorem install_wp {m : ℕ} {data : P.Data} {children : String → List (Rev P)}
    {changes : Rev P → Changes P} {Q : Except Err (Rev P) → State P → Prop}
    (hlost : s.unhashed data children = true → ∀ err, Q (.error err) s)
    (hok : s.unhashed data children = false → Q (.ok (s.newRev m u data children))
      (s.install n u (s.newRev m u data children) (changes (s.newRev m u data children)))) :
    wp (install n u (mkRev m u data children) changes) s Q := by
  unfold install mkRev
  simp only [wp_bind, wp_read, seqPost_ok]
  by_cases hun : s.unhashed data children = true
  · rw [if_pos hun]
    exact hlost hun _
  · rw [if_neg hun]
    exact hok (Bool.eq_false_iff.mpr hun)

/-- A branch is opened before a step, or it is not there. -/
theorem openBranch_bind {α : Type} {k : Branch P → M P α} {Q : Except Err α → State P → Prop}
    (hfail : ∀ err, Q (.error err) s) (hk : ∀ b s₁, Opened n u s b s₁ → wp (k b) s₁ Q) :
    wp (openBranch n u >>= k) s Q := by
  rw [wp_bind]
  refine wp_mono (openBranch_wp n u s) ?_
  rintro (err | b) s₁ ho
  · rw [seqPost_error, show s₁ = s from ho]
    exact hfail err
  · exact hk b s₁ ho

/-- A `PRE_*` callback is called before a revision is made. -/
theorem invokeCallbacks_ready {type : CallbackType} (ht : type.isPre = true) (ctx : Context P)
    (ho : Opened n u s b s₁) : wp (invokeCallbacks n type ctx) s₁ fun _ s' => Ready n u s b s' :=
  wp_mono (invokeCallbacks_wp ht ctx s₁) fun _ _ hc => ⟨s₁, ho, hc⟩

/-! ## Update -/

theorem testNoChildren_wp (data : Msg P) (s : State P) :
    ∀ fields, wp (testNoChildren data fields) s fun _ s' => s' = s
  | [] => rfl
  | (name, field) :: fields => by
    rw [testNoChildren]
    split
    · split
      · exact testNoChildren_wp data s fields
      · rfl
    · split
      · rfl
      · exact testNoChildren_wp data s fields

theorem checkStrict_wp (strict : Bool) (new old : P.Data) (s : State P) :
    wp (checkStrict strict new old) s fun _ s' => s' = s := by
  unfold checkStrict checkAccessViolation
  split
  · split
    · rfl
    · rfl
  · rfl

/-- `_do_update`. -/
theorem doUpdate_write (data : Msg P) (strict : Bool) (ho : Opened n u s b s₁)
    (hK : K n data.data) : wp (doUpdate n u b data strict) s₁ fun r s' => Write u K H n s r s' := by
  unfold doUpdate
  split
  · next hty =>
    rw [wp_bind]
    refine wp_mono (testNoChildren_wp data s₁ _) ?_
    rintro (err | _) s' rfl
    · exact failed err ho.ready
    · rw [seqPost_ok, wp_bind]
      refine wp_mono (invokeCallbacks_ready rfl (.msg data) ho) ?_
      rintro (err | _) s₂ hr
      · exact failed err hr
      · rw [seqPost_ok]
        split
        · exact same hr
        · rw [wp_bind]
          refine wp_mono (checkStrict_wp strict _ _ s₂) ?_
          rintro (err | _) s' rfl
          · exact failed err hr
          · rw [seqPost_ok]
            exact install_wp (fun _ err => failed err hr)
              fun hun => Write.data le_rfl hr hty hK hun
  · exact failed _ ho.ready

variable {name : String}

/-- What `update` does with the revision of a keyed child. -/
theorem updateKeyed_write (h : WF s) (ho : Opened n u s b s₁) {key : String} {k : P.Val}
    {found : ℕ × Rev P} {new : Rev P}
    (hfound : findRevByKey (b.latest.children name) key k = .ok found)
    (hw : Write u K H found.2.node s₁ (.ok new) s₂)
    (hH : H ⟨n, b.latest, name, some (key, k), found.2, s.headOf found.2.node u⟩) :
    wp (updateKeyed n u b.latest name key k found.1 found.2 new) s₂ fun r s' =>
      Write u K H n s r s' := by
  obtain ⟨hget, -⟩ := findRevByKey_ok hfound
  have hmem := mem_of_getElem? hget
  have hr := ho.ready
  have hb : s₂.branches n u = some b := by
    obtain ⟨hw', -⟩ := hw.written_any (hr.wf h)
    exact (hw'.above h hr hmem).2
  unfold updateKeyed
  simp only [wp_bind, wp_read, seqPost_ok]
  split
  · next hhash =>
    have hkept := kept hr hmem hw hhash hH
    unfold readLatest
    split
    · next hne =>
      rw [if_neg hne] at hkept
      simp only [wp_bind, wp_modify, wp_read, seqPost_ok]
      rw [show (s₂.clearHash new).branches n u = some b from hb]
      exact hkept
    · next heq =>
      rw [if_pos (not_not.mp heq)] at hkept
      simp only [wp_bind, wp_read, seqPost_ok]
      rw [hb]
      exact hkept
  · rcases hk : P.getattr new.data key with _ | k'
    · exact refused _ hr hmem hw (by rw [hk]; simp) hH
    · dsimp only
      split
      · next hne => exact refused _ hr hmem hw (by rw [hk]; simpa using hne) hH
      · exact install_wp
          (fun hun err => unhashed _ err hr (Replaces.place hget) hw hun (.inr hH))
          fun hun => replaced hr (Replaces.place hget) hw hun

/-- **`update` is a write.**  If it returns, the walk along its path did not fail. -/
theorem update_write (strict : Bool) (data : Msg P) :
    ∀ (path : Path) (n : ℕ) (s : State P), WF s →
      (∀ hops, walk s u path n = some hops → K (target n hops) data.data) →
      (∀ hops, walk s u path n = some hops → ∀ hop ∈ hops, H hop) →
      wp (update strict u data path n) s fun r s' =>
        Write u K H n s r s' ∧ ∀ new, r = .ok new → (walk s u path n).isSome
  | [], n, s, h, hK, hH => by
    rw [update]
    refine openBranch_bind (fun err => ⟨unopened err, by rintro _ ⟨⟩⟩) fun b s₁ ho => ?_
    refine wp_mono (doUpdate_write data strict ho (hK [] (by rw [walk]))) fun r s' hw => ⟨hw, ?_⟩
    intro new _
    rw [walk]
    rfl
  | name :: path, n, s, h, hK, hH => by
    rw [update]
    rw [walk] at hK hH ⊢
    by_cases hname : name = ""
    · simp only [hname, if_true] at hK hH ⊢
      exact update_write strict data path n s h hK hH
    · simp only [hname, if_false] at hK hH ⊢
      refine openBranch_bind (fun err => ⟨unopened err, by rintro _ ⟨⟩⟩)
        fun b s₁ ho => ?_
      have hr := ho.ready
      have hfail : ∀ err : Err, Write u K H n s (.error err) s₁ := fun err => failed err hr
      have hwalk : ∀ path m, walk s₁ u path m = walk s u path m :=
        walk_congr fun m => ho.headOf_eq m u
      rw [ho.headOf] at hK hH ⊢
      dsimp only at hK hH ⊢
      rcases hfield : P.field (P.typeOf b.latest.data) name with _ | field
      · exact ⟨hfail _, by rintro _ ⟨⟩⟩
      · rw [hfield] at hK hH
        dsimp only at hK hH ⊢
        rcases hkind : field.kind with _ | _ | ⟨key, keyFromStr⟩
        · -- a single child
          rw [hkind] at hK hH
          rcases hch : b.latest.children name with _ | ⟨e, l⟩
          · exact ⟨hfail _, by rintro _ ⟨⟩⟩
          · rw [hch] at hK hH
            dsimp only at hK hH ⊢
            rw [wp_bind]
            refine wp_mono (update_write strict data path e.node s₁ (hr.wf h) ?_ ?_) ?_
            · intro hops hhops
              rw [hwalk] at hhops
              have := hK _ (by rw [hhops]; rfl)
              rwa [target_cons] at this
            · intro hops hhops hop hmem
              rw [hwalk] at hhops
              exact hH _ (by rw [hhops]; rfl) hop (mem_cons_of_mem _ hmem)
            · rintro (err | new) s₂ ⟨hw, hsome⟩
              · have hmem : e ∈ b.latest.children name := hch ▸ mem_cons_self
                exact ⟨deeper hr hmem hw, by rintro _ ⟨⟩⟩
              · obtain ⟨hops, hhops⟩ := Option.isSome_iff_exists.mp (hsome new rfl)
                rw [hwalk] at hhops
                rw [seqPost_ok, hhops]
                have hhop := hH _ (by rw [hhops]; rfl) _ mem_cons_self
                refine install_wp ?_ ?_
                · intro hun err
                  exact ⟨unhashed _ err hr (Replaces.only hch) hw hun (.inr hhop),
                    by rintro _ ⟨⟩⟩
                · intro hun
                  exact ⟨replaced hr (Replaces.only hch) hw hun, fun _ _ => rfl⟩
        · -- a list without keys
          rw [hkind] at hK hH
          dsimp only
          split
          · exact ⟨hfail _, by rintro _ ⟨⟩⟩
          · exact ⟨hfail _, by rintro _ ⟨⟩⟩
        · -- a keyed list
          rw [hkind] at hK hH
          rcases path with _ | ⟨keyStr, rest⟩
          · exact ⟨hfail _, by rintro _ ⟨⟩⟩
          · dsimp only at hK hH ⊢
            by_cases hnil : Path.isNil (keyStr :: rest) = true
            · rw [if_pos hnil]
              exact ⟨hfail _, by rintro _ ⟨⟩⟩
            · rw [if_neg hnil] at hK hH
              rw [if_neg hnil, if_neg hnil]
              rcases hks : keyFromStr keyStr with err | k
              · exact ⟨hfail _, by rintro _ ⟨⟩⟩
              · rw [hks] at hK hH
                dsimp only at hK hH ⊢
                rw [wp_bind, wp_ofExcept]
                rcases hfound : findRevByKey (b.latest.children name) key k with err | found
                · exact ⟨hfail _, by rintro _ ⟨⟩⟩
                · rw [hfound] at hK hH
                  dsimp only at hK hH ⊢
                  rw [seqPost_ok, wp_bind]
                  refine wp_mono
                    (update_write strict data rest found.2.node s₁ (hr.wf h) ?_ ?_) ?_
                  · intro hops hhops
                    rw [hwalk] at hhops
                    have := hK _ (by rw [hhops]; rfl)
                    rwa [target_cons] at this
                  · intro hops hhops hop hmem
                    rw [hwalk] at hhops
                    exact hH _ (by rw [hhops]; rfl) hop (mem_cons_of_mem _ hmem)
                  · rintro (err | new) s₂ ⟨hw, hsome⟩
                    · have hmem := mem_of_getElem? (findRevByKey_ok hfound).1
                      exact ⟨deeper hr hmem hw, by rintro _ ⟨⟩⟩
                    · obtain ⟨hops, hhops⟩ := Option.isSome_iff_exists.mp (hsome new rfl)
                      rw [hwalk] at hhops
                      rw [seqPost_ok, hhops]
                      have hhop := hH _ (by rw [hhops]; rfl) _ mem_cons_self
                      exact wp_mono (updateKeyed_write h ho hfound hw hhop)
                        fun r s' hw' => ⟨hw', fun _ _ => rfl⟩

/-! ## Add and remove -/

/-- A revision that was made last. -/
def MadeLast (r : Except Err (Rev P)) (s' : State P) : Prop :=
  ∀ new, r = .ok new → new.ref + 1 = s'.nextRev

theorem madeLast_error (err : Err) (s' : State P) : MadeLast (.error err) s' :=
  nofun

theorem madeLast_install (s : State P) (n m : ℕ) (data : P.Data)
    (children : String → List (Rev P)) (changes : Changes P) :
    MadeLast (.ok (s.newRev m u data children))
      (s.install n u (s.newRev m u data children) changes) := by
  rintro new hnew
  cases hnew
  rw [install_nextRev]
  rfl

/-- A step further down, and the new revision of the child in its place. -/
theorem descend_write {x : M P (Rev P)} (ho : Opened n u s b s₁) {i : ℕ} {e : Rev P}
    (hget : (b.latest.children name)[i]? = some e)
    (hx : wp x s₁ fun r s' => Write u K H e.node s₁ r s' ∧ MadeLast r s') :
    wp (x >>= fun new => replaceChild n u b.latest name i new) s₁ fun r s' =>
      Write u K H n s r s' ∧ MadeLast r s' := by
  rw [wp_bind]
  refine wp_mono hx ?_
  rintro (err | new) s₂ ⟨hw, hlast⟩
  · exact ⟨deeper ho.ready (mem_of_getElem? hget) hw, madeLast_error err _⟩
  · rw [seqPost_ok]
    refine install_wp (fun hun err => ⟨?_, madeLast_error err _⟩) fun hun =>
      ⟨replaced ho.ready (Replaces.place hget) hw hun, madeLast_install _ _ _ _ _ _⟩
    exact unhashed none err ho.ready (Replaces.place hget) hw hun (.inl (hlast new rfl))

/-- A new child. -/
theorem addChild_write (data : Msg P) (ho : Opened n u s b s₁) {key : String}
    {field : ChildType P.Cls P.Val} {keyFromStr : String → Except String P.Val}
    (hfield : P.field (P.typeOf b.latest.data) name = some field)
    (hkind : field.kind = .keyed key keyFromStr) :
    wp (addChild n u b.latest name key data) s₁ fun r s' =>
      Write u K H n s r s' ∧ MadeLast r s' := by
  unfold addChild
  rw [wp_bind]
  refine wp_mono (invokeCallbacks_ready rfl (.msg data) ho) ?_
  rintro (err | _) s₂ hr
  · exact ⟨failed err hr, madeLast_error err _⟩
  · rw [seqPost_ok]
    rcases hk : P.getattr data.data key with _ | k
    · exact ⟨failed _ hr, madeLast_error _ _⟩
    · dsimp only
      rw [wp_bind]
      unfold checkNewKey
      rcases hfind : findRevByKey (b.latest.children name) key k with err | found
      · -- only a `KeyError` says that the key is new
        cases err with
        | keyError text =>
          rw [wp_pure, seqPost_ok, wp_bind, wp_def]
          rcases hmk : mknode data (some (n, name)) s₂ with ⟨err | c, s₃⟩
          · exact ⟨addFailed err hr hmk, madeLast_error err _⟩
          · rw [seqPost_ok]
            exact install_wp
              (fun _ err => ⟨addFailed err hr hmk, madeLast_error err _⟩)
              fun hun =>
                ⟨added le_rfl hr hfield hkind hk hfind hmk hun, madeLast_install _ _ _ _ _ _⟩
        | _ => exact ⟨failed _ hr, madeLast_error _ _⟩
      · exact ⟨failed _ hr, madeLast_error _ _⟩

/-- **`add` is a write.** -/
theorem add_write (data : Msg P) :
    ∀ (path : Path) (n : ℕ) (s : State P), WF s →
      wp (add u data path n) s fun r s' => Write u K H n s r s' ∧ MadeLast r s'
  | [], n, s, h => ⟨unopened _, madeLast_error _ _⟩
  | name :: path, n, s, h => by
    rw [add]
    by_cases hname : name = ""
    · rw [if_pos hname]
      exact add_write data path n s h
    · rw [if_neg hname]
      refine openBranch_bind (fun err => ⟨unopened err, madeLast_error err _⟩)
        fun b s₁ ho => ?_
      have hfail : ∀ err : Err, Write u K H n s (.error err) s₁ ∧ MadeLast (.error err) s₁ :=
        fun err => ⟨failed err ho.ready, madeLast_error err _⟩
      rcases hfield : P.field (P.typeOf b.latest.data) name with _ | field
      · exact hfail _
      · dsimp only
        rcases hkind : field.kind with _ | _ | ⟨key, keyFromStr⟩
        · exact hfail _
        · dsimp only
          split
          · exact hfail _
          · exact hfail _
        · rcases path with _ | ⟨keyStr, rest⟩
          · exact addChild_write data ho hfield hkind
          · dsimp only
            split
            · exact addChild_write data ho hfield hkind
            · rcases keyFromStr keyStr with err | k
              · exact hfail _
              · dsimp only
                rw [wp_bind, wp_ofExcept]
                rcases hfound : findRevByKey (b.latest.children name) key k with err | found
                · exact hfail _
                · obtain ⟨hget, -⟩ := findRevByKey_ok hfound
                  exact descend_write ho hget (add_write data rest found.2.node s₁ (ho.ready.wf h))

/-- **`remove` is a write.** -/
theorem remove_write :
    ∀ (path : Path) (n : ℕ) (s : State P), WF s →
      wp (remove u path n) s fun r s' => Write u K H n s r s' ∧ MadeLast r s'
  | [], n, s, h => ⟨unopened _, madeLast_error _ _⟩
  | name :: path, n, s, h => by
    rw [remove]
    by_cases hname : name = ""
    · rw [if_pos hname]
      exact remove_write path n s h
    · rw [if_neg hname]
      refine openBranch_bind (fun err => ⟨unopened err, madeLast_error err _⟩)
        fun b s₁ ho => ?_
      have hfail : ∀ err : Err, Write u K H n s (.error err) s₁ ∧ MadeLast (.error err) s₁ :=
        fun err => ⟨failed err ho.ready, madeLast_error err _⟩
      rcases hfield : P.field (P.typeOf b.latest.data) name with _ | field
      · exact hfail _
      · dsimp only
        rcases hkind : field.kind with _ | _ | ⟨key, keyFromStr⟩
        · exact hfail _
        · dsimp only
          split
          · exact hfail _
          · exact hfail _
        · rcases path with _ | ⟨keyStr, rest⟩
          · exact hfail _
          · dsimp only
            split
            · exact hfail _
            · rcases keyFromStr keyStr with err | k
              · exact hfail _
              · dsimp only
                rw [wp_bind, wp_ofExcept]
                rcases hfound : findRevByKey (b.latest.children name) key k with err | found
                · exact hfail _
                · obtain ⟨hget, -⟩ := findRevByKey_ok hfound
                  rw [seqPost_ok]
                  split
                  · -- the child itself goes
                    unfold removeChild
                    rw [wp_bind]
                    refine wp_mono (invokeCallbacks_ready rfl (.data found.2.data) ho) ?_
                    rintro (err | _) s₂ hr
                    · exact ⟨failed err hr, madeLast_error err _⟩
                    · rw [seqPost_ok]
                      exact install_wp
                        (fun _ err => ⟨failed err hr, madeLast_error err _⟩)
                        fun hun => ⟨removed le_rfl hr hun, madeLast_install _ _ _ _ _ _⟩
                  · exact descend_write ho hget (remove_write rest found.2.node s₁ (ho.ready.wf h))

end Voltha.Config
