import Voltha.Config.Isolation
import Voltha.Config.UniqueKeys

/-!
# Rejected writes

A write to the committed branch walks down to the place that it is addressed to and back.  The node
there makes its new revision and queues its announcement before the nodes above it have looked at
the result, and nothing takes these back if one of them raises: because a child has another key
now, or because a new revision would list one that has lost its hash.

So it is settled at the place itself what a rejected write leaves behind.  If the step there raises,
or the path does not lead anywhere, nothing was done but calls of `PRE_*` callbacks; if the step
returns (`accepts`), its announcement is delivered whatever the nodes above do.

There is one step that returns and announces nothing, that of an update with the data its target
has.  The nodes above then take the revision that the target has (`back`), and in a tree that an
earlier rejected write has left behind they can change or raise at that.
-/

namespace Voltha.Config

open List

variable {P : Proto}

open State Act

/-! ## What a rejected write may leave -/

/-- No branch of a node that was there, and nothing of what is to be announced, has changed; only
`PRE_*` callbacks were called. -/
structure Untouched (s s' : State P) : Prop where
  branches : ∀ {m : ℕ}, m < s.nextNode → ∀ v, s'.branches m v = s.branches m v
  log : ∃ l : List (Delivery P), (∀ d ∈ l, d.isPre) ∧ s'.log = s.log ++ l
  deferred : s'.deferred = s.deferred
  notifications : s'.notifications = s.notifications
  proxy : s'.proxy = s.proxy

/-- Every read of a node that was there gives the same answer, and nothing but calls of `PRE_*`
callbacks was delivered. -/
structure Unchanged (s s' : State P) : Prop where
  reads : ∀ n, n < s.nextNode → ∀ path depth v, get s' n path depth v = get s n path depth v
  delivered : ∃ l : List (Delivery P), (∀ d ∈ l, d.isPre) ∧ s'.log = s.log ++ l

/-- A change is queued that will be published. -/
structure Publishes (s s' : State P) : Prop where
  log : s.log <+: s'.log
  queued : ∃ q ∈ s'.notifications, ignored q.1 = false

variable {s s₁ s₂ : State P} {n : ℕ} {b : Branch P}

theorem Called.untouched (h : Called s s₁) : Untouched s s₁ := by
  obtain ⟨l, hl, rfl⟩ := h
  exact ⟨fun _ _ => rfl, ⟨l, hl, rfl⟩, rfl, rfl, rfl⟩

theorem Untouched.refl (s : State P) : Untouched s s := (Called.refl s).untouched

/-- Nodes were made after the calls. -/
theorem Called.untouched_grown (h : Called s s₁) (hg : Grown s₁ s₂) : Untouched s s₂ := by
  obtain ⟨l, hl, rfl⟩ := h
  refine ⟨fun hm v => hg.branches hm, ⟨l, hl, ?_⟩, hg.deferred, ?_, ?_⟩ <;> rw [hg.rest]

/-- After a write that has queued nothing, nothing is delivered. -/
theorem Untouched.unchanged (h : Base s) (hu : Untouched s s₁) :
    Unchanged s s₁.executeDeferredCallbacks where
  reads n hn path depth v := by
    refine get_congr ?_ ?_ path depth
    · exact headOf_congr (hu.branches hn v) (hu.branches hn none)
    · exact hu.proxy
  delivered := by
    obtain ⟨l, hl, hlog⟩ := hu.log
    refine ⟨l, hl, ?_⟩
    unfold State.executeDeferredCallbacks
    rw [hu.deferred, hu.notifications, h.deferred, h.notifications]
    simpa using hlog

/-- What was queued for the event bus is published. -/
theorem Publishes.not_unchanged (ha : Publishes s s₁) :
    ¬ Unchanged s s₁.executeDeferredCallbacks := by
  intro hun
  obtain ⟨l, hl, hlog⟩ := hun.delivered
  obtain ⟨l₁, hl₁⟩ := ha.log
  obtain ⟨q, hq, hign⟩ := ha.queued
  have hpub : Delivery.published q.1 q.2.1 q.2.2 ∈ s₁.notifications.flatMap advertise := by
    refine mem_flatMap.mpr ⟨q, hq, ?_⟩
    unfold advertise
    rw [hign, if_neg Bool.false_ne_true]
    exact mem_singleton_self _
  unfold State.executeDeferredCallbacks at hlog
  dsimp only at hlog
  rw [← hl₁, append_assoc, append_assoc, append_cancel_left_eq] at hlog
  have hmem := hl _ (hlog ▸ mem_append_right _ (mem_append_right _ hpub))
  cases hmem

/-! ## The place of a write -/

/-- The step of an update at the end of its walk. -/
def updateEnd (s : State P) (strict : Bool) (data : Msg P) (n : ℕ)
    (steps : Option (List (Hop P))) : Option (M P (Rev P)) :=
  steps.bind fun hops => (s.branches (target n hops) none).map fun b =>
    doUpdate (target n hops) none b data strict

/-- The steps of `add` and `remove` down their path.  `field` is what is done at a keyed field that
the path ends in, and `entry` what is done at an entry. -/
def landing (s : State P) (field : ℕ → Rev P → String → String → Option (M P (Rev P)))
    (entry : Option (ℕ → Rev P → String → ℕ × Rev P → M P (Rev P))) :
    Path → ℕ → Option (M P (Rev P))
  | [], _ => none
  | name :: path, n =>
    if name = "" then landing s field entry path n
    else
      match s.branches n none with
      | none => none
      | some b =>
        match P.field (P.typeOf b.latest.data) name with
        | none => none
        | some childType =>
          match childType.kind with
          | .single => none
          | .list => none
          | .keyed key keyFromStr =>
            match path with
            | [] => field n b.latest name key
            | keyStr :: rest =>
              if Path.isNil (keyStr :: rest) then field n b.latest name key
              else
                match keyFromStr keyStr with
                | .error _ => none
                | .ok k =>
                  match findRevByKey (b.latest.children name) key k with
                  | .error _ => none
                  | .ok found =>
                    match entry, Path.isNil rest with
                    | some act, true => some (act n b.latest name found)
                    | _, _ => landing s field entry rest found.2.node

/-- The step of `add` at the node that gets the new child. -/
def addEnd (s : State P) (data : Msg P) : Path → ℕ → Option (M P (Rev P)) :=
  landing s (fun n rev name key => some (addChild n none rev name key data)) none

/-- The step of `remove` at the node that loses the child. -/
def removeEnd (s : State P) : Path → ℕ → Option (M P (Rev P)) :=
  landing s (fun _ _ _ _ => none) (some fun n rev name found =>
    removeChild n none rev name found.1 found.2)

/-- The step of a write at the place that it is addressed to. -/
def Op.atEnd (s : State P) : Op P → Option (M P (Rev P))
  | .update path data strict _ => updateEnd s strict data 0 (walk s none path 0)
  | .add path data _ => addEnd s data path 0
  | .remove path _ => removeEnd s path 0
  | _ => none

/-- The step at the place returns. -/
def returns (s : State P) (act : Option (M P (Rev P))) : Bool := act.any fun a => (a s).1.toBool

/-- The write is accepted where it is addressed to. -/
def accepts (s : State P) (op : Op P) : Bool := returns s (op.atEnd s)

/-- What the node of a step makes of the revision that the call on its child has returned. -/
def Hop.take (hop : Hop P) (new : Rev P) : M P (Rev P) :=
  match hop.addr with
  | none => install hop.node none (updateChildren hop.head hop.name [new] none) fun _ => []
  | some (key, k) => do
    let found ← ofExcept (findRevByKey (hop.head.children hop.name) key k)
    updateKeyed hop.node none hop.head hop.name key k found.1 found.2 new

/-- The way back: the last node takes the revision of the target, and each other node what the one
below it has returned. -/
def back : List (Hop P) → Rev P → M P (Rev P)
  | [], x => pure x
  | hop :: hops, x => do
    let new ← back hops x
    hop.take new

/-- The steps to a node that has the data already, and the revision of this node. -/
def repeated (s : State P) (data : Msg P) (n : ℕ) (steps : Option (List (Hop P))) :
    Option (List (Hop P) × Rev P) :=
  steps.bind fun hops => (s.headOf (target n hops) none).bind fun x =>
    if x.data = data.data then some (hops, x) else none

def Op.repeats (s : State P) : Op P → Option (List (Hop P) × Rev P)
  | .update path data _ _ => repeated s data 0 (walk s none path 0)
  | _ => none

/-- An update with the data that its target has, at which no node above comes to read differently:
these nodes take the revision of the target until one of them raises. -/
def Op.KeepsReads (s : State P) (op : Op P) : Prop :=
  ∃ hops x, op.repeats s = some (hops, x) ∧ ∀ hop ∈ hops, ∀ path depth,
    get (back hops x s).2 hop.node path depth none = get s hop.node path depth none

/-! ## The step at the end -/

/-- How the step of a write at its place goes.  `way` is what is left to do when there is nothing to
change. -/
inductive Ended (way : Option (M P (Rev P))) (s : State P) :
    Except Err (Rev P) → State P → Prop where
  | refused {s₁ : State P} (err : Err) : Untouched s s₁ → Ended way s (.error err) s₁
  | same {new : Rev P} {s₁ : State P} : way = some (pure new) → Called s s₁ →
      Ended way s (.ok new) s₁
  | announced {new : Rev P} {s₁ : State P} : way = none → Publishes s s₁ →
      Ended way s (.ok new) s₁

theorem install_committed (hb : s.branches n none = some b) (rev : Rev P) (changes : Changes P) :
    (s.install n none rev changes).log = s.log ∧
      (s.install n none rev changes).notifications =
        s.notifications ++ changes.map fun c => (c.1, c.2, rev.hash) := by
  unfold State.install State.makeLatest
  rw [show (s.alloc rev).branches n none = some b from hb]
  exact ⟨rfl, rfl⟩

/-- A revision is made and announced, after calls of callbacks and new nodes. -/
theorem install_ended (hb : s₁.branches n none = some b) (hu : Untouched s s₁) {m : ℕ}
    {data : P.Data} {children : String → List (Rev P)} {changes : Rev P → Changes P}
    {type : CallbackType} {ctx : Rev P → Context P}
    (hch : ∀ rev, changes rev = [(type, ctx rev)]) (hign : ignored type = false) :
    wp (install n none (mkRev m none data children) changes) s₁ (Ended none s) := by
  refine install_wp (fun _ err => .refused err hu) fun _ => .announced rfl ?_
  generalize s₁.newRev m none data children = rev
  obtain ⟨hlog, hq⟩ := install_committed hb rev (changes rev)
  obtain ⟨l, -, hl⟩ := hu.log
  refine ⟨?_, (type, ctx rev, rev.hash), ?_, hign⟩
  · rw [hlog, hl]
    exact prefix_append ..
  · rw [hq, hch]
    exact mem_append_right _ (mem_singleton_self _)

theorem headOf_none (s : State P) (n : ℕ) :
    s.headOf n none = (s.branches n none).map Branch.latest := by
  unfold State.headOf
  rw [Option.or_self]

theorem Called.branches (h : Called s s₁) : s₁.branches = s.branches := by rw [h.rest]

theorem doUpdate_ended (hb : s.branches n none = some b) (data : Msg P) (strict : Bool) :
    wp (doUpdate n none b data strict) s
      (Ended (if b.latest.data = data.data then some (pure b.latest) else none) s) := by
  unfold doUpdate
  split
  · rw [wp_bind]
    refine wp_mono (testNoChildren_wp data s _) ?_
    rintro (err | _) s' rfl
    · exact .refused err (.refl _)
    · rw [seqPost_ok, wp_bind]
      refine wp_mono (invokeCallbacks_wp rfl (.msg data) s') ?_
      rintro (err | _) s₂ hc
      · exact .refused err hc.untouched
      · rw [seqPost_ok]
        split
        · exact .same rfl hc
        · rw [wp_bind]
          refine wp_mono (checkStrict_wp strict _ _ s₂) ?_
          rintro (err | _) s₃ rfl
          · exact .refused err hc.untouched
          · rw [seqPost_ok]
            exact install_ended (hc.branches ▸ hb) hc.untouched (fun _ => rfl) rfl
  · exact .refused _ (.refl _)

theorem addChild_ended (h : WF s) (hb : s.branches n none = some b) (name key : String)
    (data : Msg P) : wp (addChild n none b.latest name key data) s (Ended none s) := by
  unfold addChild
  rw [wp_bind]
  refine wp_mono (invokeCallbacks_wp rfl (.msg data) s) ?_
  rintro (err | _) s₁ hc
  · exact .refused err hc.untouched
  · rw [seqPost_ok]
    rcases P.getattr data.data key with _ | k
    · exact .refused _ hc.untouched
    · dsimp only
      rw [wp_bind]
      unfold checkNewKey
      rcases findRevByKey (b.latest.children name) key k with err | found
      · cases err with
        | keyError text =>
          rw [wp_pure, seqPost_ok, wp_bind, wp_def]
          rcases hmk : mknode data (some (n, name)) s₁ with ⟨r, s₂⟩
          have hr : Ready n none s b s₁ := ⟨s, .found hb, hc⟩
          obtain ⟨-, hg, -⟩ := hr.made (K := fun _ _ => True) (C := fun _ => True) h hmk
          have hu := hc.untouched_grown hg
          rcases r with err | c
          · exact .refused err hu
          · rw [seqPost_ok]
            exact install_ended ((hu.branches (h.lt_nextNode hb) none).trans hb) hu
              (fun _ => rfl) rfl
        | _ => exact .refused _ hc.untouched
      · exact .refused _ hc.untouched

theorem removeChild_ended (hb : s.branches n none = some b) (name : String) (found : ℕ × Rev P) :
    wp (removeChild n none b.latest name found.1 found.2) s (Ended none s) := by
  unfold removeChild
  rw [wp_bind]
  refine wp_mono (invokeCallbacks_wp rfl (.data found.2.data) s) ?_
  rintro (err | _) s₁ hc
  · exact .refused err hc.untouched
  · rw [seqPost_ok]
    exact install_ended (hc.branches ▸ hb) hc.untouched (fun _ => rfl) rfl

/-! ## The way back -/

/-- How a write goes whose step at its place is `act`: if this step does not return, nothing is done;
if there is something to change, the change is announced; and if not, the nodes above do what they
do on their `way` from the state before, but for the callbacks that were called. -/
structure Lands (s : State P) (act way : Option (M P (Rev P))) (r : Except Err (Rev P))
    (s' : State P) : Prop where
  refused : returns s act = false → (∃ err, r = .error err) ∧ Untouched s s'
  announced : returns s act = true → way = none → Publishes s s'
  kept : returns s act = true → ∀ w, way = some w → r = (w s).1 ∧ Called (w s).2 s'

/-- The path leads nowhere. -/
theorem Lands.nowhere (s : State P) (way : Option (M P (Rev P))) (err : Err) :
    Lands s none way (.error err) s :=
  ⟨fun _ => ⟨⟨err, rfl⟩, .refl s⟩, nofun, nofun⟩

/-- The path ends here. -/
theorem Lands.here {act : M P (Rev P)} {way : Option (M P (Rev P))}
    (h : wp act s (Ended way s)) : wp act s (Lands s (some act) way) := by
  rw [wp_def] at h ⊢
  have hret : returns s (some act) = (act s).1.toBool := rfl
  generalize act s = p at h hret ⊢
  rcases p with ⟨r, s₁⟩
  cases h with
  | refused err hu =>
    refine ⟨fun _ => ⟨⟨err, rfl⟩, hu⟩, fun h => ?_, fun h => ?_⟩ <;> cases hret.symm.trans h
  | same hway hc =>
    refine ⟨fun h => ?_, fun _ hnone => ?_, fun _ w hw => ?_⟩
    · cases hret.symm.trans h
    · cases hnone.symm.trans hway
    · cases hway.symm.trans hw
      exact ⟨rfl, hc⟩
  | announced hway ha =>
    refine ⟨fun h => ?_, fun _ _ => ha, fun _ w hw => ?_⟩
    · cases hret.symm.trans h
    · cases hway.symm.trans hw

/-- What a node does that only takes the revision of a child: it reads and writes nothing of what
was delivered or is to be announced, and of the branches only the committed ones of `nodes`. -/
structure Silent {α : Type} (nodes : List ℕ) (f : M P α) : Prop where
  log : ∀ s l, f { s with log := l } = ((f s).1, { (f s).2 with log := l })
  branches : ∀ s m v, (v = none → m ∉ nodes) → (f s).2.branches m v = s.branches m v
  rest : ∀ s, (f s).2.deferred = s.deferred ∧ (f s).2.notifications = s.notifications ∧
    (f s).2.proxy = s.proxy

namespace Silent

variable {α β : Type} {nodes : List ℕ} {f : M P α} {g : α → M P β}

theorem log_eq (h : Silent nodes f) (s : State P) : (f s).2.log = s.log :=
  congrArg (fun p => p.2.log) (h.log s s.log)

theorem ofExcept (nodes : List ℕ) (x : Except Err α) :
    Silent (P := P) nodes (Act.ofExcept x) :=
  ⟨fun _ _ => rfl, fun _ _ _ _ => rfl, fun _ => ⟨rfl, rfl, rfl⟩⟩

theorem read {f : State P → M P α} (h : ∀ s, Silent nodes (f s))
    (hlog : ∀ s l, f { s with log := l } = f s) : Silent nodes (Act.read >>= f) where
  log s l := by
    rw [read_bind, read_bind, hlog]
    exact (h s).log s l
  branches s := (h s).branches s
  rest s := (h s).rest s

theorem bind (h : Silent nodes f) (hg : ∀ a, Silent nodes (g a)) : Silent nodes (f >>= g) where
  log s l := by
    rw [bind_apply, bind_apply, h.log]
    rcases f s with ⟨_ | a, s₁⟩
    · rfl
    · exact (hg a).log s₁ l
  branches s m v hv := by
    have hf := h.branches s m v hv
    rw [bind_apply]
    rcases hfs : f s with ⟨_ | a, s₁⟩
    · rw [hfs] at hf
      exact hf
    · rw [hfs] at hf
      exact ((hg a).branches s₁ m v hv).trans hf
  rest s := by
    have hf := h.rest s
    rw [bind_apply]
    rcases hfs : f s with ⟨_ | a, s₁⟩
    · rw [hfs] at hf
      exact hf
    · rw [hfs] at hf
      obtain ⟨hd, hn, hp⟩ := (hg a).rest s₁
      exact ⟨hd.trans hf.1, hn.trans hf.2.1, hp.trans hf.2.2⟩

theorem mono {ms : List ℕ} (h : Silent nodes f) (hsub : nodes ⊆ ms) : Silent ms f :=
  ⟨h.log, fun s m v hv => h.branches s m v fun hnone hm => hv hnone (hsub hm), h.rest⟩

end Silent

theorem makeLatest_nil (s : State P) (n : ℕ) (rev : Rev P) :
    s.makeLatest n none rev [] = match s.branches n none with
      | none => s
      | some b => s.setBranch n none (some (s.advance b rev)) := by
  unfold State.makeLatest State.announce
  rcases s.branches n none with _ | b
  · rfl
  · simp only [map_nil, ite_self, append_nil]

theorem makeLatest_silent (n : ℕ) (rev : Rev P) : Silent [n] (makeLatest n none rev []) := by
  unfold makeLatest
  simp only [makeLatest_nil]
  refine ⟨fun s l => ?_, fun s m v hv => ?_, fun s => ?_⟩ <;> unfold Act.modify <;> dsimp only <;>
    rcases s.branches n none with _ | b
  · rfl
  · rfl
  · rfl
  · refine s.setBranch_of_ne _ ?_
    by_cases hv' : v = none
    · exact .inl fun hm => hv hv' (hm ▸ mem_singleton_self _)
    · exact .inr hv'
  · exact ⟨rfl, rfl, rfl⟩
  · exact ⟨rfl, rfl, rfl⟩

theorem install_silent (n m : ℕ) (data : P.Data) (children : String → List (Rev P)) :
    Silent [n] (install n none (mkRev m none data children) fun _ => []) := by
  have hmake : Silent [n] (mkRev (P := P) m none data children) := by
    refine Silent.read (fun s => ?_) fun _ _ => rfl
    split
    · exact .ofExcept _ (.error _)
    · refine Silent.bind ?_ fun _ => .ofExcept _ (.ok _)
      exact ⟨fun _ _ => rfl, fun _ _ _ _ => rfl, fun _ => ⟨rfl, rfl, rfl⟩⟩
  exact hmake.bind fun rev => (makeLatest_silent n rev).bind fun _ => .ofExcept _ (.ok rev)

theorem updateKeyed_silent (n : ℕ) (rev : Rev P) (name key : String) (k : P.Val) (i : ℕ)
    (childRev new : Rev P) : Silent [n] (updateKeyed n none rev name key k i childRev new) := by
  have hlatest : Silent [n] (readLatest (P := P) n none) := by
    refine Silent.read (fun s => ?_) fun _ _ => rfl
    split
    · exact .ofExcept _ (.ok _)
    · exact .ofExcept _ (.error _)
  refine Silent.read (fun s => ?_) fun _ _ => rfl
  split
  · dsimp only
    split
    · refine Silent.bind ?_ fun _ => hlatest
      exact ⟨fun _ _ => rfl, fun _ _ _ _ => rfl, fun _ => ⟨rfl, rfl, rfl⟩⟩
    · exact hlatest
  · split
    · exact .ofExcept _ (.error _)
    · split
      · exact .ofExcept _ (.error _)
      · exact install_silent ..

theorem take_silent (hop : Hop P) (new : Rev P) : Silent [hop.node] (hop.take new) := by
  unfold Hop.take
  split
  · exact install_silent ..
  · exact (Silent.ofExcept ..).bind fun found => updateKeyed_silent ..

theorem back_silent (x : Rev P) :
    ∀ hops : List (Hop P), Silent (hops.map Hop.node) (back hops x)
  | [] => .ofExcept _ (.ok x)
  | hop :: hops => ((back_silent x hops).mono (subset_cons_self ..)).bind fun new =>
      (take_silent hop new).mono (by simp)

theorem Publishes.silent (h : Publishes s s₁) {nodes : List ℕ} {f : M P (Rev P)}
    (hf : Silent nodes f) : Publishes s (f s₁).2 := by
  obtain ⟨q, hq, hign⟩ := h.queued
  exact ⟨hf.log_eq s₁ ▸ h.log, q, (hf.rest s₁).2.1 ▸ hq, hign⟩

/-- A node above takes what the call on its child has returned. -/
theorem Lands.above {x : M P (Rev P)} {f : Rev P → M P (Rev P)} {act w : Option (M P (Rev P))}
    (hx : wp x s (Lands s act w)) (hf : ∀ new, Silent [n] (f new)) :
    wp (x >>= f) s (Lands s act (w.map (· >>= f))) := by
  rw [wp_bind]
  refine wp_mono hx ?_
  rintro (err | new) s₁ h
  · refine ⟨h.refused, fun ha hnone => h.announced ha (Option.map_eq_none_iff.mp hnone), ?_⟩
    intro ha way hway
    obtain ⟨below, hbelow, rfl⟩ := Option.map_eq_some_iff.mp hway
    obtain ⟨hr, hc⟩ := h.kept ha below hbelow
    rw [bind_of_error (Prod.ext hr.symm rfl)]
    exact ⟨rfl, hc⟩
  · rw [seqPost_ok, wp_def]
    refine ⟨fun hnot => ?_, fun ha hnone => ?_, ?_⟩
    · obtain ⟨⟨err, hr⟩, -⟩ := h.refused hnot
      cases hr
    · exact (h.announced ha (Option.map_eq_none_iff.mp hnone)).silent (hf new)
    · intro ha way hway
      obtain ⟨below, hbelow, rfl⟩ := Option.map_eq_some_iff.mp hway
      obtain ⟨hr, l, hl, hs₁⟩ := h.kept ha below hbelow
      rw [bind_of_ok (Prod.ext hr.symm rfl), hs₁, (hf new).log]
      exact ⟨rfl, l, hl, by rw [(hf new).log_eq]⟩

/-! ## Update, add and remove -/

/-- A committed branch is opened: nothing changes. -/
theorem wp_openBranch {α : Type} {k : Branch P → M P α} {Q : Except Err α → State P → Prop} :
    wp (openBranch n none >>= k) s Q ↔ match s.branches n none with
      | none => Q (.error (.keyError "None")) s
      | some b => wp (k b) s Q := by
  rw [wp_bind]
  unfold openBranch
  rw [wp_bind, wp_read, seqPost_ok]
  rcases s.branches n none with _ | b <;> rfl

section

variable {steps : Option (List (Hop P))} {hop : Hop P}

theorem updateEnd_cons (strict : Bool) (data : Msg P) :
    updateEnd s strict data n (steps.map (hop :: ·)) =
      updateEnd s strict data hop.listed.node steps := by
  unfold updateEnd
  rw [Option.bind_map]
  simp only [Function.comp_def, target_cons]

/-- The way back, with the step above. -/
theorem repeated_cons (data : Msg P) :
    (repeated s data n (steps.map (hop :: ·))).map (fun p => back p.1 p.2) =
      ((repeated s data hop.listed.node steps).map fun p => back p.1 p.2).map (· >>= hop.take) := by
  unfold repeated
  rcases steps with _ | hops
  · rfl
  · simp only [Option.map_some, Option.bind_some, target_cons]
    rcases s.headOf (target hop.listed.node hops) none with _ | x
    · rfl
    · dsimp only [Option.bind_some]
      split
      · rfl
      · rfl

end

/-- **`update` lands.**  By induction on the path: what the target has done is kept by the nodes
above it, which announce nothing themselves. -/
theorem update_lands (strict : Bool) (data : Msg P) :
    ∀ (path : Path) (n : ℕ) (s : State P), wp (update strict none data path n) s
      (Lands s (updateEnd s strict data n (walk s none path n))
        ((repeated s data n (walk s none path n)).map fun p => back p.1 p.2))
  | [], n, s => by
    rw [update, walk, wp_openBranch]
    unfold updateEnd repeated
    rw [Option.bind_some, Option.bind_some, show target n ([] : List (Hop P)) = n from rfl,
      headOf_none]
    rcases hb : s.branches n none with _ | b
    · exact Lands.nowhere ..
    · have hended := doUpdate_ended hb data strict
      dsimp only [Option.map_some, Option.bind_some]
      split
      · next heq =>
        rw [if_pos heq] at hended
        exact Lands.here hended
      · next hne =>
        rw [if_neg hne] at hended
        exact Lands.here hended
  | name :: path, n, s => by
    rw [update, walk]
    split
    · exact update_lands strict data path n s
    · rw [wp_openBranch, headOf_none]
      rcases s.branches n none with _ | b
      · exact Lands.nowhere ..
      · dsimp only [Option.map_some]
        rcases P.field (P.typeOf b.latest.data) name with _ | field
        · exact Lands.nowhere ..
        · dsimp only
          rcases field.kind with _ | _ | ⟨key, keyFromStr⟩
          · dsimp only
            rcases b.latest.children name with _ | ⟨e, l⟩
            · exact Lands.nowhere ..
            · dsimp only
              rw [updateEnd_cons, repeated_cons]
              exact Lands.above (update_lands strict data path e.node s)
                fun new => install_silent n ..
          · dsimp only
            split <;> exact Lands.nowhere ..
          · rcases path with _ | ⟨keyStr, rest⟩
            · exact Lands.nowhere ..
            · dsimp only
              split
              · exact Lands.nowhere ..
              · rcases keyFromStr keyStr with _ | k
                · exact Lands.nowhere ..
                · dsimp only
                  rw [wp_bind, wp_ofExcept]
                  rcases hfound : findRevByKey (b.latest.children name) key k with _ | found
                  · exact Lands.nowhere ..
                  · dsimp only
                    have htake : Hop.take ⟨n, b.latest, name, some (key, k), found.2,
                        s.headOf found.2.node none⟩ =
                          updateKeyed n none b.latest name key k found.1 found.2 := by
                      funext new
                      unfold Hop.take
                      dsimp only
                      rw [hfound, ofExcept_ok_bind]
                    rw [seqPost_ok, updateEnd_cons, repeated_cons, htake]
                    exact Lands.above (update_lands strict data rest found.2.node s)
                      fun new => updateKeyed_silent ..

/-- **`add` lands.** -/
theorem add_lands (data : Msg P) :
    ∀ (path : Path) (n : ℕ) (s : State P), WF s →
      wp (add none data path n) s (Lands s (addEnd s data path n) none)
  | [], n, s, _ => Lands.nowhere ..
  | name :: path, n, s, h => by
    rw [add, addEnd, landing]
    split
    · exact add_lands data path n s h
    · rw [wp_openBranch]
      rcases hb : s.branches n none with _ | b
      · exact Lands.nowhere ..
      · dsimp only
        rcases P.field (P.typeOf b.latest.data) name with _ | field
        · exact Lands.nowhere ..
        · dsimp only
          rcases field.kind with _ | _ | ⟨key, keyFromStr⟩
          · exact Lands.nowhere ..
          · dsimp only
            split <;> exact Lands.nowhere ..
          · rcases path with _ | ⟨keyStr, rest⟩
            · exact Lands.here (addChild_ended h hb ..)
            · dsimp only
              split
              · exact Lands.here (addChild_ended h hb ..)
              · rcases keyFromStr keyStr with _ | k
                · exact Lands.nowhere ..
                · dsimp only
                  rw [wp_bind, wp_ofExcept]
                  rcases findRevByKey (b.latest.children name) key k with _ | found
                  · exact Lands.nowhere ..
                  · exact Lands.above (w := none) (add_lands data rest found.2.node s h)
                      fun new => install_silent n ..

/-- **`remove` lands.** -/
theorem remove_lands :
    ∀ (path : Path) (n : ℕ) (s : State P), WF s →
      wp (remove none path n) s (Lands s (removeEnd s path n) none)
  | [], n, s, _ => Lands.nowhere ..
  | name :: path, n, s, h => by
    rw [remove, removeEnd, landing]
    split
    · exact remove_lands path n s h
    · rw [wp_openBranch]
      rcases hb : s.branches n none with _ | b
      · exact Lands.nowhere ..
      · dsimp only
        rcases P.field (P.typeOf b.latest.data) name with _ | field
        · exact Lands.nowhere ..
        · dsimp only
          rcases field.kind with _ | _ | ⟨key, keyFromStr⟩
          · exact Lands.nowhere ..
          · dsimp only
            split <;> exact Lands.nowhere ..
          · rcases path with _ | ⟨keyStr, rest⟩
            · exact Lands.nowhere ..
            · dsimp only
              split
              · exact Lands.nowhere ..
              · rcases keyFromStr keyStr with _ | k
                · exact Lands.nowhere ..
                · dsimp only
                  rw [wp_bind, wp_ofExcept]
                  rcases findRevByKey (b.latest.children name) key k with _ | found
                  · exact Lands.nowhere ..
                  · dsimp only
                    rw [seqPost_ok]
                    rcases hnil : Path.isNil rest with _ | _
                    · exact Lands.above (w := none) (remove_lands rest found.2.node s h)
                        fun new => install_silent n ..
                    · exact Lands.here (removeChild_ended hb ..)

/-! ## Calls -/

/-- The frame of `ConfigRoot` around a write to the committed branch. -/
theorem rootWrite_lands (h : Base s) {write : M P (Rev P)} {act way : Option (M P (Rev P))}
    (hw : wp write s (Lands s act way)) :
    wp (do
      checkOpen .closedTransaction none
      let _ ← rootWrite none write
      pure ()) s fun _ s' => ∃ r₁ s₁, Lands s act way r₁ s₁ ∧
        s' = s₁.executeDeferredCallbacks := by
  unfold rootWrite checkCallbackQueue
  simp only [wp_bind, checkOpen, checkTxid, wp_pure, seqPost_ok, wp_read, h.deferred,
    wp_andFinally]
  refine wp_mono hw ?_
  rintro (err | rev) s₁ hl
  · exact ⟨_, s₁, hl, rfl⟩
  · exact ⟨_, s₁, hl, rfl⟩

/-- **A write lands.** -/
theorem step_lands (h : Base s) {op : Op P} (hop : op.writes = some none) :
    ∃ r₁ s₁, Lands s (op.atEnd s) ((op.repeats s).map fun p => back p.1 p.2) r₁ s₁ ∧
      step s op = s₁.executeDeferredCallbacks := by
  cases op with
  | update path data strict u =>
    obtain rfl := Option.some.inj hop
    exact rootWrite_lands h (update_lands strict data path 0 s)
  | add path data u =>
    obtain rfl := Option.some.inj hop
    exact rootWrite_lands h (add_lands data path 0 s h.wf)
  | remove path u =>
    obtain rfl := Option.some.inj hop
    exact rootWrite_lands h (remove_lands path 0 s h.wf)
  | _ => cases hop

/-- Calls of callbacks change no read. -/
theorem Called.get_eq (h : Called s s₁) (n : ℕ) (path : Path) (depth : ℤ) (v : Option ℕ) :
    get s₁.executeDeferredCallbacks n path depth v = get s n path depth v := by
  obtain ⟨l, -, rfl⟩ := h
  refine get_congr ?_ ?_ path depth
  · rfl
  · rfl

theorem lt_of_repeats (h : Base s) {op : Op P} {hops : List (Hop P)} {x : Rev P}
    (hrep : op.repeats s = some (hops, x)) {hop : Hop P} (hmem : hop ∈ hops) :
    hop.node < s.nextNode := by
  cases op with
  | update path data strict u =>
    obtain ⟨hops', hwalk, hx⟩ := Option.bind_eq_some_iff.mp hrep
    obtain ⟨_, -, hpair⟩ := Option.bind_eq_some_iff.mp hx
    split at hpair <;> cases hpair
    have hhead := (walk_valid s none path 0 hwalk hop hmem).head
    rw [headOf_none] at hhead
    obtain ⟨b, hb, -⟩ := Option.map_eq_some_iff.mp hhead
    exact h.wf.lt_nextNode hb
  | _ => cases hrep

/-- After a way back only the nodes on it may read differently. -/
theorem unchanged_of_back (h : Base s) {hops : List (Hop P)} {x : Rev P}
    (hc : Called (back hops x s).2 s₁)
    (hreads : ∀ hop ∈ hops, ∀ path depth,
      get (back hops x s).2 hop.node path depth none = get s hop.node path depth none) :
    Unchanged s s₁.executeDeferredCallbacks := by
  have hsilent := back_silent x hops
  have hlog := hsilent.log_eq s
  have hbranches := hsilent.branches s
  obtain ⟨hdef, hnot, hproxy⟩ := hsilent.rest s
  generalize (back hops x s).2 = s₂ at hc hreads hlog hbranches hdef hnot hproxy
  constructor
  · intro n _ path depth v
    rw [hc.get_eq]
    by_cases hn : n ∈ hops.map Hop.node
    · obtain ⟨hop, hmem, rfl⟩ := mem_map.mp hn
      rcases v with _ | t
      · exact hreads hop hmem path depth
      · -- a transaction reads its own branch, or the committed one
        have hread := hreads hop hmem path depth
        unfold get at hread ⊢
        rw [hbranches _ (some t) nofun]
        rcases s.branches hop.node (some t) with _ | b
        · simpa using hread
        · exact getIn_congr hproxy ..
    · exact get_congr (headOf_congr (hbranches n v fun _ => hn) (hbranches n none fun _ => hn))
        hproxy path depth
  · obtain ⟨l, hl, rfl⟩ := hc
    refine ⟨l, hl, ?_⟩
    unfold State.executeDeferredCallbacks
    dsimp only
    rw [hdef, hnot, h.deferred, h.notifications, hlog]
    simp

namespace Sample

/-- The own data of what a read returns. -/
def dataRead : Except Err (Reply sample) → Option SampleData
  | .ok (.one m) => some m.data
  | _ => none

/-- A client listens to the updates of the first adapter. -/
def listening : State sample :=
  step start (.registerCallback ["", "adapters", "1"] false .postUpdate fun ctx => .ok ctx)

/-- An update of the first adapter that is rejected, since it brings ports along. -/
def badUpdate : Op sample :=
  .update ["", "adapters", "1"] (adapter "2" "z" [port "9" "r"]) false none

end Sample

open Sample

end Voltha.Config
