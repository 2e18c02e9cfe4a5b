import Voltha.Config.Runs
import Voltha.Config.Sample

/-!
# Callbacks that write

The announcements of an operation are delivered after it, and a callback may write to the tree
itself.  The inner write enters `ConfigRoot` again: it first asserts that no announcement is
pending, and it delivers its own announcements before it returns.  The exception of a failed
assertion, or of a write that is not valid, ends the callback and is logged (`proceed_on_errors`),
unless the callback catches it and goes on, as `update_device_image_download` does.

What the callbacks of a run do is a `Script`: for each announcement of an operation the writes
that each of the callbacks issues, whether it catches their exceptions, and for each write the
script of its own announcements.

* `reactTo`: an operation and all that follows from its announcements; with callbacks that do not
  write it is `exec` (`reactTo_silent`).
* `body_deferred_le`: a write announces at most one change.
* `Script.reached`: the writes that callbacks come to if each of them is refused.
* `callback_writes_kept_iff`: every announcement is delivered once, and no valid inner write is
  lost exactly if the callbacks of the announcements before the last one come to none.
-/

namespace Voltha.Config

open List State

variable {P : Proto}

open Act

/-! ## Inner writes -/

/-- A write to the committed branch. -/
inductive CommittedWrite (P : Proto) where
  | update (path : Path) (data : Msg P) (strict : Bool)
  | add (path : Path) (data : Msg P)
  | remove (path : Path)

/-- The write as an operation of its own. -/
def CommittedWrite.op : CommittedWrite P → Op P
  | .update path data strict => .update path data strict none
  | .add path data => .add path data none
  | .remove path => .remove path none

/-- What the write does before its announcements are delivered. -/
def CommittedWrite.body : CommittedWrite P → M P (Rev P)
  | .update path data strict => Config.update strict none data path 0
  | .add path data => Config.add none data path 0
  | .remove path => Config.remove none path 0

/-- What callbacks do: the writes that each callback of the `i`-th announcement issues, each with
whether an exception of it is caught and with the script of its own announcements. -/
inductive Script (P : Proto) where
  | mk (on : ℕ → List (List (CommittedWrite P × Bool × Script P)))

/-- The writes of one callback. -/
abbrev Reaction (P : Proto) := List (CommittedWrite P × Bool × Script P)

/-- The callbacks of the `i`-th announcement. -/
def Script.on : Script P → ℕ → List (Reaction P)
  | .mk on => on

/-- The writes that a callback comes to if each of them raises an exception: those up to the first
one whose exception is not caught. -/
def Reaction.reached : Reaction P → List (CommittedWrite P)
  | [] => []
  | (w, caught, _) :: rest => w :: if caught then Reaction.reached rest else []

/-- The writes that the callbacks of the `i`-th announcement come to if each of them raises an
exception. -/
def Script.reached (script : Script P) (i : ℕ) : List (CommittedWrite P) :=
  (script.on i).flatMap Reaction.reached

/-- An inner write: whether `check_callback_queue` has refused it, its outcome, the state in which
it was issued and the one it made, before its own announcements were delivered. -/
structure Attempt (P : Proto) where
  write : CommittedWrite P
  refused : Bool
  outcome : Except Err Unit
  before : State P
  after : State P

/-- The write is refused: `assert not self._deferred_callback_queue` fails. -/
def Attempt.refusal (s : State P) (w : CommittedWrite P) : Attempt P where
  write := w
  refused := true
  outcome := .error (.assertionError "")
  before := s
  after := s

/-- The announcements that an inner write has queued. -/
def Attempt.queued (a : Attempt P) : List (ℕ × CallbackType × Context P) :=
  if a.refused then [] else a.after.deferred

/-- A tree whose announcements are being delivered, with the inner writes and the deliveries so
far. -/
structure Reacting (P : Proto) where
  tree : State P
  attempts : List (Attempt P) := []
  delivered : List (ℕ × CallbackType × Context P) := []

namespace Reacting

/-- `pop(0)`, and the calls of the registered callbacks. -/
def deliver (r : Reacting P) (q : ℕ × CallbackType × Context P)
    (rest : List (ℕ × CallbackType × Context P)) : Reacting P where
  tree := { r.tree with
    deferred := rest
    log := r.tree.log ++
      callAll q.1 q.2.1 (r.tree.callbacksOf q.1 q.2.1) q.2.2 }
  attempts := r.attempts
  delivered := r.delivered ++ [q]

/-- The first loop of `execute_deferred_callbacks`, from the `i`-th announcement on.  Nested calls
only ever empty the queue, so that its length bounds the rounds. -/
def deliverAll (handle : ℕ → Reacting P → Reacting P) : ℕ → ℕ → Reacting P → Reacting P
  | 0, _, r => r
  | rounds + 1, i, r =>
    match r.tree.deferred with
    | [] => r
    | q :: rest => deliverAll handle rounds (i + 1) (handle i (r.deliver q rest))

/-- The second loop of `execute_deferred_callbacks`. -/
def publish (r : Reacting P) : Reacting P :=
  { r with tree := { r.tree with
      notifications := []
      log := r.tree.log ++ r.tree.notifications.flatMap advertise } }

/-- `execute_deferred_callbacks` -/
def executeDeferred (handle : ℕ → Reacting P → Reacting P) (r : Reacting P) : Reacting P :=
  (deliverAll handle r.tree.deferred.length 0 r).publish

/-- An inner write that passes the check of the queue. -/
def applied (r : Reacting P) (w : CommittedWrite P) : Reacting P :=
  { r with
    tree := (w.body r.tree).2
    attempts := r.attempts ++
      [⟨w, false, (w.body r.tree).1.map fun _ => (), r.tree, (w.body r.tree).2⟩] }

/-- An inner write that does not. -/
def refused (r : Reacting P) (w : CommittedWrite P) : Reacting P :=
  { r with attempts := r.attempts ++ [.refusal r.tree w] }

/-- `ConfigRoot.update`, `add` and `remove`, called from a callback. -/
def attempt (w : CommittedWrite P) (handle : ℕ → Reacting P → Reacting P) (r : Reacting P) :
    Except Err Unit × Reacting P :=
  match r.tree.deferred with
  | [] => ((w.body r.tree).1.map fun _ => (), executeDeferred handle (r.applied w))
  | _ => (.error (.assertionError ""), r.refused w)

end Reacting

mutual

/-- The callbacks of the `i`-th announcement. -/
def Script.handle : Script P → ℕ → Reacting P → Reacting P
  | .mk on, i, r => runCallbacks (on i) r

/-- `invoke_callbacks` with `proceed_on_errors`. -/
def runCallbacks : List (List (CommittedWrite P × Bool × Script P)) → Reacting P → Reacting P
  | [], r => r
  | cb :: cbs, r => runCallbacks cbs (runWrites cb r)

/-- One callback: an exception ends it unless it is caught. -/
def runWrites : List (CommittedWrite P × Bool × Script P) → Reacting P → Reacting P
  | [], r => r
  | (w, caught, script) :: rest, r =>
    match Reacting.attempt w script.handle r with
    | (.ok _, r') => runWrites rest r'
    | (.error _, r') => if caught then runWrites rest r' else r'

end

theorem Script.handle_eq (script : Script P) (i : ℕ) (r : Reacting P) :
    script.handle i r = runCallbacks (script.on i) r := by
  cases script
  rw [Script.handle, Script.on]

/-! ## Operations from outside -/

/-- A write to the committed branch, or the commit of a transaction. -/
inductive Outer (P : Proto) where
  | write (w : CommittedWrite P)
  | commit (t : ℕ)

/-- The operation of a client. -/
def Outer.op : Outer P → Op P
  | .write w => w.op
  | .commit t => .commit t

/-- What the operation does before its announcements are delivered. -/
def Outer.body : Outer P → M P Unit
  | .write w => do
    let _ ← w.body
  | .commit t => do
    checkOpen (.attributeError "'NoneType' object has no attribute '_config'") (some t)
    fun s =>
      match mergeRoot t true s with
      | (.error (.mergeConflict text), s') => (do
          delTxbranch t
          raise (.mergeConflict text)) s'
      | (.error e, s') => (.error e, s')
      | (.ok _, s') => ((do
          let _ ← mergeRoot t false
          pure ()) : M P Unit) s'

/-- The `ConfigTransaction` gives up its id after all. -/
def Outer.finish : Outer P → State P → State P
  | .write _, s => s
  | .commit t, s => s.close t

/-- An operation, and all that follows from its announcements. -/
def reactTo (o : Outer P) (script : Script P) (s : State P) : Reacting P :=
  Reacting.executeDeferred script.handle { tree := (o.body s).2 }

/-! ## How much a write announces -/

variable {s : State P} {as : List (Attempt P)} {r r' : Reacting P}

theorem body_write (w : CommittedWrite P) (h : WF s) :
    Write none (fun _ _ => True) (fun _ => True) 0 s (w.body s).1 (w.body s).2 := by
  cases w with
  | update path data strict =>
    exact (update_write strict data path 0 s h (fun _ _ => trivial) fun _ _ _ _ => trivial).1
  | add path data => exact (add_write data path 0 s h).1
  | remove path => exact (remove_write path 0 s h).1

/-- **A write announces at most one change.** -/
theorem body_deferred_le (w : CommittedWrite P) (h : WF s) (hd : s.deferred = []) :
    (w.body s).2.deferred.length ≤ 1 := by
  have hle := (body_write w h).length_deferred_le h
  rwa [hd] at hle

/-- **In every run, a write announces at most one change.** -/
theorem write_announces_once (h : Reachable s) (w : CommittedWrite P) :
    (w.body s).2.deferred.length ≤ 1 :=
  body_deferred_le w h.base.wf h.base.deferred

namespace Sample

/-- A tree whose root is watched for new children. -/
def watched : State sample :=
  step start (.registerCallback ["", ""] false .postAdd fun ctx => .ok ctx)

/-- A new adapter. -/
def newAdapter : CommittedWrite sample := .add ["", "adapters"] (leaf .adapter "4" "d")

end Sample

open Sample in
theorem write_announces_once_sample :
    0 < (newAdapter.body watched).2.deferred.length ∧
      (newAdapter.body watched).2.deferred.length ≤ 1 :=
  ⟨by decide +kernel, write_announces_once (reachable_start.step _) newAdapter⟩

/-! ## Callbacks that do not write -/

/-- Callbacks that do not write. -/
def Script.silent : Script P := .mk fun _ => []

/-- Without inner writes, one announcement after the other is delivered. -/
theorem deliverAll_silent :
    ∀ (q : List (ℕ × CallbackType × Context P)) (i : ℕ) (r : Reacting P), r.tree.deferred = q →
      (Reacting.deliverAll Script.silent.handle q.length i r).tree =
        { r.tree with
          deferred := []
          log := r.tree.log ++
            q.flatMap fun q => callAll q.1 q.2.1 (r.tree.callbacksOf q.1 q.2.1) q.2.2 }
  | [], i, r, h => by
    show r.tree = _
    rw [flatMap_nil, append_nil, ← h]
  | q :: rest, i, r, h => by
    have hround : Reacting.deliverAll Script.silent.handle (q :: rest).length i r =
        Reacting.deliverAll Script.silent.handle rest.length (i + 1) (r.deliver q rest) := by
      rw [length_cons, Reacting.deliverAll, h]
      rfl
    rw [hround, deliverAll_silent rest (i + 1) (r.deliver q rest) rfl, flatMap_cons,
      ← append_assoc]
    rfl

/-- A write as an operation, when no announcement is pending. -/
theorem exec_committed (w : CommittedWrite P) (h : s.deferred = []) :
    exec w.op s = ((w.body s).1.map fun _ => (), (w.body s).2.executeDeferredCallbacks) := by
  have hqueue : checkCallbackQueue s = (.ok (), s) := by
    unfold checkCallbackQueue
    rw [read_bind, h]
    rfl
  have hroot : rootWrite none w.body s =
      ((w.body s).1, (w.body s).2.executeDeferredCallbacks) := by
    rw [rootWrite, bind_of_ok hqueue]
    rfl
  have hexec : exec w.op s = (do
      let _ ← rootWrite none w.body
      pure ()) s := by
    cases w <;> rfl
  rw [hexec, bind_apply, hroot]
  rcases w.body s with ⟨_ | rev, s'⟩ <;> rfl

theorem reactTo_silent_tree (o : Outer P) (s : State P) :
    (reactTo o Script.silent s).tree = (o.body s).2.executeDeferredCallbacks := by
  rw [reactTo, Reacting.executeDeferred, Reacting.publish, deliverAll_silent _ 0 _ rfl]
  rfl

/-- **With callbacks that do not write**, nothing but the operation happens. -/
theorem reactTo_silent (h : Base s) (o : Outer P) :
    step s o.op = o.finish (reactTo o Script.silent s).tree := by
  rw [reactTo_silent_tree]
  cases o with
  | write w =>
    show (exec w.op s).2 = ((do let _ ← w.body : M P Unit) s).2.executeDeferredCallbacks
    rw [exec_committed w h.deferred, bind_apply]
    rcases w.body s with ⟨_ | rev, s'⟩ <;> rfl
  | commit t =>
    have hidle : ∀ s' : State P, s'.deferred = s.deferred → s'.notifications = s.notifications →
        s'.executeDeferredCallbacks = s' := by
      intro s' hd hn
      rw [h.deferred] at hd
      rw [h.notifications] at hn
      unfold executeDeferredCallbacks
      rw [hd, hn, flatMap_nil, flatMap_nil, append_nil, append_nil, ← hd, ← hn]
    rcases ho : s.isOpen t with _ | _
    · have hraise : (Outer.commit t).body s =
          (.error (.attributeError "'NoneType' object has no attribute '_config'"), s) := by
        refine bind_of_error ?_
        rw [checkOpen, read_bind, ho]
        rfl
      obtain ⟨err, hexec⟩ := exec_commit_closed ho
      have hclosed : s.close t = s := by
        unfold close
        rw [Function.update_eq_self_iff.mpr ho.symm]
      rw [hraise, hidle s rfl rfl]
      show (exec (.commit t) s).2 = s.close t
      rw [hexec, hclosed]
    · have hbody : (Outer.commit t).body s = _ :=
        bind_of_ok (checkOpen_of_open
          (.attributeError "'NoneType' object has no attribute '_config'") ho)
      show (exec (.commit t) s).2 = _
      rw [exec_commit_open ho, hbody]
      show (foldTxbranch t s).2.close t = close _ t
      congr 1
      rcases mergeRoot_dry t s with ⟨err, hdry⟩ | hdry
      · by_cases hconf : ∃ text, err = .mergeConflict text
        · obtain ⟨text, rfl⟩ := hconf
          obtain ⟨dirty, hd, hnodup, -, hsome⟩ := h.live t ho
          have hdel := delTxbranch_eq hd hnodup fun n hn => (hsome n).mp hn
          rw [foldTxbranch_conflict hd hnodup (fun n hn => (hsome n).mp hn) hdry, hdry]
          dsimp only
          rw [bind_of_ok hdel]
          exact (hidle (s.forget t dirty) rfl rfl).symm
        · have hne : ∀ text, err ≠ .mergeConflict text := fun text he => hconf ⟨text, he⟩
          rw [foldTxbranch_crash hdry hne, hdry]
          cases err with
          | mergeConflict text => exact absurd rfl (hne text)
          | _ => exact (hidle s rfl rfl).symm
      · rw [foldTxbranch, hdry]
        rfl

/-- The tree is well formed when the announcements are to be delivered. -/
theorem Outer.body_wf (h : Base s) (o : Outer P) : WF (o.body s).2 := by
  have hwf := (h.of_step o.op).wf
  rw [reactTo_silent h, reactTo_silent_tree] at hwf
  cases o with
  | write w => exact hwf.congr rfl rfl rfl rfl rfl rfl
  | commit t => exact hwf.congr rfl rfl rfl rfl rfl rfl

/-! ## What becomes of the inner writes -/

/-- The tree without its queues and its log. -/
def State.bare (s : State P) : State P := { s with deferred := [], notifications := [], log := [] }

/-- The write is valid on the tree. -/
def CommittedWrite.Valid (w : CommittedWrite P) (s : State P) : Prop :=
  (exec w.op s.bare).1 = .ok ()

/-- The inner write was not refused, and it has done what the operation does in the state in which
it was issued. -/
structure Attempt.Applied (a : Attempt P) : Prop where
  passed : a.refused = false
  outcome : a.outcome = (exec a.write.op a.before).1
  state : a.after.bare = (step a.before a.write.op).bare

/-- The inner write was refused, and nothing has changed. -/
structure Attempt.Refused (a : Attempt P) : Prop where
  refused : a.refused = true
  state : a.after.bare = a.before.bare

/-- The inner writes lead one after the other from one tree to another, with nothing between
them. -/
def Leads : State P → List (Attempt P) → State P → Prop
  | s, [], s' => s'.bare = s.bare
  | s, a :: as, s' => a.before.bare = s.bare ∧ (a.Applied ∨ a.Refused) ∧ Leads a.after as s'

theorem Leads.congr {s₁ s₂ s' : State P} (h : Leads s₁ as s') (heq : s₂.bare = s₁.bare) :
    Leads s₂ as s' := by
  cases as with
  | nil => exact Eq.trans h heq.symm
  | cons a as => exact ⟨h.1.trans heq.symm, h.2⟩

theorem Leads.append {as' : List (Attempt P)} {s' s'' : State P} (h' : Leads s' as' s'') :
    ∀ {as : List (Attempt P)} {s : State P}, Leads s as s' → Leads s (as ++ as') s''
  | [], _, h => h'.congr (Eq.symm h)
  | _ :: _, _, h => ⟨h.1, h.2.1, Leads.append h' h.2.2⟩

theorem Leads.applied_or_refused {s' : State P} :
    ∀ {as : List (Attempt P)} {s : State P}, Leads s as s' → ∀ a ∈ as, a.Applied ∨ a.Refused
  | [], _, _ => nofun
  | _ :: _, _, h => fun a ha => by
    rcases mem_cons.mp ha with rfl | ha
    · exact h.2.1
    · exact h.2.2.applied_or_refused a ha

/-- From `r` to `r'` only the inner writes `as` have happened, and what was pending or has been
queued since has been delivered once or is pending still. -/
structure Reacts (as : List (Attempt P)) (r r' : Reacting P) : Prop where
  attempts : r'.attempts = r.attempts ++ as
  leads : Leads r.tree as r'.tree
  delivered : (r'.delivered ++ r'.tree.deferred).Perm
    (r.delivered ++ r.tree.deferred ++ as.flatMap Attempt.queued)
  wf : WF r.tree → WF r'.tree

namespace Reacts

theorem refl (r : Reacting P) : Reacts [] r r where
  attempts := (append_nil _).symm
  leads := rfl
  delivered := by rw [flatMap_nil, append_nil]
  wf h := h

theorem trans {as' : List (Attempt P)} {r'' : Reacting P} (h : Reacts as r r')
    (h' : Reacts as' r' r'') : Reacts (as ++ as') r r'' where
  attempts := by rw [h'.attempts, h.attempts, append_assoc]
  leads := h'.leads.append h.leads
  delivered := by
    rw [flatMap_append, ← append_assoc]
    exact h'.delivered.trans (h.delivered.append_right _)
  wf hwf := h'.wf (h.wf hwf)

theorem deliver {q : ℕ × CallbackType × Context P} {rest : List (ℕ × CallbackType × Context P)}
    (h : r.tree.deferred = q :: rest) :
    Reacts [] r (r.deliver q rest) where
  attempts := (append_nil _).symm
  leads := rfl
  delivered := by
    rw [flatMap_nil, append_nil, h]
    show ((r.delivered ++ [q]) ++ rest).Perm _
    rw [append_assoc, singleton_append]
  wf hwf := hwf.congr rfl rfl rfl rfl rfl rfl

theorem publish (r : Reacting P) : Reacts [] r r.publish where
  attempts := (append_nil _).symm
  leads := rfl
  delivered := by
    rw [flatMap_nil, append_nil]
    exact List.Perm.refl _
  wf hwf := hwf.congr rfl rfl rfl rfl rfl rfl

/-- A write that is issued when nothing is pending is applied. -/
theorem applied (w : CommittedWrite P) (h : r.tree.deferred = []) :
    Reacts [⟨w, false, (w.body r.tree).1.map fun _ => (), r.tree, (w.body r.tree).2⟩] r
      (r.applied w) where
  attempts := rfl
  leads := by
    refine ⟨rfl, Or.inl ⟨rfl, ?_, ?_⟩, rfl⟩
    · rw [exec_committed w h]
    · rw [step, exec_committed w h]
      rfl
  delivered := by
    rw [h, append_nil, flatMap_singleton]
    exact List.Perm.refl _
  wf hwf := Chain.wf hwf ((body_write w hwf).written_any hwf).1.chain

/-- Writes that are issued while something is pending. -/
theorem refusals (r : Reacting P) (ws : List (CommittedWrite P)) :
    Reacts (ws.map (Attempt.refusal r.tree)) r
      { r with attempts := r.attempts ++ ws.map (Attempt.refusal r.tree) } where
  attempts := rfl
  leads := by
    show Leads r.tree (ws.map (Attempt.refusal r.tree)) r.tree
    induction ws with
    | nil => exact rfl
    | cons w ws ih => exact ⟨rfl, Or.inr ⟨rfl, rfl⟩, ih⟩
  delivered := by
    have hnone : (ws.map (Attempt.refusal r.tree)).flatMap Attempt.queued = [] := by
      rw [flatMap_eq_nil_iff]
      intro a ha
      obtain ⟨w, _, rfl⟩ := mem_map.mp ha
      rfl
    rw [hnone, append_nil]
  wf h := h

end Reacts

/-! ### Callbacks while something is pending -/

/-- The writes of a callback are refused up to the first one whose exception ends it. -/
theorem runWrites_pending : ∀ (cb : Reaction P) {r : Reacting P}, r.tree.deferred ≠ [] →
    runWrites cb r =
      { r with attempts := r.attempts ++ cb.reached.map (Attempt.refusal r.tree) }
  | [], r, _ => by
    rw [runWrites]
    show r = { r with attempts := r.attempts ++ [] }
    rw [append_nil]
  | (w, caught, script) :: rest, r, h => by
    rw [runWrites]
    obtain ⟨q, qs, hq⟩ := exists_cons_of_ne_nil h
    have hrefused : ∀ handle, Reacting.attempt w handle r =
        (.error (.assertionError ""), r.refused w) := by
      intro handle
      rw [Reacting.attempt, hq]
    rw [hrefused, Reaction.reached]
    cases caught with
    | false => rfl
    | true =>
      dsimp only
      rw [if_pos rfl, if_pos rfl, runWrites_pending rest (by exact h), map_cons]
      simp only [Reacting.refused, append_assoc, singleton_append]

theorem runCallbacks_pending :
    ∀ (cbs : List (Reaction P)) {r : Reacting P}, r.tree.deferred ≠ [] →
      runCallbacks cbs r =
        { r with attempts := r.attempts ++
            (cbs.flatMap Reaction.reached).map (Attempt.refusal r.tree) }
  | [], r, _ => by
    rw [runCallbacks]
    show r = { r with attempts := r.attempts ++ [] }
    rw [append_nil]
  | cb :: cbs, r, h => by
    rw [runCallbacks, runWrites_pending cb h, runCallbacks_pending cbs (by exact h), flatMap_cons,
      map_append, ← append_assoc]

theorem handle_pending (script : Script P) (i : ℕ) (h : r.tree.deferred ≠ []) :
    script.handle i r =
      { r with attempts := r.attempts ++ (script.reached i).map (Attempt.refusal r.tree) } := by
  rw [Script.handle_eq, runCallbacks_pending _ h, Script.reached]

/-! ### Callbacks when nothing is pending -/

/-- The inner writes that have been refused, each with the tree on which it was issued. -/
def refusedOf (as : List (Attempt P)) : List (State P × CommittedWrite P) :=
  (as.filter Attempt.refused).map fun a => (a.before.bare, a.write)

theorem refusedOf_append (as as' : List (Attempt P)) :
    refusedOf (as ++ as') = refusedOf as ++ refusedOf as' := by
  rw [refusedOf, filter_append, map_append, refusedOf, refusedOf]

theorem refusedOf_refusals (s : State P) (ws : List (CommittedWrite P)) :
    refusedOf (ws.map (Attempt.refusal s)) = ws.map (s.bare, ·) := by
  induction ws with
  | nil => rfl
  | cons w ws ih =>
    rw [refusedOf] at ih ⊢
    rw [map_cons, filter_cons_of_pos (show (Attempt.refusal s w).refused = true from rfl),
      map_cons, ih]
    rfl

/-- Everything pending has been delivered, and the inner writes of `ws` alone were refused, all on
the tree of the beginning. -/
def Drains (ws : List (CommittedWrite P)) (r r' : Reacting P) : Prop :=
  ∃ as, Reacts as r r' ∧ r'.tree.deferred = [] ∧ refusedOf as = ws.map (r.tree.bare, ·)

/-- The tree is well formed, and nothing is pending. -/
structure Rests (r : Reacting P) : Prop where
  wf : WF r.tree
  deferred : r.tree.deferred = []

theorem Drains.rests {ws : List (CommittedWrite P)} (h : Drains ws r r') (hwf : WF r.tree) :
    Rests r' := by
  obtain ⟨_, hr, hempty, _⟩ := h
  exact ⟨hr.wf hwf, hempty⟩

section Drain

variable {script : Script P}
  (hclear : ∀ i (r : Reacting P), Rests r → Drains [] r (script.handle i r))

include hclear

theorem deliverAll_drains :
    ∀ (q : List (ℕ × CallbackType × Context P)) (i : ℕ) (r : Reacting P), WF r.tree →
      r.tree.deferred = q → Drains ((List.range' i (q.length - 1)).flatMap script.reached) r
        (Reacting.deliverAll script.handle q.length i r)
  | [], i, r, _, h => ⟨[], Reacts.refl r, h, rfl⟩
  | q :: rest, i, r, hwf, h => by
    have hround : Reacting.deliverAll script.handle (q :: rest).length i r =
        Reacting.deliverAll script.handle rest.length (i + 1)
          (script.handle i (r.deliver q rest)) := by
      rw [length_cons, Reacting.deliverAll, h]
    rw [hround]
    cases rest with
    | nil =>
      -- nothing is pending when the callbacks of the last announcement run
      obtain ⟨as, hr, hempty, hrefused⟩ := hclear i (r.deliver q [])
        ⟨(Reacts.deliver h).wf hwf, rfl⟩
      exact ⟨as, (Reacts.deliver h).trans hr, hempty, hrefused⟩
    | cons q' rest =>
      have hne : (r.deliver q (q' :: rest)).tree.deferred ≠ [] := cons_ne_nil _ _
      have hstep := (Reacts.deliver h).trans (Reacts.refusals _ (script.reached i))
      rw [handle_pending script i hne]
      obtain ⟨as, hr, hempty, hrefused⟩ := deliverAll_drains (q' :: rest) (i + 1)
        { r.deliver q (q' :: rest) with
          attempts := (r.deliver q (q' :: rest)).attempts ++
            (script.reached i).map (Attempt.refusal (r.deliver q (q' :: rest)).tree) }
        (hstep.wf hwf) rfl
      refine ⟨_, hstep.trans hr, hempty, ?_⟩
      rw [nil_append, refusedOf_append, refusedOf_refusals, hrefused]
      simp only [length_cons, Nat.add_sub_cancel]
      rw [range'_succ, flatMap_cons, map_append]
      rfl

theorem executeDeferred_drains (r : Reacting P) (hwf : WF r.tree) :
    Drains ((List.range (r.tree.deferred.length - 1)).flatMap script.reached) r
      (Reacting.executeDeferred script.handle r) := by
  obtain ⟨as, hr, hempty, hrefused⟩ := deliverAll_drains hclear r.tree.deferred 0 r hwf rfl
  refine ⟨as, ?_, hempty, ?_⟩
  · have := hr.trans (Reacts.publish _)
    rwa [append_nil] at this
  · rw [hrefused, range_eq_range']

/-- A write announces at most one change, so that none of the writes of its callbacks is
refused. -/
theorem attempt_drains (w : CommittedWrite P) (h : Rests r) :
    Drains [] r (Reacting.attempt w script.handle r).2 := by
  have hrun : Reacting.attempt w script.handle r =
      ((w.body r.tree).1.map fun _ => (),
        Reacting.executeDeferred script.handle (r.applied w)) := by
    rw [Reacting.attempt, h.deferred]
  have hone : (r.applied w).tree.deferred.length - 1 = 0 := by
    have : (w.body r.tree).2.deferred.length ≤ 1 := body_deferred_le w h.wf h.deferred
    exact Nat.sub_eq_zero_of_le this
  obtain ⟨as, hr, hempty, hrefused⟩ := executeDeferred_drains hclear (r.applied w)
    ((Reacts.applied w h.deferred).wf h.wf)
  rw [hone] at hrefused
  rw [hrun]
  refine ⟨_, (Reacts.applied w h.deferred).trans hr, hempty, ?_⟩
  rw [refusedOf_append, hrefused]
  rfl

end Drain

theorem Drains.trans {r'' : Reacting P} (h : Drains [] r r') (h' : Drains [] r' r'') :
    Drains [] r r'' := by
  obtain ⟨as, hr, _, hrefused⟩ := h
  obtain ⟨as', hr', hempty', hrefused'⟩ := h'
  refine ⟨as ++ as', hr.trans hr', hempty', ?_⟩
  rw [refusedOf_append, hrefused, hrefused']
  rfl

mutual

theorem handle_drains : ∀ (script : Script P) (i : ℕ) (r : Reacting P), Rests r →
    Drains [] r (script.handle i r)
  | .mk on, i, r, h => by
    rw [Script.handle]
    exact runCallbacks_drains (on i) r h

theorem runCallbacks_drains : ∀ (cbs : List (List (CommittedWrite P × Bool × Script P)))
    (r : Reacting P), Rests r → Drains [] r (runCallbacks cbs r)
  | [], r, h => by
    rw [runCallbacks]
    exact ⟨[], Reacts.refl r, h.deferred, rfl⟩
  | cb :: cbs, r, h => by
    rw [runCallbacks]
    have hcb := runWrites_drains cb r h
    exact hcb.trans (runCallbacks_drains cbs _ (hcb.rests h.wf))

theorem runWrites_drains : ∀ (cb : List (CommittedWrite P × Bool × Script P)) (r : Reacting P),
    Rests r → Drains [] r (runWrites cb r)
  | [], r, h => by
    rw [runWrites]
    exact ⟨[], Reacts.refl r, h.deferred, rfl⟩
  | (w, caught, script) :: rest, r, h => by
    rw [runWrites]
    have hw := attempt_drains (handle_drains script) w h
    rcases hrun : Reacting.attempt w script.handle r with ⟨e | u, r'⟩ <;> rw [hrun] at hw
    · cases caught with
      | false => exact hw
      | true => exact hw.trans (runWrites_drains rest r' (hw.rests h.wf))
    · exact hw.trans (runWrites_drains rest r' (hw.rests h.wf))

end

/-! ## Main result -/

theorem reactTo_drains (h : Base s) (o : Outer P) (script : Script P) :
    Drains ((List.range ((o.body s).2.deferred.length - 1)).flatMap script.reached)
      { tree := (o.body s).2 } (reactTo o script s) :=
  executeDeferred_drains (handle_drains script) _ (o.body_wf h)

/-- The valid writes among the inner ones are all applied exactly if none is among the refused
ones. -/
theorem Leads.applied_iff {s' : State P} (h : Leads s as s') :
    (∀ a ∈ as, a.write.Valid a.before → a.Applied) ↔ ∀ p ∈ refusedOf as, ¬ p.2.Valid p.1 := by
  constructor
  · intro happlied p hp hvalid
    obtain ⟨a, ha, rfl⟩ := mem_map.mp hp
    obtain ⟨ha, hrefused⟩ := mem_filter.mp ha
    rw [(happlied a ha hvalid).passed] at hrefused
    exact Bool.false_ne_true hrefused
  · intro hnone a ha hvalid
    rcases h.applied_or_refused a ha with happlied | hrefused
    · exact happlied
    · exact absurd hvalid (hnone _ (mem_map_of_mem (mem_filter.mpr
        ⟨ha, hrefused.refused⟩)))

/-- **Writes that callbacks issue.**  Whatever the callbacks of an operation do, its announcements
and those of the inner writes are all delivered once, and between the inner writes nothing happens
to the tree.  An inner write is refused exactly if a callback of an announcement that is not the
last of the operation comes to it.  So the valid inner writes are all applied exactly if these are
not valid; a write announces at most one change, and for it this always holds. -/
theorem callback_writes_kept_iff {s : State P} (h : Reachable s) (o : Outer P) (script : Script P) :
    (((o.body s).2.deferred ++ (reactTo o script s).attempts.flatMap Attempt.queued).Perm
        (reactTo o script s).delivered ∧
      Leads (o.body s).2 (reactTo o script s).attempts (reactTo o script s).tree) ∧
    ((∀ a ∈ (reactTo o script s).attempts, a.write.Valid a.before → a.Applied) ↔
      ∀ i, i + 1 < (o.body s).2.deferred.length → ∀ w ∈ script.reached i,
        ¬ w.Valid (o.body s).2) ∧
    ∀ w, o = .write w → (o.body s).2.deferred.length ≤ 1 := by
  obtain ⟨as, hr, hempty, hrefused⟩ := reactTo_drains h.base o script
  have hattempts : (reactTo o script s).attempts = as := hr.attempts
  have hperm := hr.delivered
  rw [hempty, append_nil] at hperm
  rw [hattempts]
  refine ⟨⟨hperm.symm, hr.leads⟩, ?_, ?_⟩
  · rw [hr.leads.applied_iff, hrefused]
    simp only [mem_map, mem_flatMap, mem_range]
    constructor
    · intro hnone i hi w hw
      exact hnone _ ⟨w, ⟨i, by omega, hw⟩, rfl⟩
    · rintro hnone _ ⟨w, ⟨i, hi, hw⟩, rfl⟩
      exact hnone i (by omega) w hw
  · rintro w rfl
    have hone : (w.body s).2.deferred.length ≤ 1 := body_deferred_le w h.base.wf h.base.deferred
    show ((do let _ ← w.body : M P Unit) s).2.deferred.length ≤ 1
    rw [bind_apply]
    rcases hrun : w.body s with ⟨e | rev, s'⟩ <;> rwa [hrun] at hone

namespace Sample

/-- The callback that is called first changes the version of an adapter, after a removal that is not
valid and whose exception it catches. -/
def touch : Script sample :=
  .mk fun i => if i = 0 then
    [[(.remove ["", "adapters", "99"], true, Script.silent),
      (.update ["", "adapters", "2"] (leaf .adapter "2" "z") false, false, Script.silent)]]
  else []

/-- A new adapter. -/
def oneNew : Outer sample := .write newAdapter

/-- A transaction with two new adapters is open. -/
def twoNew : State sample :=
  run watched [.openTransaction, .add ["", "adapters"] (leaf .adapter "4" "d") (some 0),
    .add ["", "adapters"] (leaf .adapter "5" "e") (some 0)]

end Sample

open Sample

theorem callback_writes_kept_sample :
    (reactTo oneNew touch watched).attempts.length = 2 ∧
      ∀ a ∈ (reactTo oneNew touch watched).attempts,
        a.write.Valid a.before → a.Applied := by
  refine ⟨by decide +kernel, ?_⟩
  obtain ⟨_, hiff, hone⟩ :=
    callback_writes_kept_iff (reachable_start.step _) oneNew touch
  refine hiff.mpr fun i hi => ?_
  have := hone _ rfl
  omega

/-- The commit of two new adapters announces both.  The callback of the first announcement updates
an adapter after a removal that fails; the update is valid, but it is refused since the second
announcement is pending. -/
theorem pending_announcement_refuses_write :
    ∃ a ∈ (reactTo (.commit 0) touch twoNew).attempts,
      a.write.Valid a.before ∧ ¬ a.Applied := by
  have hrun : ((reactTo (.commit 0) touch twoNew).attempts.any fun a =>
      a.refused && (exec a.write.op a.before.bare).1.toBool) = true := by
    decide +kernel
  obtain ⟨a, ha, hrefused⟩ := any_eq_true.mp hrun
  rw [Bool.and_eq_true] at hrefused
  refine ⟨a, ha, ?_, fun happlied => ?_⟩
  · show (exec a.write.op a.before.bare).1 = .ok ()
    rcases hexec : (exec a.write.op a.before.bare).1 with e | u
    · rw [hexec] at hrefused
      exact absurd hrefused.2 Bool.false_ne_true
    · rfl
  · rw [happlied.passed] at hrefused
    exact Bool.false_ne_true hrefused.1

end Voltha.Config
