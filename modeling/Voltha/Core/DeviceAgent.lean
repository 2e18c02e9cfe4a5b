import Voltha.Core.Messages
import Voltha.Lib.Act
import Voltha.Lib.Run

/-!
# The device agent

`DeviceAgent` watches the updates of its device.  `_validate_update` runs before an update, and is
meant to block it by raising an exception when `admin_state_fsm` forbids the transition from the
state that was processed last; `_process_update` runs after it and drives the adapter.

Both are decorated with `inlineCallbacks`, so that an exception inside becomes a failed `Deferred`,
which is a return value.  `ConfigProxy.invoke_callbacks` hands it on as the context, and
`ConfigNode._do_update` does not look at it.

* `DeviceAgent`: the stored message, the message that was processed last, the transitions that wait
  for the adapter, and a record of all writes.
* `proxyUpdate`: an update through the proxy, with the callbacks around it; `proxyUpdate_fuel` says
  that two levels of nested updates are all there can be.
* `forbidden_transition_refused_iff`: forbidden transitions are kept from the store exactly if
  nobody asks for one.
-/

namespace Voltha.Core

open List Act

/-! ## The state machine -/

/-- The handlers of `admin_state_fsm`. -/
inductive Handler where
  | activateDevice
  | propagateChange
  | disableDevice
  | abandonDevice
  | reenableDevice
  deriving DecidableEq, Repr

/-- An entry of `admin_state_fsm`: `False`, or a handler. -/
inductive FsmEntry where
  | invalid
  | handler (h : Handler)
  deriving DecidableEq, Repr

/-- `admin_state_fsm`: missing entries yield no-op. -/
def adminStateFsm : List ((AdminState × AdminState) × FsmEntry) :=
  [((.unknown, .enabled), .handler .activateDevice),
   ((.preprovisioned, .unknown), .invalid),
   ((.preprovisioned, .enabled), .handler .activateDevice),
   ((.preprovisioned, .downloadingImage), .invalid),
   ((.enabled, .unknown), .invalid),
   ((.enabled, .enabled), .handler .propagateChange),
   ((.enabled, .disabled), .handler .disableDevice),
   ((.enabled, .preprovisioned), .handler .abandonDevice),
   ((.disabled, .unknown), .invalid),
   ((.disabled, .preprovisioned), .handler .abandonDevice),
   ((.disabled, .enabled), .handler .reenableDevice),
   ((.disabled, .downloadingImage), .invalid),
   ((.downloadingImage, .disabled), .invalid)]

/-- The table forbids the transition. -/
def Forbidden (old new : AdminState) : Prop := adminStateFsm.lookup (old, new) = some .invalid

instance (old new : AdminState) : Decidable (Forbidden old new) :=
  inferInstanceAs (Decidable (_ = _))

theorem not_forbidden_self (a : AdminState) : ¬ Forbidden a a := by
  cases a <;> decide

/-- The number of an admin state, which is what is printed. -/
def AdminState.number : AdminState → ℕ
  | .unknown => 0
  | .preprovisioned => 1
  | .enabled => 2
  | .disabled => 3
  | .downloadingImage => 4

/-! ## Messages of one device -/

/-- The messages of the device with this id. -/
def DeviceOf (id : String) : Type := { d : Device // d.id = id }

instance (id : String) : DecidableEq (DeviceOf id) :=
  inferInstanceAs (DecidableEq { d : Device // d.id = id })

variable {id : String}

/-- `check_access_violation`, for devices.  The id of a message of the device does not change. -/
def checkAccessViolation (new old : DeviceOf id) : Except Err Unit :=
  let violatedFields :=
    (if new.1.root ≠ old.1.root then ["\"root\""] else []) ++
    (if new.1.operStatus ≠ old.1.operStatus then ["\"oper_status\""] else []) ++
    (if new.1.reason ≠ old.1.reason then ["\"reason\""] else []) ++
    (if new.1.connectStatus ≠ old.1.connectStatus then ["\"connect_status\""] else [])
  if violatedFields = [] then .ok ()
  else .error (.valueError
    ("Cannot change read-only field(s) " ++ String.intercalate ", " violatedFields))

/-- `device.oper_status = OperStatus.ACTIVATING` -/
def DeviceOf.activating (d : DeviceOf id) : DeviceOf id :=
  ⟨{ d.1 with operStatus := .activating }, d.2⟩

/-! ## The state -/

/-- The data of the latest revision of the device node: the message object, and what it was when
the revision was hashed.  The two differ when a handler has written to the object. -/
structure StoredDevice (id : String) where
  hashed : DeviceOf id
  data : DeviceOf id

/-- A call of `proxy.update`: the state processed last and the stored message at that moment, what
was to be written, and the message that was stored then, before the announcements. -/
structure DeviceWrite (id : String) where
  last : AdminState
  before : DeviceOf id
  device : DeviceOf id
  after : DeviceOf id

/-- The write has left the stored message as it was if its transition is forbidden. -/
def DeviceWrite.Refused (w : DeviceWrite id) : Prop :=
  Forbidden w.last w.device.1.adminState → w.after = w.before

instance (w : DeviceWrite id) : Decidable w.Refused :=
  inferInstanceAs (Decidable (_ → _))

/-- The state around an agent.  `waiting` holds the calls of `_process_update` that wait for the
adapter, with the handler that does; `writes` is what has happened so far. -/
structure DeviceAgent (id : String) where
  node : StoredDevice id
  lastData : Option (DeviceOf id)
  waiting : List (Handler × DeviceOf id) := []
  writes : List (DeviceWrite id) := []

/-- `getattr(self.last_data, 'admin_state', AdminState.UNKNOWN)` -/
def DeviceAgent.oldAdminState (s : DeviceAgent id) : AdminState :=
  match s.lastData with
  | some d => d.1.adminState
  | none => .unknown

/-- What a call of the adapter comes to. -/
inductive Reply where
  | returns
  | raises (text : String)
  | waits
  deriving DecidableEq, Repr

/-- How far a handler has come. -/
inductive Progress where
  | done
  | waits
  deriving DecidableEq, Repr

/-- `yield self.adapter_agent.…` -/
def Reply.answer : Reply → Act (DeviceAgent id) Err Progress
  | .returns => pure .done
  | .raises text => raise (.exception text)
  | .waits => pure .waits

/-- `@inlineCallbacks`: the outcome is a `Deferred`, which is returned. -/
def inlineCallbacks {σ α : Type} (x : Act σ Err α) : Act σ Err (Except Err α) := fun s =>
  (.ok (x s).1, (x s).2)

/-! ## The handlers -/

section Handlers

-- `self.proxy.update('/', device)`, for the updates that the agent makes itself
variable (update : DeviceOf id → Act (DeviceAgent id) Err Unit)

/-- `update_device`: its `Deferred` is not looked at.  The replay to the adapter that follows does
not touch the device. -/
def updateDevice (device : DeviceOf id) : Act (DeviceAgent id) Err Unit := do
  modify fun s => { s with lastData := some device }
  let _ ← inlineCallbacks (update device)

/-- `_activate_device`.  The message it is called with is the stored one, so the assignment to
`oper_status` is seen in the store. -/
def activateDevice (reply : Reply) : Act (DeviceAgent id) Err Progress := do
  modify fun s => { s with node := { s.node with data := s.node.data.activating } }
  let s ← read
  updateDevice update s.node.data
  reply.answer

/-- `_disable_device`: exceptions are logged. -/
def disableDevice : Reply → Act (DeviceAgent id) Err Progress
  | .waits => pure .waits
  | _ => pure .done

/-- A handler, called with the stored message unless it is a dry run. -/
def Handler.run (dryRun : Bool) (reply : Reply) : Handler → Act (DeviceAgent id) Err Progress
  | .activateDevice => if dryRun then pure .done else Core.activateDevice update reply
  | .propagateChange => pure .done
  | .disableDevice => if dryRun then pure .done else Core.disableDevice reply
  | .abandonDevice => raise (.notImplementedError "")
  | .reenableDevice => if dryRun then pure .done else reply.answer

/-- `_process_state_transitions` -/
def processStateTransitions (dryRun : Bool) (reply : Reply) (device : DeviceOf id) :
    Act (DeviceAgent id) Err Progress := fun s =>
  match adminStateFsm.lookup (s.oldAdminState, device.1.adminState) with
  | none => (.ok .done, s)
  | some .invalid =>
    (.error (.invalidStateTransition
      s!"{s.oldAdminState.number} -> {device.1.adminState.number}"), s)
  | some (.handler h) => h.run update dryRun reply s

/-- `_validate_update`, before it is decorated. -/
def validateUpdate (reply : Reply) (device : DeviceOf id) : Act (DeviceAgent id) Err Unit := do
  let _ ← processStateTransitions update true reply device

/-- The handler that a transition to the stored message runs. -/
def DeviceAgent.handler (s : DeviceAgent id) : Option FsmEntry :=
  adminStateFsm.lookup (s.oldAdminState, s.node.data.1.adminState)

/-- The end of `_process_update`: the message is the one processed last, unless the handler still
waits for the adapter. -/
def finishUpdate (entry : Option FsmEntry) : Progress → DeviceAgent id → DeviceAgent id
  | .done, s => { s with lastData := some s.node.data }
  | .waits, s =>
    match entry with
    | some (.handler h) => { s with waiting := s.waiting ++ [(h, s.node.data)] }
    | _ => s

/-- `_process_update`, before it is decorated, for the stored message. -/
def processUpdate (reply : Reply) : Act (DeviceAgent id) Err Unit := do
  let s ← read
  let progress ← processStateTransitions update false reply s.node.data
  modify (finishUpdate s.handler progress)

end Handlers

/-! ## Updates -/

/-- `_make_latest`: a revision with the hash of the latest one does not replace it. -/
def DeviceAgent.makeLatest (s : DeviceAgent id) (device : DeviceOf id) : DeviceAgent id :=
  if device = s.node.hashed then s else { s with node := ⟨device, device⟩ }

/-- `_do_update`: whether a change is announced.  What the `PRE_UPDATE` callback returns is not
looked at. -/
def doUpdate (update : DeviceOf id → Act (DeviceAgent id) Err Unit) (strict : Bool) (reply : Reply)
    (device : DeviceOf id) : Act (DeviceAgent id) Err Bool := do
  let _ ← inlineCallbacks (validateUpdate update reply device)
  let s ← read
  if s.node.data = device then pure false
  else do
    ofExcept (if strict then checkAccessViolation device s.node.data else .ok ())
    modify fun s => s.makeLatest device
    pure true

/-- `ConfigProxy.update('/', device, strict)`: the update, and after it the announcement, whose
`Deferred` is not looked at.  The announced message is that of the latest revision, also when the
revision was not replaced, since revisions with one hash share their data.  Only the updates that a
handler makes are nested. -/
def proxyUpdate : ℕ → Bool → Reply → DeviceOf id → Act (DeviceAgent id) Err Unit
  | 0, _, _, _ => raise (.exception "maximum recursion depth exceeded")
  | fuel + 1, strict, reply, device => fun s =>
    let update := proxyUpdate fuel false reply
    let s₁ := (doUpdate update strict reply device s).2
    let s₂ := { s₁ with writes := s₁.writes ++
      [⟨s.oldAdminState, s.node.data, device, s₁.node.data⟩] }
    match (doUpdate update strict reply device s).1 with
    | .ok true => (.ok (), (inlineCallbacks (processUpdate update reply) s₂).2)
    | .ok false => (.ok (), s₂)
    | .error e => (.error e, s₂)

/-- What happens around an agent: somebody updates the device through its proxy; the adapter calls
`update_device`; the agent is started on the stored message; or a transition that waits for the
adapter goes on, after a result or (`ok = false`) after an exception. -/
inductive AgentEvent (id : String) where
  | update (strict : Bool) (device : DeviceOf id) (reply : Reply)
  | updateDevice (device : DeviceOf id) (reply : Reply)
  | start (reply : Reply)
  | resume (i : ℕ) (ok : Bool)

/-- The rest of a waiting `_process_update`.  `_disable_device` catches exceptions. -/
def DeviceAgent.resume (s : DeviceAgent id) (i : ℕ) (ok : Bool) : DeviceAgent id :=
  match s.waiting[i]? with
  | none => s
  | some (h, device) =>
    let s' := { s with waiting := s.waiting.eraseIdx i }
    if ok || h == .disableDevice then { s' with lastData := some device } else s'

/-- The state after an event. -/
def DeviceAgent.after (s : DeviceAgent id) : AgentEvent id → DeviceAgent id
  | .update strict device reply => (proxyUpdate 2 strict reply device s).2
  | .updateDevice device reply => (Core.updateDevice (proxyUpdate 2 false reply) device s).2
  | .start reply => (inlineCallbacks (processUpdate (proxyUpdate 2 false reply) reply) s).2
  | .resume i ok => s.resume i ok

section

variable (update : DeviceOf id → Act (DeviceAgent id) Err Unit) (strict : Bool) (reply : Reply)
  (device : DeviceOf id) (s : DeviceAgent id)

theorem updateDevice_apply :
    updateDevice update device s =
      (inlineCallbacks (update device) >>= fun _ => pure ())
        { s with lastData := some device } := rfl

theorem activateDevice_apply :
    activateDevice update reply s =
      (updateDevice update s.node.data.activating >>= fun _ => reply.answer)
        { s with node := { s.node with data := s.node.data.activating } } := rfl

/-! ## Validation has no effect -/

theorem handler_dryRun (h : Handler) : (h.run update true reply s).2 = s := by
  cases h <;> rfl

theorem validateUpdate_state : (inlineCallbacks (validateUpdate update reply device) s).2 = s := by
  have hdry : (processStateTransitions update true reply device s).2 = s := by
    unfold processStateTransitions
    split
    · rfl
    · rfl
    · exact handler_dryRun update reply s _
  show (validateUpdate update reply device s).2 = s
  unfold validateUpdate
  rw [bind_apply]
  rcases hx : processStateTransitions update true reply device s with ⟨_ | a, s'⟩
  · rw [hx] at hdry
    exact hdry
  · rw [hx] at hdry
    exact hdry

/-- **What is written does not depend on the state machine.** -/
theorem doUpdate_eq :
    doUpdate update strict reply device s =
      if s.node.data = device then (.ok false, s)
      else match (if strict then checkAccessViolation device s.node.data else .ok ()) with
        | .error e => (.error e, s)
        | .ok () => (.ok true, s.makeLatest device) := by
  have hpre : inlineCallbacks (validateUpdate update reply device) s =
      (.ok (validateUpdate update reply device s).1, s) :=
    Prod.ext rfl (validateUpdate_state update reply device s)
  rw [doUpdate, bind_of_ok hpre, read_bind]
  split
  · rfl
  · rcases hcheck : (if strict then checkAccessViolation device s.node.data else .ok ()) with
      e | ⟨⟩
    · exact Act.bind_of_error (by rw [Act.ofExcept])
    · rw [ofExcept_ok_bind]
      rfl

/-- The update replaces the stored message: it is another message, also other than the one that the
stored revision was hashed with, and a strict update changes no read-only field. -/
def DeviceAgent.Replaces (s : DeviceAgent id) (strict : Bool) (device : DeviceOf id) : Prop :=
  device ≠ s.node.data ∧ device ≠ s.node.hashed ∧
    (strict = true → checkAccessViolation device s.node.data = .ok ())

instance (s : DeviceAgent id) (strict : Bool) (device : DeviceOf id) :
    Decidable (s.Replaces strict device) := inferInstanceAs (Decidable (_ ∧ _ ∧ _))

open DeviceAgent

theorem doUpdate_data :
    (doUpdate update strict reply device s).2.node.data =
      if s.Replaces strict device then device else s.node.data := by
  rw [doUpdate_eq]
  by_cases hdata : s.node.data = device
  · rw [if_pos hdata, if_neg fun h => h.1 hdata.symm]
  · rw [if_neg hdata]
    by_cases hhash : device = s.node.hashed
    · have hnot : ¬ s.Replaces strict device := fun h => h.2.1 hhash
      rw [if_neg hnot]
      split
      · rfl
      · rw [makeLatest, if_pos hhash]
    · split
      · next e hcheck =>
        rw [if_neg]
        rintro ⟨-, -, hstrict⟩
        cases strict with
        | false => cases hcheck
        | true =>
          rw [if_pos rfl, hstrict rfl] at hcheck
          cases hcheck
      · next hcheck =>
        rw [makeLatest, if_neg hhash, if_pos]
        refine ⟨Ne.symm hdata, hhash, ?_⟩
        rintro rfl
        rwa [if_pos rfl] at hcheck

end

/-! ## What the agent writes itself -/

/-- The writes since `s` ask for no forbidden transition. -/
def Lawful (s s' : DeviceAgent id) : Prop :=
  ∃ ws, s'.writes = s.writes ++ ws ∧ ∀ w ∈ ws, ¬ Forbidden w.last w.device.1.adminState

namespace Lawful

variable {s s' s'' : DeviceAgent id}

theorem of_writes_eq (h : s'.writes = s.writes) : Lawful s s' :=
  ⟨[], by rw [h, append_nil], fun _ hw => absurd hw not_mem_nil⟩

theorem trans (h : Lawful s s') (h' : Lawful s' s'') : Lawful s s'' := by
  obtain ⟨ws, heq, hws⟩ := h
  obtain ⟨ws', heq', hws'⟩ := h'
  refine ⟨ws ++ ws', by rw [heq', heq, append_assoc], fun w hw => ?_⟩
  rcases mem_append.mp hw with hw | hw
  · exact hws w hw
  · exact hws' w hw

/-- Processing a change writes nothing but through `update_device`. -/
theorem processUpdate {update : DeviceOf id → Act (DeviceAgent id) Err Unit} (reply : Reply)
    (hupdate : ∀ device (s : DeviceAgent id), Lawful s (Core.updateDevice update device s).2)
    (s : DeviceAgent id) : Lawful s (Core.processUpdate update reply s).2 := by
  have hanswer : ∀ s : DeviceAgent id, Lawful s (reply.answer s).2 := by
    intro s
    cases reply <;> exact of_writes_eq rfl
  have hactivate : Lawful s (activateDevice update reply s).2 := by
    rw [activateDevice_apply]
    refine wp_bind_keep (I := Lawful s) ?_ ?_
    · exact trans (of_writes_eq rfl) (hupdate _ _)
    · exact fun _ s' hs' => hs'.trans (hanswer s')
  have htransitions : Lawful s (processStateTransitions update false reply s.node.data s).2 := by
    unfold processStateTransitions
    split
    · exact of_writes_eq rfl
    · exact of_writes_eq rfl
    · next h _ =>
      cases h with
      | activateDevice => exact hactivate
      | propagateChange => exact of_writes_eq rfl
      | disableDevice => cases reply <;> exact of_writes_eq rfl
      | abandonDevice => exact of_writes_eq rfl
      | reenableDevice => exact hanswer s
  have hfinish : ∀ entry progress (s : DeviceAgent id),
      (finishUpdate entry progress s).writes = s.writes := by
    intro entry progress s
    unfold finishUpdate
    split
    · rfl
    · split <;> rfl
  have hrun : Core.processUpdate update reply s =
      (do
        let progress ← processStateTransitions update false reply s.node.data
        modify (finishUpdate s.handler progress)) s := rfl
  rw [hrun]
  refine wp_bind_keep (I := Lawful s) htransitions ?_
  exact fun progress s' hs' => hs'.trans (of_writes_eq (hfinish _ progress s'))

end Lawful

/-- The state that a write leaves, before its announcement. -/
def DeviceAgent.written (s : DeviceAgent id) (strict : Bool) (device : DeviceOf id) :
    DeviceWrite id :=
  ⟨s.oldAdminState, s.node.data, device, if s.Replaces strict device then device else s.node.data⟩

/-- An update records its write; what comes after it is the agent's own. -/
theorem proxyUpdate_writes {fuel : ℕ} {reply : Reply}
    (hupdate : ∀ device (s : DeviceAgent id),
      Lawful s (updateDevice (proxyUpdate fuel false reply) device s).2)
    (strict : Bool) (device : DeviceOf id) (s : DeviceAgent id) :
    ∃ ws, (proxyUpdate (fuel + 1) strict reply device s).2.writes =
      s.writes ++ s.written strict device :: ws ∧
        ∀ w ∈ ws, ¬ Forbidden w.last w.device.1.adminState := by
  have hwrites : (doUpdate (proxyUpdate fuel false reply) strict reply device s).2.writes =
      s.writes := by
    rw [doUpdate_eq]
    split
    · rfl
    · split
      · rfl
      · unfold DeviceAgent.makeLatest
        split <;> rfl
  have hdata := doUpdate_data (proxyUpdate fuel false reply) strict reply device s
  rw [proxyUpdate]
  dsimp only
  rw [hwrites, hdata]
  split
  · obtain ⟨ws, heq, hws⟩ := Lawful.processUpdate reply hupdate
      { (doUpdate (proxyUpdate fuel false reply) strict reply device s).2 with
        writes := s.writes ++ [s.written strict device] }
    refine ⟨ws, ?_, hws⟩
    rw [show s.writes ++ s.written strict device :: ws =
      s.writes ++ [s.written strict device] ++ ws by simp]
    exact heq
  · exact ⟨[], rfl, fun _ hw => absurd hw not_mem_nil⟩
  · exact ⟨[], rfl, fun _ hw => absurd hw not_mem_nil⟩

/-- The agent sets `last_data` before it writes, so its own writes are no transitions. -/
theorem Lawful.updateDevice (reply : Reply) :
    ∀ (fuel : ℕ) (device : DeviceOf id) (s : DeviceAgent id),
      Lawful s (updateDevice (proxyUpdate fuel false reply) device s).2
  | 0, _, _ => Lawful.of_writes_eq rfl
  | fuel + 1, device, s => by
    obtain ⟨ws, heq, hws⟩ := proxyUpdate_writes (fun d s => Lawful.updateDevice reply fuel d s)
      false device { s with lastData := some device }
    refine ⟨_, heq, fun w hw => ?_⟩
    rcases mem_cons.mp hw with rfl | hw
    · exact not_forbidden_self _
    · exact hws w hw

/-! ## Nested updates -/

/-- An update with the stored message announces nothing. -/
theorem proxyUpdate_stored (fuel : ℕ) (strict : Bool) (reply : Reply) (s : DeviceAgent id) :
    proxyUpdate (fuel + 1) strict reply s.node.data s =
      (.ok (), { s with writes := s.writes ++
        [⟨s.oldAdminState, s.node.data, s.node.data, s.node.data⟩] }) := by
  have hdo : doUpdate (proxyUpdate fuel false reply) strict reply s.node.data s =
      (.ok false, s) := by
    rw [doUpdate_eq, if_pos rfl]
  rw [proxyUpdate]
  dsimp only
  rw [hdo]

theorem processUpdate_fuel (fuel : ℕ) (reply : Reply) :
    (processUpdate (proxyUpdate (fuel + 1) false reply) reply : Act (DeviceAgent id) Err Unit) =
      processUpdate (proxyUpdate 1 false reply) reply := by
  have hactivate : ∀ s : DeviceAgent id,
      activateDevice (proxyUpdate (fuel + 1) false reply) reply s =
        activateDevice (proxyUpdate 1 false reply) reply s := by
    intro s
    -- the nested update comes with the message that is stored
    have hnested : ∀ s : DeviceAgent id,
        updateDevice (proxyUpdate (fuel + 1) false reply) s.node.data s =
          updateDevice (proxyUpdate 1 false reply) s.node.data s := by
      intro s
      have hinner : inlineCallbacks (proxyUpdate (fuel + 1) false reply s.node.data)
            { s with lastData := some s.node.data } =
          inlineCallbacks (proxyUpdate 1 false reply s.node.data)
            { s with lastData := some s.node.data } := by
        rw [inlineCallbacks, inlineCallbacks,
          proxyUpdate_stored fuel false reply { s with lastData := some s.node.data },
          proxyUpdate_stored 0 false reply { s with lastData := some s.node.data }]
      rw [updateDevice_apply, updateDevice_apply, bind_apply, hinner]
      rfl
    rw [activateDevice_apply, activateDevice_apply, bind_apply,
      hnested { s with node := { s.node with data := s.node.data.activating } }]
    rfl
  have htransitions : ∀ device : DeviceOf id,
      processStateTransitions (proxyUpdate (fuel + 1) false reply) false reply device =
        processStateTransitions (proxyUpdate 1 false reply) false reply device := by
    intro device
    funext s
    unfold processStateTransitions
    split
    · rfl
    · rfl
    · next h _ =>
      cases h with
      | activateDevice => exact hactivate s
      | propagateChange => rfl
      | disableDevice => rfl
      | abandonDevice => rfl
      | reenableDevice => rfl
  unfold processUpdate
  simp only [htransitions]

/-- **Two levels are all there can be**: the only update that a handler makes has the message that
is stored. -/
theorem proxyUpdate_fuel (fuel : ℕ) (strict : Bool) (reply : Reply) :
    (proxyUpdate (fuel + 2) strict reply : DeviceOf id → Act (DeviceAgent id) Err Unit) =
      proxyUpdate 2 strict reply := by
  funext device s
  rw [proxyUpdate, proxyUpdate]
  dsimp only
  rw [doUpdate_eq, doUpdate_eq, processUpdate_fuel]

/-! ## Runs -/

/-- Nobody asks for a forbidden transition: an update from outside whose transition is forbidden
would leave the stored message as it is anyway. -/
def AgentEvent.Legal (s : DeviceAgent id) : AgentEvent id → Prop
  | .update strict device _ =>
    ¬ (Forbidden s.oldAdminState device.1.adminState ∧ s.Replaces strict device)
  | _ => True

instance (s : DeviceAgent id) : ∀ e : AgentEvent id, Decidable (e.Legal s)
  | .update .. => inferInstanceAs (Decidable (¬ _))
  | .updateDevice .. => isTrue trivial
  | .start .. => isTrue trivial
  | .resume .. => isTrue trivial

/-- All writes so far have been refused if their transition is forbidden. -/
def DeviceAgent.AllRefused (s : DeviceAgent id) : Prop := ∀ w ∈ s.writes, w.Refused

variable {s : DeviceAgent id}

theorem Lawful.allRefused {s' : DeviceAgent id} (h : Lawful s s') (hs : s.AllRefused) :
    s'.AllRefused := by
  obtain ⟨ws, heq, hws⟩ := h
  intro w hw hforbidden
  rw [heq] at hw
  rcases mem_append.mp hw with hw | hw
  · exact hs w hw hforbidden
  · exact absurd hforbidden (hws w hw)

theorem written_refused_iff (s : DeviceAgent id) (strict : Bool) (device : DeviceOf id)
    (reply : Reply) :
    (s.written strict device).Refused ↔ (AgentEvent.update strict device reply).Legal s := by
  unfold DeviceWrite.Refused AgentEvent.Legal DeviceAgent.written
  dsimp only
  rw [not_and]
  refine imp_congr_right fun _ => ?_
  split
  · next h => exact ⟨fun heq => absurd heq h.1, fun hnot => absurd h hnot⟩
  · next h => exact ⟨fun _ => h, fun _ => rfl⟩

theorem DeviceAgent.AllRefused.after (hs : s.AllRefused) {e : AgentEvent id} (hlegal : e.Legal s) :
    (s.after e).AllRefused := by
  cases e with
  | update strict device reply =>
    obtain ⟨ws, heq, hws⟩ :=
      proxyUpdate_writes (Lawful.updateDevice reply 1) strict device s
    intro w hw hforbidden
    rw [DeviceAgent.after, heq] at hw
    rcases mem_append.mp hw with hw | hw
    · exact hs w hw hforbidden
    · rcases mem_cons.mp hw with rfl | hw
      · exact (written_refused_iff s strict device reply).mpr hlegal hforbidden
      · exact absurd hforbidden (hws w hw)
  | updateDevice device reply => exact (Lawful.updateDevice reply 2 device s).allRefused hs
  | start reply =>
    exact (Lawful.processUpdate reply (Lawful.updateDevice reply 2) s).allRefused hs
  | resume i ok =>
    refine (Lawful.of_writes_eq ?_).allRefused hs
    show (s.resume i ok).writes = s.writes
    unfold resume
    split
    · rfl
    · dsimp only
      split <;> rfl

theorem not_allRefused_after {e : AgentEvent id} (hlegal : ¬ e.Legal s) :
    ¬ (s.after e).AllRefused := by
  cases e with
  | update strict device reply =>
    intro h
    obtain ⟨ws, heq, -⟩ := proxyUpdate_writes (Lawful.updateDevice reply 1) strict device s
    refine hlegal ((written_refused_iff s strict device reply).mp (h _ ?_))
    rw [DeviceAgent.after, heq]
    exact mem_append_right _ mem_cons_self
  | updateDevice device reply => exact absurd trivial hlegal
  | start reply => exact absurd trivial hlegal
  | resume i ok => exact absurd trivial hlegal

/-- **Forbidden transitions.**  Take any run of updates from outside, of updates by the agent and
of answers of the adapter, from any stored message and any message processed last.  All updates
whose transition the table forbids have left the stored message as it was, after every event of
the run, exactly if none of the updates from outside would replace the stored message by one whose
state is forbidden after the state processed last. -/
theorem forbidden_transition_refused_iff (device : DeviceOf id) (lastData : Option (DeviceOf id))
    (events : List (AgentEvent id)) :
    AllAlong DeviceAgent.after (fun s e => e.Legal s)
        { node := ⟨device, device⟩, lastData := lastData } events ↔
      ∀ l, l <+: events → ∀ w ∈ (l.foldl DeviceAgent.after
        { node := ⟨device, device⟩, lastData := lastData }).writes, w.Refused := by
  refine allAlong_iff (J := DeviceAgent.AllRefused) (fun _ h => h) ?_ ?_ ?_
  · exact fun s e hs he => hs.after he
  · exact fun s e _ he => not_allRefused_after he
  · exact fun w hw => absurd hw not_mem_nil

namespace Sample

/-- A device in an admin state. -/
def deviceIn (a : AdminState) : DeviceOf "onu" := ⟨{ id := "onu", adminState := a }, rfl⟩

end Sample

open Sample

/-- A preprovisioned device is set back to `UNKNOWN`: the table forbids it, and it is stored. -/
theorem forbidden_update_stored :
    ∃ events : List (AgentEvent "onu"),
      ∃ w ∈ (events.foldl DeviceAgent.after
          { node := ⟨deviceIn .preprovisioned, deviceIn .preprovisioned⟩,
            lastData := none }).writes,
        Forbidden w.last w.device.1.adminState ∧
          w.before.1.adminState = .preprovisioned ∧ w.after.1.adminState = .unknown := by
  refine ⟨[.start .returns, .update false (deviceIn .unknown) .returns], ?_⟩
  refine ⟨⟨.preprovisioned, deviceIn .preprovisioned, deviceIn .unknown,
    deviceIn .unknown⟩, ?_, ?_⟩
  · exact mem_singleton.mpr rfl
  · decide

end Voltha.Core
