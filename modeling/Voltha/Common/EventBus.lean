import Voltha.Lib.OrderedDict
import Voltha.Lib.Run

/-!
# The event bus

`EventBus` keeps the subscriptions to a topic in one list for each topic name, and those to a
regular expression in the list of the key `None`.  `publish` takes the list of the topic and adds
the matching subscriptions of the other list to it.  If nobody has ever subscribed to the topic by
its name, the list is a new one; otherwise it is the list in the table, and the added subscriptions
stay there: they are called once more with every further `publish`, and `unsubscribe` does not find
them.

* `Registry`: what the bus is for, the subscriptions that were made and not undone.
* `publish_exact_iff`: a bus that agrees with the registry delivers exactly once and stays as it is
  exactly if nothing is added to a list of the table.
* `publishes_exactly_iff`: the same for all calls of `publish` in a sequence of calls.
-/

namespace Voltha.Common

open List hiding get
open OrderedDict

/-- A topic to subscribe to: a name, or a compiled regular expression with its `match`. -/
inductive Topic where
  | explicit (name : String)
  | regex (isMatch : String → Bool)

/-- `_get_topic_key`. -/
def Topic.key : Topic → Option String
  | .explicit name => some name
  | .regex _ => none

/-- The topic selects messages published to `topic`. -/
def Topic.selects : Topic → String → Bool
  | .explicit name, topic => name = topic
  | .regex isMatch, topic => isMatch topic

variable {κ μ : Type}

/-- `_Subscription`.  `id` is the identity of the object. -/
structure Subscription (κ μ : Type) where
  id : ℕ
  predicate : Option (μ → Except String Bool)
  callback : κ
  topic : Topic

/-- The predicate accepts the message; one that raises does not. -/
def Subscription.passes (sub : Subscription κ μ) (msg : μ) : Bool :=
  match sub.predicate with
  | none => true
  | some predicate =>
    match predicate msg with
    | .ok b => b
    | .error _ => false

/-- `EventBus`, with the identity of the next subscription. -/
structure EventBus (κ μ : Type) where
  subscriptions : List (Option String × List (Subscription κ μ))
  subsTopicMap : List (ℕ × Option String)
  next : ℕ

namespace EventBus

/-- A new bus. -/
def init : EventBus κ μ := ⟨[], [], 0⟩

/-- The list of a key, if there is one. -/
def listOf (bus : EventBus κ μ) (key : Option String) : Option (List (Subscription κ μ)) :=
  get bus.subscriptions key

/-- Another list of a key. -/
def setList (bus : EventBus κ μ) (key : Option String) (l : List (Subscription κ μ)) :
    EventBus κ μ :=
  { bus with subscriptions := insert key l bus.subscriptions }

theorem listOf_setList (bus : EventBus κ μ) (key key' : Option String)
    (l : List (Subscription κ μ)) :
    (bus.setList key l).listOf key' = if key' = key then some l else bus.listOf key' :=
  get_insert ..

/-- `list_subscribers`. -/
def listSubscribers (bus : EventBus κ μ) : Option String → List (Subscription κ μ)
  | none => bus.subscriptions.flatMap Prod.snd
  | some topic => (bus.listOf (some topic)).getD []

/-- `subscribe`. -/
def subscribe (bus : EventBus κ μ) (topic : Topic) (callback : κ)
    (predicate : Option (μ → Except String Bool)) : EventBus κ μ :=
  let subscription : Subscription κ μ := ⟨bus.next, predicate, callback, topic⟩
  { bus.setList topic.key ((bus.listOf topic.key).getD [] ++ [subscription]) with
    subsTopicMap := insert bus.next topic.key bus.subsTopicMap
    next := bus.next + 1 }

/-- `unsubscribe`, which raises for an object that is not in the list of its key. -/
def unsubscribe (bus : EventBus κ μ) (id : ℕ) : Except String (EventBus κ μ) :=
  match get bus.subsTopicMap id with
  | none => .error "KeyError"
  | some key =>
    match bus.listOf key with
    | none => .error "KeyError"
    | some l =>
      if id ∈ l.map Subscription.id then .ok (bus.setList key (l.eraseP (·.id = id)))
      else .error "ValueError: list.remove(x): x not in list"

/-- The subscriptions to regular expressions that match the topic. -/
def matching (bus : EventBus κ μ) (topic : String) : List (Subscription κ μ) :=
  ((bus.listOf none).getD []).filter fun sub => sub.topic.selects topic

/-- `publish`: the bus after it and the subscriptions whose callbacks are called.  An exception of
a callback is only logged. -/
def publish (bus : EventBus κ μ) (topic : String) (msg : μ) :
    EventBus κ μ × List (Subscription κ μ) :=
  let subscribers := (bus.listOf (some topic)).getD [] ++ bus.matching topic
  -- `extend` changes the list in the table, if it is from there
  (if (bus.listOf (some topic)).isSome then bus.setList (some topic) subscribers else bus,
    subscribers.filter fun sub => sub.passes msg)

end EventBus

/-- A call of the bus. -/
inductive Call (κ μ : Type) where
  | subscribe (topic : Topic) (callback : κ) (predicate : Option (μ → Except String Bool))
  | unsubscribe (id : ℕ)
  | publish (topic : String) (msg : μ)

/-- The bus after a call. -/
def EventBus.step (bus : EventBus κ μ) : Call κ μ → EventBus κ μ
  | .subscribe topic callback predicate => bus.subscribe topic callback predicate
  | .unsubscribe id =>
    match bus.unsubscribe id with
    | .ok bus' => bus'
    | .error _ => bus
  | .publish topic msg => (bus.publish topic msg).1

/-! ## What the bus is for -/

/-- The subscriptions that were made and not undone, in their order, and all topic names to which
anybody has ever subscribed. -/
structure Registry (κ μ : Type) where
  registered : List (Subscription κ μ)
  named : List String
  next : ℕ

namespace Registry

def init : Registry κ μ := ⟨[], [], 0⟩

def step (r : Registry κ μ) : Call κ μ → Registry κ μ
  | .subscribe topic callback predicate =>
    { registered := r.registered ++ [⟨r.next, predicate, callback, topic⟩]
      named := r.named ++ topic.key.toList
      next := r.next + 1 }
  | .unsubscribe id => { r with registered := r.registered.filter (·.id ≠ id) }
  | .publish _ _ => r

/-- The subscription is to be called. -/
def Wants (r : Registry κ μ) (topic : String) (msg : μ) (sub : Subscription κ μ) : Prop :=
  sub ∈ r.registered ∧ sub.topic.selects topic = true ∧ sub.passes msg = true

end Registry

/-! ## The bus and the registry -/

/-- The bus has the registered subscriptions in its lists, each one in the list of its key. -/
structure Agrees (bus : EventBus κ μ) (r : Registry κ μ) : Prop where
  next : bus.next = r.next
  lists : ∀ key, (bus.listOf key).getD [] = r.registered.filter (·.topic.key = key)
  named : ∀ topic, (bus.listOf (some topic)).isSome ↔ topic ∈ r.named
  keys : ∀ sub ∈ r.registered, get bus.subsTopicMap sub.id = some sub.topic.key
  nodup : (r.registered.map Subscription.id).Nodup
  lt : ∀ sub ∈ r.registered, sub.id < r.next

section Agree

variable {bus : EventBus κ μ} {r : Registry κ μ}

theorem agrees_init : Agrees (EventBus.init : EventBus κ μ) Registry.init where
  next := rfl
  lists _ := rfl
  named topic := by simp [EventBus.listOf, EventBus.init, Registry.init, OrderedDict.get]
  keys _ h := absurd h not_mem_nil
  nodup := nodup_nil
  lt _ h := absurd h not_mem_nil

section

variable (h : Agrees bus r)
include h

open Option

theorem Agrees.subscribe (topic : Topic) (callback : κ)
    (predicate : Option (μ → Except String Bool)) :
    Agrees (bus.step (.subscribe topic callback predicate))
      (r.step (.subscribe topic callback predicate)) := by
  have hlist : ∀ key, (bus.step (.subscribe topic callback predicate)).listOf key =
      if key = topic.key then
        some ((bus.listOf topic.key).getD [] ++ [⟨bus.next, predicate, callback, topic⟩])
      else bus.listOf key := fun key => get_insert ..
  refine ⟨congrArg (· + 1) h.next, fun key => ?_, fun name => ?_, ?_, ?_, ?_⟩
  · rw [hlist, Registry.step, filter_append]
    by_cases hkey : key = topic.key
    · rw [if_pos hkey, getD_some, h.lists, hkey, h.next,
        filter_singleton, decide_eq_true rfl]
      rfl
    · rw [if_neg hkey, h.lists, filter_singleton, decide_eq_false (Ne.symm hkey)]
      exact (append_nil _).symm
  · rw [hlist, Registry.step, mem_append, ← h.named]
    by_cases hkey : some name = topic.key
    · simp [← hkey]
    · simp [hkey, Ne.symm hkey]
  · intro sub hsub
    have hget : get
        (bus.step (.subscribe topic callback predicate)).subsTopicMap sub.id =
        if sub.id = bus.next then some topic.key else get bus.subsTopicMap sub.id :=
      get_insert ..
    rw [hget]
    rcases mem_append.mp hsub with hsub | hsub
    · have hlt := h.lt sub hsub
      rw [if_neg (by rw [h.next]; omega), h.keys sub hsub]
    · rw [mem_singleton.mp hsub, if_pos h.next.symm]
  · rw [Registry.step, map_append, nodup_append]
    refine ⟨h.nodup, nodup_singleton _, ?_⟩
    rintro i hi j hj rfl
    obtain ⟨sub, hsub, rfl⟩ := mem_map.mp hi
    have hlt := h.lt sub hsub
    rw [mem_singleton.mp hj] at hlt
    exact Nat.lt_irrefl _ hlt
  · intro sub hsub
    rcases mem_append.mp hsub with hsub | hsub
    · exact Nat.lt_succ_of_lt (h.lt sub hsub)
    · rw [mem_singleton.mp hsub]
      exact Nat.lt_succ_self _

omit h in
/-- In a list without repeated identities, `remove` takes out what has the identity. -/
theorem eraseP_id_eq_filter (id : ℕ) :
    ∀ {l : List (Subscription κ μ)}, (l.map Subscription.id).Nodup →
      l.eraseP (·.id = id) = l.filter (·.id ≠ id)
  | [], _ => rfl
  | sub :: l, hnodup => by
    rw [map_cons, nodup_cons] at hnodup
    by_cases hid : sub.id = id
    · rw [eraseP_cons_of_pos (by simpa using hid),
        filter_cons_of_neg (by simpa using hid)]
      refine (filter_eq_self.mpr fun sub' hsub' => ?_).symm
      refine decide_eq_true fun hid' => hnodup.1 ?_
      rw [hid, ← hid']
      exact mem_map_of_mem hsub'
    · rw [eraseP_cons_of_neg (by simpa using hid),
        filter_cons_of_pos (by simpa using hid), eraseP_id_eq_filter id hnodup.2]

omit h in
/-- What `unsubscribe` does to the lists, whether it raises or not. -/
theorem EventBus.unsubscribe_eq (bus : EventBus κ μ) (id : ℕ) :
    (bus.step (.unsubscribe id)).subsTopicMap = bus.subsTopicMap ∧
      (bus.step (.unsubscribe id)).next = bus.next ∧
      ∀ key, (bus.step (.unsubscribe id)).listOf key =
        if get bus.subsTopicMap id = some key then (bus.listOf key).map (·.eraseP (·.id = id))
        else bus.listOf key := by
  rw [EventBus.step, EventBus.unsubscribe]
  rcases hkey : get bus.subsTopicMap id with _ | key
  · exact ⟨rfl, rfl, fun _ => (if_neg nofun).symm⟩
  rcases hl : bus.listOf key with _ | l
  · simp only [hl, true_and]
    intro key'
    split
    · next heq => rw [← some.inj heq, hl, map_none]
    · rfl
  · by_cases hmem : id ∈ l.map Subscription.id
    · simp only [hl, if_pos hmem]
      refine ⟨rfl, rfl, fun key' => ?_⟩
      rw [EventBus.listOf_setList]
      by_cases heq : key' = key
      · rw [if_pos heq, if_pos (congrArg some heq.symm), heq, hl, map_some]
      · rw [if_neg heq, if_neg fun h => heq (some.inj h).symm]
    · simp only [hl, if_neg hmem, true_and]
      intro key'
      split
      · next heq =>
        rw [← some.inj heq, hl, map_some, eraseP_of_forall_not]
        exact fun sub hsub hid => hmem (of_decide_eq_true hid ▸ mem_map_of_mem hsub)
      · rfl

theorem Agrees.unsubscribe (id : ℕ) :
    Agrees (bus.step (.unsubscribe id)) (r.step (.unsubscribe id)) := by
  obtain ⟨hmap, hnext, hlist⟩ := bus.unsubscribe_eq id
  have hkept : ∀ sub ∈ (r.step (.unsubscribe id)).registered, sub ∈ r.registered := fun sub hsub =>
    (mem_filter.mp hsub).1
  refine ⟨hnext.trans h.next, fun key => ?_, fun name => ?_,
    fun sub hsub => hmap ▸ h.keys sub (hkept sub hsub),
    h.nodup.sublist (filter_sublist.map _), fun sub hsub => h.lt sub (hkept sub hsub)⟩
  · rw [hlist, Registry.step, filter_comm, ← h.lists]
    split
    · have hnodup : (((bus.listOf key).getD []).map Subscription.id).Nodup := by
        rw [h.lists]
        exact h.nodup.sublist (filter_sublist.map _)
      rw [← eraseP_id_eq_filter id hnodup]
      cases bus.listOf key <;> rfl
    · next hk =>
      -- the subscription is not in the lists of the other keys
      refine (filter_eq_self.mpr fun sub hsub => ?_).symm
      refine decide_eq_true fun hid => hk ?_
      rw [h.lists] at hsub
      obtain ⟨hsub, hkey⟩ := mem_filter.mp hsub
      rw [← hid, h.keys sub hsub, of_decide_eq_true hkey]
  · rw [hlist, Registry.step, ← h.named]
    split
    · rw [isSome_map]
    · rfl

/-! ## Publishing -/

/-- A subscription to a regular expression that matches the topic would stay in the list of the
topic. -/
def Leaks (r : Registry κ μ) (topic : String) : Prop :=
  topic ∈ r.named ∧
    ∃ sub ∈ r.registered, sub.topic.key = none ∧ sub.topic.selects topic = true

/-- Every subscription that is to be called is called once, no other one is, and the bus lists
the same subscriptions as before. -/
structure Exact (bus : EventBus κ μ) (r : Registry κ μ) (topic : String) (msg : μ) : Prop where
  once : ((bus.publish topic msg).2.map Subscription.id).Nodup
  called : ∀ sub, sub ∈ (bus.publish topic msg).2 ↔ r.Wants topic msg sub
  unchanged : ∀ name, (bus.publish topic msg).1.listSubscribers name = bus.listSubscribers name

theorem Agrees.matching (topic : String) :
    bus.matching topic =
      (r.registered.filter (·.topic.key = none)).filter fun sub => sub.topic.selects topic := by
  rw [EventBus.matching, h.lists]

theorem Agrees.matching_eq_nil_iff (topic : String) :
    bus.matching topic = [] ↔
      ∀ sub ∈ r.registered, sub.topic.key = none → sub.topic.selects topic ≠ true := by
  rw [h.matching, filter_eq_nil_iff]
  simp only [mem_filter, decide_eq_true_eq, and_imp]

omit h in
/-- A name selects the topic itself. -/
theorem Topic.selects_iff (topic : Topic) (name : String) :
    topic.selects name = true ↔
      topic.key = some name ∨ topic.key = none ∧ topic.selects name = true := by
  cases topic with
  | explicit name' => simp [Topic.selects, Topic.key]
  | regex isMatch => simp [Topic.selects, Topic.key]

/-- The callbacks that are called. -/
theorem Agrees.calls (topic : String) (msg : μ) :
    (bus.publish topic msg).2 =
      (r.registered.filter (·.topic.key = some topic) ++
        (r.registered.filter (·.topic.key = none)).filter fun sub =>
          sub.topic.selects topic).filter fun sub => sub.passes msg := by
  rw [EventBus.publish, h.matching, h.lists]

/-- A publication that adds nothing to a list of the table leaves the bus as it is. -/
theorem Agrees.publish_of_not_leaks {topic : String} (hl : ¬ Leaks r topic) (msg : μ) :
    (bus.publish topic msg).1 = bus := by
  rw [EventBus.publish]
  rcases hlist : bus.listOf (some topic) with _ | l
  · rfl
  · have hnil : bus.matching topic = [] := by
      rw [h.matching_eq_nil_iff]
      intro sub hsub hkey hsel
      exact hl ⟨(h.named topic).mp (by rw [hlist]; rfl), sub, hsub, hkey, hsel⟩
    rw [hnil, getD_some, append_nil, isSome_some, if_pos rfl,
      EventBus.setList, insert_of_get hlist]

/-- **A publication is exact if and only if it adds nothing to a list of the table.** -/
theorem publish_exact_iff (topic : String) (msg : μ) : Exact bus r topic msg ↔ ¬ Leaks r topic := by
  constructor
  · -- otherwise it adds to the list of the topic
    rintro hex ⟨hname, sub, hsub, hkey, hsel⟩
    obtain ⟨l, hlist⟩ := isSome_iff_exists.mp ((h.named topic).mpr hname)
    have hsame := hex.unchanged (some topic)
    rw [EventBus.publish, hlist, EventBus.listSubscribers, EventBus.listSubscribers, hlist,
      isSome_some, if_pos rfl, EventBus.listOf_setList, if_pos rfl, getD_some, getD_some,
      append_right_eq_self] at hsame
    exact (h.matching_eq_nil_iff topic).mp hsame sub hsub hkey hsel
  · intro hl
    refine ⟨?_, fun sub => ?_, fun name => by rw [h.publish_of_not_leaks hl]⟩
    · rw [h.calls]
      refine List.Nodup.sublist (filter_sublist.map _) ?_
      rw [map_append, nodup_append]
      refine ⟨h.nodup.sublist (filter_sublist.map _),
        h.nodup.sublist ((filter_sublist.trans filter_sublist).map _), ?_⟩
      -- the two lists are of different keys
      rintro i hi j hj rfl
      obtain ⟨sub, hsub, rfl⟩ := mem_map.mp hi
      obtain ⟨sub', hsub', hid⟩ := mem_map.mp hj
      obtain ⟨hsub, hkey⟩ := mem_filter.mp hsub
      obtain ⟨hsub', hkey'⟩ := mem_filter.mp (mem_filter.mp hsub').1
      have heq := inj_on_of_nodup_map h.nodup hsub' hsub hid
      rw [heq, of_decide_eq_true hkey] at hkey'
      exact absurd (of_decide_eq_true hkey') (some_ne_none topic)
    · rw [h.calls, Registry.Wants, Topic.selects_iff]
      simp only [mem_filter, mem_append, decide_eq_true_eq]
      tauto

/-! ## Sequences of calls -/

/-- The bus and the registry after a call. -/
def stepBoth (s : EventBus κ μ × Registry κ μ) (call : Call κ μ) :
    EventBus κ μ × Registry κ μ :=
  (s.1.step call, s.2.step call)

/-- If the call publishes, it does so exactly. -/
def PublishesExactly (s : EventBus κ μ × Registry κ μ) : Call κ μ → Prop
  | .publish topic msg => Exact s.1 s.2 topic msg
  | _ => True

/-- If the call publishes, it adds nothing to a list of the table. -/
def LeaksNothing (s : EventBus κ μ × Registry κ μ) : Call κ μ → Prop
  | .publish topic _ => ¬ Leaks s.2 topic
  | _ => True

theorem Agrees.step {call : Call κ μ} (hl : LeaksNothing (bus, r) call) :
    Agrees (bus.step call) (r.step call) := by
  cases call with
  | subscribe topic callback predicate => exact h.subscribe topic callback predicate
  | unsubscribe id => exact h.unsubscribe id
  | publish topic msg =>
    rw [EventBus.step, h.publish_of_not_leaks hl]
    exact h

end

end Agree

/-- **The event bus delivers exactly once**, in a sequence of calls on a new bus, if and only if no
message is published to a topic to which anybody has subscribed by its name while a regular
expression that matches it is subscribed to. -/
theorem publishes_exactly_iff (calls : List (Call κ μ)) :
    AllAlong stepBoth PublishesExactly (EventBus.init, Registry.init) calls ↔
      AllAlong stepBoth LeaksNothing (EventBus.init, Registry.init) calls := by
  refine (allAlong_congr (I := fun s : EventBus κ μ × Registry κ μ => Agrees s.1 s.2)
    (fun s call h hl => h.step hl) ?_ agrees_init).symm
  intro s call h
  cases call with
  | subscribe topic callback predicate => exact Iff.rfl
  | unsubscribe id => exact Iff.rfl
  | publish topic msg => exact (publish_exact_iff h topic msg).symm

/-- A wildcard subscription and one by name, and a message to that name. -/
def leaking : List (Call Unit Unit) :=
  [.subscribe (.regex fun _ => true) () none, .subscribe (.explicit "news") () none,
    .publish "news" ()]

/-- The next message is delivered twice to the wildcard subscription, and one that comes after the
subscription was undone is still delivered to it. -/
theorem publish_delivers_twice :
    let bus := leaking.foldl EventBus.step EventBus.init
    (bus.publish "news" ()).2.map Subscription.id = [1, 0, 0] ∧
      ((bus.step (.unsubscribe 0)).publish "news" ()).2.map Subscription.id = [1, 0] ∧
      ¬ AllAlong stepBoth PublishesExactly (EventBus.init, Registry.init)
        (leaking ++ [.publish "news" ()]) := by
  refine ⟨by decide, by decide, ?_⟩
  intro hall
  have hlast := (allAlong_append.mp hall).2.1.once
  exact absurd hlast (by decide)

end Voltha.Common
