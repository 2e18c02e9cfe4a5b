import Voltha.Lib.Run

/-!
# The store in Consul

`ConsulStore` keeps key-value pairs in Consul, with a cache in front of it (`config_backend.py`).
Consul stores the empty string but gives back `None` for it.  `__getitem__` turns this `None` into
the empty string before it caches and returns it; `__contains__` caches it as it is.

A call of Consul may fail, and is made again until it succeeds.  Each failure opens a new
connection and empties the cache; whether the failed call had its effect is not known.

* `getItem`, `contains`, `setItem`, `delItem`: the calls of the store.
* `retry_spec`: the failures on the way do not show in what Consul holds.
* `Agrees`: the store holds what the plain map holds, and so does the cache, up to the empty string.
* `consulStore_refines_iff`: every call returns what the plain map returns exactly if no `None` is
  read from the cache.
-/

namespace Voltha.Consul

open Function

/-- What Consul holds, under paths. -/
abbrev KV := String → Option String

/-- `ConsulStore`, and what Consul holds.  A cached value may be `None`. -/
structure ConsulStore where
  pathPrefix : String
  kv : KV
  cache : String → Option (Option String)
  retries : ℕ

/-- A new store on what Consul holds. -/
def ConsulStore.new (pathPrefix : String) (kv : KV) : ConsulStore :=
  ⟨pathPrefix, kv, fun _ => none, 0⟩

/-- `make_path` -/
def ConsulStore.makePath (s : ConsulStore) (key : String) : String := s.pathPrefix ++ "/" ++ key

/-! ## Calls of Consul -/

/-- The operations of `_retry`. -/
inductive Operation where
  | get (path : String)
  | put (path value : String)
  | delete (path : String)

/-- The effect of an operation. -/
def Operation.apply : Operation → KV → KV
  | .get _, kv => kv
  | .put path value, kv => update kv path (some value)
  | .delete path, kv => update kv path none

/-- `value['Value']` of a `GET`: for an empty string it is `None`. -/
def rawValue (value : String) : Option String := if value = "" then none else some value

/-- `_redo_consul_connection` -/
def ConsulStore.redoConsulConnection (s : ConsulStore) : ConsulStore :=
  { s with cache := fun _ => none }

/-- `_retry`.  The list has an entry for each failure, which says whether the operation had its
effect although it failed. -/
def retry (operation : Operation) : List Bool → ConsulStore → ConsulStore
  | [], s => { s with kv := operation.apply s.kv, retries := 0 }
  | applied :: failures, s =>
    let s₁ := { s with
      kv := if applied then operation.apply s.kv else s.kv
      retries := s.retries + 1 }
    retry operation failures s₁.redoConsulConnection

/-- `_kv_get` -/
def kvGet (path : String) (failures : List Bool) (s : ConsulStore) :
    Option (Option String) × ConsulStore :=
  let s' := retry (.get path) failures s
  ((s'.kv path).map rawValue, s')

/-! ## The store -/

/-- What a call comes to. -/
inductive Result where
  | value (v : Option String)
  | bool (b : Bool)
  | none
  | keyError (key : String)
  deriving DecidableEq, Repr

/-- `self._cache[key] = value` -/
def ConsulStore.cached (s : ConsulStore) (key : String) (value : Option String) : ConsulStore :=
  { s with cache := update s.cache key (some value) }

/-- `__getitem__` -/
def getItem (key : String) (failures : List Bool) (s : ConsulStore) : Result × ConsulStore :=
  match s.cache key with
  | some v => (.value v, s)
  | none =>
    match kvGet (s.makePath key) failures s with
    -- consul turns empty strings to None, so we do the reverse here
    | (some raw, s') => (.value (some (raw.getD "")), s'.cached key (some (raw.getD "")))
    | (none, s') => (.keyError key, s')

/-- `__contains__` -/
def contains (key : String) (failures : List Bool) (s : ConsulStore) : Result × ConsulStore :=
  match s.cache key with
  | some _ => (.bool true, s)
  | none =>
    match kvGet (s.makePath key) failures s with
    | (some raw, s') => (.bool true, s'.cached key raw)
    | (none, s') => (.bool false, s')

/-- `__setitem__`, for strings. -/
def setItem (key value : String) (failures : List Bool) (s : ConsulStore) : Result × ConsulStore :=
  (.none, retry (.put (s.makePath key) value) failures (s.cached key (some value)))

/-- `__delitem__` -/
def delItem (key : String) (failures : List Bool) (s : ConsulStore) : Result × ConsulStore :=
  let s₁ := { s with cache := update s.cache key none }
  (.none, retry (.delete (s.makePath key)) failures s₁)

/-- The calls of a store. -/
inductive Call where
  | getItem (key : String)
  | contains (key : String)
  | setItem (key value : String)
  | delItem (key : String)
  deriving DecidableEq, Repr

/-- A call on the store, with the failures on the way. -/
def ConsulStore.call (s : ConsulStore) : Call × List Bool → Result × ConsulStore
  | (.getItem key, failures) => Consul.getItem key failures s
  | (.contains key, failures) => Consul.contains key failures s
  | (.setItem key value, failures) => Consul.setItem key value failures s
  | (.delItem key, failures) => Consul.delItem key failures s

/-! ## The plain map -/

/-- A plain map of strings. -/
abbrev StringMap := String → Option String

/-- A call on a plain map.  `strict` says whether deleting a missing key is an error, as it is for
the dictionaries of Python. -/
def StringMap.call (strict : Bool) (m : StringMap) : Call × List Bool → Result × StringMap
  | (.getItem key, _) =>
    match m key with
    | some value => (.value (some value), m)
    | none => (.keyError key, m)
  | (.contains key, _) => (.bool (m key).isSome, m)
  | (.setItem key value, _) => (.none, update m key (some value))
  | (.delItem key, _) =>
    if strict ∧ m key = none then (.keyError key, m) else (.none, update m key none)

/-- What a store holds, as a plain map. -/
def ConsulStore.contents (s : ConsulStore) : StringMap := fun key => s.kv (s.makePath key)

/-! ## Failures -/

theorem Operation.apply_apply (operation : Operation) (kv : KV) :
    operation.apply (operation.apply kv) = operation.apply kv := by
  cases operation with
  | get path => rfl
  | put path value => exact update_idem ..
  | delete path => exact update_idem ..

/-- **Failures do not show in what Consul holds**: the operation has its effect once. -/
theorem retry_spec (operation : Operation) : ∀ (failures : List Bool) (s : ConsulStore),
    (retry operation failures s).pathPrefix = s.pathPrefix ∧
      (retry operation failures s).kv = operation.apply s.kv ∧
      ∀ key v, (retry operation failures s).cache key = some v → s.cache key = some v
  | [], _ => ⟨rfl, rfl, fun _ _ h => h⟩
  | applied :: failures, s => by
    obtain ⟨hpfx, hkv, hcache⟩ := retry_spec operation failures
      ({ s with kv := if applied then operation.apply s.kv else s.kv,
                retries := s.retries + 1 } : ConsulStore).redoConsulConnection
    refine ⟨hpfx, ?_, fun key v h => ?_⟩
    · rw [retry, hkv]
      cases applied with
      | false => rfl
      | true => exact operation.apply_apply s.kv
    · -- the cache was emptied
      cases hcache key v h

theorem retry_contents (operation : Operation) (failures : List Bool) (s : ConsulStore) :
    (retry operation failures s).contents = fun key => operation.apply s.kv (s.makePath key) := by
  obtain ⟨hpfx, hkv, -⟩ := retry_spec operation failures s
  funext key
  have hpath : (retry operation failures s).makePath key = s.makePath key :=
    congrArg (· ++ "/" ++ key) hpfx
  rw [ConsulStore.contents, hkv, hpath]

/-! ## The store and the plain map -/

/-- The store holds what the map holds, and a cached value is that of the map, with `None` for the
empty string at most. -/
structure Agrees (s : ConsulStore) (m : StringMap) : Prop where
  contents : s.contents = m
  cache : ∀ key v, s.cache key = some v → m key = some (v.getD "")

theorem makePath_injective (s : ConsulStore) : Injective s.makePath :=
  fun _ _ h => (String.append_right_inj _).1 h

theorem update_contents (s : ConsulStore) (key : String) (v : Option String) :
    (fun k => update s.kv (s.makePath key) v (s.makePath k)) =
      update s.contents key v :=
  update_comp_eq_of_injective s.kv (makePath_injective s) key v

variable {s : ConsulStore} {m : StringMap}

theorem Agrees.new (pathPrefix : String) (kv : KV) :
    Agrees (.new pathPrefix kv) (ConsulStore.new pathPrefix kv).contents :=
  ⟨rfl, fun _ _ h => by cases h⟩

variable {v : Option String} {key : String}

/-- What the cache holds after an assignment. -/
theorem cached_cache {key' : String} {v' : Option String} :
    (s.cached key v).cache key' = some v' ↔
      key' = key ∧ v = v' ∨ key' ≠ key ∧ s.cache key' = some v' := by
  simp only [ConsulStore.cached, update_apply]
  split
  · next hkey => simp [hkey]
  · next hkey => simp [hkey]

/-- A value of the map may be cached, and `None` for the empty string too. -/
theorem Agrees.cached (h : Agrees s m) (hv : m key = some (v.getD "")) :
    Agrees (s.cached key v) m where
  contents := h.contents
  cache key' v' hcache := by
    rcases cached_cache.1 hcache with ⟨rfl, rfl⟩ | ⟨-, hcache⟩
    · exact hv
    · exact h.cache key' v' hcache

/-- A `GET` reads the value of the map, with `None` for the empty string. -/
theorem Agrees.kvGet (h : Agrees s m) (key : String) (failures : List Bool) :
    ∃ s', kvGet (s.makePath key) failures s = ((m key).map rawValue, s') ∧ Agrees s' m := by
  obtain ⟨-, hkv, hcache⟩ := retry_spec (.get (s.makePath key)) failures s
  have hcontents : (retry (.get (s.makePath key)) failures s).contents = m := by
    rw [retry_contents, ← h.contents]
    rfl
  refine ⟨_, ?_, hcontents, fun k v hk => h.cache k v (hcache k v hk)⟩
  rw [Consul.kvGet, hkv, ← h.contents]
  rfl

theorem rawValue_getD (value : String) : (rawValue value).getD "" = value := by
  rw [rawValue]
  split
  · next h => rw [h]; rfl
  · rfl

/-- The operations that write. -/
theorem Agrees.retry {operation : Operation}
    (hop : ∀ kv, operation.apply kv = update kv (s.makePath key) v)
    (hcontents : s.contents = m)
    (hcache : ∀ k w, s.cache k = some w → update m key v k = some (w.getD ""))
    (failures : List Bool) : Agrees (retry operation failures s) (update m key v) := by
  obtain ⟨-, -, hkeep⟩ := retry_spec operation failures s
  refine ⟨?_, fun k w hk => hcache k w (hkeep k w hk)⟩
  rw [retry_contents, hop, ← hcontents, ← update_contents]

/-- A call that returns what the plain map returns: not one that reads a `None` from the cache and,
if that is an error for the map, not one that deletes a missing key. -/
def Faithful (strict : Bool) (s : ConsulStore) : Call × List Bool → Prop
  | (.getItem key, _) => s.cache key ≠ some none
  | (.delItem key, _) => strict → s.contents key ≠ none
  | _ => True

section

variable (strict : Bool) (h : Agrees s m) (a : Call × List Bool)
include h

/-- **Every call keeps the store and the map in agreement.** -/
theorem Agrees.call : Agrees (s.call a).2 (m.call strict a).2 := by
  obtain ⟨call, failures⟩ := a
  cases call with
  | getItem key =>
    have hm : (m.call strict (.getItem key, failures)).2 = m := by
      rw [StringMap.call]
      split <;> rfl
    rw [hm]
    simp only [ConsulStore.call, Consul.getItem]
    split
    · exact h
    · obtain ⟨s', hget, hagrees⟩ := h.kvGet key failures
      rw [hget]
      rcases hkey : m key with _ | value
      · exact hagrees
      · exact hagrees.cached (by rw [hkey, rawValue_getD]; rfl)
  | contains key =>
    simp only [ConsulStore.call, Consul.contains, StringMap.call]
    split
    · exact h
    · obtain ⟨s', hget, hagrees⟩ := h.kvGet key failures
      rw [hget]
      rcases hkey : m key with _ | value
      · exact hagrees
      · exact hagrees.cached (by rw [hkey, rawValue_getD])
  | setItem key value =>
    refine Agrees.retry (s := s.cached key (some value)) (fun _ => rfl) h.contents
      (fun k w hk => ?_) failures
    rcases cached_cache.1 hk with ⟨rfl, rfl⟩ | ⟨hkey, hk⟩
    · exact update_self ..
    · rw [update_of_ne hkey]
      exact h.cache k w hk
  | delItem key =>
    have hm : (m.call strict (.delItem key, failures)).2 = update m key none := by
      rw [StringMap.call]
      split
      · next hnone => rw [← hnone.2, update_eq_self]
      · rfl
    rw [hm]
    refine Agrees.retry (s := { s with cache := update s.cache key none }) (fun _ => rfl)
      h.contents (fun k w hk => ?_) failures
    simp only [update_apply] at hk ⊢
    split at hk
    · cases hk
    · next hkey =>
      rw [if_neg hkey]
      exact h.cache k w hk

/-- **A call returns what the map returns exactly if it is faithful.** -/
theorem Agrees.answer : (s.call a).1 = (m.call strict a).1 ↔ Faithful strict s a := by
  obtain ⟨call, failures⟩ := a
  cases call with
  | getItem key =>
    simp only [ConsulStore.call, Consul.getItem, StringMap.call, Faithful]
    split
    · next v hcache =>
      rw [h.cache key v hcache, hcache]
      cases v <;> simp
    · next hcache =>
      obtain ⟨s', hget, -⟩ := h.kvGet key failures
      refine iff_of_true ?_ (by rw [hcache]; simp)
      rw [hget]
      rcases m key with _ | value
      · rfl
      · dsimp only [Option.map_some]
        rw [rawValue_getD]
  | contains key =>
    refine iff_of_true ?_ trivial
    simp only [ConsulStore.call, Consul.contains, StringMap.call]
    split
    · next v hcache => rw [h.cache key v hcache]; rfl
    · obtain ⟨s', hget, -⟩ := h.kvGet key failures
      rw [hget]
      rcases m key with _ | value
      · rfl
      · rfl
  | setItem key value => exact iff_of_true rfl trivial
  | delItem key =>
    simp only [ConsulStore.call, Consul.delItem, StringMap.call, Faithful, h.contents]
    split
    · next hmissing => simp [hmissing.1, hmissing.2]
    · next hthere => simpa using hthere

end

/-- **Whatever fails on the way**, after any calls Consul holds what the plain map holds, and the
cached values are right. -/
theorem agrees_after_calls (strict : Bool) (pathPrefix : String) (kv : KV)
    (calls : List (Call × List Bool)) :
    Agrees (calls.foldl (fun s a => (s.call a).2) (.new pathPrefix kv))
      (calls.foldl (fun m a => (StringMap.call strict m a).2)
        (ConsulStore.new pathPrefix kv).contents) :=
  List.foldl_rel (r := Agrees) (Agrees.new pathPrefix kv) fun a _ _ _ h => h.call strict a

/-- **When the store refines a plain map.**  Whatever Consul holds at first, whatever calls are made
and however they fail on the way, each call returns what the plain map returns, if and only if no
call reads from the cache the `None` that `__contains__` has put there and, where the map does not
allow it, none deletes a missing key. -/
theorem consulStore_refines_iff (strict : Bool) (pathPrefix : String) (kv : KV)
    (calls : List (Call × List Bool)) :
    answers ConsulStore.call (.new pathPrefix kv) calls =
        answers (StringMap.call strict) (ConsulStore.new pathPrefix kv).contents calls ↔
      AllAlong (fun s a => (ConsulStore.call s a).2) (Faithful strict) (.new pathPrefix kv) calls :=
  answers_eq_iff (fun _ _ a h => h.call strict a) (fun _ _ a h => h.answer strict a) calls
    (Agrees.new pathPrefix kv)

/-- An empty value is asked for and then read: the store answers `None`. -/
theorem empty_value_read_as_none :
    let kv : KV := fun path => if path = "service/voltha/k" then some "" else none
    answers ConsulStore.call (.new "service/voltha" kv) [(.contains "k", []), (.getItem "k", [])] =
        [.bool true, .value none] ∧
      answers (StringMap.call false) (ConsulStore.new "service/voltha" kv).contents
          [(.contains "k", []), (.getItem "k", [])] = [.bool true, .value (some "")] := by
  decide

end Voltha.Consul
