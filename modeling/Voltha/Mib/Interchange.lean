import Voltha.Lib.Run
import Voltha.Mib.MibDatabases

/-!
# When the two MIB databases can stand for each other

Both databases get the same calls.  They match (`DbMatch`) when they have the same devices, classes,
instances and attributes, with the numbers of the one written out as the strings of the other.
Databases that match answer all questions about their devices alike (`sameAnswers_of_match`).

`Agrees` says which calls keep them matching.

* Overwriting a device empties its entry in the one database and does nothing in the other.
* `set` on an instance adds to the attributes in the one database, and in the other replaces them
  all as soon as one changes.  Whether anything has changed is answered differently for a new
  instance without attributes, and an attribute that changes between `int` and `long` is rejected by
  the one.
* A device that is not there is an error of `delete` in the one database only, and the same goes for
  questions about its classes.

All other calls keep them matching.  Calls that do not agree show, in their result or in an answer
afterwards (`agrees_of_interchangeable`), so that the condition is exact.
-/

namespace Voltha.Mib

open OrderedDict Act Option MibDbVolatileDict

/-! ## Matching databases -/

/-- Attributes, as numbers and as strings. -/
abbrev AttributesMatch : List (String × Number) → List (String × String) → Prop :=
  Matches fun v s => s = attributeToString v

abbrev InstancesMatch : List (ℕ × List (String × Number)) →
    List (ℕ × List (String × String)) → Prop := Matches AttributesMatch

structure DeviceMatch (device : DeviceDb) (data : MibDeviceData) : Prop where
  mibDataSync : device.mibDataSync = data.mibDataSync
  classes : Matches InstancesMatch device.classes data.classes

abbrev DbMatch : MibDbVolatileDict → MibDbExternal → Prop := Matches DeviceMatch

/-- The strings are read as the numbers they were written from. -/
theorem stringToAttribute_attributeToString (v : Number) :
    stringToAttribute (attributeToString v) = v.value := by
  unfold stringToAttribute attributeToString
  rw [if_neg (Decimal.map_toLower_str_ne v.value (by decide) _),
    if_neg (Decimal.map_toLower_str_ne v.value (by decide) _)]
  exact Decimal.int_str v.value

/-! ## Matching databases answer alike -/

theorem instanceContent_eq {d : List (String × Number)} {e : List (String × String)}
    (h : AttributesMatch d e) :
    instanceContent d = MibDbExternal.instanceContent e := by
  funext name
  refine h.get_map (fun v s hs => ?_) name
  rw [hs, stringToAttribute_attributeToString]

theorem classContent_eq {d : List (ℕ × List (String × Number))}
    {e : List (ℕ × List (String × String))} (h : InstancesMatch d e) :
    classContent d = MibDbExternal.classContent e :=
  funext fun instanceId => h.get_map (fun _ _ => instanceContent_eq) instanceId

variable {data : MibDeviceData} {device : DeviceDb} {attributes : Attributes}
  {instanceId classId : ℕ} {names : EntityNames}

theorem deviceContent_eq (h : DeviceMatch device data) :
    deviceContent device = MibDbExternal.deviceContent data :=
  funext fun classId => h.classes.get_map (fun _ _ => classContent_eq) classId

/-- The answer to a question about a device, as far as its content goes. -/
def answer (content : DeviceContent) : Query → Answer
  | .device => .device content
  | .cls classId => .cls (content classId)
  | .inst classId instanceId => .inst ((content classId).bind (· instanceId))
  | .attributes classId instanceId names => .attributes fun name =>
    if name ∈ names then ((content classId).bind (· instanceId)).bind (· name) else none

variable {α : Type} {call : DbCall}

/-- What is read from a dictionary that may be missing. -/
theorem get_getD_map {κ γ : Type} [DecidableEq κ] (o : Option (List (κ × α))) (g : α → γ) (k : κ) :
    (get (o.getD []) k).map g = (o.map fun e k => (get e k).map g).bind (· k) := by
  rcases o with _ | e
  · rfl
  · rfl

/-- The attributes of an instance, in a device whose dictionaries may be missing. -/
theorem get_classes_map {γ : Type} (classes : List (ℕ × List (ℕ × List (String × α)))) (g : α → γ)
    (c i : ℕ) (name : String) :
    (get ((get ((get classes c).getD []) i).getD []) name).map g =
      (((get classes c).map fun d i => (get d i).map fun e name => (get e name).map g).bind
        (· i)).bind (· name) := by
  rw [get_getD_map, get_getD_map]

variable {v : MibDbVolatileDict} {x : MibDbExternal} {deviceId : String}

theorem deviceDb_of_get (h : get v deviceId = some device) :
    deviceDb deviceId v = (.ok device, v) := by
  rw [deviceDb, h]

theorem deviceDb_of_none (h : get v deviceId = none) :
    deviceDb deviceId v = (.error .keyError, v) := by
  rw [deviceDb, h]

theorem volatile_query (h : get v deviceId = some device) (q : Query) :
    (query deviceId q v).1 =
      .ok (answer (deviceContent device) q) := by
  rw [query, bind_of_ok (deviceDb_of_get h)]
  cases q with
  | device => rfl
  | cls classId => rfl
  | inst classId instanceId =>
    exact congrArg (fun a => Except.ok (Answer.inst a)) (get_getD_map _ _ instanceId)
  | attributes classId instanceId names =>
    refine congrArg (fun f => Except.ok (Answer.attributes f)) (funext fun name => ?_)
    exact if_congr Iff.rfl (get_classes_map device.classes _ _ _ name) rfl

theorem external_query (h : get x deviceId = some data) (q : Query) :
    (MibDbExternal.query deviceId q x).1 =
      .ok (answer (MibDbExternal.deviceContent data) q) := by
  unfold MibDbExternal.query
  rw [h]
  cases q with
  | device => rfl
  | cls classId => rfl
  | inst classId instanceId =>
    exact congrArg (fun a => Except.ok (Answer.inst a)) (get_getD_map _ _ instanceId)
  | attributes classId instanceId names =>
    refine congrArg (fun f => Except.ok (Answer.attributes f)) (funext fun name => ?_)
    exact if_congr Iff.rfl (get_classes_map data.classes _ _ _ name) rfl

/-- The pair of the databases. -/
abbrev Databases := MibDbVolatileDict × MibDbExternal

/-- The databases give the same MIB data sync of every device, and the same answers to all questions
about their devices. -/
def SameAnswers (s : Databases) : Prop :=
  ∀ deviceId,
    getMibDataSync deviceId s.1 = MibDbExternal.getMibDataSync deviceId s.2 ∧
    ∀ q, q = .device ∨ get s.1 deviceId ≠ none →
      (query deviceId q s.1).1 = (MibDbExternal.query deviceId q s.2).1

variable {s : Databases}

/-- **Databases that match answer alike.** -/
theorem sameAnswers_of_match (h : DbMatch s.1 s.2) : SameAnswers s := by
  intro deviceId
  refine ⟨h.get_map (fun _ _ hd => hd.mibDataSync) deviceId, fun q hq => ?_⟩
  rcases hv : get s.1 deviceId with _ | device
  · have hx : get s.2 deviceId = none := h.none_iff.mp hv
    rcases hq with rfl | hq
    · unfold MibDbExternal.query
      rw [query, hx, bind_of_error (deviceDb_of_none hv)]
    · exact absurd hv hq
  · obtain ⟨data, hx, hmatch⟩ := h.exists_right hv
    rw [volatile_query hv, external_query hx, deviceContent_eq hmatch]

/-! ## The attributes of an instance -/

/-- The attributes of an instance of the device. -/
def DeviceDb.instanceDb (device : DeviceDb) (classId instanceId : ℕ) :
    Option (List (String × Number)) := get ((get device.classes classId).getD []) instanceId

/-- No attribute changes between `int` and `long`. -/
def KeepTypes (items instanceDb : List (String × Number)) : Prop :=
  ∀ p ∈ items, ∀ v, get instanceDb p.1 = some v → v.long = p.2.long

variable {items instanceDb : List (String × Number)} {p : String × Number}

/-- An attribute that is set does not matter for the others. -/
theorem get_insert_of_mem (hp : p.1 ∉ items.map Prod.fst) :
    ∀ p' ∈ items, get (insert p.1 p.2 instanceDb) p'.1 = get instanceDb p'.1 := by
  intro p' hp'
  rw [get_insert, if_neg fun heq : p'.1 = p.1 => hp (heq ▸ List.mem_map_of_mem hp')]

theorem keepTypes_cons (hp : p.1 ∉ items.map Prod.fst) :
    KeepTypes (p :: items) instanceDb ↔ (∀ v, get instanceDb p.1 = some v → v.long = p.2.long) ∧
      KeepTypes items (insert p.1 p.2 instanceDb) := by
  unfold KeepTypes
  rw [List.forall_mem_cons]
  refine and_congr_right fun _ => forall₂_congr fun p' hp' => ?_
  rw [get_insert_of_mem hp p' hp']

/-- One round of the loop for an attribute that keeps its type. -/
theorem setAttribute_of_keeps {changed : Bool}
    (h : ∀ v, get instanceDb p.1 = some v → v.long = p.2.long) :
    setAttribute changed p instanceDb =
      (.ok (changed || decide (get instanceDb p.1 ≠ some p.2)), insert p.1 p.2 instanceDb) := by
  unfold setAttribute
  rcases hv : get instanceDb p.1 with _ | v
  · simp
  · have hlong : v.long = p.2.long := h v hv
    dsimp only
    rw [if_neg (not_not.mpr hlong)]
    by_cases hvalue : v.value = p.2.value
    · have heq : v = p.2 := Number.ext hvalue hlong
      rw [if_neg (not_not.mpr hvalue), insert_of_get (heq ▸ hv), heq]
      simp
    · have hne : v ≠ p.2 := fun heq => hvalue (congrArg Number.value heq)
      rw [if_pos hvalue]
      simp [hne]

/-- **The loop of `set`.**  If no attribute changes its type, the attributes given come before those
that were there, and it is said whether one of them was new or had another value; else it is
rejected. -/
theorem setAttributes_cases (hnodup : (items.map Prod.fst).Nodup) :
    ∀ (changed : Bool) (instanceDb : List (String × Number)),
      (KeepTypes items instanceDb → ∃ instanceDb', items.foldlM setAttribute changed instanceDb =
          (.ok (changed || items.any fun p => get instanceDb p.1 ≠ some p.2), instanceDb') ∧
        ∀ name, get instanceDb' name = (get items name).or (get instanceDb name)) ∧
      (¬ KeepTypes items instanceDb →
        (items.foldlM setAttribute changed instanceDb).1 = .error .assertionError) := by
  induction items with
  | nil =>
    intro changed instanceDb
    refine ⟨fun _ => ⟨instanceDb, ?_, fun name => rfl⟩, fun hnot => absurd (nofun) hnot⟩
    rw [List.foldlM_nil, List.any_nil, Bool.or_false]
    rfl
  | cons p items ih =>
    intro changed instanceDb
    rw [List.map_cons, List.nodup_cons] at hnodup
    rw [keepTypes_cons hnodup.1, List.foldlM_cons]
    by_cases hp : ∀ v, get instanceDb p.1 = some v → v.long = p.2.long
    · rw [bind_of_ok (setAttribute_of_keeps hp), and_iff_right hp]
      refine (ih hnodup.2 _ _).imp_left fun hok hkeep => ?_
      obtain ⟨instanceDb', hrun, hlookup⟩ := hok hkeep
      refine ⟨instanceDb', ?_, fun name => ?_⟩
      · have hany : (items.any fun p' => get (insert p.1 p.2 instanceDb) p'.1 ≠ some p'.2) =
            items.any fun p' => get instanceDb p'.1 ≠ some p'.2 := by
          rw [Bool.eq_iff_iff, List.any_eq_true, List.any_eq_true]
          refine exists_congr fun p' => and_congr_right fun hp' => ?_
          rw [get_insert_of_mem hnodup.1 p' hp']
        rw [hrun, List.any_cons, Bool.or_assoc, hany]
      · rw [hlookup name, get_insert, get_cons]
        by_cases hname : name = p.1
        · have hitems : get items name = none := get_eq_none_iff.mpr (hname ▸ hnodup.1)
          rw [hitems, if_pos hname, if_pos hname]
          rfl
        · rw [if_neg hname, if_neg hname]
    · refine ⟨fun hkeep => absurd hkeep.1 hp, fun _ => ?_⟩
      push Not at hp
      obtain ⟨v, hv, hlong⟩ := hp
      have hraise : setAttribute changed p instanceDb =
          (.error .assertionError, instanceDb) := by
        unfold setAttribute
        rw [hv]
        exact if_pos hlong
      rw [bind_of_error hraise]

theorem get_attributeData (attributes : Attributes) (name : String) :
    get (MibDbExternal.attributeData attributes) name =
      (get attributes.items name).map attributeToString :=
  lookup_map_snd attributeToString name attributes.items

/-- The other database sees the same changes. -/
theorem modifies_eq {instData : List (String × String)}
    (hmatch : AttributesMatch instanceDb instData) (hkeep : KeepTypes attributes.items instanceDb) :
    MibDbExternal.modifies attributes instData =
      attributes.items.any fun p => get instanceDb p.1 ≠ some p.2 := by
  unfold MibDbExternal.modifies
  rw [Bool.eq_iff_iff, List.any_eq_true, List.any_eq_true]
  refine exists_congr fun p => and_congr_right fun hp => ?_
  rw [decide_eq_true_iff, decide_eq_true_iff, not_iff_not]
  have hk := hmatch p.1
  rcases hv : get instanceDb p.1 with _ | v <;> rcases hs : get instData p.1 with _ | s <;>
    rw [hv, hs] at hk <;> cases hk
  · simp
  · rename_i hs
    rw [hs, some.injEq, some.injEq]
    constructor
    · exact fun heq => Number.ext (Decimal.str_injective heq) (hkeep p hp v hv)
    · rintro rfl
      rfl

/-! ## Calls that agree -/

/-- What `set` has to keep to on an instance: a new one gets attributes; on one that is there, no
attribute changes its type, and either nothing changes or all attributes are given. -/
def SetAgrees (attributes : Attributes) : Option (List (String × Number)) → Prop
  | none => attributes.items ≠ []
  | some instanceDb => KeepTypes attributes.items instanceDb ∧
      ((∀ p ∈ attributes.items, get instanceDb p.1 = some p.2) ∨
        ∀ name ∈ instanceDb.map Prod.fst, name ∈ attributes.items.map Prod.fst)

/-- The calls that both databases take alike. -/
def Agrees (v : MibDbVolatileDict) : DbCall → Prop
  | .add deviceId true => ∀ device, get v deviceId = some device →
      device.mibDataSync = 0 ∧ device.classes = []
  | .set deviceId classId instanceId attributes => ∀ device, get v deviceId = some device →
      SetAgrees attributes (device.instanceDb classId instanceId)
  | .delete deviceId _ _ => get v deviceId ≠ none
  | .query deviceId q => q = .device ∨ get v deviceId ≠ none
  | _ => True

/-- Two runs of a method have the same outcome and leave databases that match. -/
def Agree {α : Type} (r : Except DbError α × MibDbVolatileDict)
    (r' : Except DbError α × MibDbExternal) : Prop := r.1 = r'.1 ∧ DbMatch r.2 r'.2

theorem agree_result {a : Method α} {b : MibDbExternal.Method α}
    (f : α → DbResult) (h : Agree (a v) (b x)) :
    Agree ((a >>= fun r => pure (f r)) v) ((b >>= fun r => pure (f r)) x) := by
  rw [Agree, bind_pure_apply, bind_pure_apply]
  exact ⟨congrArg (Except.map f) h.1, h.2⟩

theorem device_of_get (h : get x deviceId = some data) :
    MibDbExternal.device deviceId x = (.ok data, x) := by
  rw [MibDbExternal.device, h]

section

variable (h : DbMatch v x)
include h

/-- Both databases first look for the device. -/
theorem agree_device {f : DeviceDb → Method α}
    {g : MibDeviceData → MibDbExternal.Method α}
    (hfg : ∀ device data, get v deviceId = some device →
      get x deviceId = some data → DeviceMatch device data → Agree (f device v) (g data x)) :
    Agree ((deviceDb deviceId >>= f) v)
      ((MibDbExternal.device deviceId >>= g) x) := by
  rcases hv : get v deviceId with _ | device
  · have hx : get x deviceId = none := h.none_iff.mp hv
    have hx' : MibDbExternal.device deviceId x = (.error .keyError, x) := by
      rw [MibDbExternal.device, hx]
    rw [bind_of_error (deviceDb_of_none hv), bind_of_error hx']
    exact ⟨rfl, h⟩
  · obtain ⟨data, hx, hmatch⟩ := h.exists_right hv
    rw [bind_of_ok (deviceDb_of_get hv), bind_of_ok (device_of_get hx)]
    exact hfg device data hv hx hmatch

theorem agree_put (hmatch : DeviceMatch device data) :
    Agree (put deviceId device v) (MibDbExternal.put deviceId data x) :=
  ⟨rfl, h.insert hmatch⟩

omit h in
theorem update_of_get {old : MibDeviceData} (h : get x deviceId = some old) (data : MibDeviceData) :
    MibDbExternal.update deviceId data x =
      MibDbExternal.put deviceId { data with classes := old.classes } x := by
  rw [MibDbExternal.update, bind_of_ok (device_of_get h)]

/-! ### Methods without conditions -/

/-- The device is changed, and its classes stay. -/
theorem agree_update {f : DeviceDb → DeviceDb} {g : MibDeviceData → MibDeviceData}
    (hfg : ∀ device data, DeviceMatch device data →
      DeviceMatch (f device) { g data with classes := data.classes }) :
    Agree ((deviceDb deviceId >>= fun device => put deviceId (f device)) v)
      ((MibDbExternal.device deviceId >>= fun data =>
        MibDbExternal.update deviceId (g data)) x) := by
  refine agree_device h fun device data hv hx hmatch => ?_
  rw [update_of_get hx]
  exact agree_put h (hfg device data hmatch)

theorem agree_onMibReset :
    Agree (onMibReset deviceId v) (MibDbExternal.onMibReset deviceId x) := by
  refine agree_device h fun device data hv hx hmatch => ?_
  rw [foldl_erase_keys]
  -- the classes are removed before the data is updated
  have hput : MibDbExternal.put deviceId { data with classes := [] } x =
      (.ok (), insert deviceId { data with classes := [] } x) := rfl
  have hget : get (insert deviceId { data with classes := [] } x) deviceId =
      some { data with classes := [] } := by
    rw [get_insert, if_pos rfl]
  rw [bind_of_ok hput, update_of_get hget]
  unfold MibDbExternal.put Act.modify
  rw [insert_insert]
  exact agree_put h ⟨rfl, .nil⟩

/-! ### Methods with conditions -/

theorem agree_add {overwrite : Bool} (hagrees : Agrees v (.add deviceId overwrite)) :
    Agree (add deviceId overwrite v)
      (MibDbExternal.add deviceId overwrite x) := by
  unfold add MibDbExternal.add
  rcases hv : get v deviceId with _ | device
  · rw [h.none_iff.mp hv, if_neg fun hnot => hnot.2 rfl]
    exact agree_put h ⟨rfl, .nil⟩
  · obtain ⟨data, hx, hmatch⟩ := h.exists_right hv
    rw [hx]
    cases overwrite with
    | false =>
      rw [if_pos ⟨rfl, some_ne_none device⟩]
      exact ⟨rfl, h⟩
    | true =>
      obtain ⟨hmds, hclasses⟩ := hagrees device hv
      have hfresh : DeviceMatch ⟨0, [], [], []⟩ data :=
        ⟨hmds.symm.trans hmatch.mibDataSync, hclasses ▸ hmatch.classes⟩
      rw [if_neg fun hnot => Bool.noConfusion hnot.1]
      dsimp only
      rw [if_pos rfl, update_of_get hx]
      exact agree_put h hfresh

theorem agree_delete (hagrees : Agrees v (.delete deviceId classId instanceId)) :
    Agree (delete deviceId classId instanceId v)
      (MibDbExternal.delete deviceId classId instanceId x) := by
  rcases hv : get v deviceId with _ | device
  · exact absurd hv hagrees
  obtain ⟨data, hx, hmatch⟩ := h.exists_right hv
  rw [delete, bind_of_ok (deviceDb_of_get hv)]
  unfold MibDbExternal.delete
  rw [hx]
  dsimp only
  rcases hc : get device.classes classId with _ | classDb
  · rw [hmatch.classes.none_iff.mp hc]
    exact ⟨rfl, h⟩
  obtain ⟨instances, hc', hinstances⟩ := hmatch.classes.exists_right hc
  rw [hc']
  dsimp only
  rcases hi : get classDb instanceId with _ | instanceDb
  · rw [hinstances.none_iff.mp hi]
    exact ⟨rfl, h⟩
  obtain ⟨instData, hi', -⟩ := hinstances.exists_right hi
  rw [hi']
  have herase : InstancesMatch (erase instanceId classDb) (erase instanceId instances) :=
    hinstances.erase
  refine ⟨rfl, h.insert ⟨hmatch.mibDataSync, ?_⟩⟩
  by_cases hempty : erase instanceId classDb = []
  · rw [if_pos hempty, if_pos (herase.eq_nil_iff.mp hempty)]
    exact hmatch.classes.erase
  · rw [if_neg hempty, if_neg fun hnil => hempty (herase.eq_nil_iff.mpr hnil)]
    exact hmatch.classes.insert herase

end

/-! ### Setting attributes -/

theorem volatile_set (h : get v deviceId = some device) {o : Option (List (String × Number))}
    (hinst : device.instanceDb classId instanceId = o) {r : Except DbError Bool}
    (hrun : setAttributes attributes (o.getD []) = (r, instanceDb)) :
    set deviceId classId instanceId attributes v =
      (r, insert deviceId
        { device with
          classes := insert classId
            (insert instanceId instanceDb ((get device.classes classId).getD [])) device.classes }
        v) := by
  rw [MibDbVolatileDict.set, bind_of_ok (deviceDb_of_get h)]
  unfold DeviceDb.instanceDb at hinst
  rw [hinst, hrun]
  rfl

section

variable (h : get x deviceId = some data) (attributes : Attributes)
include h

/-- `set` on an instance that is not there, whether or not its class is. -/
theorem external_set_new (hnone : get ((get data.classes classId).getD []) instanceId = none) :
    MibDbExternal.set deviceId classId instanceId attributes x =
      (.ok true, insert deviceId
        { data with
          classes := insert classId (insert instanceId (MibDbExternal.attributeData attributes)
            ((get data.classes classId).getD [])) data.classes } x) := by
  rw [MibDbExternal.set, bind_of_ok (device_of_get h)]
  rcases hclass : get data.classes classId with _ | instances
  · rfl
  · rw [hclass, getD_some] at hnone
    dsimp only
    rw [hnone]
    rfl

theorem external_set_known {instances : List (ℕ × List (String × String))}
    {instData : List (String × String)} (hclass : get data.classes classId = some instances)
    (hinst : get instances instanceId = some instData) :
    MibDbExternal.set deviceId classId instanceId attributes x =
      if MibDbExternal.modifies attributes instData then
        (.ok true, insert deviceId
          { data with
            classes := insert classId (insert instanceId (MibDbExternal.attributeData attributes)
              (erase instanceId instances)) data.classes } x)
      else (.ok false, x) := by
  rw [MibDbExternal.set, bind_of_ok (device_of_get h), hclass]
  dsimp only
  rw [hinst]
  dsimp only
  split <;> rfl

end

/-- Attributes that are all given anew match the strings made of them. -/
theorem attributesMatch_of_get (h : ∀ name, get instanceDb name = get attributes.items name) :
    AttributesMatch instanceDb (MibDbExternal.attributeData attributes) := by
  intro name
  rw [h, get_attributeData]
  rcases get attributes.items name with _ | v
  · exact .none
  · exact .some rfl

/-- On a new instance, the attributes given are all that there is. -/
theorem setAttributes_new (attributes : Attributes) :
    ∃ instanceDb, setAttributes attributes [] =
        (.ok (!attributes.items.isEmpty), instanceDb) ∧
      AttributesMatch instanceDb (MibDbExternal.attributeData attributes) := by
  have hkeep : KeepTypes attributes.items [] := nofun
  obtain ⟨instanceDb, hrun, hlookup⟩ := (setAttributes_cases attributes.nodup false _).1 hkeep
  refine ⟨instanceDb, ?_, attributesMatch_of_get fun name => ?_⟩
  · unfold setAttributes
    rw [hrun]
    rcases attributes.items with _ | ⟨p, items⟩
    · rfl
    · rfl
  · rw [hlookup, get_nil, or_none]

section

variable (h : DbMatch v x) (hv : get v deviceId = some device) (hx : get x deviceId = some data)
  (hmatch : DeviceMatch device data)
include h hv hx hmatch

theorem agree_set_new (hinst : device.instanceDb classId instanceId = none)
    (hne : attributes.items ≠ []) :
    Agree (set deviceId classId instanceId attributes v)
      (MibDbExternal.set deviceId classId instanceId attributes x) := by
  have hclassDb := hmatch.classes.getD classId
  obtain ⟨instanceDb, hrun, hattributes⟩ := setAttributes_new attributes
  have hchanged : (!attributes.items.isEmpty) = true := by
    rw [Bool.not_eq_true', List.isEmpty_eq_false_iff]
    exact hne
  rw [hchanged] at hrun
  rw [volatile_set hv hinst hrun,
    external_set_new hx attributes (hclassDb.none_iff.mp hinst)]
  exact ⟨rfl, h.insert ⟨hmatch.mibDataSync, hmatch.classes.insert (hclassDb.insert hattributes)⟩⟩

omit h hv hx hmatch in
/-- What is found of an instance that is there. -/
theorem DeviceMatch.exists_instance (hmatch : DeviceMatch device data)
    (hinst : device.instanceDb classId instanceId = some instanceDb) :
    ∃ classDb instances instData, get device.classes classId = some classDb ∧
      get data.classes classId = some instances ∧ InstancesMatch classDb instances ∧
      get classDb instanceId = some instanceDb ∧ get instances instanceId = some instData ∧
      AttributesMatch instanceDb instData := by
  unfold DeviceDb.instanceDb at hinst
  rcases hc : get device.classes classId with _ | classDb
  · rw [hc] at hinst
    cases hinst
  · rw [hc] at hinst
    obtain ⟨instances, hc', hinstances⟩ := hmatch.classes.exists_right hc
    obtain ⟨instData, hi', hattributes⟩ := hinstances.exists_right hinst
    exact ⟨classDb, instances, instData, rfl, hc', hinstances, hinst, hi', hattributes⟩

theorem agree_set_known (hinst : device.instanceDb classId instanceId = some instanceDb)
    (hset : SetAgrees attributes (some instanceDb)) :
    Agree (set deviceId classId instanceId attributes v)
      (MibDbExternal.set deviceId classId instanceId attributes x) := by
  obtain ⟨hkeep, hall⟩ := hset
  obtain ⟨classDb, instances, instData, hc, hc', hinstances, hi, hi', hattributes⟩ :=
    hmatch.exists_instance hinst
  obtain ⟨instanceDb', hrun, hlookup⟩ := (setAttributes_cases attributes.nodup false _).1 hkeep
  rw [volatile_set hv hinst hrun,
    external_set_known hx attributes hc' hi', modifies_eq hattributes hkeep, hc, getD_some,
    Bool.false_or]
  by_cases hmod : (attributes.items.any fun p => get instanceDb p.1 ≠ some p.2) = true
  · -- an attribute changes, so that all of them are given
    rw [if_pos hmod, hmod]
    have hgiven : ∀ name, get instanceDb' name = get attributes.items name := by
      intro name
      rw [hlookup]
      rcases hname : get attributes.items name with _ | v
      · rcases hall with hsame | hall
        · obtain ⟨p, hp, hne⟩ := List.any_eq_true.mp hmod
          exact absurd (hsame p hp) (of_decide_eq_true hne)
        · rw [none_or]
          exact get_eq_none_iff.mpr fun hmem => get_eq_none_iff.mp hname (hall name hmem)
      · rfl
    exact ⟨rfl, h.insert ⟨hmatch.mibDataSync,
      hmatch.classes.insert (hinstances.insert_erase (attributesMatch_of_get hgiven))⟩⟩
  · -- no attribute changes
    rw [if_neg hmod, Bool.eq_false_iff.mpr hmod]
    have hattributes' : AttributesMatch instanceDb' instData := by
      intro name
      have hsame : get instanceDb' name = get instanceDb name := by
        rw [hlookup]
        rcases hname : get attributes.items name with _ | v
        · rfl
        · by_contra hne
          refine hmod (List.any_eq_true.mpr ⟨(name, v), mem_of_lookup hname, decide_eq_true ?_⟩)
          exact fun hsome => hne hsome.symm
      rw [hsame]
      exact hattributes name
    refine ⟨rfl, h.insert_left hx ⟨hmatch.mibDataSync, ?_⟩⟩
    exact hmatch.classes.insert_left hc' (hinstances.insert_left hi' hattributes')

end

theorem agree_set (h : DbMatch v x)
    (hagrees : Agrees v (.set deviceId classId instanceId attributes)) :
    Agree (set deviceId classId instanceId attributes v)
      (MibDbExternal.set deviceId classId instanceId attributes x) := by
  rcases hv : get v deviceId with _ | device
  · refine agree_device h fun device data hv' => ?_
    rw [hv] at hv'
    cases hv'
  · obtain ⟨data, hx, hmatch⟩ := h.exists_right hv
    have hset := hagrees device hv
    rcases hinst : device.instanceDb classId instanceId with _ | instanceDb
    · rw [hinst] at hset
      exact agree_set_new h hv hx hmatch hinst hset
    · rw [hinst] at hset
      exact agree_set_known h hv hx hmatch hinst hset

/-! ### Questions -/

theorem volatile_query_state (q : Query) : (query deviceId q v).2 = v := by
  rcases hv : get v deviceId with _ | device
  · rw [query, bind_of_error (deviceDb_of_none hv)]
  · rw [query, bind_of_ok (deviceDb_of_get hv)]
    cases q <;> rfl

theorem external_query_state (q : Query) : (MibDbExternal.query deviceId q x).2 = x := by
  unfold MibDbExternal.query
  cases q with
  | device => rcases get x deviceId with _ | data <;> rfl
  | _ => rfl

theorem agree_query (h : DbMatch v x) {q : Query} (hagrees : Agrees v (.query deviceId q)) :
    Agree (query deviceId q v) (MibDbExternal.query deviceId q x) := by
  refine ⟨(sameAnswers_of_match (s := (v, x)) h deviceId).2 q hagrees, ?_⟩
  rw [volatile_query_state, external_query_state]
  exact h

/-- **Calls that agree have the same result, and keep the databases matching.** -/
theorem agree_call (names : EntityNames) (h : DbMatch v x) (hagrees : Agrees v call) :
    Agree (MibDbVolatileDict.call names call v) (MibDbExternal.call names call x) := by
  cases call with
  | add deviceId overwrite => exact agree_result (fun _ => .done) (agree_add h hagrees)
  | remove deviceId => exact agree_result (fun _ => .done) ⟨rfl, h.erase⟩
  | onMibReset deviceId => exact agree_result (fun _ => .done) (agree_onMibReset h)
  | saveMibDataSync deviceId value =>
    exact agree_result (fun _ => .done) (agree_update h fun _ _ hmatch => ⟨rfl, hmatch.classes⟩)
  | getMibDataSync deviceId =>
    have hsame := (sameAnswers_of_match (s := (v, x)) h deviceId).1
    exact ⟨congrArg (fun m => Except.ok (DbResult.mibDataSync m)) hsame, h⟩
  | set deviceId classId instanceId attributes => exact agree_result .changed (agree_set h hagrees)
  | delete deviceId classId instanceId => exact agree_result .changed (agree_delete h hagrees)
  | query deviceId q => exact agree_result .answer (agree_query h hagrees)
  | updateSupportedManagedEntities deviceId managedEntities =>
    exact agree_result (fun _ => .done)
      (agree_update h fun _ _ hmatch => ⟨hmatch.mibDataSync, hmatch.classes⟩)
  | updateSupportedMessageTypes deviceId msgTypes =>
    exact agree_result (fun _ => .done)
      (agree_update h fun _ _ hmatch => ⟨hmatch.mibDataSync, hmatch.classes⟩)

/-! ## Calls that do not agree -/

/-- Both databases get a call. -/
def Databases.step (names : EntityNames) (s : Databases) (call : DbCall) : Databases :=
  ((MibDbVolatileDict.call names call s.1).2, (MibDbExternal.call names call s.2).2)

/-- The call has the same result in both databases, and they give the same answers after it. -/
def Interchangeable (names : EntityNames) (s : Databases) (call : DbCall) : Prop :=
  (MibDbVolatileDict.call names call s.1).1 = (MibDbExternal.call names call s.2).1 ∧
    SameAnswers (s.step names call)

/-- The same, with the methods of the databases for the call. -/
theorem Interchangeable.methods {a : Method α} {b : MibDbExternal.Method α}
    {f : α → DbResult} (h : Interchangeable names s call)
    (ha : MibDbVolatileDict.call names call = a >>= fun r => pure (f r))
    (hb : MibDbExternal.call names call = b >>= fun r => pure (f r)) :
    (a s.1).1.map f = (b s.2).1.map f ∧ SameAnswers ((a s.1).2, (b s.2).2) := by
  unfold Interchangeable Databases.step at h
  rw [ha, hb, bind_pure_apply, bind_pure_apply] at h
  exact h

/-- Databases with the same answers have the same content of a device. -/
theorem SameAnswers.content (h : SameAnswers s) (deviceId : String)
    (hv : get s.1 deviceId = some device) (hx : get s.2 deviceId = some data) :
    device.mibDataSync = data.mibDataSync ∧
      deviceContent device = MibDbExternal.deviceContent data := by
  obtain ⟨hmds, hquery⟩ := h deviceId
  have hdevice := hquery .device (.inl rfl)
  unfold getMibDataSync MibDbExternal.getMibDataSync at hmds
  rw [hv, hx] at hmds
  rw [volatile_query hv, external_query hx] at hdevice
  exact ⟨some.inj hmds, Answer.device.inj (Except.ok.inj hdevice)⟩

theorem fresh_of_sameAnswers (hmatch : DeviceMatch device data)
    (h : SameAnswers (insert deviceId ⟨0, [], [], []⟩ v, insert deviceId data x)) :
    device.mibDataSync = 0 ∧ device.classes = [] := by
  obtain ⟨hmds, hcontent⟩ := h.content deviceId
    (by rw [get_insert, if_pos rfl]) (by rw [get_insert, if_pos rfl])
  refine ⟨hmatch.mibDataSync.trans hmds.symm, OrderedDict.eq_nil_iff.mpr fun classId => ?_⟩
  rw [← deviceContent_eq hmatch] at hcontent
  have hclass : none = (get device.classes classId).map classContent :=
    congrFun hcontent classId
  exact map_eq_none_iff.mp hclass.symm

theorem agrees_add_of_interchangeable (h : DbMatch s.1 s.2) {overwrite : Bool}
    (hinter : Interchangeable names s (.add deviceId overwrite)) :
    Agrees s.1 (.add deviceId overwrite) := by
  cases overwrite with
  | false => trivial
  | true =>
    intro device hv
    obtain ⟨data, hx, hmatch⟩ := h.exists_right hv
    have hvolatile : (add deviceId true s.1).2 =
        insert deviceId ⟨0, [], [], []⟩ s.1 := by
      rw [add, if_neg fun hnot => Bool.noConfusion hnot.1]
      rfl
    have hexternal : (MibDbExternal.add deviceId true s.2).2 = insert deviceId data s.2 := by
      rw [MibDbExternal.add, hx]
      dsimp only
      rw [if_pos rfl, update_of_get hx]
      rfl
    have hsame := (hinter.methods (f := fun _ => .done) rfl rfl).2
    rw [hvolatile, hexternal] at hsame
    exact fresh_of_sameAnswers hmatch hsame

/-- An attribute that is kept by the one database and dropped by the other shows. -/
theorem lost_attribute {instanceDb' : List (String × Number)}
    {classDb : List (ℕ × List (String × Number))} {instances : List (ℕ × List (String × String))}
    {name : String} (hkept : get instanceDb' name ≠ none)
    (hlost : name ∉ attributes.items.map Prod.fst) :
    ¬ SameAnswers
      (insert deviceId { device with
          classes := insert classId (insert instanceId instanceDb' classDb) device.classes } v,
        insert deviceId { data with
          classes := insert classId (insert instanceId (MibDbExternal.attributeData attributes)
            instances) data.classes } x) := by
  intro hsame
  have hcontent := (hsame.content deviceId
    (by rw [get_insert, if_pos rfl]) (by rw [get_insert, if_pos rfl])).2
  have hclass := congrFun hcontent classId
  unfold deviceContent MibDbExternal.deviceContent at hclass
  rw [get_insert, get_insert, if_pos rfl, if_pos rfl] at hclass
  have hinst := congrFun (some.inj hclass) instanceId
  unfold classContent MibDbExternal.classContent at hinst
  rw [get_insert, get_insert, if_pos rfl, if_pos rfl] at hinst
  have hname := congrFun (some.inj hinst) name
  unfold instanceContent MibDbExternal.instanceContent at hname
  rw [get_attributeData, get_eq_none_iff.mpr hlost] at hname
  exact hkept (map_eq_none_iff.mp hname)

theorem agrees_set_of_interchangeable (h : DbMatch s.1 s.2)
    (hinter : Interchangeable names s (.set deviceId classId instanceId attributes)) :
    Agrees s.1 (.set deviceId classId instanceId attributes) := by
  intro device hv
  obtain ⟨data, hx, hmatch⟩ := h.exists_right hv
  obtain ⟨hresult, hsame⟩ := hinter.methods (f := .changed) rfl rfl
  rcases hinst : device.instanceDb classId instanceId with _ | instanceDb
  · -- a new instance: the second database says that it has changed
    intro hnil
    obtain ⟨instanceDb, hrun, -⟩ := setAttributes_new attributes
    have hnone := (hmatch.classes.getD classId).none_iff.mp hinst
    rw [volatile_set hv hinst hrun, external_set_new hx attributes hnone, hnil] at hresult
    cases hresult
  · obtain ⟨classDb, instances, instData, hc, hc', hinstances, hi, hi', hattributes⟩ :=
      hmatch.exists_instance hinst
    rw [external_set_known hx attributes hc' hi'] at hresult hsame
    have hkeep : KeepTypes attributes.items instanceDb := by
      by_contra hnot
      have herror := (setAttributes_cases attributes.nodup false _).2 hnot
      rw [volatile_set hv hinst (r := .error .assertionError) (Prod.ext herror rfl)] at hresult
      split at hresult <;> cases hresult
    refine ⟨hkeep, ?_⟩
    by_contra hnot
    push Not at hnot
    obtain ⟨⟨p, hp, hne⟩, name, hname, hlost⟩ := hnot
    obtain ⟨instanceDb', hrun, hlookup⟩ := (setAttributes_cases attributes.nodup false _).1 hkeep
    have hmod : MibDbExternal.modifies attributes instData = true := by
      rw [modifies_eq hattributes hkeep]
      exact List.any_eq_true.mpr ⟨p, hp, decide_eq_true hne⟩
    rw [volatile_set hv hinst hrun, if_pos hmod] at hsame
    refine lost_attribute ?_ hlost hsame
    rw [hlookup, get_eq_none_iff.mpr hlost, none_or]
    exact fun hnone => get_eq_none_iff.mp hnone hname

/-- **A call that does not agree shows**, in its result or in the answers after it. -/
theorem agrees_of_interchangeable (h : DbMatch s.1 s.2) (hinter : Interchangeable names s call) :
    Agrees s.1 call := by
  cases call with
  | add deviceId overwrite => exact agrees_add_of_interchangeable h hinter
  | set deviceId classId instanceId attributes => exact agrees_set_of_interchangeable h hinter
  | delete deviceId classId instanceId =>
    intro hv
    have hresult := (hinter.methods (f := .changed) rfl rfl).1
    rw [delete, bind_of_error (deviceDb_of_none hv)] at hresult
    unfold MibDbExternal.delete at hresult
    rw [h.none_iff.mp hv] at hresult
    cases hresult
  | query deviceId q =>
    by_contra hnot
    rw [Agrees, not_or, not_not] at hnot
    have hresult := (hinter.methods (f := .answer) rfl rfl).1
    rw [query, bind_of_error (deviceDb_of_none hnot.2)] at hresult
    unfold MibDbExternal.query at hresult
    cases q with
    | device => exact hnot.1 rfl
    | _ => cases hresult
  | _ => trivial

/-- **The databases can stand for each other in exactly the runs whose calls all agree.** -/
theorem interchangeable_iff (names : EntityNames) (calls : List DbCall) :
    AllAlong (Databases.step names) (Interchangeable names) ([], []) calls ↔
      AllAlong (Databases.step names) (fun s call => Agrees s.1 call) ([], []) calls := by
  have hstep : ∀ (s : Databases) call, DbMatch s.1 s.2 → Agrees s.1 call →
      DbMatch (s.step names call).1 (s.step names call).2 := fun s call h hagrees =>
    (agree_call names h hagrees).2
  refine allAlong_congr (I := fun s => DbMatch s.1 s.2)
    (fun s call h hinter => hstep s call h (agrees_of_interchangeable h hinter))
    (fun s call h => ⟨agrees_of_interchangeable h, fun hagrees => ?_⟩) .nil
  exact ⟨(agree_call names h hagrees).1, sameAnswers_of_match (hstep s call h hagrees)⟩

/-- The value of an attribute in the answer to a question for an instance. -/
def Answer.attribute (r : Except DbError Answer) (name : String) : Option ℤ :=
  match r with
  | .ok (.inst (some content)) => content name
  | _ => none

/-- A GEM port is created with two attributes, and then one of them is set. -/
def partialSet : List DbCall :=
  [.add "onu" false,
    .set "onu" 268 1 ⟨[("port_id", ⟨1024, false⟩), ("tcont_pointer", ⟨32769, false⟩)], by decide⟩,
    .set "onu" 268 1 ⟨[("port_id", ⟨1025, false⟩)], by decide⟩]

/-- The external database forgets the attribute that was not set. -/
theorem partial_set_forgets :
    let s := partialSet.foldl (Databases.step fun _ => none) ([], [])
    Answer.attribute (query "onu" (.inst 268 1) s.1).1 "tcont_pointer" =
        some 32769 ∧
      Answer.attribute (MibDbExternal.query "onu" (.inst 268 1) s.2).1 "tcont_pointer" = none ∧
      ¬ AllAlong (Databases.step fun _ => none) (Interchangeable fun _ => none) ([], [])
        partialSet := by
  refine ⟨by decide +kernel, by decide +kernel, ?_⟩
  rintro ⟨-, -, ⟨-, hsame⟩, -⟩
  have hanswers := (hsame "onu").2 (.inst 268 1) (.inr (by decide +kernel))
  exact absurd (congrArg (Answer.attribute · "tcont_pointer") hanswers) (by decide +kernel)

end Voltha.Mib
