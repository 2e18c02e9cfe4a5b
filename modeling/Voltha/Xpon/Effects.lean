import Voltha.Xpon.XponHandler

/-!
# What the handlers can do

Each body of the handlers leaves everything as it is, or it does what its request asks for.
-/

namespace Voltha.Xpon

open KeyedList Root Message

open Common (IndexPool)

theorem noSlash_of_malformed {name : String} (h : malformed name = none) : '/' ∉ name.toList := by
  intro hslash
  rw [malformed, if_pos hslash] at h
  exact nomatch h

section Bodies

variable {α : Type} [Message α] (coll : Collection α) (s : XponHandler) (r : α)

theorem create_cases :
    (create coll s r).2 = s ∨
      validateInterface s.config (coll.interface r) = none ∧
        name r ∉ (coll.items s.config).map name ∧
        (create coll s r).2 = s.put coll (coll.items s.config ++ [r]) := by
  rw [create]
  split
  · exact .inl rfl
  · next hvalid =>
    split
    · exact .inl rfl
    · exact .inl rfl
    · next items hadd =>
      obtain ⟨hnew, rfl⟩ := add_eq_ok.mp hadd
      exact .inr ⟨hvalid, hnew, rfl⟩

theorem update_cases :
    (update coll s r).2 = s ∨
      validateInterface s.config (coll.interface r) = none ∧
        name r ∈ (coll.items s.config).map name ∧
        (update coll s r).2 =
          s.put coll (replace name r (coll.items s.config)) := by
  rw [update]
  split
  · exact .inl rfl
  · split
    · exact .inl rfl
    · next hvalid =>
      split
      · exact .inl rfl
      · exact .inl rfl
      · next items hupdate =>
        obtain ⟨y, hy, -, rfl⟩ := update_eq_ok hupdate
        exact .inr ⟨hvalid, mem_keys_of_find hy, rfl⟩

theorem delete_cases (referenced : FiberConfig → String → Option String) :
    (delete coll s r referenced).2 = s ∨
      referenced s.config (name r) = none ∧
        name r ∈ (coll.items s.config).map name ∧
        (delete coll s r referenced).2 =
          s.put coll (erase name (name r) (coll.items s.config)) := by
  rw [delete]
  split
  · exact .inl rfl
  · split
    · exact .inl rfl
    · next hfree =>
      split
      · exact .inl rfl
      · exact .inl rfl
      · next items hremove =>
        obtain ⟨hmem, rfl⟩ := remove_eq_ok hremove
        exact .inr ⟨hfree, hmem, rfl⟩

/-- A stored message that is not referred to is deleted. -/
theorem delete_of_mem {referenced : FiberConfig → String → Option String}
    (hslash : '/' ∉ (name r).toList) (hne : name r ≠ "")
    (hfree : referenced s.config (name r) = none)
    (hmem : name r ∈ (coll.items s.config).map name) :
    (delete coll s r referenced).2 =
      s.put coll (erase name (name r) (coll.items s.config)) := by
  have hmalformed : malformed (name r) = none := if_neg hslash
  rw [delete, hmalformed]
  rw [hfree]
  rw [remove_of_mem hne hmem]

end Bodies

section NumberedBodies

variable {α : Type} [Message α] (coll : Numbered α) (s : XponHandler) (r : α)

/-- A message with an id is not created, or its name is in use and the id is released again, or it
is created with the id that was taken. -/
theorem createNumbered_cases :
    (createNumbered coll s r).2 = s ∨
      validateInterface s.config (coll.interface r) = none ∧
        ∃ group pools id pool, s.pools (coll.extract s.config r) = .ok (group, pools) ∧
          takeId coll r (coll.pool pools) = some (id, pool) ∧
          ((createNumbered coll s r).2 =
              s.setPools group (coll.setPool pools (pool.release id)) ∨
            name (coll.setId r id) ∉ (coll.items s.config).map name ∧
              (createNumbered coll s r).2 = (s.setPools group (coll.setPool pools pool)).put
                coll.toCollection (coll.items s.config ++ [coll.setId r id])) := by
  rw [createNumbered]
  split
  · exact .inl rfl
  · next hvalid =>
    split
    · exact .inl rfl
    · exact .inl rfl
    · next group pools hpools =>
      split
      · exact .inl rfl
      · next id pool hid =>
        refine .inr ⟨hvalid, group, pools, id, pool, hpools, hid, ?_⟩
        split
        · exact .inl rfl
        · next e hne hadd =>
          -- adding raises nothing else
          rw [add] at hadd
          split at hadd
          · exact absurd (Except.error.inj hadd).symm hne
          · cases hadd
        · next items hadd =>
          obtain ⟨hnew, rfl⟩ := add_eq_ok.mp hadd
          exact .inr ⟨hnew, rfl⟩

theorem updateNumbered_cases :
    (updateNumbered coll s r).2 = s ∨
      validateInterface s.config (coll.interface r) = none ∧ '/' ∉ (name r).toList ∧
        ∃ item, get (coll.items s.config) (name r) = .ok (some item) ∧
          name (coll.setId r (coll.id item)) ∈ (coll.items s.config).map name ∧
          (updateNumbered coll s r).2 = s.put coll.toCollection (replace name
            (coll.setId r (coll.id item)) (coll.items s.config)) := by
  rw [updateNumbered]
  split
  · exact .inl rfl
  · next hname =>
    have hslash := noSlash_of_malformed hname
    split
    · exact .inl rfl
    · next hvalid =>
      split
      · exact .inl rfl
      · exact .inl rfl
      · exact .inl rfl
      · next item hget =>
        split
        · exact .inl rfl
        · exact .inl rfl
        · next items hupdate =>
          obtain ⟨y, hy, -, rfl⟩ := update_eq_ok hupdate
          exact .inr ⟨hvalid, hslash, item, hget, mem_keys_of_find hy, rfl⟩

theorem deleteNumbered_cases (referenced : FiberConfig → String → Option String) :
    (deleteNumbered coll s r referenced).2 = s ∨
      referenced s.config (name r) = none ∧
        name r ∈ (coll.items s.config).map name ∧
        ∃ item, get (coll.items s.config) (name r) = .ok (some item) ∧
          '/' ∉ (name r).toList ∧
          ((deleteNumbered coll s r referenced).2 = s.put coll.toCollection
              (erase name (name r) (coll.items s.config)) ∧
              (∃ e, s.pools (coll.extract s.config item) = .error e) ∨
            ∃ group pools, s.pools (coll.extract s.config item) = .ok (group, pools) ∧
              (deleteNumbered coll s r referenced).2 =
                (s.put coll.toCollection
                  (erase name (name r) (coll.items s.config))).setPools
                  group (coll.setPool pools ((coll.pool pools).release (coll.id item)))) := by
  rw [deleteNumbered]
  split
  · exact .inl rfl
  · next hname =>
    have hslash := noSlash_of_malformed hname
    split
    · exact .inl rfl
    · next hfree =>
      split
      · exact .inl rfl
      · exact .inl rfl
      · exact .inl rfl
      · next item hget =>
        split
        · exact .inl rfl
        · exact .inl rfl
        · next items hremove =>
          obtain ⟨hmem, rfl⟩ := remove_eq_ok hremove
          refine .inr ⟨hfree, hmem, item, hget, hslash, ?_⟩
          split
          · next h => exact .inl ⟨rfl, .key, h⟩
          · next e _ h => exact .inl ⟨rfl, e, h⟩
          · next group pools h => exact .inr ⟨group, pools, h, rfl⟩

end NumberedBodies

/-! ## Channel groups -/

section

variable (s : XponHandler)
include s

section

variable (r : ChannelgroupConfig)

theorem createChannelGroup_cases :
    (createChannelGroup s r).2 = s ∨
      validateInterface s.config (.channelGroup r) = none ∧
        ∃ id pool, s.cgPool.getNext = some (id, pool) ∧
          ((createChannelGroup s r).2 = { s with cgPool := pool.release id } ∨
            r.name ∉ s.config.channelGroups.map (·.name) ∧
              (createChannelGroup s r).2 = ({ s with cgPool := pool }.put channelGroups
                (s.config.channelGroups ++ [{ r with cgIndex := id }])).setPools r.name .new) := by
  rw [createChannelGroup]
  split
  · exact .inl rfl
  · next hvalid =>
    split
    · exact .inl rfl
    · next id pool hnext =>
      refine .inr ⟨hvalid, id, pool, hnext, ?_⟩
      split
      · exact .inl rfl
      · next e hne hadd =>
        rw [add] at hadd
        split at hadd
        · exact absurd (Except.error.inj hadd).symm hne
        · cases hadd
      · next items hadd =>
        obtain ⟨hnew, rfl⟩ := add_eq_ok.mp hadd
        exact .inr ⟨hnew, rfl⟩

theorem updateChannelGroup_cases :
    (updateChannelGroup s r).2 = s ∨
      validateInterface s.config (.channelGroup r) = none ∧
        ∃ item, find name s.config.channelGroups r.name = some item ∧
          (updateChannelGroup s r).2 = s.put channelGroups (replace name
            { r with cgIndex := item.cgIndex } s.config.channelGroups) := by
  rw [updateChannelGroup]
  split
  · exact .inl rfl
  · next hname =>
    split
    · exact .inl rfl
    · next hvalid =>
      split
      · exact .inl rfl
      · exact .inl rfl
      · exact .inl rfl
      · next item hget =>
        split
        · exact .inl rfl
        · exact .inl rfl
        · next items hupdate =>
          obtain ⟨y, hy, -, rfl⟩ := update_eq_ok hupdate
          exact .inr ⟨hvalid, item, get_eq_some (noSlash_of_malformed hname) hget, rfl⟩

/-- The channel group that is deleted is not referred to. -/
theorem deleteChannelGroup_cases :
    (deleteChannelGroup s r).2 = s ∨
      (∀ x ∈ s.config.channelPartitions, x.channelgroupRef ≠ r.name) ∧
        (∀ x ∈ s.config.channelPairs, x.channelgroupRef ≠ r.name) ∧
        ∃ item, find name s.config.channelGroups r.name = some item ∧
          (deleteChannelGroup s r).2 = { s.put channelGroups (erase name r.name
            s.config.channelGroups) with cgPool := s.cgPool.release item.cgIndex } := by
  rw [deleteChannelGroup]
  split
  · exact .inl rfl
  · next hname =>
    split
    · exact .inl rfl
    · next hpartitions =>
      split
      · exact .inl rfl
      · next hpairs =>
        have hnone : (∀ x ∈ s.config.channelPartitions, x.channelgroupRef ≠ r.name) ∧
            ∀ x ∈ s.config.channelPairs, x.channelgroupRef ≠ r.name := by
          simp only [List.any_eq_true, decide_eq_true_eq, not_exists, not_and] at hpartitions hpairs
          exact ⟨hpartitions, hpairs⟩
        split
        · exact .inl rfl
        · exact .inl rfl
        · next item hget =>
          split
          · exact .inl rfl
          · exact .inl rfl
          · next items hremove =>
            obtain ⟨hmem, rfl⟩ := remove_eq_ok hremove
            split
            · -- there is no key in the empty path
              exfalso
              rw [Root.get] at hget
              split at hget
              · next hempty =>
                rw [hempty, remove, if_pos rfl] at hremove
                cases hremove
              · split at hget
                · cases hget
                · split at hget
                  · cases hget
                  · cases hget
            · next item =>
              refine .inr ⟨hnone.1, hnone.2, item, ?_, rfl⟩
              exact get_eq_some (noSlash_of_malformed hname) hget

end

/-! ## Channel terminations -/

section

variable (r : ChannelterminationConfig)
include r

theorem createChannelTermination_cases :
    (createChannelTermination s r).2 = s ∨
      validateInterface s.config (.channelTermination r) = none ∧ ∃ device ∈ s.config.devices,
        (createChannelTermination s r).2 =
          s.putTerminations device (device.channelTerminations ++ [r]) := by
  rw [createChannelTermination]
  split
  · exact .inl rfl
  · next hvalid =>
    split
    · exact .inl rfl
    · next device hdevice =>
      split
      · exact .inl rfl
      · exact .inl rfl
      · next items hadd =>
        obtain ⟨-, rfl⟩ := add_eq_ok.mp hadd
        exact .inr ⟨hvalid, device, (find_spec hdevice).1, rfl⟩

theorem updateChannelTermination_cases :
    (updateChannelTermination s r).2 = s ∨
      validateInterface s.config (.channelTermination r) = none ∧ ∃ device ∈ s.config.devices,
        (updateChannelTermination s r).2 = s.putTerminations device
          (replace name r device.channelTerminations) := by
  rw [updateChannelTermination]
  split
  · exact .inl rfl
  · split
    · exact .inl rfl
    · next hvalid =>
      split
      · exact .inl rfl
      · next device hdevice =>
        split
        · exact .inl rfl
        · exact .inl rfl
        · next items hupdate =>
          obtain ⟨y, hy, -, rfl⟩ := update_eq_ok hupdate
          exact .inr ⟨hvalid, device, (find_spec hdevice).1, rfl⟩

theorem deleteChannelTermination_cases :
    (deleteChannelTermination s r).2 = s ∨ ∃ device ∈ s.config.devices,
      (deleteChannelTermination s r).2 = s.putTerminations device
        (erase name r.name device.channelTerminations) := by
  rw [deleteChannelTermination]
  split
  · exact .inl rfl
  · split
    · exact .inl rfl
    · split
      · exact .inl rfl
      · next device hdevice =>
        split
        · exact .inl rfl
        · exact .inl rfl
        · next items hremove =>
          obtain ⟨-, rfl⟩ := remove_eq_ok hremove
          exact .inr ⟨device, (find_spec hdevice).1, rfl⟩

end

end

end Voltha.Xpon
