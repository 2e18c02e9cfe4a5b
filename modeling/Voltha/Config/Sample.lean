import Voltha.Config.Root

/-!
# A small schema

A schema in the shape of `VolthaInstance`: a root with one `health` child and with keyed
`adapters`, which have keyed `ports` of their own.  Digests are kept symbolic, so that equal
digests mean equal content (`sample_collisionFree`).  The concrete runs that accompany the
general results are runs of trees of this schema.
-/

namespace Voltha.Config

inductive SampleCls where
  | voltha
  | health
  | adapter
  | port
  deriving DecidableEq

/-- The own data of a message of the sample schema. -/
structure SampleData where
  cls : SampleCls
  id : String
  version : String
  deriving DecidableEq

/-- A digest, as the term that was digested. -/
inductive Digest where
  | data (d : SampleData)
  | nil
  | cons (head tail : Digest)
  deriving DecidableEq

namespace Digest

def ofList (l : List Digest) : Digest := l.foldr cons nil

theorem ofList_injective : Function.Injective ofList := by
  intro l
  induction l with
  | nil =>
    rintro (_ | ⟨b, l'⟩) h
    · rfl
    · exact Digest.noConfusion h
  | cons a l ih =>
    rintro (_ | ⟨b, l'⟩) h
    · exact Digest.noConfusion h
    · obtain ⟨hab, hl⟩ := Digest.cons.inj h
      rw [hab, ih hl]

end Digest

/-- The sample schema. -/
def sample : Proto where
  Cls := SampleCls
  Data := SampleData
  Val := String
  Hash := Digest
  className
    | .voltha => "VolthaInstance"
    | .health => "HealthStatus"
    | .adapter => "Adapter"
    | .port => "Port"
  typeOf := SampleData.cls
  getattr d name :=
    if name = "id" then some d.id else if name = "version" then some d.version else none
  str := id
  childrenFields
    | .voltha =>
      [("adapters", ⟨.keyed "id" fun s => .ok s, .adapter⟩), ("health", ⟨.single, .health⟩)]
    | .adapter => [("ports", ⟨.keyed "id" fun s => .ok s, .port⟩)]
    | .health => []
    | .port => []
  accessRights _ := []
  hashData := Digest.data
  hashContent h l := .cons h (Digest.ofList (l.map Digest.ofList))
  names_nodup c := by cases c <;> decide

theorem sample_collisionFree : sample.CollisionFree where
  hashData_inj h := Digest.data.inj h
  hashContent_inj h := by
    obtain ⟨hh, hl⟩ := Digest.cons.inj h
    exact ⟨hh, List.map_injective_iff.mpr Digest.ofList_injective (Digest.ofList_injective hl)⟩

namespace Sample

/-- A message without children, as a write passes it. -/
def leaf (cls : SampleCls) (id version : String) : Msg sample :=
  .mk ⟨cls, id, version⟩ (fun _ => []) fun _ => false

def port (id version : String) : Msg sample := leaf .port id version

/-- An adapter with ports. -/
def adapter (id version : String) (ports : List (Msg sample)) : Msg sample :=
  .mk ⟨.adapter, id, version⟩ (fun f => if f = "ports" then ports else []) fun _ => false

/-- A root with adapters. -/
def root (version : String) (adapters : List (Msg sample)) : Msg sample :=
  .mk ⟨.voltha, "root", version⟩
    (fun f => if f = "adapters" then adapters else
      if f = "health" then [leaf .health "" "healthy"] else []) fun _ => false

/-- A tree with three adapters; the first one has two ports. -/
def tree : Msg sample :=
  root "v0" [adapter "1" "a" [port "7" "p", port "8" "q"], adapter "2" "b" [], adapter "3" "c" []]

/-- The state of a tree that was just made. -/
def start : State sample := (mkRoot tree).2

theorem mkRoot_tree : ∃ rev, mkRoot tree = (.ok rev, start) := by
  have h : (mkRoot tree).1.toBool = true := by decide +kernel
  rcases hr : mkRoot tree with ⟨e | rev, s⟩
  · rw [hr] at h
    cases h
  · exact ⟨rev, by rw [start, hr]⟩

theorem reachable_start : Reachable start := by
  obtain ⟨rev, h⟩ := mkRoot_tree
  exact Reachable.init h

end Sample

end Voltha.Config
