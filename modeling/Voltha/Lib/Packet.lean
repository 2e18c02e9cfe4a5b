import Voltha.Lib.OrderedDict

/-!
# Records coded field by field

A record is a dictionary of named values, and a list of field descriptions says how it is written
to octets and read back: each field appends its value to what has been written, and takes its
value off the front of what is left.  A field may look at other values of the record, when it is
written and when it is read; when it is read, only the values read before it are there.

* `Codec`: values written in a fixed number of octets and read back from them.
* `selfBuild`, `dissectLoop`: a record written, and read, one field after the other.
* `Codes`: the fields of a record are written as some octets, and read back from them, by anyone
  who has found certain values under the names read before.
* `Codes.build`, `Codes.dissect`: **what is coded field by field is written whole and read back
  whole**.
-/

namespace Voltha.Packet

open List hiding get
open OrderedDict

/-- What goes over the wire. -/
abbrev Octets := List UInt8

/-! ## Big-endian numbers -/

/-- The last octets of a number, the most significant first. -/
def bigEndian : ℕ → ℕ → Octets
  | 0, _ => []
  | width + 1, n => bigEndian width (n / 256) ++ [UInt8.ofNat n]

/-- The number octets stand for. -/
def number (s : Octets) : ℕ := s.foldl (fun n b => 256 * n + b.toNat) 0

@[simp] theorem length_bigEndian (width n : ℕ) : (bigEndian width n).length = width := by
  induction width generalizing n with
  | zero => rfl
  | succ width ih => rw [bigEndian, length_append, ih, length_singleton]

theorem number_append_singleton (s : Octets) (b : UInt8) :
    number (s ++ [b]) = 256 * number s + b.toNat := by
  rw [number, foldl_append]
  rfl

/-- **A number is read back from as many octets as it needs.** -/
theorem number_bigEndian {width n : ℕ} (h : n < 256 ^ width) : number (bigEndian width n) = n := by
  induction width generalizing n with
  | zero =>
    have hn : n = 0 := by simpa using h
    rw [hn]
    rfl
  | succ width ih =>
    have hlow : (UInt8.ofNat n).toNat = n % 256 := UInt8.toNat_ofNat'
    have hhigh : n / 256 < 256 ^ width := by
      rw [Nat.div_lt_iff_lt_mul (by decide), ← Nat.pow_succ]
      exact h
    rw [bigEndian, number_append_singleton, ih hhigh, hlow]
    omega

/-! ## Codecs -/

/-- Values written in a fixed number of octets: those that fit are read back, and what follows
them is left. -/
structure Codec (ν : Type) where
  /-- How many octets a value takes. -/
  width : ℕ
  /-- Which values can be written. -/
  fits : ν → Bool
  encode : ν → Octets
  decode : Octets → Option (Octets × ν)
  length_encode : ∀ v, fits v = true → (encode v).length = width
  decode_encode : ∀ v rest, fits v = true → decode (encode v ++ rest) = some (rest, v)

/-! ## Records -/

variable {ν : Type}

/-- The values of a record, under their names; a value may be missing under a name that is there. -/
abbrev Fields (ν : Type) := List (String × Option ν)

/-- How one field of a record is written and read: `addfield` is given the values of the record,
what has been written before it, and the value to write; `getfield` the values read so far and
what is left to read. -/
structure FieldDesc (ν : Type) where
  name : String
  default : Option ν
  addfield : (String → Option ν) → Octets → Option ν → Option Octets
  getfield : (String → Option ν) → Octets → Option (Octets × Option ν)

/-- The value of a field: the one set, or else the field's default. -/
def getfieldval (desc : List (FieldDesc ν)) (fields : Fields ν) (name : String) : Option ν :=
  (get fields name).getD ((desc.find? fun f => f.name = name).bind FieldDesc.default)

variable {fields : Fields ν} {fs : List (FieldDesc ν)}

theorem getfieldval_of_get {desc : List (FieldDesc ν)} {name : String} {v : Option ν}
    (h : get fields name = some v) : getfieldval desc fields name = v := by
  rw [getfieldval, h, Option.getD_some]

/-- Write one field after what has been written. -/
def addOne (g : String → Option ν) (s : Octets) (f : FieldDesc ν) : Option Octets :=
  f.addfield g s (g f.name)

/-- A record written field by field. -/
def selfBuild (desc : List (FieldDesc ν)) (fields : Fields ν) : Option Octets :=
  desc.foldlM (addOne (getfieldval desc fields)) []

/-- A record read field by field, until nothing is left to read; `store` puts a value that was
read under its name. -/
def dissectLoop (store : String → Option ν → Fields ν → Fields ν) (desc : List (FieldDesc ν)) :
    List (FieldDesc ν) → Octets → Fields ν → Option (Octets × Fields ν)
  | [], s, fields => some (s, fields)
  | f :: fs, s, fields =>
    if s = [] then some (s, fields)
    else match f.getfield (getfieldval desc fields) s with
      | none => none
      | some (s', v) => dissectLoop store desc fs s' (store f.name v fields)

/-! ## Coding -/

/-- The fields `fs` of a record with the values `g` are written as `t`, and read back from `t`
followed by `rest`, by a reader who has found the values `e` under the names `seen`, and has found
them under the names `last` in the end.  No field is read when nothing is left. -/
inductive Codes (store : String → Option ν → Fields ν → Fields ν) (g e : String → Option ν)
    (rest : Octets) (last : List String) : List String → List (FieldDesc ν) → Octets → Prop
  | nil {seen : List String} (hlast : ∀ n ∈ last, n ∈ seen) : Codes store g e rest last seen [] []
  | cons {seen seen' : List String} {f : FieldDesc ν} {fs : List (FieldDesc ν)} {t u : Octets}
      {v : Option ν} (hne : t ++ u ++ rest ≠ [])
      (hadd : ∀ s, f.addfield g s (g f.name) = some (s ++ t))
      (hget : ∀ g' r, (∀ n ∈ seen, g' n = e n) → f.getfield g' (t ++ r) = some (r, v))
      (hstore : ∀ fields, (∀ n ∈ seen, get fields n = some (e n)) →
        ∀ n ∈ seen', get (store f.name v fields) n = some (e n))
      (h : Codes store g e rest last seen' fs u) :
      Codes store g e rest last seen (f :: fs) (t ++ u)

namespace Codes

variable {store : String → Option ν → Fields ν → Fields ν} {g e : String → Option ν}
  {rest t : Octets} {last seen : List String}

/-- A field whose value is found under its name. -/
theorem put {f : FieldDesc ν} {u : Octets} (hne : t ++ u ++ rest ≠ [])
    (hadd : ∀ s, f.addfield g s (g f.name) = some (s ++ t))
    (hget : ∀ g' r, (∀ n ∈ seen, g' n = e n) → f.getfield g' (t ++ r) = some (r, e f.name))
    (hput : ∀ fields n, get (store f.name (e f.name) fields) n =
      if n = f.name then some (e f.name) else get fields n)
    (h : Codes store g e rest last (f.name :: seen) fs u) :
    Codes store g e rest last seen (f :: fs) (t ++ u) := by
  refine .cons hne hadd hget (fun fields hseen n hn => ?_) h
  rw [hput]
  split
  · next heq => rw [heq]
  · next hne => exact hseen n ((mem_cons.1 hn).resolve_left hne)

/-- **Coded fields are written as their code.** -/
theorem build (h : Codes store g e rest last seen fs t) (s : Octets) :
    fs.foldlM (addOne g) s = some (s ++ t) := by
  induction h generalizing s with
  | nil => rw [append_nil]; rfl
  | cons _ hadd _ _ _ ih =>
    rw [foldlM_cons, addOne, hadd, ← append_assoc]
    exact ih _

/-- **Coded fields are read back.** -/
theorem dissect (h : Codes store g e rest last seen fs t) (desc : List (FieldDesc ν))
    (fields : Fields ν) (hseen : ∀ n ∈ seen, get fields n = some (e n)) :
    ∃ fields', dissectLoop store desc fs (t ++ rest) fields = some (rest, fields') ∧
      ∀ n ∈ last, get fields' n = some (e n) := by
  induction h generalizing fields with
  | nil hlast => exact ⟨fields, rfl, fun n hn => hseen n (hlast n hn)⟩
  | cons hne _ hget hstore _ ih =>
    obtain ⟨fields', hloop, hall⟩ := ih _ (hstore fields hseen)
    refine ⟨fields', ?_, hall⟩
    rw [append_assoc, dissectLoop, if_neg (by rwa [← append_assoc]),
      hget _ _ fun n hn => getfieldval_of_get (hseen n hn)]
    exact hloop

end Codes

end Voltha.Packet
