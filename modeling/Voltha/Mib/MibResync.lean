import Voltha.Lib.Act
import Voltha.Lib.Run

/-!
# The MIB resynchronisation

`MibResyncTask` has the ONU take a snapshot of its MIB, copies the local database, uploads the
snapshot entry by entry and compares the two.

* What the requests come to is given: an answer, or the exception in which the request ends.
* Uploaded entries are saved by the `set` of a database, which is a parameter, as is the comparison.
* `snapshot_mib` does not leave its loop on a success, so that its last attempt decides.
* `upload_mib` logs exceptions other than timeouts and goes on: after the last try, the entry is
  lost.
-/

namespace Voltha.Mib.MibResyncTask

open List Act

inductive Err where
  | timeoutError
  | valueError
  | typeError
  | mibResyncException
  | mibCopyException
  | mibDownloadException
  | other
  deriving DecidableEq

variable {M A R DB : Type}

/-! ## The snapshot -/

/-- A round of `snapshot_mib`: the command count in the answer to its MIB upload, whether the task
runs when the answer is there and after the delay, and what `query_mib` gives. -/
structure Attempt (M : Type) where
  answer : Except Err ℕ
  running : Bool
  awake : Bool
  mib : M

def stopIfNotRunning (running : Bool) : Except Err Unit :=
  if running then .ok () else .error .mibResyncException

def sendMibUpload (a : Attempt M) : Except Err ℕ := do
  let numberOfCommands ← a.answer
  stopIfNotRunning a.running
  if numberOfCommands = 0 then .error .valueError else .ok numberOfCommands

/-- The loop of `snapshot_mib`.  The state counts the uploads sent. -/
def snapshotLoop : List (Attempt M) → Option M → Option ℕ → Act ℕ Err (Option M × Option ℕ)
  | [], dbCopy, numberOfCommands => pure (dbCopy, numberOfCommands)
  | a :: rest, dbCopy, numberOfCommands => do
    modify (· + 1)
    match sendMibUpload a with
    | .ok n => snapshotLoop rest (some a.mib) (some n)
    | .error e =>
      -- Nothing is left to try: `retries >= max_tries`.
      if e ≠ .timeoutError ∨ rest = [] then raise e
      else
        ofExcept (stopIfNotRunning a.awake)
        snapshotLoop rest dbCopy numberOfCommands

def snapshotMib (attempts : List (Attempt M)) : Act ℕ Err (M × ℕ) := do
  match ← snapshotLoop attempts none none with
  | (some dbCopy, some numberOfCommands) => pure (dbCopy, numberOfCommands)
  | _ => raise .mibCopyException

/-- The upload is answered with a positive number or times out, and the task is not stopped. -/
structure Attempt.Genuine (a : Attempt M) : Prop where
  answer : a.answer = .error .timeoutError ∨ ∃ n, a.answer = .ok (n + 1)
  running : a.running = true
  awake : a.awake = true

theorem Attempt.Genuine.sendMibUpload {a : Attempt M} (h : a.Genuine) :
    sendMibUpload a = a.answer := by
  rcases h.answer with ha | ⟨n, ha⟩
  · simp [MibResyncTask.sendMibUpload, ha, bind, Except.bind]
  · simp [MibResyncTask.sendMibUpload, ha, stopIfNotRunning, h.running, bind, Except.bind]

/-- **Every attempt is made, and the last one decides.** -/
theorem snapshotLoop_concat {last : Attempt M} (hlast : last.Genuine) :
    ∀ {before : List (Attempt M)}, (∀ a ∈ before, a.Genuine) → ∀ dbCopy numberOfCommands sent,
      snapshotLoop (before ++ [last]) dbCopy numberOfCommands sent =
        (last.answer.map fun n => (some last.mib, some n), sent + (before.length + 1)) := by
  intro before
  induction before with
  | nil =>
    intro _ dbCopy numberOfCommands sent
    rw [nil_append, snapshotLoop, modify_bind, hlast.sendMibUpload]
    rcases hlast.answer with h | ⟨n, h⟩
    · rw [h]
      rfl
    · rw [h]
      rfl
  | cons a before ih =>
    intro hall dbCopy numberOfCommands sent
    obtain ⟨ha, hbefore⟩ := forall_mem_cons.mp hall
    rw [cons_append, snapshotLoop, modify_bind, ha.sendMibUpload, length_cons,
      Nat.add_comm (_ + 1), ← Nat.add_assoc]
    rcases ha.answer with h | ⟨n, h⟩
    · rw [h, ← ih hbefore dbCopy numberOfCommands]
      simp [stopIfNotRunning, ha.awake, ofExcept_ok_bind]
    · rw [h, ← ih hbefore (some a.mib) (some (n + 1))]

theorem snapshotMib_concat {before : List (Attempt M)} {last : Attempt M}
    (h : ∀ a ∈ before ++ [last], a.Genuine) :
    snapshotMib (before ++ [last]) 0 = (last.answer.map (last.mib, ·), before.length + 1) := by
  obtain ⟨hbefore, hlast⟩ := forall_mem_append.mp h
  have hloop := snapshotLoop_concat (hlast last (mem_singleton_self last)) hbefore none none 0
  rw [snapshotMib, bind_apply, hloop, Nat.zero_add]
  rcases last.answer with e | n
  · rfl
  · rfl

/-- The uploads stop at a success, whose copy and count are returned, and only timeouts raise. -/
structure StopsAtSuccess (attempts : List (Attempt M)) (r : Except Err (M × ℕ) × ℕ) : Prop where
  stops : ∀ i a n, i < r.2 → attempts[i]? = some a → a.answer = .ok n → r.2 = i + 1
  returns : ∀ copy n, r.1 = .ok (copy, n) →
    ∃ a, attempts[r.2 - 1]? = some a ∧ a.answer = .ok n ∧ a.mib = copy
  raises : (∃ e, r.1 = .error e) ↔ ∀ a ∈ attempts, a.answer = .error .timeoutError

/-- **The retries stop at the first success exactly when only the last attempt can be one.** -/
theorem snapshotMib_stopsAtSuccess {attempts : List (Attempt M)} (hne : attempts ≠ [])
    (h : ∀ a ∈ attempts, a.Genuine) :
    StopsAtSuccess attempts (snapshotMib attempts 0) ↔
      ∀ a ∈ attempts.dropLast, a.answer = .error .timeoutError := by
  obtain ⟨before, last, rfl⟩ := (eq_nil_or_concat' attempts).resolve_left hne
  rw [snapshotMib_concat h, dropLast_concat]
  constructor
  · intro hs a ha
    obtain ⟨i, hi, rfl⟩ := getElem_of_mem ha
    refine (h before[i] (mem_append_left _ ha)).answer.resolve_right ?_
    rintro ⟨n, hn⟩
    have hat : (before ++ [last])[i]? = some before[i] := by
      rw [getElem?_append_left hi, getElem?_eq_getElem hi]
    have := hs.stops i _ _ (by simp only; omega) hat hn
    simp only at this
    omega
  · intro hbefore
    refine ⟨fun i a n hi hat hn => ?_, fun copy n hr => ⟨last, by simp, ?_⟩, ?_⟩
    · by_contra hne
      have hi' : i < before.length := by
        simp only at hi hne
        omega
      rw [getElem?_append_left hi'] at hat
      exact nomatch (hbefore a (mem_of_getElem? hat)).symm.trans hn
    · rcases hl : last.answer with e | m
      · rw [hl] at hr
        cases hr
      · rw [hl] at hr
        cases hr
        exact ⟨rfl, rfl⟩
    · rw [forall_mem_append, forall_mem_singleton, and_iff_right hbefore]
      rcases (h last (by simp)).answer with hl | ⟨n, hl⟩
      · simp [hl, Except.map]
      · simp [hl, Except.map]

/-- An attempt of a running task. -/
def Sample.attempt (answer : Except Err ℕ) : Attempt String := ⟨answer, true, true, "copy"⟩

/-- The last of three attempts succeeds. -/
theorem snapshotMib_stopsAtSuccess_last :
    StopsAtSuccess ([.error .timeoutError, .error .timeoutError, .ok 5].map Sample.attempt)
      (snapshotMib ([.error .timeoutError, .error .timeoutError, .ok 5].map Sample.attempt) 0) := by
  refine (snapshotMib_stopsAtSuccess (by decide) fun a ha => ?_).mpr (by decide)
  simp only [map_cons, map_nil, mem_cons, not_mem_nil, or_false] at ha
  rcases ha with rfl | rfl | rfl
  · exact ⟨.inl rfl, rfl, rfl⟩
  · exact ⟨.inl rfl, rfl, rfl⟩
  · exact ⟨.inr ⟨4, rfl⟩, rfl, rfl⟩

/-- The first attempt succeeds, two more uploads are sent, and the last one's timeout is raised. -/
theorem snapshotMib_discards_success :
    snapshotMib ([.ok 5, .error .timeoutError, .error .timeoutError].map Sample.attempt) 0 =
      (.error .timeoutError, 3) := rfl

/-! ## The upload -/

/-- An uploaded entry. -/
structure Entry (A : Type) where
  objectEntityClass : ℕ
  objectEntityId : ℕ
  objectData : A

/-- `OntData.class_id` -/
def ontDataClassId : ℕ := 2

/-- What the tries of a sequence number come to. -/
inductive Fate where
  | obtained
  | timedOut
  | lost
  deriving DecidableEq

variable (set : Entry A → Act DB Err Unit) (responses : ℕ → List (Except Err (Entry A)))

/-- One try of an entry: an answer is saved, unless it is the filtered one. -/
def saveNext : Except Err (Entry A) → Act DB Err Unit
  | .ok omciMsg => if omciMsg.objectEntityClass = ontDataClassId then pure () else set omciMsg
  | .error e => raise e

/-- The tries of a sequence number. -/
def uploadNext : List (Except Err (Entry A)) → Act DB Err Unit
  | [] => pure ()
  | response :: rest => fun db =>
    match saveNext set response db with
    | (.ok _, db') => (.ok (), db')
    | (.error e, db') =>
      -- Other exceptions than timeouts are logged.
      if e = .timeoutError ∧ rest = [] then (.error e, db') else uploadNext rest db'

/-- `upload_mib`; without commands, `seq_no` is still `None` at the end. -/
def uploadMib (numberOfCommands : ℕ) : Act DB Err ℕ := do
  forM (range numberOfCommands) fun seqNo => uploadNext set (responses seqNo)
  if numberOfCommands = 0 then raise .typeError else pure numberOfCommands

/-- `perform_mib_resync`: what its deferred is fired with. -/
def performMibResync (compareMibs : M → DB → R) (attempts : List (Attempt M)) : Act DB Err R := do
  let (dbCopy, numberOfCommands) ← Act.ofExcept (snapshotMib attempts 0).1
  let commandsRetrieved ← uploadMib set responses numberOfCommands
  if commandsRetrieved < numberOfCommands then raise .mibDownloadException
  else
    let dbActive ← read
    pure (compareMibs dbCopy dbActive)

/-- The tries end with a response that is saved or filtered; or all fail, the last one by a timeout
or in another way. -/
def fate (db : DB) : List (Except Err (Entry A)) → Fate
  | [] => .lost
  | response :: rest =>
    match saveNext set response db with
    | (.ok _, _) => .obtained
    | (.error e, db') =>
      if rest = [] then if e = .timeoutError then .timedOut else .lost else fate db' rest

/-- All sequence numbers of an upload come to something that satisfies `p`. -/
def EachFate (p : Fate → Prop) (numberOfCommands : ℕ) (db : DB) : Prop :=
  AllAlong (fun db seqNo => (uploadNext set (responses seqNo) db).2)
    (fun db seqNo => p (fate set db (responses seqNo))) db (range numberOfCommands)

variable (M R) in
/-- What is returned in full, or compared, has every entry. -/
structure CompleteOnly (numberOfCommands : ℕ) (db : DB) : Prop where
  upload : ∀ retrieved, (uploadMib set responses numberOfCommands db).1 = .ok retrieved →
    numberOfCommands ≤ retrieved → EachFate set responses (· = .obtained) numberOfCommands db
  resync : ∀ (attempts : List (Attempt M)) copy (compareMibs : M → DB → R) report db',
    (snapshotMib attempts 0).1 = .ok (copy, numberOfCommands) →
    performMibResync set responses compareMibs attempts db = (.ok report, db') →
    EachFate set responses (· = .obtained) numberOfCommands db

variable {set responses}

/-- **Only a timeout of the last try raises.** -/
theorem uploadNext_fst : ∀ (tries : List (Except Err (Entry A))) (db : DB),
    (uploadNext set tries db).1 =
      if fate set db tries = .timedOut then .error .timeoutError else .ok ()
  | [], _ => rfl
  | response :: rest, db => by
    rcases hsave : saveNext set response db with ⟨e | _, db'⟩
    · by_cases hrest : rest = []
      · by_cases he : e = .timeoutError
        · simp [uploadNext, fate, hsave, hrest, he]
        · simp [uploadNext, fate, hsave, hrest, he, pure_apply]
      · simpa [uploadNext, fate, hsave, hrest] using uploadNext_fst rest db'
    · simp [uploadNext, fate, hsave]

/-- The loop goes through exactly when no sequence number times out. -/
theorem forM_uploadNext : ∀ (seqNos : List ℕ) (db : DB),
    ((forM seqNos fun seqNo => uploadNext set (responses seqNo)) db).1 = .ok () ↔
      AllAlong (fun db seqNo => (uploadNext set (responses seqNo) db).2)
        (fun db seqNo => fate set db (responses seqNo) ≠ .timedOut) db seqNos
  | [], _ => iff_of_true rfl trivial
  | seqNo :: seqNos, db => by
    have hfst : (uploadNext set (responses seqNo) db).1 = _ := uploadNext_fst _ db
    rw [forM_cons, bind_apply, AllAlong, ← forM_uploadNext seqNos]
    rcases hup : uploadNext set (responses seqNo) db with ⟨e | _, db'⟩
    · rw [hup] at hfst
      split at hfst
      · next hto => simp [hto]
      · cases hfst
    · rw [hup] at hfst
      split at hfst
      · cases hfst
      · next hto => simp [hto]

theorem uploadMib_eq_ok_iff {n retrieved : ℕ} {db : DB} :
    (uploadMib set responses n db).1 = .ok retrieved ↔
      n ≠ 0 ∧ retrieved = n ∧ EachFate set responses (· ≠ .timedOut) n db := by
  rw [EachFate, ← forM_uploadNext, uploadMib, bind_apply]
  rcases (forM (range n) fun seqNo => uploadNext set (responses seqNo)) db with ⟨_ | _, db'⟩
  · simp
  · by_cases hn : n = 0
    · simp [hn, raise]
    · simp [hn, pure_apply, eq_comm]

/-- **A resync compares only complete snapshots exactly when no entry is lost, or the tries of some
entry all fail and the last one times out.** -/
theorem completeOnly_iff (n : ℕ) (db : DB) :
    CompleteOnly M R set responses n db ↔
      EachFate set responses (· ≠ .lost) n db ∨ ¬ EachFate set responses (· ≠ .timedOut) n db := by
  constructor
  · intro h
    by_cases hto : EachFate set responses (· ≠ .timedOut) n db
    · refine .inl ?_
      by_cases hn : n = 0
      · subst hn
        exact trivial
      · have hall := h.upload n (uploadMib_eq_ok_iff.mpr ⟨hn, rfl, hto⟩) (Nat.le_refl n)
        exact hall.imp₂ (fun _ _ hf _ => by simp [hf]) hall
    · exact .inr hto
  · intro h
    have hup : ∀ retrieved, (uploadMib set responses n db).1 = .ok retrieved →
        EachFate set responses (· = .obtained) n db := by
      intro retrieved hup
      obtain ⟨-, -, hto⟩ := uploadMib_eq_ok_iff.mp hup
      refine (h.resolve_right (not_not.mpr hto)).imp₂ (fun db seqNo hl ht => ?_) hto
      cases hf : fate set db (responses seqNo) with
      | obtained => rfl
      | timedOut => exact absurd hf ht
      | lost => exact absurd hf hl
    refine ⟨fun retrieved hr _ => hup retrieved hr, fun attempts copy cmp report db' hs hr => ?_⟩
    rw [performMibResync, hs, ofExcept_ok_bind] at hr
    obtain ⟨retrieved, _, hr, -⟩ := bind_eq_ok hr
    exact hup retrieved (by rw [hr])

/-- A database that keeps the ids of its instances. -/
def Sample.save (omciMsg : Entry Unit) : Act (List ℕ) Err Unit :=
  modify (omciMsg.objectEntityId :: ·)

/-- The first entry cannot be decoded. -/
def Sample.uploads : ℕ → List (Except Err (Entry Unit))
  | 0 => [.error .timeoutError, .error .other, .error .other]
  | n + 1 => [.ok ⟨256, n, ()⟩]

/-- The undecodable entry is lost, and the rest is compared. -/
theorem performMibResync_lost :
    uploadMib Sample.save Sample.uploads 2 [] = (.ok 2, [0]) ∧
      performMibResync Sample.save Sample.uploads Prod.mk [Sample.attempt (.ok 2)] [] =
        (.ok ("copy", [0]), [0]) := ⟨rfl, rfl⟩

end Voltha.Mib.MibResyncTask
