import Voltha.Lib.Act
import Voltha.Lib.Run

/-!
# The message queue

`MessageQueue` hands messages to the deferreds that wait for them.  A message that is put goes to
the first waiting deferred whose predicate accepts it, and into the queue if there is none; `get`
takes the first message of the queue that its predicate accepts, and waits if there is none.  When
a deferred is cancelled, `_cancelGet` takes it out of the list of those that wait, and goes on with
the positions that the list had before.

* `foldl_put`: with nobody waiting, messages pile up in the order in which they are put.
* `put_cases`, `get_cases`, `cancelGet_eq`: what the operations do.
* `History.operations_right_iff`: **in a sequence of operations no message is lost, duplicated or
  withheld; the cancellations are right exactly if each of them is of the deferred that waits
  last**.
-/

namespace Voltha.Common

open List hiding get

variable {μ : Type}

/-- An entry of `waiting`: a deferred, by its identity, and its predicate. -/
structure Waiter (μ : Type) where
  deferred : ℕ
  predicate : Option (μ → Bool)

/-- `predicate is None or predicate(obj)` -/
def accepts (predicate : Option (μ → Bool)) (obj : μ) : Bool :=
  predicate.all fun p => p obj

/-- `MessageQueue`, with the deferreds that were fired and the identity of the next one. -/
structure MessageQueue (μ : Type) where
  waiting : List (Waiter μ) := []
  queue : List μ := []
  fired : List (ℕ × μ) := []
  next : ℕ := 0

namespace MessageQueue

/-- `put` -/
def put (q : MessageQueue μ) (obj : μ) : MessageQueue μ :=
  match q.waiting.findIdx? fun w => accepts w.predicate obj with
  | some i =>
    { q with
      waiting := q.waiting.eraseIdx i
      fired := q.fired ++ (q.waiting[i]?.map fun w => (w.deferred, obj)).toList }
  | none => { q with queue := q.queue ++ [obj] }

/-- `get`: a message at once, or the identity of the deferred that waits for one. -/
def get (q : MessageQueue μ) (predicate : Option (μ → Bool)) : (μ ⊕ ℕ) × MessageQueue μ :=
  match q.queue.findIdx? (accepts predicate), q.queue.find? (accepts predicate) with
  | some i, some msg => (.inl msg, { q with queue := q.queue.eraseIdx i })
  | _, _ =>
    (.inr q.next, { q with waiting := q.waiting ++ [⟨q.next, predicate⟩], next := q.next + 1 })

variable {q : MessageQueue μ}

theorem put_of_waiting_nil (h : q.waiting = []) (obj : μ) :
    q.put obj = { q with queue := q.queue ++ [obj] } := by
  unfold put
  rw [h]
  rfl

/-- With nobody waiting, messages pile up. -/
theorem foldl_put (h : q.waiting = []) (l : List μ) :
    l.foldl put q = { q with queue := q.queue ++ l } := by
  induction l generalizing q with
  | nil => rw [List.append_nil, List.foldl_nil]
  | cons obj l ih =>
    rw [List.foldl_cons, put_of_waiting_nil h, ih (q := { q with queue := q.queue ++ [obj] }) h,
      List.append_assoc, List.singleton_append]

theorem findIdx?_of_find? {α : Type} {p : α → Bool} {l : List α} {a : α}
    (h : l.find? p = some a) : ∃ l₁ l₂, l = l₁ ++ a :: l₂ ∧ l.findIdx? p = some l₁.length ∧
      p a = true ∧ ∀ b ∈ l₁, p b = false := by
  obtain ⟨ha, l₁, l₂, rfl, hl₁⟩ := find?_eq_some_iff_append.1 h
  have hnone : l₁.findIdx? p = none := by simpa using hl₁
  exact ⟨l₁, l₂, rfl, by simp [findIdx?_append, hnone, findIdx?_cons, ha], ha, by simpa using hl₁⟩

/-- A message goes to the first deferred that accepts it, or into the queue. -/
theorem put_cases (q : MessageQueue μ) (obj : μ) :
    (∃ l₁ w l₂, q.waiting = l₁ ++ w :: l₂ ∧ accepts w.predicate obj = true ∧
      (∀ v ∈ l₁, accepts v.predicate obj = false) ∧
      q.put obj = { q with waiting := l₁ ++ l₂, fired := q.fired ++ [(w.deferred, obj)] }) ∨
    (∀ w ∈ q.waiting, accepts w.predicate obj = false) ∧
      q.put obj = { q with queue := q.queue ++ [obj] } := by
  unfold put
  rcases hfind : q.waiting.find? fun w => accepts w.predicate obj with _ | w
  · rw [findIdx?_eq_none_iff.2 (by simpa using hfind)]
    exact .inr ⟨by simpa using hfind, rfl⟩
  · obtain ⟨l₁, l₂, hw, hidx, haccepts, hbefore⟩ := findIdx?_of_find? hfind
    refine .inl ⟨l₁, w, l₂, hw, haccepts, hbefore, ?_⟩
    rw [hidx]
    simp [hw, eraseIdx_append_of_length_le]

/-- `get` takes the first message that the predicate accepts, or waits. -/
theorem get_cases (q : MessageQueue μ) (predicate : Option (μ → Bool)) :
    (∃ l₁ msg l₂, q.queue = l₁ ++ msg :: l₂ ∧ q.queue.find? (accepts predicate) = some msg ∧
      q.get predicate = (.inl msg, { q with queue := l₁ ++ l₂ })) ∨
    q.queue.find? (accepts predicate) = none ∧ q.get predicate =
      (.inr q.next, { q with
        waiting := q.waiting ++ [⟨q.next, predicate⟩], next := q.next + 1 }) := by
  unfold get
  rcases hfind : q.queue.find? (accepts predicate) with _ | msg
  · rw [findIdx?_eq_none_iff.2 (by simpa using hfind)]
    exact .inr ⟨rfl, rfl⟩
  · obtain ⟨l₁, l₂, hq, hidx, -⟩ := findIdx?_of_find? hfind
    refine .inl ⟨l₁, msg, l₂, hq, rfl, ?_⟩
    rw [hidx]
    simp [hq, eraseIdx_append_of_length_le]

/-! ## Cancelling -/

open Act

/-- The loop of `_cancelGet` over positions of the list. -/
def cancelLoop (d : ℕ) : List ℕ → Act (List (Waiter μ)) String Unit
  | [] => pure ()
  | i :: rest => do
    let waiting ← read
    match waiting[i]? with
    | none => raise "IndexError"
    | some w => do
      doIf (w.deferred = d) (modify (·.eraseIdx i))
      cancelLoop d rest

/-- `_cancelGet` -/
def cancelGet (d : ℕ) : Act (MessageQueue μ) String Unit := fun q =>
  let (result, waiting) := cancelLoop d (range q.waiting.length) q.waiting
  (result, { q with waiting })

variable {d : ℕ} {l₁ l₂ waiting : List (Waiter μ)} {w : Waiter μ}

theorem cancelLoop_cons (i : ℕ) (rest : List ℕ) (hw : waiting[i]? = some w) :
    cancelLoop d (i :: rest) waiting =
      cancelLoop d rest (if w.deferred = d then waiting.eraseIdx i else waiting) := by
  rw [cancelLoop, read_bind, hw]
  dsimp only
  by_cases hd : w.deferred = d <;> simp [hd, doIf, Act.modify, bind_apply, pure_apply]

/-- Other deferreds are passed over, up to the end of the list. -/
theorem cancelLoop_range' (hd : ∀ w ∈ waiting, w.deferred ≠ d) (m : ℕ) :
    ∀ i, cancelLoop d (range' i m) waiting =
      (if m = 0 ∨ i + m ≤ waiting.length then .ok () else .error "IndexError", waiting) := by
  induction m with
  | zero => exact fun _ => rfl
  | succ m ih =>
    intro i
    rw [range'_succ]
    rcases Nat.lt_or_ge i waiting.length with hi | hi
    · rw [cancelLoop_cons i _ (getElem?_eq_getElem hi), if_neg (hd _ (getElem_mem hi)), ih]
      refine Prod.ext (if_congr ?_ rfl rfl) rfl
      omega
    · rw [if_neg (by omega), cancelLoop, read_bind, getElem?_eq_none hi]
      rfl

/-- **The loop takes the deferred out, and fails unless it waits last.** -/
theorem cancelLoop_eq (hw : w.deferred = d) (l₁ l₂ : List (Waiter μ)) :
    ∀ passed : List (Waiter μ), (∀ v ∈ passed ++ l₁ ++ l₂, v.deferred ≠ d) →
      cancelLoop d (range' passed.length (l₁ ++ w :: l₂).length) (passed ++ (l₁ ++ w :: l₂)) =
        (if l₂ = [] then .ok () else .error "IndexError", passed ++ (l₁ ++ l₂)) := by
  induction l₁ with
  | nil =>
    intro passed hd
    rw [nil_append, length_cons, range'_succ, cancelLoop_cons (w := w) _ _ (by simp), if_pos hw,
      eraseIdx_append_of_length_le (Nat.le_refl _), Nat.sub_self, eraseIdx_cons_zero,
      cancelLoop_range' (by simpa using hd), length_append]
    refine Prod.ext (if_congr ?_ rfl rfl) rfl
    rw [← length_eq_zero_iff]
    omega
  | cons v l₁ ih =>
    intro passed hd
    have hv : v.deferred ≠ d := hd v (by simp)
    rw [cons_append, length_cons, range'_succ, cancelLoop_cons (w := v) _ _ (by simp), if_neg hv]
    have h := ih (passed ++ [v]) (by simpa using hd)
    simpa using h

theorem cancelGet_eq {q : MessageQueue μ} (hq : q.waiting = l₁ ++ w :: l₂) (hw : w.deferred = d)
    (hd : ∀ v ∈ l₁ ++ l₂, v.deferred ≠ d) : cancelGet d q =
      (if l₂ = [] then .ok () else .error "IndexError", { q with waiting := l₁ ++ l₂ }) := by
  have h := cancelLoop_eq hw l₁ l₂ [] hd
  rw [nil_append, length_nil, ← range_eq_range', nil_append] at h
  rw [cancelGet, hq, h]

end MessageQueue

/-! ## Sequences of operations -/

/-- An operation on a queue; a deferred is cancelled while it waits, at position `i`. -/
inductive QueueOp (μ : Type) where
  | put (obj : μ)
  | get (predicate : Option (μ → Bool))
  | cancel (i : ℕ)

/-- A queue with what has happened to it: the messages that were put, those that a `get` found, and
the deferreds that got their error. -/
structure History (μ : Type) where
  queue : MessageQueue μ := {}
  puts : List μ := []
  taken : List μ := []
  errbacked : List ℕ := []

namespace History

/-- `Deferred.cancel` for a deferred without result: it gets its error if the canceller returns. -/
def cancel (d : ℕ) : Act (History μ) String Unit := fun h =>
  match MessageQueue.cancelGet d h.queue with
  | (.ok (), queue) => (.ok (), { h with queue, errbacked := h.errbacked ++ [d] })
  | (.error e, queue) => (.error e, { h with queue })

/-- An operation. -/
def step (h : History μ) : QueueOp μ → History μ
  | .put obj => { h with queue := h.queue.put obj, puts := h.puts ++ [obj] }
  | .get predicate =>
    let (answer, queue) := h.queue.get predicate
    { h with queue, taken := h.taken ++ answer.getLeft?.toList }
  | .cancel i =>
    match h.queue.waiting[i]? with
    | none => h
    | some w => (cancel w.deferred h).2

/-- No message is lost, duplicated or withheld. -/
structure Sound (h : History μ) : Prop where
  conserved : h.queue.fired.map Prod.snd ++ h.taken ++ h.queue.queue ~ h.puts
  arrival : h.queue.queue <+ h.puts
  offered : ∀ w ∈ h.queue.waiting, ∀ m ∈ h.queue.queue, accepts w.predicate m = false

/-- What is to hold of an operation: a message that is put goes to the first waiting deferred whose
predicate accepts it, and to none if none does; a `get` receives the earliest message that its
predicate accepts, and waits with its predicate if there is none; and a deferred that is cancelled
gets its error and goes.  The other deferreds stay as they are. -/
structure Right (h : History μ) (op : QueueOp μ) : Prop where
  sound : Sound (h.step op)
  delivered : ∀ obj, op = .put obj →
    (∃ l₁ w l₂, h.queue.waiting = l₁ ++ w :: l₂ ∧ accepts w.predicate obj = true ∧
      (∀ v ∈ l₁, accepts v.predicate obj = false) ∧ (h.step op).queue.waiting = l₁ ++ l₂ ∧
      (h.step op).queue.fired = h.queue.fired ++ [(w.deferred, obj)]) ∨
    (∀ w ∈ h.queue.waiting, accepts w.predicate obj = false) ∧
      (h.step op).queue.waiting = h.queue.waiting ∧ (h.step op).queue.fired = h.queue.fired
  silent : (∀ obj, op ≠ .put obj) → (h.step op).queue.fired = h.queue.fired
  earliest : ∀ predicate m, op = .get predicate →
    h.queue.queue.find? (accepts predicate) = some m →
      (h.queue.get predicate).1 = .inl m ∧ (h.step op).queue.waiting = h.queue.waiting
  waits : ∀ predicate, op = .get predicate → h.queue.queue.find? (accepts predicate) = none →
    ∃ d, (h.queue.get predicate).1 = .inr d ∧
      (h.step op).queue.waiting = h.queue.waiting ++ [⟨d, predicate⟩]
  cancelled : ∀ l₁ w l₂, op = .cancel l₁.length → h.queue.waiting = l₁ ++ w :: l₂ →
    (cancel w.deferred h).1 = .ok () ∧ (h.step op).errbacked = h.errbacked ++ [w.deferred] ∧
      (h.step op).queue.waiting = l₁ ++ l₂

/-- A deferred that is cancelled waits last. -/
def WaitsLast (h : History μ) (op : QueueOp μ) : Prop :=
  ∀ l₁ w l₂, op = .cancel l₁.length → h.queue.waiting = l₁ ++ w :: l₂ → l₂ = []

/-- What every sequence of operations keeps; the deferreds wait in the order of their identities. -/
structure Inv (h : History μ) : Prop where
  sound : Sound h
  sorted : (h.queue.waiting.map Waiter.deferred ++ [h.queue.next]).Pairwise (· < ·)

variable {h : History μ} {l₁ l₂ : List (Waiter μ)} {w : Waiter μ}

theorem Inv.cancel_eq (hinv : Inv h) (hw : h.queue.waiting = l₁ ++ w :: l₂) :
    cancel w.deferred h =
      if l₂ = [] then (.ok (), { h with
        queue := { h.queue with waiting := l₁ ++ l₂ }, errbacked := h.errbacked ++ [w.deferred] })
      else (.error "IndexError", { h with queue := { h.queue with waiting := l₁ ++ l₂ } }) := by
  have hothers : ∀ v ∈ l₁ ++ l₂, v.deferred ≠ w.deferred := by
    have hsorted := (pairwise_append.1 hinv.sorted).1.imp Nat.ne_of_lt
    rw [hw, map_append, map_cons] at hsorted
    intro v hv heq
    refine (nodup_middle.1 hsorted).notMem ?_
    rw [← map_append, ← heq]
    exact mem_map_of_mem hv
  rw [cancel, MessageQueue.cancelGet_eq hw rfl hothers]
  cases l₂ <;> rfl

/-- One of the deferreds goes. -/
theorem Inv.erase (hinv : Inv h) (hw : h.queue.waiting = l₁ ++ w :: l₂) :
    ((l₁ ++ l₂).map Waiter.deferred ++ [h.queue.next]).Pairwise (· < ·) ∧
      ∀ v ∈ l₁ ++ l₂, ∀ m ∈ h.queue.queue, accepts v.predicate m = false := by
  have hsub : l₁ ++ l₂ <+ h.queue.waiting := hw ▸ (sublist_cons_self w l₂).append_left l₁
  exact ⟨hinv.sorted.sublist ((hsub.map _).append_right _),
    fun v hv => hinv.sound.offered v (hsub.subset hv)⟩

theorem Inv.put (hinv : Inv h) (obj : μ) : Inv (h.step (.put obj)) := by
  obtain ⟨hperm, harr, hoff⟩ := hinv.sound
  rw [step]
  rcases h.queue.put_cases obj with ⟨l₁, w, l₂, hw, -, -, hput⟩ | ⟨hnone, hput⟩
  · rw [hput]
    refine ⟨⟨?_, harr.trans (sublist_append_left _ _), (hinv.erase hw).2⟩, (hinv.erase hw).1⟩
    rw [append_assoc] at hperm
    simpa using perm_middle.trans ((hperm.cons obj).trans (perm_append_singleton ..).symm)
  · rw [hput]
    refine ⟨⟨?_, harr.append_right [obj], fun w hw m hm => ?_⟩, hinv.sorted⟩
    · rw [← append_assoc]
      exact hperm.append_right [obj]
    · rcases mem_append.1 hm with hm | hm
      · exact hoff w hw m hm
      · exact mem_singleton.1 hm ▸ hnone w hw

theorem Inv.get (hinv : Inv h) (predicate : Option (μ → Bool)) :
    Inv (h.step (.get predicate)) := by
  obtain ⟨hperm, harr, hoff⟩ := hinv.sound
  rw [step]
  rcases h.queue.get_cases predicate with ⟨l₁, m, l₂, hq, -, hget⟩ | ⟨hnone, hget⟩
  · rw [hget]
    have hsub : l₁ ++ l₂ <+ h.queue.queue := hq ▸ (sublist_cons_self m l₂).append_left l₁
    refine ⟨⟨Perm.trans ?_ hperm, hsub.trans harr,
      fun w hw m' hm' => hoff w hw m' (hsub.subset hm')⟩, hinv.sorted⟩
    simpa [hq] using perm_middle.symm.append_left (h.queue.fired.map Prod.snd ++ h.taken)
  · rw [hget]
    refine ⟨⟨by simpa using hperm, harr, fun w hw m hm => ?_⟩, ?_⟩
    · rcases mem_append.1 hw with hw | hw
      · exact hoff w hw m hm
      · exact mem_singleton.1 hw ▸ by simpa using find?_eq_none.1 hnone m hm
    · rw [map_append]
      refine pairwise_append.2 ⟨hinv.sorted, pairwise_singleton _ _, fun d hd e he => ?_⟩
      obtain rfl := mem_singleton.1 he
      rcases mem_append.1 hd with hd | hd
      · exact Nat.lt_succ_of_lt ((pairwise_append.1 hinv.sorted).2.2 d hd _ (mem_singleton_self _))
      · exact mem_singleton.1 hd ▸ Nat.lt_succ_self _

theorem Inv.cancel (hinv : Inv h) (i : ℕ) : Inv (h.step (.cancel i)) := by
  rw [step]
  split
  · exact hinv
  · next w hi =>
    obtain ⟨l₁, l₂, hw⟩ := append_of_mem (mem_of_getElem? hi)
    obtain ⟨hsorted, hoff⟩ := hinv.erase hw
    rw [hinv.cancel_eq hw]
    split <;> exact ⟨⟨hinv.sound.conserved, hinv.sound.arrival, hoff⟩, hsorted⟩

theorem Inv.step (hinv : Inv h) : ∀ op : QueueOp μ, Inv (h.step op)
  | .put obj => hinv.put obj
  | .get predicate => hinv.get predicate
  | .cancel d => hinv.cancel d

/-- Only a message that is put fires a deferred. -/
theorem Inv.fired_step (hinv : Inv h) {op : QueueOp μ} (hop : ∀ obj, op ≠ .put obj) :
    (h.step op).queue.fired = h.queue.fired := by
  cases op with
  | put obj => exact absurd rfl (hop obj)
  | get predicate =>
    rcases h.queue.get_cases predicate with ⟨_, _, _, -, -, hget⟩ | ⟨-, hget⟩
    · rw [History.step, hget]
    · rw [History.step, hget]
  | cancel i =>
    rw [History.step]
    split
    · rfl
    · next w hi =>
      obtain ⟨l₁, l₂, hw⟩ := append_of_mem (mem_of_getElem? hi)
      rw [hinv.cancel_eq hw]
      split <;> rfl

theorem Inv.right_iff (hinv : Inv h) (op : QueueOp μ) : Right h op ↔ WaitsLast h op := by
  constructor
  · rintro hright l₁ w l₂ rfl hw
    by_contra hne
    have h := (hright.cancelled l₁ w l₂ rfl hw).1
    rw [hinv.cancel_eq hw, if_neg hne] at h
    cases h
  · refine fun hlast => ⟨(hinv.step op).sound, fun obj hop => ?_,
      hinv.fired_step, fun predicate m hop hfind => ?_, fun predicate hop hfind => ?_,
      fun l₁ w l₂ hop hw => ?_⟩
    · subst hop
      rcases h.queue.put_cases obj with ⟨l₁, w, l₂, hw, haccepts, hbefore, hput⟩ | ⟨hnone, hput⟩
      · exact .inl ⟨l₁, w, l₂, hw, haccepts, hbefore, by rw [History.step, hput],
          by rw [History.step, hput]⟩
      · exact .inr ⟨hnone, by rw [History.step, hput], by rw [History.step, hput]⟩
    · subst hop
      rcases h.queue.get_cases predicate with ⟨_, _, _, -, hsome, hget⟩ | ⟨hnone, -⟩
      · rw [History.step, hget, Option.some_inj.1 (hfind.symm.trans hsome)]
        exact ⟨rfl, rfl⟩
      · cases hnone.symm.trans hfind
    · subst hop
      rcases h.queue.get_cases predicate with ⟨_, _, _, -, hsome, -⟩ | ⟨-, hget⟩
      · cases hfind.symm.trans hsome
      · rw [History.step, hget]
        exact ⟨_, rfl, rfl⟩
    · subst hop
      have hi : h.queue.waiting[l₁.length]? = some w := by simp [hw]
      simp [History.step, hi, hinv.cancel_eq hw, hlast l₁ w l₂ rfl hw]

/-- **In every sequence of operations the operations are right exactly if each deferred that is
cancelled waits last.** -/
theorem operations_right_iff (ops : List (QueueOp μ)) :
    AllAlong step Right {} ops ↔ AllAlong step WaitsLast {} ops := by
  have hinit : Inv ({} : History μ) := ⟨⟨.refl _, .refl _, nofun⟩, pairwise_singleton _ _⟩
  exact allAlong_congr (fun _ op hinv _ => hinv.step op) (fun _ op hinv => hinv.right_iff op) hinit

/-- Two deferreds wait, and the first of them is cancelled. -/
theorem cancel_first_raises :
    (cancel 0 ([.get none, .get none].foldl step ({} : History Bool))).1 = .error "IndexError" ∧
      ([.get none, .get none, .cancel 0].foldl step ({} : History Bool)).errbacked = [] :=
  ⟨rfl, rfl⟩

end History

end Voltha.Common
