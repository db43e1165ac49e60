import VerdeAuth.RunHistories

/-!
# Shipping a queue in batches

Items are pushed to a queue. A flush takes the whole queue and sends it as one batch,
if a payload can be built of it, and each batch is delivered or lost. Which runs lose
nothing.
-/

namespace VerdeAuth.BatchShipping

open RunHistories

variable {α β : Type}

inductive Outcome where
  | inFlight
  | delivered
  | lost
  deriving DecidableEq

/-- Items that were sent together, with the payload built of them. -/
structure Batch (build : List α → Option β) where
  items : List α
  nonempty : items ≠ []
  payload : β
  built : build items = some payload
  outcome : Outcome

structure Shipper (build : List α → Option β) where
  queue : List α
  batches : List (Batch build)

inductive Input (α : Type) where
  | push (a : α)
  | flush
  /-- What becomes of a batch. -/
  | settle (k : ℕ) (delivered : Bool)
  | idle

variable {build : List α → Option β}

def Batch.settle (delivered : Bool) (b : Batch build) : Batch build :=
  match b.outcome with
  | .inFlight => { b with outcome := if delivered then .delivered else .lost }
  | _ => b

def settle (delivered : Bool) : ℕ → List (Batch build) → List (Batch build)
  | _, [] => []
  | 0, b :: bs => b.settle delivered :: bs
  | k + 1, b :: bs => b :: settle delivered k bs

namespace Shipper

def empty : Shipper build := ⟨[], []⟩

/-- The queue is emptied also where no payload can be built. -/
def flush (s : Shipper build) : Shipper build :=
  if hq : s.queue = [] then s
  else match hb : build s.queue with
    | none => { s with queue := [] }
    | some payload => ⟨[], s.batches ++ [⟨s.queue, hq, payload, hb, .inFlight⟩]⟩

def step (s : Shipper build) : Input α → Shipper build
  | .push a => { s with queue := s.queue ++ [a] }
  | .flush => s.flush
  | .settle k delivered => { s with batches := settle delivered k s.batches }
  | .idle => s

end Shipper

def Input.pushed : Input α → List α
  | .push a => [a]
  | _ => []

def pushes (es : List (Input α)) : List α := es.flatMap Input.pushed

/-- The items of a batch that is in flight or delivered. -/
def Batch.kept (b : Batch build) : List α := if b.outcome = .lost then [] else b.items

/-- The items in the batches that are in flight or delivered, and in the queue. -/
def Shipper.held (s : Shipper build) : List α := s.batches.flatMap Batch.kept ++ s.queue

/-- The items of all batches, and the queue. -/
def Shipper.taken (s : Shipper build) : List α := s.batches.flatMap Batch.items ++ s.queue

/-- Each item that was pushed is in the queue, in a batch in flight or in a delivered
one, and in one of these only; the queue and the batches keep the order. -/
structure Accounted (s : Shipper build) (pushed : List α) : Prop where
  once : s.held.Perm pushed
  queueOrder : s.queue.Sublist pushed
  batchOrder : ∀ b ∈ s.batches, b.items.Sublist pushed

/-- A flush finds a payload for its items. -/
def Builds (s : Shipper build) : Input α → Prop
  | .flush => s.queue = [] ∨ build s.queue ≠ none
  | _ => True

/-- A flush finds a payload for its items, and no batch in flight is lost. -/
def Harmless (s : Shipper build) : Input α → Prop
  | .flush => s.queue = [] ∨ build s.queue ≠ none
  | .settle k false => ∀ b, s.batches[k]? = some b → b.outcome ≠ .inFlight
  | _ => True

section Settle

variable {b : Batch build} {bs : List (Batch build)} {k : ℕ} {delivered : Bool}

@[simp] theorem items_settle : (b.settle delivered).items = b.items := by
  unfold Batch.settle
  split <;> rfl

theorem kept_settle_delivered : (b.settle true).kept = b.kept := by
  cases h : b.outcome <;> simp [Batch.settle, Batch.kept, h]

theorem settle_of_ne (h : b.outcome ≠ .inFlight) : b.settle delivered = b := by
  cases ho : b.outcome <;> simp_all [Batch.settle]

theorem kept_settle_lost (h : b.outcome = .inFlight) : (b.settle false).kept = [] := by
  simp [Batch.settle, Batch.kept, h]

theorem kept_inFlight (h : b.outcome = .inFlight) : b.kept = b.items := by
  simp [Batch.kept, h]

theorem flatMap_items_settle :
    (settle delivered k bs).flatMap Batch.items = bs.flatMap Batch.items := by
  induction bs generalizing k with
  | nil => simp [settle]
  | cons b bs ih =>
    cases k with
    | zero => simp [settle]
    | succ k => simp [settle, ih]

theorem flatMap_kept_delivered :
    (settle true k bs).flatMap Batch.kept = bs.flatMap Batch.kept := by
  induction bs generalizing k with
  | nil => simp [settle]
  | cons b bs ih =>
    cases k with
    | zero => simp [settle, kept_settle_delivered]
    | succ k => simp [settle, ih]

theorem settle_of_settled (h : ∀ b, bs[k]? = some b → b.outcome ≠ .inFlight) :
    settle delivered k bs = bs := by
  induction bs generalizing k with
  | nil => simp [settle]
  | cons b bs ih =>
    cases k with
    | zero => rw [settle, settle_of_ne (h b rfl)]
    | succ k => rw [settle, ih fun b hb => h b hb]

/-- Losing a batch loses its items. -/
theorem length_kept_lost (hb : bs[k]? = some b) (h : b.outcome = .inFlight) :
    ((settle false k bs).flatMap Batch.kept).length < (bs.flatMap Batch.kept).length := by
  induction bs generalizing k with
  | nil => cases hb
  | cons b' bs ih =>
    cases k with
    | zero =>
      obtain rfl : b' = b := Option.some.inj hb
      have hpos := List.length_pos_of_ne_nil b'.nonempty
      simp only [settle, List.flatMap_cons, kept_settle_lost h, kept_inFlight h, List.nil_append,
        List.length_append]
      omega
    | succ k =>
      have htail := ih hb
      simp only [settle, List.flatMap_cons, List.length_append]
      omega

end Settle

section Steps

variable {s : Shipper build} {e : Input α}

theorem flush_of_empty (h : s.queue = []) : s.flush = s := by
  rw [Shipper.flush, dif_pos h]

theorem flush_of_unbuilt (h : s.queue ≠ []) (hb : build s.queue = none) :
    s.flush = { s with queue := [] } := by
  rw [Shipper.flush, dif_neg h]
  split
  · rfl
  · next hsome =>
    rw [hb] at hsome
    cases hsome

theorem flush_of_built {payload : β} (h : s.queue ≠ []) (hb : build s.queue = some payload) :
    s.flush = ⟨[], s.batches ++ [⟨s.queue, h, payload, hb, .inFlight⟩]⟩ := by
  rw [Shipper.flush, dif_neg h]
  split
  · next hnone =>
    rw [hb] at hnone
    cases hnone
  · next payload' hsome =>
    obtain rfl : payload' = payload := Option.some.inj (hsome.symm.trans hb)
    rfl

/-- A harmless step adds what is pushed. -/
theorem held_step (h : Harmless s e) : (s.step e).held = s.held ++ e.pushed := by
  cases e with
  | push a => simp [Shipper.step, Shipper.held, Input.pushed]
  | idle => simp [Shipper.step, Input.pushed]
  | settle k delivered =>
    cases delivered with
    | true => simp [Shipper.step, Shipper.held, Input.pushed, flatMap_kept_delivered]
    | false => simp [Shipper.step, Shipper.held, Input.pushed, settle_of_settled h]
  | flush =>
    by_cases hq : s.queue = []
    · simp [Shipper.step, flush_of_empty hq, Input.pushed]
    · obtain ⟨payload, hb⟩ := Option.ne_none_iff_exists'.mp (h.resolve_left hq)
      simp [Shipper.step, flush_of_built hq hb, Shipper.held, Batch.kept, Input.pushed]

/-- Any other step loses items. -/
theorem length_held_step (h : ¬ Harmless s e) : (s.step e).held.length < s.held.length := by
  cases e with
  | push a => exact absurd trivial h
  | idle => exact absurd trivial h
  | settle k delivered =>
    cases delivered with
    | true => exact absurd trivial h
    | false =>
      obtain ⟨b, hb⟩ := not_forall.mp h
      obtain ⟨hget, hflight⟩ := Classical.not_imp.mp hb
      have hlost := length_kept_lost hget (not_not.mp hflight)
      simp only [Shipper.step, Shipper.held, List.length_append]
      omega
  | flush =>
    obtain ⟨hq, hb⟩ := not_or.mp h
    have hpos := List.length_pos_of_ne_nil hq
    simp only [Shipper.step, flush_of_unbuilt hq (not_not.mp hb), Shipper.held, List.length_append,
      List.length_nil]
    omega

/-- A batch that could be built keeps its items, whatever becomes of it. -/
theorem taken_step_built (h : Builds s e) : (s.step e).taken = s.taken ++ e.pushed := by
  cases e with
  | push a => simp [Shipper.step, Shipper.taken, Input.pushed]
  | idle => simp [Shipper.step, Input.pushed]
  | settle k delivered =>
    simp [Shipper.step, Shipper.taken, Input.pushed, flatMap_items_settle]
  | flush =>
    by_cases hq : s.queue = []
    · simp [Shipper.step, flush_of_empty hq, Input.pushed]
    · obtain ⟨payload, hb⟩ := Option.ne_none_iff_exists'.mp (h.resolve_left hq)
      simp [Shipper.step, flush_of_built hq hb, Shipper.taken, Input.pushed]

/-- No step changes the order. -/
theorem taken_step : (s.step e).taken.Sublist (s.taken ++ e.pushed) := by
  by_cases h : Builds s e
  · rw [taken_step_built h]
  · cases e with
    | flush =>
      obtain ⟨hq, hb⟩ := not_or.mp h
      simp [Shipper.step, flush_of_unbuilt hq (not_not.mp hb), Shipper.taken, Input.pushed]
    | _ => exact absurd trivial h

end Steps

section Runs

variable {es : List (Input α)} {e : Input α}

theorem pushes_append_singleton : pushes (es ++ [e]) = pushes es ++ e.pushed := by
  simp [pushes]

theorem run_append_singleton (s : Shipper build) :
    run Shipper.step s (es ++ [e]) = (run Shipper.step s es).step e := by
  rw [run_append]
  rfl

variable (build es) in
theorem taken_run : (run Shipper.step (Shipper.empty : Shipper build) es).taken.Sublist
    (pushes es) := by
  induction es using List.reverseRecOn with
  | nil => exact List.Sublist.refl _
  | append_singleton es e ih =>
    rw [run_append_singleton, pushes_append_singleton]
    exact taken_step.trans (ih.append (List.Sublist.refl _))

theorem taken_run_built (h : Always Shipper.step Builds (Shipper.empty : Shipper build) es) :
    (run Shipper.step (Shipper.empty : Shipper build) es).taken = pushes es := by
  apply h.induction
  · rfl
  · intro es e ih hstep
    rw [run_append_singleton, taken_step_built hstep, ih, pushes_append_singleton]

theorem held_run (h : Always Shipper.step Harmless (Shipper.empty : Shipper build) es) :
    (run Shipper.step (Shipper.empty : Shipper build) es).held = pushes es := by
  apply h.induction
  · rfl
  · intro es e ih hstep
    rw [run_append_singleton, held_step hstep, ih, pushes_append_singleton]

variable (build es) in
theorem length_held_run :
    (run Shipper.step (Shipper.empty : Shipper build) es).held.length ≤ (pushes es).length := by
  induction es using List.reverseRecOn with
  | nil => exact Nat.le_refl _
  | append_singleton es e ih =>
    rw [run_append_singleton, pushes_append_singleton, List.length_append]
    by_cases h : Harmless (run Shipper.step (Shipper.empty : Shipper build) es) e
    · rw [held_step h, List.length_append]
      omega
    · have hlost := length_held_step h
      omega

/-- What is lost once is never held again. -/
theorem harmless_of_length
    (h : (run Shipper.step (Shipper.empty : Shipper build) es).held.length = (pushes es).length) :
    Always Shipper.step Harmless (Shipper.empty : Shipper build) es := by
  induction es using List.reverseRecOn with
  | nil => exact always_nil
  | append_singleton es e ih =>
    rw [run_append_singleton, pushes_append_singleton, List.length_append] at h
    have hbound := length_held_run build es
    by_cases hstep : Harmless (run Shipper.step (Shipper.empty : Shipper build) es) e
    · rw [held_step hstep, List.length_append] at h
      exact always_append_singleton.mpr ⟨ih (by omega), hstep⟩
    · have hlost := length_held_step hstep
      omega

/-- A run accounts for every item exactly when all its steps are harmless. -/
theorem accounted_iff :
    Accounted (run Shipper.step (Shipper.empty : Shipper build) es) (pushes es) ↔
      Always Shipper.step Harmless (Shipper.empty : Shipper build) es := by
  constructor
  · intro h
    exact harmless_of_length h.once.length_eq
  · intro h
    have htaken := taken_run build es
    constructor
    · exact List.Perm.of_eq (held_run h)
    · exact (List.sublist_append_right _ _).trans htaken
    · intro b hb
      have hitems : b.items.Sublist
          ((run Shipper.step (Shipper.empty : Shipper build) es).batches.flatMap Batch.items) :=
        List.sublist_flatten_of_mem (List.mem_map_of_mem hb)
      exact hitems.trans ((List.sublist_append_left _ _).trans htaken)

end Runs

end VerdeAuth.BatchShipping
