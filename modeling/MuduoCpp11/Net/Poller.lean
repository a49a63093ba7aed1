import MuduoCpp11.Lib.Run
import MuduoCpp11.Net.Channel

/-! # Pollers

The base class and what the channels do to it. A `Poller` knows its channels by their descriptors;
the objects themselves live outside (`heap`), and the poller writes their `index`. What a derived
class adds is `own`: the array of `poll(2)`, or the interest list behind an `epollfd_`. A failed
assertion is noted in `failed` and the function goes on, as it does under `NDEBUG`; where it would
read outside an array or through a null pointer there is no state left, and the call is `none`.

Every operation of a channel on its interest sets the mask and calls `UpdateChannel`; `Remove` calls
`RemoveChannel`. A use of a set of channels is a list of such operations (`Act`), `Legal` if each
channel is removed without events and not used again. -/

namespace MuduoCpp11.Net

/-- The functions whose assertions are part of the model. -/
inductive Poller.Assertion where
  | updateChannel
  | removeChannel
  | remove
  deriving DecidableEq, Repr

structure Poller (ι π : Type*) where
  heap : ι → Channel
  channels : ℤ → Option ι := fun _ => none
  own : π
  failed : List Poller.Assertion := []

namespace Poller

variable {ι π : Type*}

/-- A poller without channels, each channel freshly constructed on its descriptor. -/
def new (fd : ι → ℤ) (own : π) : Poller ι π := { heap := fun c => { fd := fd c }, own }

section
variable (s : Poller ι π)

def assert (a : Assertion) (p : Bool) : Poller ι π :=
  if p then s else { s with failed := s.failed ++ [a] }

@[simp] theorem assert_heap (a : Assertion) (p : Bool) : (s.assert a p).heap = s.heap := by
  unfold assert; split <;> rfl

@[simp] theorem assert_channels (a : Assertion) (p : Bool) :
    (s.assert a p).channels = s.channels := by
  unfold assert; split <;> rfl

@[simp] theorem assert_own (a : Assertion) (p : Bool) : (s.assert a p).own = s.own := by
  unfold assert; split <;> rfl

theorem assert_failed (a : Assertion) (p : Bool) :
    (s.assert a p).failed = s.failed ++ if p then [] else [a] := by
  cases p <;> simp [assert]

/-- An assertion writes nothing but its failure. -/
theorem assert_eq (a : Assertion) (p : Bool) :
    s.assert a p = { s with failed := s.failed ++ if p then [] else [a] } := by
  cases p <;> simp [assert]

@[simp] theorem assert_true (a : Assertion) : s.assert a true = s := rfl

end

section
variable [DecidableEq ι] (s : Poller ι π) (c : ι)

def setChannel (f : Channel → Channel) : Poller ι π :=
  { s with heap := Function.update s.heap c (f (s.heap c)) }

def hasChannel : Bool := s.channels (s.heap c).fd = some c

@[simp] theorem setChannel_self (f : Channel → Channel) :
    (s.setChannel c f).heap c = f (s.heap c) := by
  simp [setChannel]

theorem setChannel_of_ne {c' : ι} (h : c' ≠ c) (f : Channel → Channel) :
    (s.setChannel c f).heap c' = s.heap c' := by
  simp [setChannel, h]

@[simp] theorem setChannel_channels (f : Channel → Channel) :
    (s.setChannel c f).channels = s.channels := rfl

@[simp] theorem setChannel_own (f : Channel → Channel) : (s.setChannel c f).own = s.own := rfl

@[simp] theorem setChannel_failed (f : Channel → Channel) :
    (s.setChannel c f).failed = s.failed := rfl

@[simp] theorem setChannel_setChannel (f g : Channel → Channel) :
    (s.setChannel c f).setChannel c g = s.setChannel c fun d => g (f d) := by
  simp [setChannel]

/-- What no write to `c` changes about a channel. -/
theorem setChannel_congr {α : Type*} {f : Channel → Channel} (p : Channel → α)
    (h : p (f (s.heap c)) = p (s.heap c)) (c' : ι) :
    p ((s.setChannel c f).heap c') = p (s.heap c') := by
  rcases eq_or_ne c' c with rfl | hne
  · rw [setChannel_self, h]
  · rw [setChannel_of_ne _ _ hne]

end

/-- The operations of a channel that end in `Update()`. -/
inductive Op where
  | enableReading
  | disableReading
  | enableWriting
  | disableWriting
  | disableAll
  deriving DecidableEq, Repr

def Op.apply : Op → Channel → Channel
  | .enableReading => Channel.enableReading
  | .disableReading => Channel.disableReading
  | .enableWriting => Channel.enableWriting
  | .disableWriting => Channel.disableWriting
  | .disableAll => Channel.disableAll

@[simp] theorem fd_apply (op : Op) (d : Channel) : (op.apply d).fd = d.fd := by
  cases op <;> rfl

@[simp] theorem index_apply (op : Op) (d : Channel) : (op.apply d).index = d.index := by
  cases op <;> rfl

inductive Act (ι : Type*) where
  | set (c : ι) (op : Op)
  | remove (c : ι)
  deriving DecidableEq, Repr

def Act.channel : Act ι → ι
  | .set c _ => c
  | .remove c => c

section
variable [DecidableEq ι]

/-- One operation on a poller whose virtual functions are `updateChannel` and `removeChannel`. -/
def step (updateChannel removeChannel : Poller ι π → ι → Option (Poller ι π)) (s : Poller ι π) :
    Act ι → Option (Poller ι π)
  | .set c op => updateChannel (s.setChannel c op.apply) c
  | .remove c =>
    removeChannel ((s.assert .remove (s.heap c).isNoneEvent).setChannel c Channel.remove) c

/-! ### The history of a channel -/

/-- The operations on `c`, in order. -/
def history (acts : List (Act ι)) (c : ι) : List Op :=
  acts.filterMap fun
    | .set c' op => if c' = c then some op else none
    | .remove _ => none

/-- The mask a channel has after the operations. -/
def interest (ops : List Op) : BitVec 32 :=
  (ops.foldl (fun (c : Channel) (op : Op) => op.apply c) { fd := 0 }).events

/-- Some operation behind the first one has left the channel without events. -/
def Parked (ops : List Op) : Prop :=
  ∃ n ∈ Finset.Icc 2 ops.length, interest (ops.take n) = kNoneEvent

instance (ops : List Op) : Decidable (Parked ops) :=
  inferInstanceAs (Decidable (∃ n ∈ Finset.Icc 2 ops.length, interest (ops.take n) = kNoneEvent))

/-- A channel is removed when it has been used and has no events, as behind a `DisableAll`, and it is
not used again. -/
def Legal (acts : List (Act ι)) : Prop :=
  ∀ n < acts.length, ∀ c, acts[n]? = some (.remove c) →
    (history (acts.take n) c ≠ [] ∧ interest (history (acts.take n) c) = kNoneEvent) ∧
    ∀ a ∈ acts.drop (n + 1), a.channel ≠ c

/-- A channel is removed when it has been used, and it is not used again. -/
def OneLife (acts : List (Act ι)) : Prop :=
  ∀ n < acts.length, ∀ c, acts[n]? = some (.remove c) →
    history (acts.take n) c ≠ [] ∧ ∀ a ∈ acts.drop (n + 1), a.channel ≠ c

/-- There has been an operation on `c` since it was constructed, or since it was last removed. -/
def inUse (acts : List (Act ι)) (c : ι) : Bool :=
  match (acts.filter fun a => a.channel = c).getLast? with
  | some (.set _ _) => true
  | _ => false

/-- A channel is removed when it is in use and has no events; it may be used again. -/
def Reusable (acts : List (Act ι)) : Prop :=
  ∀ n < acts.length, ∀ c, acts[n]? = some (.remove c) →
    inUse (acts.take n) c = true ∧ interest (history (acts.take n) c) = kNoneEvent

/-- What a poller is to watch: the channels that are not removed, with their events. -/
def wanted (acts : List (Act ι)) (s : Poller ι π) : Set (ℤ × BitVec 32) :=
  {x | ∃ c, .remove c ∉ acts ∧ (s.heap c).events ≠ kNoneEvent ∧
    x = ((s.heap c).fd, (s.heap c).events)}

/-! ### One operation more -/

section Concat
variable {acts : List (Act ι)} {a : Act ι} {c c' : ι} {ops : List Op} {op : Op}

theorem history_set (acts : List (Act ι)) (c : ι) (op : Op) (c' : ι) :
    history (acts ++ [.set c op]) c' = history acts c' ++ if c = c' then [op] else [] := by
  split_ifs with h <;> simp [history, h]

theorem history_remove (acts : List (Act ι)) (c c' : ι) :
    history (acts ++ [.remove c]) c' = history acts c' := by
  simp [history]

/-- The new mask is a matter of the old one. -/
theorem events_apply {d e : Channel} (h : d.events = e.events) :
    (op.apply d).events = (op.apply e).events := by
  cases op <;>
    simp [Op.apply, Channel.enableReading, Channel.disableReading, Channel.enableWriting,
      Channel.disableWriting, Channel.disableAll, Channel.setEvents, h]

theorem interest_concat {d : Channel} (h : d.events = interest ops) :
    interest (ops ++ [op]) = (op.apply d).events := by
  simp only [interest, List.foldl_append, List.foldl_cons, List.foldl_nil]
  exact events_apply h.symm

/-- An operation on `c` changes the mask of `c`. -/
theorem interest_history_set {d : Channel} (h : d.events = interest (history acts c)) :
    (fun c' => interest (history (acts ++ [.set c op]) c')) =
      Function.update (fun c' => interest (history acts c')) c (op.apply d).events := by
  funext c'
  rw [history_set]
  rcases eq_or_ne c' c with rfl | hne
  · rw [if_pos rfl, Function.update_self, interest_concat h]
  · rw [if_neg hne.symm, Function.update_of_ne hne, List.append_nil]

/-- The masks of the operations: no bits but those of `kReadEvent` and `kWriteEvent`. -/
theorem interest_mem (ops : List Op) :
    interest ops ∈ [kNoneEvent, kReadEvent, kWriteEvent, kReadEvent ||| kWriteEvent] := by
  induction ops using List.reverseRecOn with
  | nil => decide
  | append_singleton ops op ih =>
    rw [interest_concat (d := { fd := 0, events := interest ops }) rfl]
    generalize interest ops = e at ih ⊢
    fin_cases ih <;> cases op <;> decide

/-- Such a mask survives the cast to `short` and back. -/
theorem signExtend_interest (ops : List Op) :
    ((interest ops).setWidth 16).signExtend 32 = interest ops := by
  have h := interest_mem ops
  generalize interest ops = e at h ⊢
  fin_cases h <;> decide

theorem not_parked_singleton (op : Op) : ¬ Parked [op] := by
  rintro ⟨n, hn, -⟩
  simp at hn

theorem not_parked_nil : ¬ Parked [] := by
  rintro ⟨n, hn, -⟩
  simp at hn

/-- A channel is parked by the first operation but one, or later, that takes its last event. -/
theorem parked_concat (hne : ops ≠ []) (op : Op) :
    Parked (ops ++ [op]) ↔ Parked ops ∨ interest (ops ++ [op]) = kNoneEvent := by
  have hpos := List.length_pos_iff.mpr hne
  constructor
  · rintro ⟨n, hn, hi⟩
    simp only [Finset.mem_Icc, List.length_append, List.length_singleton] at hn
    rcases Nat.lt_succ_iff_lt_or_eq.mp (Nat.lt_succ_of_le hn.2) with hlt | rfl
    · rw [List.take_append_of_le_length (Nat.lt_succ_iff.mp hlt)] at hi
      exact Or.inl ⟨n, by simp; omega, hi⟩
    · rw [List.take_of_length_le (by simp)] at hi
      exact Or.inr hi
  · rintro (⟨n, hn, hi⟩ | hi)
    · have hn' := Finset.mem_Icc.mp hn
      refine ⟨n, by simp; omega, ?_⟩
      rwa [List.take_append_of_le_length hn'.2]
    · refine ⟨ops.length + 1, by simp; omega, ?_⟩
      rwa [List.take_of_length_le (by simp)]

/-- The first operation on `c` does not park it. -/
theorem parked_history_first (h : history acts c = []) :
    (fun c' => decide (Parked (history (acts ++ [.set c op]) c'))) =
      Function.update (fun c' => decide (Parked (history acts c'))) c false := by
  funext c'
  rw [history_set]
  rcases eq_or_ne c' c with rfl | hne
  · rw [if_pos rfl, Function.update_self, h, decide_eq_false_iff_not]
    exact not_parked_singleton op
  · rw [if_neg hne.symm, Function.update_of_ne hne, List.append_nil]

/-- A later one does, if it leaves no events. -/
theorem parked_history_later {d : Channel} (hne : history acts c ≠ [])
    (hd : d.events = interest (history acts c)) :
    (fun c' => decide (Parked (history (acts ++ [.set c op]) c'))) =
      Function.update (fun c' => decide (Parked (history acts c'))) c
        (decide (Parked (history acts c)) || (op.apply d).isNoneEvent) := by
  funext c'
  rw [history_set]
  rcases eq_or_ne c' c with rfl | hcc
  · have hiff := parked_concat hne op
    rw [interest_concat hd] at hiff
    rw [if_pos rfl, Function.update_self, Channel.isNoneEvent, ← Bool.decide_or]
    exact decide_eq_decide.mpr hiff
  · rw [if_neg hcc.symm, Function.update_of_ne hcc, List.append_nil]

theorem Legal.oneLife (h : Legal acts) : OneLife acts := fun n hn c hc =>
  ⟨(h n hn c hc).1.1, (h n hn c hc).2⟩

theorem OneLife.init (h : OneLife (acts ++ [a])) : OneLife acts := by
  intro n hn c hc
  obtain ⟨hused, hafter⟩ := h n (by simp; omega) c (by rwa [List.getElem?_append_left hn])
  rw [List.take_append_of_le_length hn.le] at hused
  refine ⟨hused, fun b hb => hafter b ?_⟩
  rw [List.drop_append_of_le_length (by omega)]
  exact List.mem_append_left _ hb

/-- A channel that is used has not been removed before. -/
theorem OneLife.not_mem_take (h : OneLife acts) {n : ℕ} (ha : acts[n]? = some a) :
    .remove a.channel ∉ acts.take n := by
  intro hmem
  obtain ⟨m, hm, hget⟩ := List.mem_take_iff_getElem.mp hmem
  obtain ⟨hmn, hlen⟩ := lt_min_iff.mp hm
  obtain ⟨-, hafter⟩ := h m hlen a.channel (by rw [List.getElem?_eq_getElem hlen, hget])
  refine hafter a (List.mem_iff_getElem?.mpr ⟨n - (m + 1), ?_⟩) rfl
  rw [List.getElem?_drop, ← ha]
  congr 1
  omega

theorem OneLife.not_removed (h : OneLife (acts ++ [a])) : .remove a.channel ∉ acts := by
  have := h.not_mem_take (n := acts.length) List.getElem?_concat_length
  rwa [List.take_left] at this

theorem OneLife.used (h : OneLife (acts ++ [.remove c])) : history acts c ≠ [] := by
  obtain ⟨hused, -⟩ := h acts.length (by simp) c (by simp)
  rwa [List.take_left] at hused

theorem inUse_set (acts : List (Act ι)) (c : ι) (op : Op) (c' : ι) :
    inUse (acts ++ [.set c op]) c' = if c = c' then true else inUse acts c' := by
  unfold inUse
  split_ifs with h <;> simp [List.filter_append, Act.channel, h]

theorem inUse_remove (acts : List (Act ι)) (c c' : ι) :
    inUse (acts ++ [.remove c]) c' = if c = c' then false else inUse acts c' := by
  unfold inUse
  split_ifs with h <;> simp [List.filter_append, Act.channel, h]

/-- A channel that has not been removed is in use once it has been used. -/
theorem inUse_of_history (hrem : .remove c ∉ acts) (hne : history acts c ≠ []) :
    inUse acts c = true := by
  induction acts using List.reverseRecOn with
  | nil => exact absurd rfl hne
  | append_singleton acts a ih =>
    rw [List.mem_append, List.mem_singleton, not_or] at hrem
    cases a with
    | set c' op =>
      rw [inUse_set]
      split_ifs with h
      · rfl
      · rw [history_set, if_neg h, List.append_nil] at hne
        exact ih hrem.1 hne
    | remove c' =>
      rw [history_remove] at hne
      rw [inUse_remove, if_neg fun h => hrem.2 (by rw [h])]
      exact ih hrem.1 hne

theorem Reusable.init {bs : List (Act ι)} (h : Reusable (acts ++ bs)) : Reusable acts := by
  intro n hn c hc
  have := h n (by simp; omega) c (by rwa [List.getElem?_append_left hn])
  rwa [List.take_append_of_le_length hn.le] at this

theorem Reusable.removed (h : Reusable (acts ++ [.remove c])) :
    inUse acts c = true ∧ interest (history acts c) = kNoneEvent := by
  have := h acts.length (by simp) c (by simp)
  rwa [List.take_left] at this

theorem Legal.reusable (h : Legal acts) : Reusable acts := fun n hn c hc =>
  ⟨inUse_of_history (h.oneLife.not_mem_take hc) (h n hn c hc).1.1, (h n hn c hc).1.2⟩

theorem Legal.init (h : Legal (acts ++ [a])) : Legal acts := fun n hn c hc =>
  ⟨⟨(h.oneLife.init n hn c hc).1, (h.reusable.init n hn c hc).2⟩, (h.oneLife.init n hn c hc).2⟩

/-- A channel that is removed has a history, and no events are left. -/
theorem Legal.interest_removed (h : Legal (acts ++ [.remove c])) :
    history acts c ≠ [] ∧ interest (history acts c) = kNoneEvent := by
  obtain ⟨hempty, -⟩ := h acts.length (by simp) c (by simp)
  rwa [List.take_left] at hempty

/-- A removed channel has no events. -/
theorem Legal.interest_of_mem (h : Legal acts) (hc : .remove c ∈ acts) :
    interest (history acts c) = kNoneEvent := by
  induction acts using List.reverseRecOn with
  | nil => simp at hc
  | append_singleton acts a ih =>
    cases a with
    | set c' op =>
      have hmem : .remove c ∈ acts := by simpa using hc
      have hne : c' ≠ c := fun heq => h.oneLife.not_removed (heq ▸ hmem)
      rw [history_set, if_neg hne, List.append_nil]
      exact ih h.init hmem
    | remove c' =>
      rw [history_remove]
      rcases eq_or_ne c c' with rfl | hne
      · exact h.interest_removed.2
      · exact ih h.init (by simpa [hne] using hc)

end Concat

end

end Poller

end MuduoCpp11.Net
