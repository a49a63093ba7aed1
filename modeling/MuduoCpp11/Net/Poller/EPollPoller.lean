import MuduoCpp11.Net.Poller

/-! # The poller on `epoll(4)`

The kernel keeps the interest list of `epollfd_`: a mask and a pointer for each descriptor. The poller
marks a channel `kNew`, `kAdded` or `kDeleted` in its `index`, and a channel is in the interest list
while it is `kAdded`: an update of a channel that is not adds it, one that leaves it without events
deletes it.

The invariant is about the state alone: the map holds the channels that are not `kNew`, the interest
list holds the `kAdded` ones with their masks, and a channel with events is `kAdded`. -/

namespace MuduoCpp11.Net

open MuduoCpp11.Lib.Run

structure EpollEvent (ι : Type*) where
  events : BitVec 32
  ptr : ι
  deriving DecidableEq, Repr

inductive EpollCtl where
  | add
  | mod
  | del
  deriving DecidableEq, Repr

/-- `epoll_ctl` on an interest list: `none` for `EEXIST` and `ENOENT`. -/
def epollCtl {ι : Type*} (list : ℤ → Option (EpollEvent ι)) (op : EpollCtl) (fd : ℤ)
    (event : EpollEvent ι) : Option (ℤ → Option (EpollEvent ι)) :=
  match op with
  | .add => if (list fd).isSome then none else some (Function.update list fd (some event))
  | .mod => if (list fd).isSome then some (Function.update list fd (some event)) else none
  | .del => if (list fd).isSome then some (Function.update list fd none) else none

/-- `own` is the interest list behind `epollfd_`. -/
abbrev EPollPoller (ι : Type*) := Poller ι (ℤ → Option (EpollEvent ι))

namespace EPollPoller

open Poller

def kNew : ℤ := -1
def kAdded : ℤ := 1
def kDeleted : ℤ := 2

variable {ι : Type*}

def new (fd : ι → ℤ) : EPollPoller ι := Poller.new fd fun _ => none

/-- A failed deletion is logged; any other failure is fatal. -/
def update (s : EPollPoller ι) (operation : EpollCtl) (c : ι) : Option (EPollPoller ι) :=
  let channel := s.heap c
  let event : EpollEvent ι := { events := channel.events, ptr := c }
  match epollCtl s.own operation channel.fd event with
  | some list => some { s with own := list }
  | none => if operation = .del then some s else none

section
variable {s : EPollPoller ι} {c : ι}

theorem update_add (h : s.own (s.heap c).fd = none) : update s .add c = some { s with
    own := Function.update s.own (s.heap c).fd (some ⟨(s.heap c).events, c⟩) } := by
  simp [update, epollCtl, h]

theorem update_mod (h : (s.own (s.heap c).fd).isSome) : update s .mod c = some { s with
    own := Function.update s.own (s.heap c).fd (some ⟨(s.heap c).events, c⟩) } := by
  simp [update, epollCtl, h]

theorem update_del (h : (s.own (s.heap c).fd).isSome) : update s .del c = some { s with
    own := Function.update s.own (s.heap c).fd none } := by
  simp [update, epollCtl, h]

end

variable [DecidableEq ι]

def updateChannel (s : EPollPoller ι) (c : ι) : Option (EPollPoller ι) :=
  let channel := s.heap c
  let index := channel.index
  if index = kNew ∨ index = kDeleted then
    let s :=
      if index = kNew then
        let s := s.assert .updateChannel (s.channels channel.fd).isNone
        { s with channels := Function.update s.channels channel.fd (some c) }
      else s.assert .updateChannel (s.hasChannel c)
    let s := s.setChannel c (·.setIndex kAdded)
    update s .add c
  else
    let s := s.assert .updateChannel (s.hasChannel c)
    let s := s.assert .updateChannel (index = kAdded)
    if channel.isNoneEvent then
      (update s .del c).map fun s => s.setChannel c (·.setIndex kDeleted)
    else update s .mod c

def removeChannel (s : EPollPoller ι) (c : ι) : Option (EPollPoller ι) :=
  let channel := s.heap c
  let s := s.assert .removeChannel (s.hasChannel c)
  let s := s.assert .removeChannel channel.isNoneEvent
  let index := channel.index
  let s := s.assert .removeChannel (index = kAdded ∨ index = kDeleted)
  let s := { s with channels := Function.update s.channels channel.fd none }
  (if index = kAdded then update s .del c else some s).map fun s => s.setChannel c (·.setIndex kNew)

def step : EPollPoller ι → Act ι → Option (EPollPoller ι) :=
  Poller.step updateChannel removeChannel

/-- What is registered with `epoll`, with events. -/
def registered (s : EPollPoller ι) : Set (ℤ × BitVec 32) :=
  {x | ∃ event, s.own x.1 = some event ∧ event.events = x.2 ∧ x.2 ≠ 0}

/-! ### The invariant -/

structure Inv (fd : ι → ℤ) (s : EPollPoller ι) : Prop where
  heap_fd : ∀ c, (s.heap c).fd = fd c
  index : ∀ c, (s.heap c).index = kNew ∨ (s.heap c).index = kAdded ∨ (s.heap c).index = kDeleted
  channels : ∀ k c, s.channels k = some c ↔ fd c = k ∧ (s.heap c).index ≠ kNew
  list : ∀ k event, s.own k = some event ↔
    fd event.ptr = k ∧ (s.heap event.ptr).index = kAdded ∧ event.events = (s.heap event.ptr).events
  added : ∀ c, (s.heap c).events ≠ kNoneEvent → (s.heap c).index = kAdded

section Step
variable {fd : ι → ℤ} {s : EPollPoller ι} {c : ι}

omit [DecidableEq ι] in
theorem Inv.new (fd : ι → ℤ) : Inv fd (new fd) where
  heap_fd _ := rfl
  index _ := Or.inl rfl
  channels k c := by simp [EPollPoller.new, Poller.new, kNew]
  list k event := by simp [EPollPoller.new, Poller.new, kAdded]
  added c := by simp [EPollPoller.new, Poller.new]

omit [DecidableEq ι] in
/-- The map at the descriptor of a channel. -/
theorem Inv.channels_fd (hfd : Function.Injective fd) (h : Inv fd s) (c : ι) :
    s.channels (fd c) = if (s.heap c).index = kNew then none else some c := by
  split_ifs with hnew
  · refine Option.eq_none_iff_forall_ne_some.mpr fun c' hc' => ?_
    obtain ⟨hfdc, hidx⟩ := (h.channels _ c').mp hc'
    exact hidx (hfd hfdc ▸ hnew)
  · exact (h.channels _ c).mpr ⟨rfl, hnew⟩

omit [DecidableEq ι] in
/-- The interest list at the descriptor of a channel. -/
theorem Inv.list_fd (hfd : Function.Injective fd) (h : Inv fd s) (c : ι) :
    s.own (fd c) =
      if (s.heap c).index = kAdded then some ⟨(s.heap c).events, c⟩ else none := by
  split_ifs with hadded
  · exact (h.list _ ⟨_, c⟩).mpr ⟨rfl, hadded, rfl⟩
  · refine Option.eq_none_iff_forall_ne_some.mpr fun event he => ?_
    obtain ⟨hfdc, hidx, -⟩ := (h.list _ event).mp he
    exact hadded (hfd hfdc ▸ hidx)

/-- **The rule for a write**: the mark and the mask of `c` change, and with them the map and the
interest list at its descriptor. -/
theorem Inv.write (hfd : Function.Injective fd) (h : Inv fd s) (c : ι) (f : Channel → Channel)
    (hf : (f (s.heap c)).fd = fd c)
    (hidx : (f (s.heap c)).index = kNew ∨ (f (s.heap c)).index = kAdded ∨
      (f (s.heap c)).index = kDeleted)
    (hev : (f (s.heap c)).events ≠ kNoneEvent → (f (s.heap c)).index = kAdded) {t : EPollPoller ι}
    (hheap : t.heap = (s.setChannel c f).heap)
    (hchannels : t.channels = Function.update s.channels (fd c)
      (if (f (s.heap c)).index = kNew then none else some c))
    (hown : t.own = Function.update s.own (fd c)
      (if (f (s.heap c)).index = kAdded then some ⟨(f (s.heap c)).events, c⟩ else none)) :
    Inv fd t := by
  have hself : t.heap c = f (s.heap c) := by rw [hheap, setChannel_self]
  have hother : ∀ c', c' ≠ c → t.heap c' = s.heap c' := fun c' hne => by
    rw [hheap, setChannel_of_ne _ _ hne]
  refine ⟨fun c' => ?_, fun c' => ?_, fun k c' => ?_, fun k event => ?_, fun c' => ?_⟩
  · rcases eq_or_ne c' c with rfl | hne
    · rw [hself, hf]
    · rw [hother c' hne, h.heap_fd]
  · rcases eq_or_ne c' c with rfl | hne
    · rwa [hself]
    · rw [hother c' hne]
      exact h.index c'
  · rw [hchannels]
    rcases eq_or_ne k (fd c) with rfl | hk
    · rw [Function.update_self]
      rcases eq_or_ne c' c with rfl | hne
      · simp [hself]
      · simp [hfd.ne hne, hne.symm]
    · rw [Function.update_of_ne hk, h.channels]
      refine and_congr_right fun hc' => ?_
      rw [hother c' fun heq => hk (by rw [← hc', heq])]
  · rw [hown]
    rcases eq_or_ne k (fd c) with rfl | hk
    · rw [Function.update_self]
      obtain ⟨e, p⟩ := event
      rcases eq_or_ne p c with rfl | hne
      · by_cases hadded : (f (s.heap p)).index = kAdded <;> simp [hself, hadded, eq_comm]
      · have hne' : ¬ fd p = fd c := hfd.ne hne
        by_cases hadded : (f (s.heap c)).index = kAdded <;> simp [hne', hadded, hne.symm]
    · rw [Function.update_of_ne hk, h.list]
      refine and_congr_right fun hc' => ?_
      rw [hother event.ptr fun heq => hk (by rw [← hc', heq])]
  · rcases eq_or_ne c' c with rfl | hne
    · rwa [hself]
    · rw [hother c' hne]
      exact h.added c'

/-- The mark `UpdateChannel` leaves on a channel. -/
def mark (d : Channel) : ℤ := if d.index = kAdded ∧ d.isNoneEvent then kDeleted else kAdded

/-- The map knows a channel that is not `kNew`, whatever has been written to it meanwhile. -/
theorem Inv.known (hfd : Function.Injective fd) (h : Inv fd s) (hidx : (s.heap c).index ≠ kNew)
    {f : Channel → Channel} (hf : (f (s.heap c)).fd = (s.heap c).fd) :
    (s.setChannel c f).hasChannel c = true ∧
      Function.update s.channels (fd c) (some c) = s.channels := by
  have hchannels := h.channels_fd hfd c
  rw [if_neg hidx] at hchannels
  refine ⟨?_, by rw [← hchannels, Function.update_eq_self]⟩
  simp [Poller.hasChannel, hf, h.heap_fd, hchannels]

/-- `UpdateChannel` by what it writes; no assertion fails, and no `epoll_ctl`. -/
theorem Inv.step_set (hfd : Function.Injective fd) (h : Inv fd s) (c : ι) (op : Op) :
    step s (.set c op) = some
      { s.setChannel c (fun d => (op.apply d).setIndex (mark (op.apply (s.heap c)))) with
        channels := Function.update s.channels (fd c) (some c)
        own := Function.update s.own (fd c)
          (if mark (op.apply (s.heap c)) = kAdded then some ⟨(op.apply (s.heap c)).events, c⟩
            else none) } := by
  have hlist := h.list_fd hfd c
  obtain hidx | hidx | hidx := h.index c
  · have hmark : mark (op.apply (s.heap c)) = kAdded := by simp [mark, hidx, kNew, kAdded]
    have hchannels := h.channels_fd hfd c
    rw [if_pos hidx] at hchannels
    rw [hidx, if_neg (by decide)] at hlist
    simp only [step, Poller.step, updateChannel, setChannel_self, index_apply, fd_apply, h.heap_fd,
      hidx, true_or, if_true, setChannel_channels, hchannels, Option.isNone_none, assert_true, hmark]
    rw [update_add (by simpa [setChannel, Channel.setIndex, h.heap_fd] using hlist)]
    simp [setChannel, Channel.setIndex, h.heap_fd]
  · obtain ⟨hhas, hkeep⟩ := h.known hfd (by rw [hidx]; decide) (fd_apply op (s.heap c))
    have hne : ¬ (kAdded = kNew ∨ kAdded = kDeleted) := by decide
    have hsome : ((s.setChannel c op.apply).own ((s.setChannel c op.apply).heap c).fd).isSome := by
      simp [h.heap_fd, hlist, hidx]
    simp only [step, Poller.step, updateChannel, setChannel_self, index_apply, hidx, if_neg hne, hhas,
      assert_true, decide_true, hkeep]
    by_cases hnone : (op.apply (s.heap c)).isNoneEvent
    · have hmark : mark (op.apply (s.heap c)) = kDeleted := by simp [mark, hidx, hnone]
      rw [if_pos hnone, update_del hsome, hmark, if_neg (by decide)]
      simp [setChannel, h.heap_fd]
    · have hmark : mark (op.apply (s.heap c)) = kAdded := by simp [mark, hnone]
      have hid : (op.apply (s.heap c)).setIndex kAdded = op.apply (s.heap c) := by
        rw [← hidx, ← index_apply op]
        rfl
      rw [if_neg hnone, update_mod hsome, hmark, if_pos rfl]
      simp [setChannel, h.heap_fd, hid]
  · have hmark : mark (op.apply (s.heap c)) = kAdded := by simp [mark, hidx, kDeleted, kAdded]
    obtain ⟨hhas, hkeep⟩ := h.known hfd (by rw [hidx]; decide) (fd_apply op (s.heap c))
    rw [hidx, if_neg (by decide)] at hlist
    have hne : ¬ kDeleted = kNew := by decide
    simp only [step, Poller.step, updateChannel, setChannel_self, index_apply, hidx, or_true, if_true,
      if_neg hne, hhas, assert_true, hmark, hkeep]
    rw [update_add (by simpa [setChannel, Channel.setIndex, h.heap_fd] using hlist)]
    simp [setChannel, Channel.setIndex, h.heap_fd]

/-- **An operation on the interest** keeps the invariant. -/
theorem Inv.set (hfd : Function.Injective fd) (h : Inv fd s) (c : ι) (op : Op) :
    ∃ s', step s (.set c op) = some s' ∧ s'.failed = s.failed ∧ Inv fd s' ∧
      (s'.heap c).index ≠ kNew ∧ (s'.heap c).events = (op.apply (s.heap c)).events ∧
      ∀ c', c' ≠ c → s'.heap c' = s.heap c' := by
  have hne : mark (op.apply (s.heap c)) ≠ kNew := by
    unfold mark
    split_ifs <;> decide
  refine ⟨_, h.step_set hfd c op, rfl, ?_, ?_, ?_, fun c' hcc => ?_⟩
  · refine h.write hfd c (fun d => (op.apply d).setIndex (mark (op.apply (s.heap c)))) ?_ ?_ ?_ rfl
      ?_ rfl
    · simp [Channel.setIndex, h.heap_fd]
    · simp only [Channel.setIndex, mark]
      split_ifs <;> simp
    · intro hev
      have hnone : ¬ (op.apply (s.heap c)).isNoneEvent := by
        simpa [Channel.isNoneEvent, Channel.setIndex] using hev
      simp [Channel.setIndex, mark, hnone]
    · simp [Channel.setIndex, hne]
  · simpa [setChannel, Channel.setIndex] using hne
  · simp [setChannel, Channel.setIndex]
  · simp [setChannel, hcc]

/-- **A channel without events is removed**, and the invariant is kept. -/
theorem Inv.remove (hfd : Function.Injective fd) (h : Inv fd s) (hidx : (s.heap c).index ≠ kNew)
    (hev : (s.heap c).events = kNoneEvent) :
    ∃ s', step s (.remove c) = some s' ∧ s'.failed = s.failed ∧ Inv fd s' ∧
      (s'.heap c).events = kNoneEvent ∧ ∀ c', c' ≠ c → s'.heap c' = s.heap c' := by
  have hlist := h.list_fd hfd c
  obtain ⟨hhas, -⟩ := h.known hfd hidx (f := Channel.remove) rfl
  have hnone : (s.heap c).isNoneEvent = true := by simp [Channel.isNoneEvent, hev]
  have hnone' : (s.heap c).remove.isNoneEvent = true := hnone
  have hidx' : (s.heap c).remove.index = (s.heap c).index := rfl
  have hmark : (s.heap c).index = kAdded ∨ (s.heap c).index = kDeleted :=
    (h.index c).resolve_left hidx
  have hstep : step s (.remove c) = some
      { s.setChannel c (fun d => d.remove.setIndex kNew) with
        channels := Function.update s.channels (fd c) none
        own := Function.update s.own (fd c) none } := by
    have hfdc : (s.heap c).remove.fd = fd c := h.heap_fd c
    simp only [step, Poller.step, removeChannel, hnone, assert_true, setChannel_self, hhas, hnone',
      hidx', hmark, decide_true, hfdc, setChannel_channels]
    by_cases hadded : (s.heap c).index = kAdded
    · have hsome : (s.own (fd c)).isSome := by
        rw [hlist, if_pos hadded]
        rfl
      rw [if_pos hadded, update_del (by simpa [hfdc] using hsome)]
      simp [setChannel, hfdc]
    · rw [if_neg hadded]
      have hkeep : Function.update s.own (fd c) none = s.own := by
        rw [if_neg hadded] at hlist
        rw [← hlist, Function.update_eq_self]
      simp [setChannel, hkeep]
  refine ⟨_, hstep, rfl, ?_, ?_, fun c' hcc => ?_⟩
  · refine h.write hfd c (fun d => d.remove.setIndex kNew) ?_ ?_ ?_ rfl ?_ ?_
    · exact h.heap_fd c
    · exact Or.inl rfl
    · exact fun hne => absurd hev hne
    · simp [Channel.setIndex]
    · have hne : kNew ≠ kAdded := by decide
      simp [Channel.setIndex, hne]
  · simpa [setChannel, Channel.setIndex, Channel.remove] using hev
  · simp [setChannel, hcc]

end Step

/-! ### Every use -/

/-- The poller after the operations: a channel is `kNew` while it is not in use. -/
structure After (fd : ι → ℤ) (acts : List (Act ι)) (s : EPollPoller ι) : Prop where
  inv : Inv fd s
  events : ∀ c, (s.heap c).events = interest (history acts c)
  index : ∀ c, inUse acts c = true → (s.heap c).index ≠ kNew
  failed : s.failed = []

section
variable {fd : ι → ℤ} {acts : List (Act ι)} {s : EPollPoller ι} {c : ι}

theorem After.step_set (hfd : Function.Injective fd) (h : After fd acts s) (c : ι) (op : Op) :
    ∃ s', step s (.set c op) = some s' ∧ After fd (acts ++ [.set c op]) s' := by
  obtain ⟨s', hs', hfailed, hinv, hidx, hevc, hframe⟩ := h.inv.set hfd c op
  refine ⟨s', hs', hinv, fun c' => ?_, fun c' huse => ?_, hfailed.trans h.failed⟩
  · rw [history_set]
    rcases eq_or_ne c' c with rfl | hcc
    · rw [hevc, if_pos rfl, interest_concat (h.events c')]
    · rw [hframe c' hcc, if_neg hcc.symm, List.append_nil, h.events]
  · rcases eq_or_ne c' c with rfl | hcc
    · exact hidx
    · rw [inUse_set, if_neg hcc.symm] at huse
      rw [hframe c' hcc]
      exact h.index c' huse

theorem After.step_remove (hfd : Function.Injective fd) (h : After fd acts s)
    (huse : inUse acts c = true) (hnone : interest (history acts c) = kNoneEvent) :
    ∃ s', step s (.remove c) = some s' ∧ After fd (acts ++ [.remove c]) s' := by
  obtain ⟨s', hs', hfailed, hinv, hevc, hframe⟩ :=
    h.inv.remove hfd (h.index c huse) ((h.events c).trans hnone)
  refine ⟨s', hs', hinv, fun c' => ?_, fun c' huse' => ?_, hfailed.trans h.failed⟩
  · rw [history_remove]
    rcases eq_or_ne c' c with rfl | hcc
    · rw [hevc, hnone]
    · rw [hframe c' hcc, h.events]
  · rw [inUse_remove] at huse'
    have hcc : c' ≠ c := by
      rintro rfl
      simp at huse'
    rw [hframe c' hcc]
    rw [if_neg hcc.symm] at huse'
    exact h.index c' huse'

/-- **The invariant holds after every use** in which channels are removed in use and without events. -/
theorem run_after (hfd : Function.Injective fd) (hreuse : Reusable acts) :
    ∃ s, run step (new fd) acts = some s ∧ After fd acts s := by
  induction acts using List.reverseRecOn with
  | nil => exact ⟨new fd, rfl, Inv.new fd, fun _ => rfl, fun c huse => by simp [inUse] at huse, rfl⟩
  | append_singleton acts a ih =>
    obtain ⟨s, hs, h⟩ := ih hreuse.init
    obtain ⟨s', hs', h'⟩ : ∃ s', step s a = some s' ∧ After fd (acts ++ [a]) s' := by
      cases a with
      | set c op => exact h.step_set hfd c op
      | remove c => exact h.step_remove hfd hreuse.removed.1 hreuse.removed.2
    exact ⟨s', run_concat.mpr ⟨s, hs, hs'⟩, h'⟩

end

omit [DecidableEq ι] in
/-- What is registered is what the channels with events ask for. -/
theorem Inv.mem_registered {fd : ι → ℤ} {s : EPollPoller ι} (h : Inv fd s) (x : ℤ × BitVec 32) :
    x ∈ registered s ↔ ∃ c, (s.heap c).events ≠ kNoneEvent ∧ x = (fd c, (s.heap c).events) := by
  obtain ⟨k, e⟩ := x
  constructor
  · rintro ⟨event, hown, rfl, hne⟩
    obtain ⟨rfl, -, hev⟩ := (h.list _ _).mp hown
    simp only [hev] at hne ⊢
    exact ⟨event.ptr, hne, rfl⟩
  · rintro ⟨c, hne, heq⟩
    obtain ⟨rfl, rfl⟩ := Prod.mk.injEq .. ▸ heq
    exact ⟨⟨_, c⟩, (h.list _ _).mpr ⟨rfl, h.added c hne, rfl⟩, rfl, hne⟩

end EPollPoller

end MuduoCpp11.Net
