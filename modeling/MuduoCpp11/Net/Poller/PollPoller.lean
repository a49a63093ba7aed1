import MuduoCpp11.Lib.SwapRemove
import MuduoCpp11.Net.Poller

/-! # The poller on `poll(2)`

`pollfds_` has one entry for each channel, and a channel's `index` is the position of its entry. An
entry is switched off by a negative descriptor, `-fd - 1`. A channel is removed by swapping its entry
with the last one, whose channel is found through its descriptor and told the new position.

The invariant names the channels behind the entries (`os`) and those whose entry is switched off
(`parked`). An update of a known channel writes the events of its entry, and switches the entry off
when there are none; it never switches an entry on. -/

namespace MuduoCpp11.Net

open MuduoCpp11.Lib.Run MuduoCpp11.Lib.SwapRemove

structure PollFd where
  fd : ℤ
  events : BitVec 16
  revents : BitVec 16 := 0
  deriving DecidableEq, Repr

/-- `own` is `pollfds_`. -/
abbrev PollPoller (ι : Type*) := Poller ι (List PollFd)

namespace PollPoller

open Poller

variable {ι : Type*}

def new (fd : ι → ℤ) : PollPoller ι := Poller.new fd []

/-- `pollfds_[idx]`, if there is such an entry. -/
def pollfdAt (s : PollPoller ι) (idx : ℤ) : Option PollFd :=
  if idx < 0 then none else s.own[idx.toNat]?

variable [DecidableEq ι]

def updateChannel (s : PollPoller ι) (c : ι) : Option (PollPoller ι) :=
  let channel := s.heap c
  if channel.index < 0 then
    let s := s.assert .updateChannel (s.channels channel.fd).isNone
    let pfd : PollFd := { fd := channel.fd, events := channel.events.setWidth 16, revents := 0 }
    let pollfds := s.own ++ [pfd]
    let s := s.setChannel c (·.setIndex (pollfds.length - 1))
    some { s with own := pollfds, channels := Function.update s.channels pfd.fd (some c) }
  else
    let s := s.assert .updateChannel (s.hasChannel c)
    let idx := channel.index
    (pollfdAt s idx).map fun pfd =>
      let s := s.assert .updateChannel (pfd.fd = channel.fd ∨ pfd.fd = -channel.fd - 1)
      let pfd := { pfd with events := channel.events.setWidth 16, revents := 0 }
      -- the entry is switched off; no branch writes `channel->fd()` back
      let pfd := if channel.isNoneEvent then { pfd with fd := -channel.fd - 1 } else pfd
      { s with own := s.own.set idx.toNat pfd }

def removeChannel (s : PollPoller ι) (c : ι) : Option (PollPoller ι) :=
  let channel := s.heap c
  let s := s.assert .removeChannel (s.hasChannel c)
  let s := s.assert .removeChannel channel.isNoneEvent
  let idx := channel.index
  (pollfdAt s idx).bind fun pfd =>
    let s := s.assert .removeChannel
      (pfd.fd = -channel.fd - 1 ∧ pfd.events.signExtend 32 = channel.events)
    let s := { s with channels := Function.update s.channels channel.fd none }
    if idx.toNat = s.own.length - 1 then some { s with own := s.own.dropLast }
    else
      s.own.getLast?.bind fun back =>
        let channelAtEnd := if back.fd < 0 then -back.fd - 1 else back.fd
        (s.channels channelAtEnd).map fun last =>
          { s.setChannel last (·.setIndex idx) with own := swapRemove s.own idx.toNat }

def step : PollPoller ι → Act ι → Option (PollPoller ι) := Poller.step updateChannel removeChannel

/-- What `poll(2)` is asked to watch: it passes over entries with a negative descriptor. -/
def watched (s : PollPoller ι) : Set (ℤ × BitVec 32) :=
  {x | ∃ pfd ∈ s.own, 0 ≤ pfd.fd ∧ pfd.events ≠ 0 ∧ x = (pfd.fd, pfd.events.signExtend 32)}

/-! ### The invariant -/

/-- The entry of a channel. -/
def entry (fd : ι → ℤ) (events : ι → BitVec 32) (parked : ι → Bool) (c : ι) : PollFd where
  fd := if parked c then -fd c - 1 else fd c
  events := (events c).setWidth 16

/-- `os` are the channels behind the entries, in order. -/
structure Inv (fd : ι → ℤ) (events : ι → BitVec 32) (parked : ι → Bool) (os : List ι)
    (s : PollPoller ι) : Prop where
  heap_fd : ∀ c, (s.heap c).fd = fd c
  heap_events : ∀ c, (s.heap c).events = events c
  nodup : os.Nodup
  pollfds : s.own = os.map (entry fd events parked)
  index : ∀ (i : ℕ) c, os[i]? = some c → (s.heap c).index = i
  channels : ∀ k c, s.channels k = some c ↔ c ∈ os ∧ fd c = k

section Step
variable {fd : ι → ℤ} {events : ι → BitVec 32} {parked : ι → Bool} {os : List ι} {s : PollPoller ι}
  {c : ι}

omit [DecidableEq ι] in
theorem Inv.new (fd : ι → ℤ) : Inv fd (fun _ => kNoneEvent) (fun _ => false) [] (new fd) where
  heap_fd _ := rfl
  heap_events _ := rfl
  nodup := List.nodup_nil
  pollfds := rfl
  index := by simp
  channels := by simp [PollPoller.new, Poller.new]

omit [DecidableEq ι] in
theorem Inv.mem_of_index (h : Inv fd events parked os s) (hc : c ∈ os) :
    ∃ i : ℕ, os[i]? = some c ∧ (s.heap c).index = i := by
  obtain ⟨i, hi⟩ := List.mem_iff_getElem?.mp hc
  exact ⟨i, hi, h.index i c hi⟩

omit [DecidableEq ι] in
/-- The entry found at the index of a channel is its own. -/
theorem Inv.pollfdAt (h : Inv fd events parked os s) {t : PollPoller ι} (ht : t.own = s.own) {i : ℕ}
    (hi : os[i]? = some c) : PollPoller.pollfdAt t i = some (entry fd events parked c) := by
  simp [PollPoller.pollfdAt, ht, h.pollfds, List.getElem?_map, hi]

omit [DecidableEq ι] in
theorem Inv.hasChannel (h : Inv fd events parked os s) (hc : c ∈ os) :
    s.channels (fd c) = some c :=
  (h.channels _ c).mpr ⟨hc, rfl⟩

/-- What is stored about `c` is stored in its entry. -/
theorem entry_update (c : ι) (e : BitVec 32) (p : Bool) :
    entry fd (Function.update events c e) (Function.update parked c p) =
      Function.update (entry fd events parked) c
        { fd := if p then -fd c - 1 else fd c, events := e.setWidth 16 } := by
  funext c'
  rcases eq_or_ne c' c with rfl | hne
  · simp [entry]
  · simp [entry, hne]

/-- The entries after an update of the channel at `i`. -/
theorem map_entry_update (hnd : os.Nodup) {i : ℕ} (hi : os[i]? = some c) (e : BitVec 32) (p : Bool) :
    os.map (entry fd (Function.update events c e) (Function.update parked c p)) =
      (os.map (entry fd events parked)).set i
        { fd := if p then -fd c - 1 else fd c, events := e.setWidth 16 } := by
  obtain ⟨hlt, rfl⟩ := List.getElem?_eq_some_iff.mp hi
  rw [entry_update, hnd.map_update, if_pos (List.getElem_mem hlt), hnd.idxOf_getElem i hlt]

/-- The heap after an operation on `c`, whatever the poller writes to its index. -/
theorem Inv.heap_set (h : Inv fd events parked os s) (c : ι) (op : Op) {f : Channel → Channel}
    (hfd : ∀ d, (f d).fd = (op.apply d).fd) (hev : ∀ d, (f d).events = (op.apply d).events) (c' : ι) :
    ((s.setChannel c f).heap c').fd = fd c' ∧ ((s.setChannel c f).heap c').events =
      Function.update events c (op.apply (s.heap c)).events c' := by
  rcases eq_or_ne c' c with rfl | hne
  · simp [hfd, hev, h.heap_fd]
  · rw [setChannel_of_ne _ _ hne, Function.update_of_ne hne]
    exact ⟨h.heap_fd c', h.heap_events c'⟩

/-- **A new channel** gets an entry at the end, switched on. -/
theorem Inv.set_new (hfd : Function.Injective fd) (h : Inv fd events parked os s) (hc : c ∉ os)
    (hidx : (s.heap c).index < 0) (op : Op) :
    ∃ s', step s (.set c op) = some s' ∧ s'.failed = s.failed ∧
      Inv fd (Function.update events c (op.apply (s.heap c)).events)
        (Function.update parked c false) (os ++ [c]) s' ∧
      ∀ c', c' ≠ c → s'.heap c' = s.heap c' := by
  have hfree : s.channels (fd c) = none := by
    refine Option.eq_none_iff_forall_ne_some.mpr fun c' hc' => hc ?_
    obtain ⟨hmem, hfdc⟩ := (h.channels _ c').mp hc'
    exact hfd hfdc ▸ hmem
  have hlen : s.own.length = os.length := by rw [h.pollfds, List.length_map]
  have hstep : step s (.set c op) = some
      { s.setChannel c (fun d => (op.apply d).setIndex os.length) with
        own := s.own ++ [{ fd := fd c, events := (op.apply (s.heap c)).events.setWidth 16 }]
        channels := Function.update s.channels (fd c) (some c) } := by
    simp [step, Poller.step, updateChannel, hidx, hfree, h.heap_fd, hlen]
  have hheap := h.heap_set c op (f := fun d => (op.apply d).setIndex os.length)
    (fun _ => rfl) (fun _ => rfl)
  have hframe : ∀ c', c' ≠ c →
      (s.setChannel c fun d => (op.apply d).setIndex os.length).heap c' = s.heap c' :=
    fun c' hne => setChannel_of_ne s c hne _
  refine ⟨_, hstep, rfl, ⟨fun c' => (hheap c').1, fun c' => (hheap c').2, ?_, ?_, ?_, ?_⟩, hframe⟩
  · exact List.nodup_append.mpr ⟨h.nodup, List.nodup_singleton c, fun a ha b hb hab =>
      hc (List.mem_singleton.mp hb ▸ hab ▸ ha)⟩
  · rw [List.map_append, entry_update, h.nodup.map_update, if_neg hc, ← h.pollfds]
    simp
  · intro i c' hi
    rcases Nat.lt_or_ge i os.length with hlt | hge
    · rw [List.getElem?_append_left hlt] at hi
      have hne : c' ≠ c := fun heq => hc (heq ▸ List.mem_of_getElem? hi)
      exact (congrArg Channel.index (hframe c' hne)).trans (h.index i c' hi)
    · rw [List.getElem?_append_right hge] at hi
      obtain ⟨hlt, rfl⟩ := List.getElem?_eq_some_iff.mp hi
      have hi0 : i - os.length = 0 := by simpa using hlt
      have hi' : i = os.length := by omega
      simp [setChannel, Channel.setIndex, hi']
  · intro k c'
    rcases eq_or_ne k (fd c) with rfl | hne
    · simp only [Function.update_self, Option.some.injEq, List.mem_append, List.mem_singleton]
      exact ⟨fun heq => ⟨Or.inr heq.symm, by rw [heq]⟩, fun heq => (hfd heq.2).symm⟩
    · simp only [Function.update_of_ne hne, h.channels, List.mem_append, List.mem_singleton]
      constructor
      · rintro ⟨hmem, heq⟩
        exact ⟨Or.inl hmem, heq⟩
      · rintro ⟨hmem | rfl, heq⟩
        · exact ⟨hmem, heq⟩
        · exact absurd heq.symm hne

/-- **A known channel** has its entry written, and switched off if there are no events. -/
theorem Inv.set_known (h : Inv fd events parked os s) (hc : c ∈ os) (op : Op) :
    ∃ s', step s (.set c op) = some s' ∧ s'.failed = s.failed ∧
      Inv fd (Function.update events c (op.apply (s.heap c)).events)
        (Function.update parked c (parked c || (op.apply (s.heap c)).isNoneEvent)) os s' ∧
      ∀ c', (s'.heap c').index = (s.heap c').index := by
  obtain ⟨i, hi, hidx⟩ := h.mem_of_index hc
  have hentry : (entry fd events parked c).fd = fd c ∨ (entry fd events parked c).fd = -fd c - 1 := by
    unfold entry
    split_ifs <;> simp
  have hstep : step s (.set c op) = some
      { s.setChannel c op.apply with
        own := s.own.set i
          { fd := if parked c || (op.apply (s.heap c)).isNoneEvent then -fd c - 1 else fd c
            events := (op.apply (s.heap c)).events.setWidth 16 } } := by
    simp only [step, Poller.step, updateChannel, setChannel_self, index_apply, hidx,
      h.pollfdAt (t := (s.setChannel c op.apply).assert _ _) (assert_own _ _ _) hi,
      Option.map_some, Int.toNat_natCast, assert_own, setChannel_own]
    simp only [Poller.hasChannel, setChannel_self, fd_apply, h.heap_fd, setChannel_channels,
      h.hasChannel hc, hentry, decide_true, assert_true]
    cases (op.apply (s.heap c)).isNoneEvent <;> simp [entry]
  have hheap := h.heap_set c op (f := op.apply) (fun _ => rfl) (fun _ => rfl)
  refine ⟨_, hstep, rfl, ⟨fun c' => (hheap c').1, fun c' => (hheap c').2, h.nodup, ?_, ?_, h.channels⟩,
    fun c' => setChannel_congr s c Channel.index (index_apply op _) c'⟩
  · rw [map_entry_update h.nodup hi, ← h.pollfds]
  · intro j c' hj
    exact (setChannel_congr s c Channel.index (index_apply op _) c').trans (h.index j c' hj)

omit [DecidableEq ι] in
/-- The descriptor of a channel is read back from its entry, switched off or not. -/
theorem fd_entry (hnn : ∀ c, 0 ≤ fd c) (c : ι) :
    (if (entry fd events parked c).fd < 0 then -(entry fd events parked c).fd - 1
      else (entry fd events parked c).fd) = fd c := by
  have := hnn c
  cases hp : parked c <;> simp [entry, hp] <;> omega

/-- The poller when `c` is out of the map, and its entry still there. -/
def erased (parked : ι → Bool) (s : PollPoller ι) (c : ι) : PollPoller ι :=
  { (s.setChannel c Channel.remove).assert .removeChannel (parked c) with
    channels := Function.update s.channels (s.heap c).fd none }

theorem erased_congr {α : Type*} (p : Channel → α) (hp : p (s.heap c).remove = p (s.heap c)) (c' : ι) :
    p ((erased parked s c).heap c') = p (s.heap c') := by
  simpa [erased] using setChannel_congr s c p hp c'

/-- `RemoveChannel` by its two branches, whatever assertions fail. -/
theorem Inv.step_remove (hfd : Function.Injective fd) (hnn : ∀ c, 0 ≤ fd c)
    (h : Inv fd events parked os s) {i : ℕ} (hi : os[i]? = some c) :
    ∃ failed, step s (.remove c) =
      if i = os.length - 1 then some { erased parked s c with own := s.own.dropLast, failed }
      else os.getLast?.map fun x =>
        { (erased parked s c).setChannel x (·.setIndex i) with own := swapRemove s.own i, failed } := by
  have hc : c ∈ os := List.mem_of_getElem? hi
  have hlen : s.own.length = os.length := by rw [h.pollfds, List.length_map]
  have hidx : (s.heap c).remove.index = i := h.index i c hi
  have hrem : (s.heap c).remove.fd = fd c := h.heap_fd c
  have hget : s.own[i]? = some (entry fd events parked c) := by
    rw [h.pollfds, List.getElem?_map, hi, Option.map_some]
  have hneg : ¬ (i : ℤ) < 0 := by omega
  simp only [step, Poller.step, removeChannel, assert_eq, setChannel_self, hidx, erased,
    PollPoller.pollfdAt, if_neg hneg, Int.toNat_natCast, setChannel_own, hget, Option.bind_some,
    setChannel_channels, hlen, hrem, h.heap_fd]
  by_cases hlast : i = os.length - 1
  · simp only [if_pos hlast]
    exact ⟨_, rfl⟩
  · simp only [if_neg hlast]
    obtain ⟨x, hx⟩ : ∃ x, os.getLast? = some x :=
      Option.isSome_iff_exists.mp (by simpa using List.ne_nil_of_mem hc)
    have hxmem : x ∈ os := List.mem_of_getLast? hx
    have hback : s.own.getLast? = some (entry fd events parked x) := by
      rw [h.pollfds, List.getLast?_map, hx, Option.map_some]
    have hxc : x ≠ c := by
      rintro rfl
      have hlt : i < os.length := (List.getElem?_eq_some_iff.mp hi).1
      exact hlast ((List.getElem?_inj hlt h.nodup).mp
        (hi.trans (hx.symm.trans List.getLast?_eq_getElem?)))
    simp only [hback, hx, Option.map_some, Option.bind_some, fd_entry hnn,
      Function.update_of_ne (hfd.ne hxc), h.hasChannel hxmem]
    exact ⟨_, rfl⟩

/-- A poller from which the entry of `c` is gone too. -/
theorem Inv.erase (hfd : Function.Injective fd) (h : Inv fd events parked os s) {i : ℕ}
    (hi : os[i]? = some c) {t : PollPoller ι} (hown : t.own = swapRemove s.own i)
    (hchannels : t.channels = (erased parked s c).channels)
    (hkept : ∀ c', (t.heap c').fd = (s.heap c').fd ∧ (t.heap c').events = (s.heap c').events)
    (hindex : ∀ (j : ℕ) c', (swapRemove os i)[j]? = some c' → (t.heap c').index = j) :
    Inv fd events parked (swapRemove os i) t where
  heap_fd c' := (hkept c').1.trans (h.heap_fd c')
  heap_events c' := (hkept c').2.trans (h.heap_events c')
  nodup := nodup_swapRemove h.nodup (List.getElem?_eq_some_iff.mp hi).1
  pollfds := by rw [hown, h.pollfds, swapRemove_map]
  index := hindex
  channels := by
    intro k c'
    simp only [hchannels, erased, h.heap_fd, mem_swapRemove h.nodup hi]
    rcases eq_or_ne k (fd c) with rfl | hne
    · simp only [Function.update_self, reduceCtorEq, false_iff]
      rintro ⟨⟨-, hne⟩, heq⟩
      exact hne (hfd heq)
    · rw [Function.update_of_ne hne, h.channels]
      constructor
      · rintro ⟨hm, rfl⟩
        exact ⟨⟨hm, fun hcc => hne (by rw [hcc])⟩, rfl⟩
      · rintro ⟨⟨hm, -⟩, heq⟩
        exact ⟨hm, heq⟩

/-- **A channel is removed**, and the others keep their entries. -/
theorem Inv.remove (hfd : Function.Injective fd) (hnn : ∀ c, 0 ≤ fd c)
    (h : Inv fd events parked os s) {i : ℕ} (hi : os[i]? = some c) :
    ∃ s', step s (.remove c) = some s' ∧ Inv fd events parked (swapRemove os i) s' ∧
      ∀ c', c' ∉ os → (s'.heap c').index = (s.heap c').index := by
  have hlt : i < os.length := (List.getElem?_eq_some_iff.mp hi).1
  obtain ⟨x, hx⟩ : ∃ x, os.getLast? = some x :=
    Option.isSome_iff_exists.mp (by simpa using List.ne_nil_of_mem (List.mem_of_getElem? hi))
  have hxmem : x ∈ os := List.mem_of_getLast? hx
  have hmoved := fun (j : ℕ) c' => eq_last_or_kept (j := j) (b := c') h.nodup hlt hx
  obtain ⟨failed, hstep⟩ := h.step_remove hfd hnn hi
  rw [hstep]
  by_cases hlast : i = os.length - 1
  · rw [if_pos hlast]
    refine ⟨_, rfl, h.erase hfd hi ?_ rfl ?_ ?_, ?_⟩
    · rw [hlast, ← swapRemove_last, h.pollfds, List.length_map]
    · exact fun c' => ⟨erased_congr Channel.fd rfl c', erased_congr Channel.events rfl c'⟩
    · intro j c' hj
      obtain ⟨-, -, hi1⟩ | ⟨-, hkeep⟩ := hmoved j c' hj
      · omega
      · exact (erased_congr Channel.index rfl c').trans (h.index j c' hkeep)
    · exact fun c' _ => erased_congr Channel.index rfl c'
  · rw [if_neg hlast, hx, Option.map_some]
    -- what the write of the index leaves to the channels
    have hkept : ∀ c', (((erased parked s c).setChannel x (·.setIndex i)).heap c').fd =
        (s.heap c').fd ∧ (((erased parked s c).setChannel x (·.setIndex i)).heap c').events =
        (s.heap c').events := fun c' =>
      ⟨(setChannel_congr _ x Channel.fd rfl c').trans (erased_congr Channel.fd rfl c'),
        (setChannel_congr _ x Channel.events rfl c').trans (erased_congr Channel.events rfl c')⟩
    have hother : ∀ c', c' ≠ x →
        (((erased parked s c).setChannel x (·.setIndex i)).heap c').index = (s.heap c').index :=
      fun c' hne => (congrArg Channel.index (setChannel_of_ne _ x hne _)).trans
        (erased_congr Channel.index rfl c')
    refine ⟨_, rfl, h.erase hfd hi rfl rfl hkept ?_, ?_⟩
    · intro j c' hj
      obtain ⟨rfl, rfl, -⟩ | ⟨hne, hkeep⟩ := hmoved j c' hj
      · simp [setChannel, Channel.setIndex]
      · exact (hother c' hne).trans (h.index j c' hkeep)
    · exact fun c' hc' => hother c' fun heq => hc' (heq ▸ hxmem)

end Step

/-! ### Every use -/

/-- The poller after the operations. -/
structure After (fd : ι → ℤ) (acts : List (Act ι)) (os : List ι) (s : PollPoller ι) : Prop where
  inv : Inv fd (fun c => interest (history acts c)) (fun c => Parked (history acts c)) os s
  mem : ∀ c, c ∈ os ↔ history acts c ≠ [] ∧ .remove c ∉ acts
  fresh : ∀ c, history acts c = [] → (s.heap c).index = -1

variable {fd : ι → ℤ} {acts : List (Act ι)} {os : List ι} {s : PollPoller ι} {c : ι}

/-- One operation more. -/
theorem After.step_set (hfd : Function.Injective fd) (h : After fd acts os s)
    (hc : .remove c ∉ acts) (op : Op) :
    ∃ os' s', step s (.set c op) = some s' ∧ After fd (acts ++ [.set c op]) os' s' := by
  have hmem : ∀ c', history (acts ++ [.set c op]) c' ≠ [] ∧
      .remove c' ∉ acts ++ [.set c op] ↔ (c' = c ∨ history acts c' ≠ []) ∧ .remove c' ∉ acts := by
    intro c'
    rcases eq_or_ne c' c with rfl | hne
    · simp [history_set]
    · simp [history_set, hne, hne.symm]
  have hfresh : ∀ c', history (acts ++ [.set c op]) c' = [] → c' ≠ c ∧ history acts c' = [] := by
    intro c' h'
    rcases eq_or_ne c' c with rfl | hne
    · simp [history_set] at h'
    · exact ⟨hne, by simpa [history_set, hne.symm] using h'⟩
  have hev := h.inv.heap_events c
  by_cases hnew : history acts c = []
  · have hnot : c ∉ os := fun hm => ((h.mem c).mp hm).1 hnew
    obtain ⟨s', hs', -, hinv, hframe⟩ := h.inv.set_new hfd hnot (by rw [h.fresh c hnew]; simp) op
    refine ⟨os ++ [c], s', hs', ⟨?_, fun c' => ?_, fun c' h' => ?_⟩⟩
    · rwa [interest_history_set hev, parked_history_first hnew]
    · rw [hmem, List.mem_append, List.mem_singleton, h.mem]
      constructor
      · rintro (⟨hne, hrem⟩ | rfl)
        · exact ⟨Or.inr hne, hrem⟩
        · exact ⟨Or.inl rfl, hc⟩
      · rintro ⟨rfl | hne, hrem⟩
        · exact Or.inr rfl
        · exact Or.inl ⟨hne, hrem⟩
    · obtain ⟨hne, hempty⟩ := hfresh c' h'
      rw [hframe c' hne, h.fresh c' hempty]
  · obtain ⟨s', hs', -, hinv, hframe⟩ := h.inv.set_known ((h.mem c).mpr ⟨hnew, hc⟩) op
    refine ⟨os, s', hs', ⟨?_, fun c' => ?_, fun c' h' => ?_⟩⟩
    · rwa [interest_history_set hev, parked_history_later hnew hev]
    · rw [hmem, h.mem]
      constructor
      · rintro ⟨hne, hrem⟩
        exact ⟨Or.inr hne, hrem⟩
      · rintro ⟨rfl | hne, hrem⟩
        · exact ⟨hnew, hrem⟩
        · exact ⟨hne, hrem⟩
    · rw [hframe c', h.fresh c' (hfresh c' h').2]

theorem After.step_remove (hfd : Function.Injective fd) (hnn : ∀ c, 0 ≤ fd c) (h : After fd acts os s)
    (hc : .remove c ∉ acts) (hused : history acts c ≠ []) :
    ∃ os' s', step s (.remove c) = some s' ∧ After fd (acts ++ [.remove c]) os' s' := by
  have hmem := (h.mem c).mpr ⟨hused, hc⟩
  obtain ⟨i, hi⟩ := List.mem_iff_getElem?.mp hmem
  obtain ⟨s', hs', hinv, hframe⟩ := h.inv.remove hfd hnn hi
  refine ⟨swapRemove os i, s', hs', ⟨?_, fun c' => ?_, fun c' h' => ?_⟩⟩
  · simpa only [history_remove] using hinv
  · rw [mem_swapRemove h.inv.nodup hi, h.mem, history_remove]
    simp [and_assoc]
  · rw [history_remove] at h'
    rw [hframe c' fun hm => ((h.mem c').mp hm).1 h', h.fresh c' h']

/-- **The invariant holds after every use** in which no channel is removed unused or used again. -/
theorem run_after (hfd : Function.Injective fd) (hnn : ∀ c, 0 ≤ fd c) (hlife : OneLife acts) :
    ∃ os s, run step (new fd) acts = some s ∧ After fd acts os s := by
  induction acts using List.reverseRecOn with
  | nil =>
    refine ⟨[], new fd, rfl, ⟨?_, by simp [history], fun _ _ => rfl⟩⟩
    simpa [history, interest, not_parked_nil] using Inv.new fd
  | append_singleton acts a ih =>
    obtain ⟨os, s, hs, h⟩ := ih hlife.init
    have hc := hlife.not_removed
    obtain ⟨os', s', hs', h'⟩ : ∃ os' s', step s a = some s' ∧ After fd (acts ++ [a]) os' s' := by
      cases a with
      | set c op => exact h.step_set hfd hc op
      | remove c => exact h.step_remove hfd hnn hc hlife.used
    exact ⟨os', s', run_concat.mpr ⟨s, hs, hs'⟩, h'⟩

/-- The channels the poller watches: those with events that no update has switched off. -/
theorem After.mem_watched (hnn : ∀ c, 0 ≤ fd c) (h : After fd acts os s) (x : ℤ × BitVec 32) :
    x ∈ watched s ↔ ∃ c, .remove c ∉ acts ∧ ¬ Parked (history acts c) ∧
      interest (history acts c) ≠ kNoneEvent ∧ x = (fd c, interest (history acts c)) := by
  have hon : ∀ c, 0 ≤ (entry fd (fun c => interest (history acts c))
      (fun c => decide (Parked (history acts c))) c).fd ↔ ¬ Parked (history acts c) := by
    intro c
    have := hnn c
    by_cases hp : Parked (history acts c) <;> simp [entry, hp] <;> omega
  have hev : ∀ c, (interest (history acts c)).setWidth 16 ≠ 0 ↔
      interest (history acts c) ≠ kNoneEvent := by
    intro c
    have hsign := signExtend_interest (history acts c)
    refine not_congr ⟨fun h0 => ?_, fun h0 => by rw [h0]; rfl⟩
    rw [← hsign, h0]
    rfl
  simp only [watched, h.inv.pollfds, List.mem_map, Set.mem_ofPred_eq, exists_exists_and_eq_and]
  refine exists_congr fun c => ?_
  rw [hon, h.mem]
  constructor
  · rintro ⟨⟨-, hrem⟩, hp, hne, rfl⟩
    refine ⟨hrem, hp, (hev c).mp hne, ?_⟩
    simp [entry, hp, signExtend_interest]
  · rintro ⟨hrem, hp, hne, rfl⟩
    refine ⟨⟨fun hnil => hne (by rw [hnil]; rfl), hrem⟩, hp, (hev c).mpr hne, ?_⟩
    simp [entry, hp, signExtend_interest]

end PollPoller

end MuduoCpp11.Net
