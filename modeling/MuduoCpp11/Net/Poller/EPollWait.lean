import MuduoCpp11.Net.Poller.EPollPoller

/-! # The channels that `epoll_wait(2)` reports

The kernel keeps the descriptors of the interest list that are ready in a list of its own, and
successive calls of `epoll_wait` go round it: a call takes as many from the front as `events_` has room
for, and those that are still ready go to the back. `FillActiveChannels` hands over the channels behind
the pointers of the events. When `events_` has been filled, it is doubled.

So no channel is reported twice by one call, and none that is not in the map (`poll_reports`); and one
that stays ready does not wait for long, however many others become ready meanwhile: `n` calls report
the first `events_.size() * (2 ^ n - 1)` of the list (`ready_reported`). -/

namespace MuduoCpp11.Net.EPollPoller

open MuduoCpp11.Lib.Run Poller

variable {ι : Type*}

def kInitEventListSize : ℕ := 16

/-- `events` is the size of `events_`, and `ready` is the ready list of the kernel. -/
structure Waiting (ι : Type*) where
  poller : EPollPoller ι
  events : ℕ := kInitEventListSize
  ready : List ℤ := []

namespace Waiting

def new (fd : ι → ℤ) : Waiting ι := { poller := EPollPoller.new fd }

/-- What `epoll_wait` writes to `events_`, where `revents` are the events of the descriptors. -/
def epollWait (s : Waiting ι) (revents : ℤ → BitVec 32) : List (EpollEvent ι) :=
  (s.ready.take s.events).filterMap fun k => (s.poller.own k).map fun event => ⟨revents k, event.ptr⟩

end Waiting

variable [DecidableEq ι]

/-- `none` if an assertion fails. -/
def fillActiveChannels (s : EPollPoller ι) :
    List (EpollEvent ι) → List ι → Option (EPollPoller ι × List ι)
  | [], activeChannels => some (s, activeChannels)
  | event :: events, activeChannels =>
    if s.channels (s.heap event.ptr).fd = some event.ptr then
      fillActiveChannels (s.setChannel event.ptr (·.setRevents event.events)) events
        (activeChannels ++ [event.ptr])
    else none

namespace Waiting

/-- `Poll`, where `epoll_wait` does not fail. -/
def poll (s : Waiting ι) (revents : ℤ → BitVec 32) : Option (Waiting ι × List ι) :=
  let events := s.epollWait revents
  (fillActiveChannels s.poller events []).map fun r =>
    ({ poller := r.1
       events := if events.length = s.events then s.events * 2 else s.events
       ready := s.ready.drop s.events ++ s.ready.take s.events }, r.2)

/-- An operation of a channel, a descriptor that becomes ready or is ready no more, a `Poll`, and one
whose `epoll_wait` fails. -/
inductive Act (ι : Type*) where
  | op (a : Poller.Act ι)
  | arrive (k : ℤ)
  | leave (k : ℤ)
  | poll (revents : ℤ → BitVec 32)
  | failed

/-- What leaves the interest list leaves the ready list. -/
def step (s : Waiting ι) : Act ι → Option (Waiting ι)
  | .op a => (EPollPoller.step s.poller a).map fun poller =>
      { s with poller, ready := s.ready.filter fun k => (poller.own k).isSome }
  | .arrive k =>
    if (s.poller.own k).isSome ∧ k ∉ s.ready then some { s with ready := s.ready ++ [k] } else none
  | .leave k => if k ∈ s.ready then some { s with ready := s.ready.erase k } else none
  | .poll revents => (s.poll revents).map Prod.fst
  | .failed => some s

/-- The operations of the channels in a run. -/
def ops (acts : List (Act ι)) : List (Poller.Act ι) :=
  acts.filterMap fun
    | .op a => some a
    | _ => none

def Act.isPoll : Act ι → Bool
  | .poll _ => true
  | _ => false

end Waiting

/-! ### What a call reports -/

/-- The poller but for `revents`. -/
structure SameBooks (s t : EPollPoller ι) : Prop where
  channels : t.channels = s.channels
  own : t.own = s.own
  failed : t.failed = s.failed
  fd : ∀ c, (t.heap c).fd = (s.heap c).fd
  index : ∀ c, (t.heap c).index = (s.heap c).index
  events : ∀ c, (t.heap c).events = (s.heap c).events

omit [DecidableEq ι] in
theorem SameBooks.trans {s t u : EPollPoller ι} (h : SameBooks s t) (h' : SameBooks t u) :
    SameBooks s u :=
  ⟨h'.channels.trans h.channels, h'.own.trans h.own, h'.failed.trans h.failed,
    fun c => (h'.fd c).trans (h.fd c), fun c => (h'.index c).trans (h.index c),
    fun c => (h'.events c).trans (h.events c)⟩

theorem sameBooks_setRevents (s : EPollPoller ι) (c : ι) (revt : BitVec 32) :
    SameBooks s (s.setChannel c (·.setRevents revt)) :=
  ⟨rfl, rfl, rfl, setChannel_congr s c Channel.fd rfl, setChannel_congr s c Channel.index rfl,
    setChannel_congr s c Channel.events rfl⟩

/-- The books are as right as they were. -/
theorem After.of_sameBooks {fd : ι → ℤ} {acts : List (Poller.Act ι)}
    {s t : EPollPoller ι} (h : After fd acts s) (hst : SameBooks s t) : After fd acts t where
  inv :=
    { heap_fd := fun c => (hst.fd c).trans (h.inv.heap_fd c)
      index := fun c => by rw [hst.index]; exact h.inv.index c
      channels := fun k c => by rw [hst.channels, hst.index]; exact h.inv.channels k c
      list := fun k event => by rw [hst.own, hst.index, hst.events]; exact h.inv.list k event
      added := fun c => by rw [hst.index, hst.events]; exact h.inv.added c }
  events c := by rw [hst.events]; exact h.events c
  index c hc := by rw [hst.index]; exact h.index c hc
  failed := hst.failed.trans h.failed

/-- **The loop hands over the channels of the events**, each with its events, if the map has them. -/
theorem fillActiveChannels_spec : ∀ (events : List (EpollEvent ι)) (s : EPollPoller ι) (acc : List ι),
    (∀ event ∈ events, s.channels (s.heap event.ptr).fd = some event.ptr) →
      (events.map EpollEvent.ptr).Nodup →
        ∃ t, fillActiveChannels s events acc = some (t, acc ++ events.map EpollEvent.ptr) ∧
          SameBooks s t ∧ (∀ event ∈ events, (t.heap event.ptr).revents = event.events) ∧
          ∀ c, c ∉ events.map EpollEvent.ptr → t.heap c = s.heap c
  | [], s, acc, _, _ => by
    refine ⟨s, by simp [fillActiveChannels], ⟨rfl, rfl, rfl, ?_, ?_, ?_⟩, by simp, fun _ _ => rfl⟩
    all_goals exact fun _ => rfl
  | event :: events, s, acc, hknown, hnodup => by
    obtain ⟨hnot, hnodup⟩ := List.nodup_cons.mp hnodup
    have hbooks := sameBooks_setRevents s event.ptr event.events
    obtain ⟨t, ht, hsame, hrevents, hother⟩ := fillActiveChannels_spec events
      (s.setChannel event.ptr (·.setRevents event.events)) (acc ++ [event.ptr])
      (fun e he => by
        rw [hbooks.channels, hbooks.fd]
        exact hknown e (List.mem_cons_of_mem _ he)) hnodup
    refine ⟨t, ?_, hbooks.trans hsame, fun e he => ?_, fun c hc => ?_⟩
    · rw [fillActiveChannels, if_pos (hknown event List.mem_cons_self), ht, List.append_assoc]
      rfl
    · rcases List.mem_cons.mp he with rfl | he
      · rw [hother _ hnot, setChannel_self]
        rfl
      · exact hrevents e he
    · rw [List.map_cons, List.mem_cons, not_or] at hc
      rw [hother c hc.2, setChannel_of_ne _ _ hc.1]

namespace Waiting

/-- **The invariant**: the books are right, and what is ready is in the interest list. -/
structure Ok (fd : ι → ℤ) (acts : List (Act ι)) (s : Waiting ι) : Prop where
  after : After fd (ops acts) s.poller
  nodup : s.ready.Nodup
  interest : ∀ k ∈ s.ready, (s.poller.own k).isSome
  pos : 0 < s.events

/-- What `Poll` leaves behind, and whom it reports. -/
structure Reports (fd : ι → ℤ) (revents : ℤ → BitVec 32) (s t : Waiting ι) (active : List ι) :
    Prop where
  poll : s.poll revents = some (t, active)
  front : active.map fd = s.ready.take s.events
  marked : ∀ c ∈ active, (t.poller.heap c).revents = revents (fd c)
  other : ∀ c, c ∉ active → t.poller.heap c = s.poller.heap c
  books : SameBooks s.poller t.poller
  ready : t.ready = s.ready.drop s.events ++ s.ready.take s.events
  events : t.events = if s.events ≤ s.ready.length then s.events * 2 else s.events

section
variable {fd : ι → ℤ} {acts : List (Act ι)} {s s' : Waiting ι} {act : Act ι}

omit [DecidableEq ι] in
/-- The events of descriptors of the interest list are those of their channels. -/
theorem events_of_interest {s : EPollPoller ι} (h : Inv fd s) (revents : ℤ → BitVec 32) :
    ∀ l : List ℤ, (∀ k ∈ l, (s.own k).isSome) →
      let events := l.filterMap fun k => (s.own k).map fun event => ⟨revents k, event.ptr⟩
      (events.map EpollEvent.ptr).map fd = l ∧ ∀ event ∈ events,
        event.events = revents (fd event.ptr) ∧ s.channels (s.heap event.ptr).fd = some event.ptr
  | [], _ => by simp
  | k :: l, hl => by
    obtain ⟨hmap, hall⟩ := events_of_interest h revents l fun k' hk' =>
      hl k' (List.mem_cons_of_mem _ hk')
    obtain ⟨event, hevent⟩ := Option.isSome_iff_exists.mp (hl k List.mem_cons_self)
    obtain ⟨hk, hidx, -⟩ := (h.list k event).mp hevent
    simp only [List.filterMap_cons, hevent, Option.map_some, List.map_cons, List.mem_cons]
    refine ⟨by rw [hk, hmap], ?_⟩
    rintro e (rfl | he)
    · refine ⟨by rw [hk], ?_⟩
      rw [h.heap_fd, h.channels]
      exact ⟨rfl, by rw [hidx]; decide⟩
    · exact hall e he

/-- **What a `Poll` does.** -/
theorem Ok.poll (h : Ok fd acts s) (revents : ℤ → BitVec 32) :
    ∃ t active, Reports fd revents s t active := by
  have htake : ∀ k ∈ s.ready.take s.events, (s.poller.own k).isSome := fun k hk =>
    h.interest k (List.mem_of_mem_take hk)
  obtain ⟨hmap, hall⟩ := events_of_interest h.after.inv revents _ htake
  have hlength : (s.epollWait revents).length = (s.ready.take s.events).length := by
    rw [← hmap, List.length_map, List.length_map]
    rfl
  have hnodup : ((s.epollWait revents).map EpollEvent.ptr).Nodup := by
    refine List.Nodup.of_map fd ?_
    show (List.map fd (List.map EpollEvent.ptr _)).Nodup
    rw [epollWait, hmap]
    exact h.nodup.sublist (List.take_sublist _ _)
  obtain ⟨t, ht, hsame, hrevents, hother⟩ :=
    fillActiveChannels_spec (s.epollWait revents) s.poller [] (fun e he => (hall e he).2) hnodup
  refine ⟨⟨t, _, _⟩, (s.epollWait revents).map EpollEvent.ptr, by rw [Waiting.poll, ht]; rfl, hmap, ?_,
    hother, hsame, rfl, ?_⟩
  · intro c hc
    obtain ⟨event, he, rfl⟩ := List.mem_map.mp hc
    exact (hrevents event he).trans (hall event he).1
  · show (if (s.epollWait revents).length = s.events then _ else _) = _
    rw [hlength, List.length_take]
    simp only [min_eq_left_iff]

theorem Ok.new (fd : ι → ℤ) : Ok fd [] (new fd) where
  after := ⟨Inv.new fd, fun _ => rfl, fun c huse => by simp [inUse, ops] at huse, rfl⟩
  nodup := List.nodup_nil
  interest := by simp [Waiting.new]
  pos := by simp [Waiting.new, kInitEventListSize]

omit [DecidableEq ι] in
theorem ops_concat (acts : List (Act ι)) (act : Act ι) : ops (acts ++ [act]) = ops acts ++ ops [act] :=
  List.filterMap_append

/-- Turning the ready list round leaves what is in it. -/
theorem Reports.ok {revents : ℤ → BitVec 32} {active : List ι} (h : Ok fd acts s)
    (hr : Reports fd revents s s' active) : Ok fd (acts ++ [.poll revents]) s' where
  after := by
    rw [ops_concat, show ops [Act.poll (ι := ι) revents] = [] from rfl, List.append_nil]
    exact h.after.of_sameBooks hr.books
  nodup := by
    rw [hr.ready, (List.perm_append_comm).nodup_iff, List.take_append_drop]
    exact h.nodup
  interest k hk := by
    rw [hr.books.own]
    rw [hr.ready, (List.perm_append_comm).mem_iff, List.take_append_drop] at hk
    exact h.interest k hk
  pos := by
    rw [hr.events]
    have := h.pos
    split_ifs <;> omega

/-- **Every step keeps the invariant.** -/
theorem Ok.step (hfd : Function.Injective fd) (h : Ok fd acts s)
    (hreuse : Reusable (ops (acts ++ [act]))) (hs : s.step act = some s') :
    Ok fd (acts ++ [act]) s' := by
  cases act with
  | op a =>
    obtain ⟨poller, hp, rfl⟩ := Option.map_eq_some_iff.mp hs
    rw [ops_concat] at hreuse
    obtain ⟨p, hp', hafter⟩ : ∃ p, EPollPoller.step s.poller a = some p ∧
        After fd (ops acts ++ [a]) p := by
      cases a with
      | set c op => exact h.after.step_set hfd c op
      | remove c => exact h.after.step_remove hfd hreuse.removed.1 hreuse.removed.2
    rw [hp, Option.some.injEq] at hp'
    subst hp'
    refine ⟨?_, h.nodup.filter _, fun k hk => ?_, h.pos⟩
    · rw [ops_concat]
      exact hafter
    · exact (List.mem_filter.mp hk).2
  | arrive k =>
    obtain ⟨⟨hown, hk⟩, hs⟩ := Option.ite_none_right_eq_some.mp hs
    cases hs
    refine ⟨?_, ?_, fun k' hk' => ?_, h.pos⟩
    · rw [ops_concat, show ops [Act.arrive (ι := ι) k] = [] from rfl, List.append_nil]
      exact h.after
    · exact List.nodup_append.mpr ⟨h.nodup, List.nodup_singleton k, by
        intro x hx y hy hxy
        rw [List.mem_singleton.mp hy] at hxy
        exact hk (hxy ▸ hx)⟩
    · rcases List.mem_append.mp hk' with hk' | hk'
      · exact h.interest k' hk'
      · rw [List.mem_singleton.mp hk']
        exact hown
  | leave k =>
    obtain ⟨hk, hs⟩ := Option.ite_none_right_eq_some.mp hs
    cases hs
    refine ⟨?_, h.nodup.erase k, fun k' hk' => h.interest k' (List.mem_of_mem_erase hk'), h.pos⟩
    rw [ops_concat, show ops [Act.leave (ι := ι) k] = [] from rfl, List.append_nil]
    exact h.after
  | poll revents =>
    obtain ⟨t, active, hr⟩ := h.poll revents
    rw [Waiting.step, hr.poll, Option.map_some, Option.some.injEq] at hs
    subst hs
    exact hr.ok h
  | failed =>
    cases hs
    refine ⟨?_, h.nodup, h.interest, h.pos⟩
    rw [ops_concat, show ops [Act.failed (ι := ι)] = [] from rfl, List.append_nil]
    exact h.after

/-- The invariant holds in every state reached. -/
theorem run_ok (hfd : Function.Injective fd) (hreuse : Reusable (ops acts))
    (hrun : run step (new fd) acts = some s) : Ok fd acts s := by
  refine run_inv_history (P := fun acts s => Reusable (ops acts) → Ok fd acts s)
    (fun _ => Ok.new fd) (fun acts m act s' hs ih hreuse => ?_) hrun hreuse
  refine (ih ?_).step hfd hreuse hs
  rw [ops_concat] at hreuse
  exact hreuse.init

/-- In every state reached, with channels that are removed in use and without events, a `Poll` fails no
assertion; it reports the channels of the first descriptors of the ready list, as many as `events_` has
room for, each once, with its events and known to the map, and writes to no other channel. -/
theorem poll_reports (hfd : Function.Injective fd) (hreuse : Reusable (ops acts))
    (hrun : run step (new fd) acts = some s) (revents : ℤ → BitVec 32) :
    ∃ t active, s.poll revents = some (t, active) ∧ active.map fd = s.ready.take s.events ∧
      active.Nodup ∧
      (∀ c ∈ active, (t.poller.heap c).revents = revents (fd c) ∧
        t.poller.channels (fd c) = some c) ∧
      (∀ c, c ∉ active → t.poller.heap c = s.poller.heap c) ∧ t.poller.failed = [] := by
  have h : Ok fd acts s := run_ok hfd hreuse hrun
  obtain ⟨t, active, hr⟩ := h.poll revents
  have hnodup : active.Nodup := by
    refine List.Nodup.of_map fd ?_
    rw [hr.front]
    exact h.nodup.sublist (List.take_sublist _ _)
  refine ⟨t, active, hr.poll, hr.front, hnodup, fun c hc => ⟨hr.marked c hc, ?_⟩, hr.other, ?_⟩
  · have hk : fd c ∈ s.ready.take s.events := hr.front ▸ List.mem_map_of_mem hc
    obtain ⟨event, hevent⟩ := Option.isSome_iff_exists.mp (h.interest _ (List.mem_of_mem_take hk))
    obtain ⟨hfdc, hidx, -⟩ := (h.after.inv.list _ event).mp hevent
    rw [hr.books.channels, h.after.inv.channels]
    exact ⟨rfl, by rw [← hfd hfdc, hidx]; decide⟩
  · rw [hr.books.failed, h.after.failed]

/-- Two channels, of which the second becomes ready first. -/
def twoReady : List (Act (Fin 2)) :=
  [.op (.set 0 .enableReading), .op (.set 1 .enableWriting), .arrive 6, .arrive 5]

theorem reusable_twoReady : Reusable (ops twoReady) := by
  unfold Reusable
  decide

theorem poll_reports_two : ∃ s t active,
    run step (new fun c : Fin 2 => 5 + (c : ℤ)) twoReady = some s ∧ s.ready = [6, 5] ∧
      s.poll (fun _ => POLLIN) = some (t, active) ∧
      active.map (fun c : Fin 2 => 5 + (c : ℤ)) = [6, 5] ∧ t.poller.failed = [] := by
  have hfd : Function.Injective fun c : Fin 2 => 5 + (c : ℤ) := by decide
  obtain ⟨s, hs, hready⟩ : ∃ s, run step (new fun c : Fin 2 => 5 + (c : ℤ)) twoReady = some s ∧
      s.ready = [6, 5] ∧ s.events = 16 := ⟨_, rfl, rfl, rfl⟩
  obtain ⟨t, active, ht, hactive, -, -, -, hfailed⟩ :=
    poll_reports hfd reusable_twoReady hs fun _ => POLLIN
  refine ⟨s, t, active, hs, hready.1, ht, ?_, hfailed⟩
  rw [hactive, hready.1, hready.2]
  rfl

/-! ### Nobody waits for long -/

/-- The descriptor is at most `n` from the front. -/
def Behind (k : ℤ) (n : ℕ) (l : List ℤ) : Prop :=
  ∃ ahead behind, l = ahead ++ k :: behind ∧ ahead.length ≤ n

theorem Behind.filter {k : ℤ} {n : ℕ} {l : List ℤ} (h : Behind k n l) {p : ℤ → Bool} (hk : p k = true) :
    Behind k n (l.filter p) := by
  obtain ⟨ahead, behind, rfl, hn⟩ := h
  refine ⟨ahead.filter p, behind.filter p, by simp [hk], ?_⟩
  exact (List.length_filter_le _ _).trans hn

theorem Behind.append {k : ℤ} {n : ℕ} {l : List ℤ} (h : Behind k n l) (l' : List ℤ) :
    Behind k n (l ++ l') := by
  obtain ⟨ahead, behind, rfl, hn⟩ := h
  exact ⟨ahead, behind ++ l', by simp, hn⟩

theorem Behind.erase {k j : ℤ} {n : ℕ} {l : List ℤ} (h : Behind k n l) (hne : k ≠ j) :
    Behind k n (l.erase j) := by
  obtain ⟨ahead, behind, rfl, hn⟩ := h
  by_cases hj : j ∈ ahead
  · exact ⟨ahead.erase j, behind, List.erase_append_left _ hj, (List.length_erase_le).trans hn⟩
  · refine ⟨ahead, behind.erase j, ?_, hn⟩
    rw [List.erase_append_right _ hj, List.erase_cons_tail (by simpa using hne)]

/-- Behind a call that has not reported it, the descriptor is nearer to the front. -/
theorem Behind.rotate {k : ℤ} {n e : ℕ} {l : List ℤ} (h : Behind k n l) (hk : k ∉ l.take e) :
    e ≤ n ∧ e ≤ l.length ∧ Behind k (n - e) (l.drop e ++ l.take e) := by
  obtain ⟨ahead, behind, rfl, hn⟩ := h
  have hle : e ≤ ahead.length := by
    by_contra hlt
    refine hk ?_
    rw [List.take_append, List.take_of_length_le (by omega)]
    obtain ⟨d, hd⟩ : ∃ d, e - ahead.length = d + 1 := ⟨e - ahead.length - 1, by omega⟩
    simp [hd]
  refine ⟨by omega, by simp; omega, ahead.drop e, behind ++ ahead.take e, ?_, ?_⟩
  · rw [List.drop_append_of_le_length hle, List.take_append_of_le_length hle]
    simp
  · rw [List.length_drop]
    omega

/-- A step that does not report the descriptor leaves its place, and a `Poll` takes from it the size of
`events_`, which it doubles. -/
theorem Ok.behind (h : Ok fd acts s) (hs : s.step act = some s') {k : ℤ} {n : ℕ}
    (hk : Behind k n s.ready) :
    (∃ revents, act = .poll revents ∧ k ∈ s.ready.take s.events) ∨
      act.isPoll = false ∧ s'.events = s.events ∧ (k ∈ s'.ready → Behind k n s'.ready) ∨
      act.isPoll = true ∧ s.events ≤ n ∧ s'.events = s.events * 2 ∧
        Behind k (n - s.events) s'.ready := by
  cases act with
  | op a =>
    obtain ⟨poller, -, rfl⟩ := Option.map_eq_some_iff.mp hs
    refine Or.inr (Or.inl ⟨rfl, rfl, fun hk' => hk.filter (List.mem_filter.mp hk').2⟩)
  | arrive j =>
    obtain ⟨-, hs⟩ := Option.ite_none_right_eq_some.mp hs
    cases hs
    exact Or.inr (Or.inl ⟨rfl, rfl, fun _ => hk.append [j]⟩)
  | leave j =>
    obtain ⟨-, hs⟩ := Option.ite_none_right_eq_some.mp hs
    cases hs
    refine Or.inr (Or.inl ⟨rfl, rfl, fun hk' => hk.erase ?_⟩)
    rintro rfl
    exact h.nodup.not_mem_erase hk'
  | poll revents =>
    by_cases htake : k ∈ s.ready.take s.events
    · exact Or.inl ⟨revents, rfl, htake⟩
    · obtain ⟨t, active, hr⟩ := h.poll revents
      rw [Waiting.step, hr.poll, Option.map_some, Option.some.injEq] at hs
      subst hs
      obtain ⟨hn, hlength, hbehind⟩ := hk.rotate htake
      refine Or.inr (Or.inr ⟨rfl, hn, ?_, ?_⟩)
      · rw [hr.events, if_pos hlength]
      · rw [hr.ready]
        exact hbehind
  | failed =>
    cases hs
    exact Or.inr (Or.inl ⟨rfl, rfl, fun _ => hk⟩)

/-- One of the calls reports the descriptor. -/
theorem run_reported (hfd : Function.Injective fd) {k : ℤ} :
    ∀ (acts : List (Act ι)) {before : List (Act ι)} {m : Waiting ι} {n : ℕ}, Ok fd before m →
      Reusable (ops (before ++ acts)) → run step m acts = some s →
      Along step (fun s _ => k ∈ s.ready) m acts → (k ∈ m.ready → Behind k n m.ready) →
      n < m.events * (2 ^ acts.countP Act.isPoll - 1) →
      ∃ pre revents post mid, acts = pre ++ .poll revents :: post ∧ run step m pre = some mid ∧
        Ok fd (before ++ pre) mid ∧ k ∈ mid.ready.take mid.events
  | [], _, _, _, _, _, _, _, _, hn => by simp at hn
  | act :: acts, before, m, n, hok, hreuse, hrun, hstay, hbehind, hn => by
    obtain ⟨m', hm', hrest⟩ := Option.bind_eq_some_iff.mp hrun
    have hreuse' : Reusable (ops (before ++ [act] ++ acts)) := by
      rw [List.append_assoc]
      exact hreuse
    have hok' : Ok fd (before ++ [act]) m' := by
      refine hok.step hfd ?_ hm'
      rw [ops, List.filterMap_append] at hreuse'
      exact hreuse'.init
    have hstep : ∀ n', (k ∈ m'.ready → Behind k n' m'.ready) →
        n' < m'.events * (2 ^ acts.countP Act.isPoll - 1) →
        ∃ pre revents post mid, act :: acts = pre ++ .poll revents :: post ∧
          run step m pre = some mid ∧ Ok fd (before ++ pre) mid ∧ k ∈ mid.ready.take mid.events := by
      intro n' hbehind' hn'
      obtain ⟨pre, revents, post, mid, rfl, hmid, hokm, hk⟩ :=
        run_reported hfd acts hok' hreuse' hrest (hstay.2 m' hm') hbehind' hn'
      refine ⟨act :: pre, revents, post, mid, rfl, ?_, by simpa using hokm, hk⟩
      rw [run_cons, hm']
      exact hmid
    rcases hok.behind hm' (hbehind hstay.1) with ⟨revents, rfl, htake⟩ | ⟨hpoll, hevents, hkeep⟩ |
      ⟨hpoll, hle, hevents, hrot⟩
    · exact ⟨[], revents, acts, m, rfl, rfl, by simpa using hok, htake⟩
    · refine hstep n hkeep ?_
      rw [List.countP_cons_of_neg (by simp [hpoll])] at hn
      rwa [hevents]
    · refine hstep (n - m.events) (fun _ => hrot) ?_
      rw [List.countP_cons_of_pos hpoll, pow_succ] at hn
      rw [hevents]
      have hpos := Nat.one_le_two_pow (n := acts.countP Act.isPoll)
      have hsplit : m.events * (2 ^ acts.countP Act.isPoll * 2 - 1) =
          m.events + m.events * 2 * (2 ^ acts.countP Act.isPoll - 1) := by
        obtain ⟨d, hd⟩ := Nat.exists_eq_add_of_le hpos
        rw [hd, show (1 + d) * 2 - 1 = 1 + 2 * d by omega, show 1 + d - 1 = d by omega]
        ring
      omega

/-- A channel that is ready and stays so is reported within `n` calls of `Poll` if fewer than
`events_.size() * (2 ^ n - 1)` descriptors are ahead of it, however many become ready meanwhile. -/
theorem ready_reported (hfd : Function.Injective fd) {before : List (Act ι)} {m : Waiting ι} {c : ι}
    (hm : run step (new fd) before = some m) (hrun : run step m acts = some s)
    (hreuse : Reusable (ops (before ++ acts)))
    (hstay : Along step (fun s _ => fd c ∈ s.ready) m acts) {ahead behind : List ℤ}
    (hready : m.ready = ahead ++ fd c :: behind)
    (hpolls : ahead.length < m.events * (2 ^ acts.countP Act.isPoll - 1)) :
    ∃ pre revents post mid t active, acts = pre ++ .poll revents :: post ∧
      run step m pre = some mid ∧ mid.poll revents = some (t, active) ∧ c ∈ active ∧
      (t.poller.heap c).revents = revents (fd c) := by
  have hok : Ok fd before m := by
    refine run_ok hfd ?_ hm
    rw [ops, List.filterMap_append] at hreuse
    exact hreuse.init
  obtain ⟨pre, revents, post, mid, hacts, hmid, hokm, hk⟩ :=
    run_reported hfd acts hok hreuse hrun hstay (fun _ => ⟨ahead, behind, hready, le_rfl⟩) hpolls
  obtain ⟨t, active, hr⟩ := hokm.poll revents
  have hc : c ∈ active := by
    rw [← hr.front] at hk
    obtain ⟨c', hc', hfdc⟩ := List.mem_map.mp hk
    exact hfd hfdc ▸ hc'
  exact ⟨pre, revents, post, mid, t, active, hacts, hmid, hr.poll, hc, hr.marked c hc⟩

/-- The first channel of `twoReady` is reported by the next `Poll` that does not fail. -/
theorem ready_reported_two : ∃ m s : Waiting (Fin 2), ∃ pre revents post mid t active,
    run step (new fun c : Fin 2 => 5 + (c : ℤ)) twoReady = some m ∧
      run step m [.failed, .poll fun _ => POLLIN] = some s ∧
      [Act.failed, .poll fun _ => POLLIN] = pre ++ .poll revents :: post ∧
      run step m pre = some mid ∧ mid.poll revents = some (t, active) ∧ 0 ∈ active := by
  have hfd : Function.Injective fun c : Fin 2 => 5 + (c : ℤ) := by decide
  obtain ⟨m, s, hm, hrun, hready, hevents⟩ : ∃ m s,
      run step (new fun c : Fin 2 => 5 + (c : ℤ)) twoReady = some m ∧
        run step m [.failed, .poll fun _ => POLLIN] = some s ∧ m.ready = [6] ++ 5 :: [] ∧ m.events = 16 :=
    ⟨_, _, rfl, rfl, rfl, rfl⟩
  have hstay : Along step (fun (s : Waiting (Fin 2)) _ => 5 + ((0 : Fin 2) : ℤ) ∈ s.ready) m
      [.failed, .poll fun _ => POLLIN] := by
    have hmem : 5 + ((0 : Fin 2) : ℤ) ∈ m.ready := by rw [hready]; decide
    refine ⟨hmem, fun s' hs' => ⟨?_, fun _ _ => trivial⟩⟩
    cases hs'
    exact hmem
  obtain ⟨pre, revents, post, mid, t, active, hacts, hmid, ht, hc, -⟩ :=
    ready_reported hfd hm hrun reusable_twoReady hstay hready (by rw [hevents]; decide)
  exact ⟨m, s, pre, revents, post, mid, t, active, hm, hrun, hacts, hmid, ht, hc⟩

end

end Waiting

end MuduoCpp11.Net.EPollPoller
