import MuduoCpp11.Net.Poller.EPollPoller

/-! # What the kernel is told

Every operation on a channel issues at most one `epoll_ctl`. Which one is a matter of the mark and the
mask of the channel (`ctl`), and its effect on the interest list is all that happens to the list
(`own_step`). With the marks as the invariant has them, none of the calls fails: a descriptor is added
when it is absent, modified and deleted when it is present (`bookkeeping`). -/

namespace MuduoCpp11.Net.EPollPoller

open MuduoCpp11.Lib.Run Poller

variable {ι : Type*}

/-- The `epoll_ctl` of `UpdateChannel` on a channel with the mark and the mask of `d`. -/
def ctlUpdate (d : Channel) : EpollCtl :=
  if d.index = kNew ∨ d.index = kDeleted then .add else if d.isNoneEvent then .del else .mod

/-- The call of `epoll_ctl` an operation issues: what it does, with which descriptor and event. -/
def ctl (s : EPollPoller ι) : Act ι → Option (EpollCtl × ℤ × EpollEvent ι)
  | .set c op =>
    let d := op.apply (s.heap c)
    some (ctlUpdate d, d.fd, ⟨d.events, c⟩)
  | .remove c =>
    let d := s.heap c
    if d.index = kAdded then some (.del, d.fd, ⟨d.events, c⟩) else none

/-- The interest list after a call: a failed one leaves it as it is. -/
def afterCtl (list : ℤ → Option (EpollEvent ι)) :
    Option (EpollCtl × ℤ × EpollEvent ι) → ℤ → Option (EpollEvent ι)
  | none => list
  | some (op, fd, event) => (epollCtl list op fd event).getD list

theorem own_update {s s' : EPollPoller ι} {operation : EpollCtl} {c : ι}
    (h : update s operation c = some s') :
    s'.own = (epollCtl s.own operation (s.heap c).fd ⟨(s.heap c).events, c⟩).getD s.own ∧
      s'.heap = s.heap := by
  unfold update at h
  dsimp only at h
  split at h
  · rename_i list hlist
    cases h
    simp [hlist]
  · rename_i hlist
    split_ifs at h
    cases h
    simp [hlist]

variable [DecidableEq ι]

/-- `UpdateChannel` does to the interest list what its `epoll_ctl` does. -/
theorem own_updateChannel {s s' : EPollPoller ι} {c : ι} (hs : updateChannel s c = some s') :
    s'.own = (epollCtl s.own (ctlUpdate (s.heap c)) (s.heap c).fd ⟨(s.heap c).events, c⟩).getD
      s.own := by
  unfold updateChannel at hs
  dsimp only at hs
  by_cases hidx : (s.heap c).index = kNew ∨ (s.heap c).index = kDeleted
  · rw [if_pos hidx] at hs
    rw [ctlUpdate, if_pos hidx]
    by_cases hnew : (s.heap c).index = kNew
    · rw [if_pos hnew] at hs
      simpa [setChannel, Channel.setIndex] using (own_update hs).1
    · rw [if_neg hnew] at hs
      simpa [setChannel, Channel.setIndex] using (own_update hs).1
  · rw [if_neg hidx] at hs
    rw [ctlUpdate, if_neg hidx]
    by_cases hnone : (s.heap c).isNoneEvent
    · rw [if_pos hnone] at hs
      obtain ⟨t, ht, rfl⟩ := Option.map_eq_some_iff.mp hs
      rw [if_pos hnone]
      simpa using (own_update ht).1
    · rw [if_neg hnone] at hs
      rw [if_neg hnone]
      simpa using (own_update hs).1

theorem own_removeChannel {s s' : EPollPoller ι} {c : ι} (hs : removeChannel s c = some s') :
    s'.own = if (s.heap c).index = kAdded then
      (epollCtl s.own .del (s.heap c).fd ⟨(s.heap c).events, c⟩).getD s.own else s.own := by
  unfold removeChannel at hs
  dsimp only at hs
  obtain ⟨t, ht, rfl⟩ := Option.map_eq_some_iff.mp hs
  by_cases hadded : (s.heap c).index = kAdded
  · rw [if_pos hadded] at ht
    rw [if_pos hadded]
    simpa using (own_update ht).1
  · rw [if_neg hadded] at ht
    rw [if_neg hadded]
    cases ht
    simp

/-- **An operation does to the interest list what its `epoll_ctl` does**, and nothing else. -/
theorem own_step {s s' : EPollPoller ι} {a : Act ι} (hs : step s a = some s') :
    s'.own = afterCtl s.own (ctl s a) := by
  cases a with
  | set c op =>
    have h := own_updateChannel (s := s.setChannel c op.apply) hs
    simpa [ctl, afterCtl] using h
  | remove c =>
    have h := own_removeChannel hs
    simp only [setChannel_self, setChannel_own, assert_heap, assert_own] at h
    rw [h]
    by_cases hadded : (s.heap c).index = kAdded
    · simp [ctl, afterCtl, hadded, Channel.remove]
    · simp [ctl, afterCtl, hadded, Channel.remove]

/-! ### No call fails -/

/-- A call is legal if it adds an absent descriptor, or modifies or deletes a present one. -/
def LegalCtl (list : ℤ → Option (EpollEvent ι)) : EpollCtl × ℤ × EpollEvent ι → Prop
  | (.add, fd, _) => list fd = none
  | (.mod, fd, _) => (list fd).isSome
  | (.del, fd, _) => (list fd).isSome

variable {fd : ι → ℤ} {acts : List (Act ι)} {s : EPollPoller ι}

omit [DecidableEq ι] in
/-- The mark of a channel tells what is legal. -/
theorem Inv.legalCtl (hfd : Function.Injective fd) (h : Inv fd s) (a : Act ι) :
    ∀ call ∈ ctl s a, LegalCtl s.own call := by
  intro call hcall
  cases a with
  | set c op =>
    have hlist := h.list_fd hfd c
    simp only [ctl, Option.mem_def, Option.some.injEq, fd_apply, h.heap_fd] at hcall
    subst hcall
    obtain hidx | hidx | hidx := h.index c
    · have hctl : ctlUpdate (op.apply (s.heap c)) = .add := by simp [ctlUpdate, hidx]
      rw [hctl]
      rwa [hidx, if_neg (by decide)] at hlist
    · have hsome : (s.own (fd c)).isSome := by
        rw [hlist, if_pos hidx]
        rfl
      have hne : ¬ (kAdded = kNew ∨ kAdded = kDeleted) := by decide
      simp only [ctlUpdate, index_apply, hidx, if_neg hne]
      split_ifs
      · exact hsome
      · exact hsome
    · have hctl : ctlUpdate (op.apply (s.heap c)) = .add := by simp [ctlUpdate, hidx]
      rw [hctl]
      rwa [hidx, if_neg (by decide)] at hlist
  | remove c =>
    have hlist := h.list_fd hfd c
    simp only [ctl, h.heap_fd] at hcall
    split_ifs at hcall with hidx
    · rw [Option.mem_def, Option.some.injEq] at hcall
      subst hcall
      show (s.own (fd c)).isSome
      rw [hlist, if_pos hidx]
      rfl
    · cases hcall

/-- **The books of the poller match the kernel's.** For channels with distinct descriptors and every
sequence of operations in which a channel is removed in use and without events: the operations come
through and no assertion fails; the map has the channels marked `kAdded` or `kDeleted`, the interest
list has those marked `kAdded`, each with its events and its pointer, and a channel with events is
marked `kAdded`; and every `epoll_ctl` on the way was legal. -/
theorem bookkeeping (hfd : Function.Injective fd) (hreuse : Reusable acts) :
    ∃ s, run step (new fd) acts = some s ∧ s.failed = [] ∧
      (∀ k c, s.channels k = some c ↔
        fd c = k ∧ ((s.heap c).index = kAdded ∨ (s.heap c).index = kDeleted)) ∧
      (∀ k event, s.own k = some event ↔ fd event.ptr = k ∧ (s.heap event.ptr).index = kAdded ∧
        event.events = (s.heap event.ptr).events) ∧
      (∀ c, (s.heap c).events ≠ kNoneEvent → (s.heap c).index = kAdded) ∧
      ∀ before a after m, acts = before ++ a :: after → run step (new fd) before = some m →
        ∀ call ∈ ctl m a, LegalCtl m.own call := by
  obtain ⟨s, hs, h⟩ := run_after hfd hreuse
  refine ⟨s, hs, h.failed, fun k c => ?_, h.inv.list, h.inv.added, ?_⟩
  · rw [h.inv.channels]
    refine and_congr_right fun _ => ⟨(h.inv.index c).resolve_left, ?_⟩
    rintro (hidx | hidx) <;> rw [hidx] <;> decide
  · rintro before a after m rfl hm
    obtain ⟨m', hm', h'⟩ := run_after hfd hreuse.init
    rw [hm, Option.some.injEq] at hm'
    exact (hm' ▸ h'.inv).legalCtl hfd a

/-- Two channels; one is removed and used again. -/
theorem bookkeeping_of_reused : ∃ s,
    run step (new fun c : Fin 2 => 5 + (c : ℤ))
      [.set 0 .enableReading, .set 1 .enableWriting, .set 0 .disableAll, .remove 0,
        .set 1 .disableAll, .set 0 .enableWriting, .set 1 .enableReading] = some s ∧
    s.failed = [] ∧ (s.heap 0).index = kAdded ∧ s.own 5 = some ⟨kWriteEvent, 0⟩ ∧
    s.channels 5 = some 0 := by
  have hreuse : Reusable (ι := Fin 2) [.set 0 .enableReading, .set 1 .enableWriting,
      .set 0 .disableAll, .remove 0, .set 1 .disableAll, .set 0 .enableWriting,
      .set 1 .enableReading] := by
    unfold Reusable
    decide
  have hfd : Function.Injective fun c : Fin 2 => 5 + (c : ℤ) := by decide
  obtain ⟨s, hs, hfailed, hchannels, hlist, hadded, -⟩ := bookkeeping hfd hreuse
  have hev : (s.heap 0).events = kWriteEvent := by
    have hrun : (run step (new fun c : Fin 2 => 5 + (c : ℤ)) [.set 0 .enableReading,
        .set 1 .enableWriting, .set 0 .disableAll, .remove 0, .set 1 .disableAll,
        .set 0 .enableWriting, .set 1 .enableReading]).map (fun s => (s.heap 0).events) =
        some kWriteEvent := by decide +kernel
    rw [hs, Option.map_some, Option.some.injEq] at hrun
    exact hrun
  have hidx := hadded 0 (by rw [hev]; decide)
  refine ⟨s, hs, hfailed, hidx, (hlist 5 ⟨_, 0⟩).mpr ⟨rfl, hidx, hev.symm⟩, ?_⟩
  exact (hchannels 5 0).mpr ⟨rfl, Or.inl hidx⟩

end MuduoCpp11.Net.EPollPoller
