import MuduoCpp11.Net.Poller.EPollPoller
import MuduoCpp11.Net.Poller.PollPoller

/-! # The two pollers on one use

Both pollers are told of the same operations. The one on `epoll(4)` has registered the channels with
events, always. The one on `poll(2)` has an entry for each of them, but an entry that was switched off
is not switched on again, and its channel is lost to `poll(2)` for as long as it lives: the pollers
agree if and only if no channel with events has been without events behind its first operation
(`agree_iff`). -/

namespace MuduoCpp11.Net.Poller

open MuduoCpp11.Lib.Run

variable {ι π : Type*} [DecidableEq ι] {fd : ι → ℤ} {acts : List (Act ι)}

/-- The channel has events again: it is not removed, and some operation behind its first one has left
it without events. -/
def Reenabled (acts : List (Act ι)) (c : ι) : Prop :=
  .remove c ∉ acts ∧ interest (history acts c) ≠ kNoneEvent ∧ Parked (history acts c)

/-- Both pollers watch what the channels ask for. -/
structure Agree (acts : List (Act ι)) (p : PollPoller ι) (e : EPollPoller ι) : Prop where
  same : PollPoller.watched p = EPollPoller.registered e
  poll : PollPoller.watched p = wanted acts p
  epoll : EPollPoller.registered e = wanted acts e

/-- What is wanted, by the history of the channels. -/
theorem mem_wanted {s : Poller ι π} (hfd : ∀ c, (s.heap c).fd = fd c)
    (hev : ∀ c, (s.heap c).events = interest (history acts c)) (x : ℤ × BitVec 32) :
    x ∈ wanted acts s ↔ ∃ c, .remove c ∉ acts ∧ interest (history acts c) ≠ kNoneEvent ∧
      x = (fd c, interest (history acts c)) := by
  simp [wanted, hfd, hev]

/-- **The poller on `epoll(4)` watches what is wanted.** -/
theorem registered_eq_wanted {e : EPollPoller ι} (hlegal : Legal acts) (h : EPollPoller.Inv fd e)
    (hev : ∀ c, (e.heap c).events = interest (history acts c)) :
    EPollPoller.registered e = wanted acts e := by
  ext x
  rw [h.mem_registered, mem_wanted h.heap_fd hev]
  refine exists_congr fun c => ?_
  rw [hev]
  constructor
  · rintro ⟨hne, hx⟩
    exact ⟨fun hmem => hne (hlegal.interest_of_mem hmem), hne, hx⟩
  · rintro ⟨-, hne, hx⟩
    exact ⟨hne, hx⟩

/-- **The poller on `poll(2)` watches what is wanted** but for the channels that have events again. -/
theorem watched_eq_wanted_iff (hfd : Function.Injective fd) (hnn : ∀ c, 0 ≤ fd c) {os : List ι}
    {p : PollPoller ι} (h : PollPoller.After fd acts os p) :
    PollPoller.watched p = wanted acts p ↔ ∀ c, ¬ Reenabled acts c := by
  have hwanted := mem_wanted h.inv.heap_fd h.inv.heap_events
  constructor
  · rintro heq c ⟨hrem, hne, hparked⟩
    have hmem := (hwanted (fd c, _)).mpr ⟨c, hrem, hne, rfl⟩
    rw [← heq, h.mem_watched hnn] at hmem
    obtain ⟨c', -, hoff, -, hx⟩ := hmem
    have hcc : c = c' := hfd (Prod.mk.injEq .. ▸ hx).1
    exact hoff (hcc ▸ hparked)
  · intro hnone
    ext x
    rw [h.mem_watched hnn, hwanted]
    refine exists_congr fun c => and_congr_right fun hrem => ?_
    constructor
    · rintro ⟨-, hne, hx⟩
      exact ⟨hne, hx⟩
    · rintro ⟨hne, hx⟩
      exact ⟨fun hparked => hnone c ⟨hrem, hne, hparked⟩, hne, hx⟩

/-- **When the pollers agree.** For channels with distinct non-negative descriptors and every legal
sequence of operations on them, both pollers come through, and they watch the same channels, those that
ask for it, if and only if no channel has events again. -/
theorem agree_iff (hfd : Function.Injective fd) (hnn : ∀ c, 0 ≤ fd c) (hlegal : Legal acts) :
    ∃ p e, run PollPoller.step (PollPoller.new fd) acts = some p ∧
      run EPollPoller.step (EPollPoller.new fd) acts = some e ∧
      (Agree acts p e ↔ ∀ c, ¬ Reenabled acts c) := by
  obtain ⟨os, p, hp, hafter⟩ := PollPoller.run_after hfd hnn hlegal.oneLife
  obtain ⟨e, he, hinv, hev, -, -⟩ := EPollPoller.run_after hfd hlegal.reusable
  have hepoll := registered_eq_wanted hlegal hinv hev
  have hsame : wanted acts p = wanted acts e := by
    ext x
    rw [mem_wanted hafter.inv.heap_fd hafter.inv.heap_events, mem_wanted hinv.heap_fd hev]
  refine ⟨p, e, hp, he, ?_⟩
  rw [← watched_eq_wanted_iff hfd hnn hafter]
  constructor
  · exact Agree.poll
  · exact fun hpoll => ⟨hpoll.trans (hsame.trans hepoll.symm), hpoll, hepoll⟩

/-- Two channels, one of them removed, and its entry swapped with the last one. -/
theorem agree_two : ∃ p e,
    run PollPoller.step (PollPoller.new fun c : Fin 2 => 5 + (c : ℤ))
      [.set 0 .enableReading, .set 1 .enableReading, .set 0 .enableWriting, .set 0 .disableAll,
        .remove 0, .set 1 .enableWriting] = some p ∧
    run EPollPoller.step (EPollPoller.new fun c : Fin 2 => 5 + (c : ℤ))
      [.set 0 .enableReading, .set 1 .enableReading, .set 0 .enableWriting, .set 0 .disableAll,
        .remove 0, .set 1 .enableWriting] = some e ∧
    Agree [.set 0 .enableReading, .set 1 .enableReading, .set 0 .enableWriting, .set 0 .disableAll,
      .remove 0, .set 1 .enableWriting] p e := by
  have hlegal : Legal (ι := Fin 2) [.set 0 .enableReading, .set 1 .enableReading,
      .set 0 .enableWriting, .set 0 .disableAll, .remove 0, .set 1 .enableWriting] := by
    unfold Legal
    decide
  have hfd : Function.Injective fun c : Fin 2 => 5 + (c : ℤ) := by decide
  obtain ⟨p, e, hp, he, hiff⟩ := agree_iff hfd (by decide) hlegal
  exact ⟨p, e, hp, he, hiff.mpr (by unfold Reenabled; decide)⟩

/-- A channel whose reading is enabled, disabled and enabled again: `epoll` watches it, its entry for
`poll(2)` stays switched off. -/
theorem not_agree_reenabled : ∃ p e,
    Legal [Act.set () .enableReading, .set () .disableAll, .set () .enableReading] ∧
    run PollPoller.step (PollPoller.new fun _ : Unit => 5)
      [.set () .enableReading, .set () .disableAll, .set () .enableReading] = some p ∧
    run EPollPoller.step (EPollPoller.new fun _ : Unit => 5)
      [.set () .enableReading, .set () .disableAll, .set () .enableReading] = some e ∧
    PollPoller.watched p = ∅ ∧ (5, kReadEvent) ∈ EPollPoller.registered e ∧
    PollPoller.watched p ≠ EPollPoller.registered e ∧ (p.heap ()).events = kReadEvent ∧
    p.failed = [] := by
  have hp : (run PollPoller.step (PollPoller.new fun _ : Unit => 5)
      [.set () .enableReading, .set () .disableAll, .set () .enableReading]).map
      (fun p => (p.own, (p.heap ()).events, p.failed)) = some ([⟨-6, 3, 0⟩], kReadEvent, []) := by
    decide +kernel
  have he : (run EPollPoller.step (EPollPoller.new fun _ : Unit => 5)
      [.set () .enableReading, .set () .disableAll, .set () .enableReading]).map
      (fun e => e.own 5) = some (some ⟨kReadEvent, ()⟩) := by decide +kernel
  obtain ⟨p, hrunp, hown⟩ := Option.map_eq_some_iff.mp hp
  obtain ⟨e, hrune, hreg⟩ := Option.map_eq_some_iff.mp he
  simp only [Prod.mk.injEq] at hown
  have hnothing : PollPoller.watched p = ∅ := by simp [PollPoller.watched, hown.1]
  have hmem : (5, kReadEvent) ∈ EPollPoller.registered e := ⟨_, hreg, rfl, by decide⟩
  refine ⟨p, e, by unfold Legal; decide, hrunp, hrune, hnothing, hmem, ?_, hown.2⟩
  intro heq
  rw [← heq, hnothing] at hmem
  exact hmem

end MuduoCpp11.Net.Poller
