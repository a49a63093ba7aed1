import MuduoCpp11.Net.Poller.PollPoller

/-! # The channels that `poll(2)` reports

`poll(2)` writes the `revents` of every entry and returns the number of those it has set; an entry that
is switched off by a negative descriptor gets none. `FillActiveChannels` goes through the entries, looks
the descriptor of each one with events up in the map, and hands its channel over.

What makes the lookup right is the invariant of the poller: as many entries as channels, each channel's
index the position of its own entry (`index_invariant`). -/

namespace MuduoCpp11.Net

/-- An entry has events: `revents > 0`, with `revents` a `short`. -/
def PollFd.active (pfd : PollFd) : Bool := 0 < pfd.revents.toInt

namespace PollPoller

open MuduoCpp11.Lib.Run Poller

variable {ι : Type*}

/-- What `poll(2)` does to the entries. -/
structure Polled (pollfds polled : List PollFd) : Prop where
  fd : polled.map PollFd.fd = pollfds.map PollFd.fd
  events : polled.map PollFd.events = pollfds.map PollFd.events
  off : ∀ pfd ∈ polled, pfd.fd < 0 → pfd.revents = 0

variable [DecidableEq ι]

/-- The loop of `FillActiveChannels` over the rest of the entries; `none` if an assertion fails. -/
def fillFrom : ℕ → List PollFd → PollPoller ι → List ι → Option (PollPoller ι × List ι)
  | 0, _, s, activeChannels => some (s, activeChannels)
  | _, [], s, activeChannels => some (s, activeChannels)
  | numEvents + 1, pfd :: rest, s, activeChannels =>
    if pfd.active then
      (s.channels pfd.fd).bind fun c =>
        if (s.heap c).fd = pfd.fd then
          fillFrom numEvents rest (s.setChannel c (·.setRevents (pfd.revents.signExtend 32)))
            (activeChannels ++ [c])
        else none
    else fillFrom (numEvents + 1) rest s activeChannels

def fillActiveChannels (s : PollPoller ι) (numEvents : ℕ) (activeChannels : List ι) :
    Option (PollPoller ι × List ι) :=
  fillFrom numEvents s.own s activeChannels

/-! ### The loop -/

/-- The channels of the entries with events, in order. -/
def reported (s : PollPoller ι) (pollfds : List PollFd) : List ι :=
  (pollfds.filter PollFd.active).filterMap fun pfd => s.channels pfd.fd

/-- The map knows the descriptor of every entry with events. -/
def Known (s : PollPoller ι) (pollfds : List PollFd) : Prop :=
  ∀ pfd ∈ pollfds, pfd.active = true → ∃ c, s.channels pfd.fd = some c ∧ (s.heap c).fd = pfd.fd

/-- What the loop leaves: the poller but for `revents`, which are those of the entries. -/
structure Filled (s t : PollPoller ι) (pollfds : List PollFd) : Prop where
  channels : t.channels = s.channels
  fd : ∀ c, (t.heap c).fd = (s.heap c).fd
  other : ∀ c, c ∉ reported s pollfds → t.heap c = s.heap c
  revents : ∀ pfd ∈ pollfds, pfd.active = true → ∀ c, s.channels pfd.fd = some c →
    (t.heap c).revents = pfd.revents.signExtend 32

theorem fillFrom_skip {pfd : PollFd} (h : ¬ pfd.active = true) (n : ℕ) (rest : List PollFd)
    (s : PollPoller ι) (acc : List ι) : fillFrom n (pfd :: rest) s acc = fillFrom n rest s acc := by
  cases n with
  | zero => cases rest <;> rfl
  | succ n => rw [fillFrom, if_neg h]

theorem fillFrom_take {pfd : PollFd} (h : pfd.active = true) {s : PollPoller ι} {c : ι}
    (hc : s.channels pfd.fd = some c) (hfd : (s.heap c).fd = pfd.fd) (n : ℕ) (rest : List PollFd)
    (acc : List ι) : fillFrom (n + 1) (pfd :: rest) s acc =
      fillFrom n rest (s.setChannel c (·.setRevents (pfd.revents.signExtend 32))) (acc ++ [c]) := by
  rw [fillFrom, if_pos h, hc, Option.bind_some, if_pos hfd]

omit [DecidableEq ι] in
theorem mem_reported {s : PollPoller ι} {pollfds : List PollFd} {c : ι} :
    c ∈ reported s pollfds ↔ ∃ pfd ∈ pollfds, pfd.active = true ∧ s.channels pfd.fd = some c := by
  simp [reported, and_assoc]

/-- **The loop reports the channel of each entry with events** if it is told how many there are. -/
theorem fillFrom_spec : ∀ (pollfds : List PollFd) (s : PollPoller ι) (acc : List ι),
    Known s pollfds → (pollfds.map PollFd.fd).Nodup →
      ∃ t, fillFrom (pollfds.countP PollFd.active) pollfds s acc =
        some (t, acc ++ reported s pollfds) ∧ Filled s t pollfds
  | [], s, acc, _, _ => ⟨s, by simp [fillFrom, reported], rfl, fun _ => rfl, fun _ _ => rfl, by simp⟩
  | pfd :: rest, s, acc, hknown, hnodup => by
    obtain ⟨hnot, hnodup⟩ := List.nodup_cons.mp hnodup
    by_cases hactive : pfd.active = true
    · obtain ⟨c, hc, hfd⟩ := hknown pfd List.mem_cons_self hactive
      have hrep : reported s (pfd :: rest) = c :: reported s rest := by
        simp [reported, hactive, hc]
      -- the channel keeps its descriptor, so the map is as right for the rest as it was
      have hkeep : ∀ c', ((s.setChannel c (·.setRevents (pfd.revents.signExtend 32))).heap c').fd =
          (s.heap c').fd := setChannel_congr s c Channel.fd rfl
      obtain ⟨t, ht, hfilled⟩ := fillFrom_spec rest
        (s.setChannel c (·.setRevents (pfd.revents.signExtend 32))) (acc ++ [c])
        (fun q hq hqa => by
          obtain ⟨c', hc', hfd'⟩ := hknown q (List.mem_cons_of_mem _ hq) hqa
          exact ⟨c', hc', (hkeep c').trans hfd'⟩) hnodup
      have hcrest : c ∉ reported s rest := by
        intro hmem
        obtain ⟨q, hq, hqa, hqc⟩ := mem_reported.mp hmem
        obtain ⟨c', hc', hfd'⟩ := hknown q (List.mem_cons_of_mem _ hq) hqa
        rw [hqc, Option.some.injEq] at hc'
        exact hnot (List.mem_map.mpr ⟨q, hq, by rw [← hfd', ← hc', hfd]⟩)
      refine ⟨t, ?_, hfilled.channels, fun c' => (hfilled.fd c').trans (hkeep c'), fun c' hc' => ?_,
        fun q hq hqa c' hqc => ?_⟩
      · rw [List.countP_cons_of_pos hactive, fillFrom_take hactive hc hfd, ht, hrep,
          List.append_assoc]
        rfl
      · rw [hrep, List.mem_cons, not_or] at hc'
        rw [hfilled.other c' hc'.2, setChannel_of_ne _ _ hc'.1]
      · rcases List.mem_cons.mp hq with rfl | hq
        · rw [hc, Option.some.injEq] at hqc
          subst hqc
          rw [hfilled.other c hcrest, setChannel_self]
          rfl
        · exact hfilled.revents q hq hqa c' hqc
    · have hrep : reported s (pfd :: rest) = reported s rest := by simp [reported, hactive]
      obtain ⟨t, ht, hfilled⟩ := fillFrom_spec rest s acc
        (fun q hq => hknown q (List.mem_cons_of_mem _ hq)) hnodup
      refine ⟨t, ?_, hfilled.channels, hfilled.fd, fun c' hc' => ?_, fun q hq hqa c' hqc => ?_⟩
      · rw [List.countP_cons_of_neg hactive, fillFrom_skip hactive, ht, hrep]
      · exact hfilled.other c' (hrep ▸ hc')
      · rcases List.mem_cons.mp hq with rfl | hq
        · exact absurd hqa hactive
        · exact hfilled.revents q hq hqa c' hqc

/-! ### The invariant -/

variable {fd : ι → ℤ} {events : ι → BitVec 32} {parked : ι → Bool} {os : List ι} {s : PollPoller ι}
  {acts : List (Act ι)} {polled : List PollFd}

omit [DecidableEq ι] in
/-- The map has one entry for each channel of the array. -/
theorem Inv.ncard_channels (hfd : Function.Injective fd) (h : Inv fd events parked os s) :
    {k | s.channels k ≠ none}.ncard = s.own.length := by
  have hkeys : {k | s.channels k ≠ none} = ((os.map fd).toFinset : Set ℤ) := by
    ext k
    simp only [Set.mem_ofPred_eq, List.coe_toFinset, List.mem_map, ne_eq,
      Option.eq_none_iff_forall_ne_some, not_forall, not_not, h.channels]
  rw [hkeys, Set.ncard_coe_finset, List.toFinset_card_of_nodup (h.nodup.map hfd), h.pollfds,
    List.length_map, List.length_map]

omit [DecidableEq ι] in
/-- The descriptors of the entries tell the channels apart. -/
theorem Inv.nodup_fd (hfd : Function.Injective fd) (hnn : ∀ c, 0 ≤ fd c)
    (h : Inv fd events parked os s) : (s.own.map PollFd.fd).Nodup := by
  rw [h.pollfds, List.map_map]
  refine h.nodup.map fun c c' hcc => hfd ?_
  have hentries : (entry fd events parked c).fd = (entry fd events parked c').fd := hcc
  have hc := @fd_entry _ fd events parked hnn c
  rw [hentries, @fd_entry _ fd events parked hnn c'] at hc
  exact hc.symm

omit [DecidableEq ι] in
/-- An entry with events has the descriptor of its channel. -/
theorem Inv.known (hnn : ∀ c, 0 ≤ fd c) (h : Inv fd events parked os s)
    (hpolled : Polled s.own polled) : Known s polled := by
  intro pfd hpfd hactive
  have hmem : pfd.fd ∈ s.own.map PollFd.fd := hpolled.fd ▸ List.mem_map_of_mem hpfd
  rw [h.pollfds, List.map_map] at hmem
  obtain ⟨c, hc, hfdc⟩ := List.mem_map.mp hmem
  have hon : 0 ≤ pfd.fd := by
    by_contra hneg
    simp [PollFd.active, hpolled.off pfd hpfd (by omega)] at hactive
  have hpfd : pfd.fd = fd c := by
    have hentry := @fd_entry _ fd events parked hnn c
    rw [show (entry fd events parked c).fd = pfd.fd from hfdc, if_neg (by omega)] at hentry
    exact hentry
  rw [hpfd]
  exact ⟨c, h.hasChannel hc, h.heap_fd c⟩

omit [DecidableEq ι] in
/-- The reported channels are those the map has for the entries with events, with their descriptors. -/
theorem map_reported : ∀ {polled : List PollFd}, Known s polled →
    (reported s polled).map some = (polled.filter PollFd.active).map (fun pfd => s.channels pfd.fd) ∧
      (reported s polled).map (fun c => (s.heap c).fd) = (polled.filter PollFd.active).map PollFd.fd
  | [], _ => ⟨rfl, rfl⟩
  | pfd :: rest, hknown => by
    obtain ⟨hmap, hfds⟩ := map_reported fun q hq => hknown q (List.mem_cons_of_mem _ hq)
    by_cases hactive : pfd.active = true
    · obtain ⟨c, hc, hfdc⟩ := hknown pfd List.mem_cons_self hactive
      have hrep : reported s (pfd :: rest) = c :: reported s rest := by simp [reported, hactive, hc]
      rw [hrep, List.filter_cons_of_pos hactive]
      simp only [List.map_cons, hmap, hfds, hc, hfdc, and_self]
    · have hrep : reported s (pfd :: rest) = reported s rest := by simp [reported, hactive]
      rw [hrep, List.filter_cons_of_neg hactive]
      exact ⟨hmap, hfds⟩

omit [DecidableEq ι] in
/-- The channels are reported once each. -/
theorem nodup_reported (hknown : Known s polled) (hnodup : (polled.map PollFd.fd).Nodup) :
    (reported s polled).Nodup := by
  refine List.Nodup.of_map (fun c => (s.heap c).fd) ?_
  rw [(map_reported hknown).2]
  exact hnodup.sublist (List.filter_sublist.map _)

/-- **The index invariant of the poller.** For channels with distinct non-negative descriptors and
every sequence of updates and removals in which a channel is updated before it is removed and not used
again: the map and the array have the same size; the index of a channel in the map is the position of
an entry with its descriptor, switched off or not; and no two channels have the same index. So
`FillActiveChannels`, told what `poll(2)` has reported, comes through and appends the channels of the
entries with events, in their order, each once and with its `revents`. -/
theorem index_invariant (hfd : Function.Injective fd) (hnn : ∀ c, 0 ≤ fd c) (hlife : OneLife acts) :
    ∃ s, run step (new fd) acts = some s ∧ {k | s.channels k ≠ none}.ncard = s.own.length ∧
      (∀ k c, s.channels k = some c → (s.heap c).fd = k ∧ 0 ≤ (s.heap c).index ∧
        (s.heap c).index < s.own.length ∧
        ∃ pfd, pollfdAt s (s.heap c).index = some pfd ∧ (pfd.fd = k ∨ pfd.fd = -k - 1)) ∧
      (∀ k c l d, s.channels k = some c → s.channels l = some d →
        (s.heap c).index = (s.heap d).index → c = d) ∧
      ∀ polled acc, Polled s.own polled → ∃ t active,
        fillActiveChannels { s with own := polled } (polled.countP PollFd.active) acc =
          some (t, acc ++ active) ∧
        active.map some = (polled.filter PollFd.active).map (fun pfd => s.channels pfd.fd) ∧
        active.Nodup ∧ ∀ pfd ∈ polled, pfd.active = true → ∀ c, s.channels pfd.fd = some c →
          (t.heap c).revents = pfd.revents.signExtend 32 := by
  obtain ⟨os, s, hs, ⟨h, -, -⟩⟩ := run_after hfd hnn hlife
  refine ⟨s, hs, h.ncard_channels hfd, fun k c hc => ?_, fun k c l d hc hd hidx => ?_,
    fun polled acc hpolled => ?_⟩
  · obtain ⟨hmem, rfl⟩ := (h.channels k c).mp hc
    obtain ⟨i, hi, hidx⟩ := h.mem_of_index hmem
    have hlt : i < os.length := (List.getElem?_eq_some_iff.mp hi).1
    rw [hidx]
    refine ⟨h.heap_fd c, by omega, ?_, _, h.pollfdAt rfl hi, ?_⟩
    · rw [h.pollfds, List.length_map]
      exact_mod_cast hlt
    · unfold entry
      split_ifs
      · exact Or.inr rfl
      · exact Or.inl rfl
  · obtain ⟨i, hi, hic⟩ := h.mem_of_index ((h.channels k c).mp hc).1
    obtain ⟨j, hj, hjd⟩ := h.mem_of_index ((h.channels l d).mp hd).1
    have hij : i = j := by
      rw [hic, hjd] at hidx
      exact_mod_cast hidx
    rw [hij, hj, Option.some.injEq] at hi
    exact hi.symm
  · have hnodup : (polled.map PollFd.fd).Nodup := hpolled.fd ▸ h.nodup_fd hfd hnn
    have hknown := h.known hnn hpolled
    obtain ⟨t, ht, hfilled⟩ := fillFrom_spec polled { s with own := polled } acc hknown hnodup
    exact ⟨t, reported s polled, ht, (map_reported hknown).1, nodup_reported hknown hnodup,
      hfilled.revents⟩

/-- Three channels; the first one is removed and the last entry takes its place. `poll(2)` then reports
both entries that are left. -/
theorem index_invariant_of_three : ∃ s t active,
    run step (new fun c : Fin 3 => 5 + (c : ℤ))
      [.set 0 .enableReading, .set 1 .enableReading, .set 2 .enableWriting, .set 0 .disableAll,
        .remove 0] = some s ∧
    s.own = [⟨7, 4, 0⟩, ⟨6, 3, 0⟩] ∧
    fillActiveChannels { s with own := [⟨7, 4, 4⟩, ⟨6, 3, 1⟩] } 2 [] = some (t, [] ++ active) ∧
    active.map some = [some 2, some 1] := by
  have hlife : OneLife (ι := Fin 3) [.set 0 .enableReading, .set 1 .enableReading,
      .set 2 .enableWriting, .set 0 .disableAll, .remove 0] := by
    unfold OneLife
    decide
  have hfd : Function.Injective fun c : Fin 3 => 5 + (c : ℤ) := by decide
  obtain ⟨s, hs, -, -, -, hfill⟩ := index_invariant hfd (by decide) hlife
  have hown : s.own = [⟨7, 4, 0⟩, ⟨6, 3, 0⟩] ∧ s.channels 7 = some 2 ∧ s.channels 6 = some 1 := by
    have hrun : (run step (new fun c : Fin 3 => 5 + (c : ℤ)) [.set 0 .enableReading,
        .set 1 .enableReading, .set 2 .enableWriting, .set 0 .disableAll, .remove 0]).map
        (fun s => (s.own, s.channels 7, s.channels 6)) =
        some ([⟨7, 4, 0⟩, ⟨6, 3, 0⟩], some 2, some 1) := by decide +kernel
    rw [hs, Option.map_some, Option.some.injEq, Prod.mk.injEq, Prod.mk.injEq] at hrun
    exact hrun
  obtain ⟨t, active, ht, hactive, -, -⟩ := hfill [⟨7, 4, 4⟩, ⟨6, 3, 1⟩] []
    (by rw [hown.1]; exact ⟨rfl, rfl, by decide⟩)
  refine ⟨s, t, active, hs, hown.1, ht, ?_⟩
  rw [hactive, ← hown.2.1, ← hown.2.2]
  rfl

end PollPoller

end MuduoCpp11.Net
