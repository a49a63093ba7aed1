import MuduoCpp11.Net.TcpClient

/-! # Stopping a client that reconnects

`Stop` on a user thread stores `false` to `connect_` of the client and then to `connect_` of the
connector, and queues `StopInLoop`. On the loop thread `RemoveConnection` tests the flag of the client,
and `Restart` stores `true` to the flag of the connector. If the test comes before the first of these
stores and the store of `Restart` behind the second one, `connect_` of the connector stays set, and the
`Retry` in `StopInLoop` starts a timer. In every other order the flag stays down until the next
`Connect`, and what `StopInLoop` leaves behind does nothing. -/

namespace MuduoCpp11.Net

open MuduoCpp11.Lib

namespace Connector

variable {F : Type*} {s s' : Connector F}

/-- An attempt is started, or a connection is handed over. -/
def Event.isNew : Event → Bool
  | .connect _ | .newConnection _ => true
  | _ => false

def Event.isStopInLoop : Event → Bool
  | .stopInLoop _ => true
  | _ => false

/-- The calls that set `connect_`. -/
def Act.raises : Act F → Bool
  | .start | .restart | .startCall => true
  | _ => false

/-- `connect_` is down, and no call ahead sets it. -/
structure Down (s : Connector F) : Prop where
  connect : s.connect = false
  start : .start ∉ s.todo
  restart : .restart ∉ s.todo

theorem Down.step (h : Down s) {a : Act F} (hs : s.step a = some s') (ha : a.raises = false) :
    Down s' where
  connect := by
    by_contra hconnect
    rcases step_connect hs (by simpa using hconnect) with hc | rfl | hmem | hmem
    · rw [h.connect] at hc
      cases hc
    · cases ha
    · exact h.start hmem
    · exact h.restart hmem
  start := by
    intro hmem
    rcases step_todo hs hmem with hmem | rfl
    · exact h.start hmem
    · cases ha
  restart := by
    intro hmem
    rcases step_todo hs hmem with hmem | rfl
    · exact h.restart hmem
    · cases ha

/-- The log is `base` and entries of which none is new behind a `StopInLoop`, and with one of these
nothing ahead of the loop thread will write one. -/
structure Quenched (base : List Event) (s : Connector F) : Prop where
  down : Down s
  log : ∃ entries, s.log = base ++ entries ∧
    entries.Pairwise (fun e e' => e.isStopInLoop → e'.isNew = false) ∧
    ((∃ e ∈ entries, e.isStopInLoop) →
      .connect ∉ s.todo ∧ ∀ sockfd, .newConnectionCallback sockfd ∉ s.todo)

theorem Caused.of_isStopInLoop {a : Act F} {e : Event} (h : Caused s a e) (he : e.isStopInLoop) :
    a = .functor := by
  cases h <;> simp_all [Event.isStopInLoop]

/-- A new entry has its statement ahead. -/
theorem Caused.of_isNew {a : Act F} {e : Event} (h : Caused s a e) (he : e.isNew) :
    a ≠ .functor ∧ (.connect ∈ s.todo ∨ ∃ sockfd, .newConnectionCallback sockfd ∈ s.todo) := by
  cases h with
  | connect htodo => exact ⟨nofun, Or.inl (by simp [htodo])⟩
  | newConnection htodo => exact ⟨nofun, Or.inr ⟨_, by rw [htodo]; exact List.mem_cons_self⟩⟩
  | _ => cases he

theorem Quenched.step {base : List Event} (h : Quenched base s) {a : Act F}
    (hs : s.step a = some s') (ha : a.raises = false) : Quenched base s' := by
  obtain ⟨entries, hlog, hpair, hquiet⟩ := h.log
  obtain ⟨new, hnew, hcaused⟩ := step_log hs
  refine ⟨h.down.step hs ha, entries ++ new, ?_, ?_, ?_⟩
  · rw [hnew, hlog, List.append_assoc]
  · refine List.pairwise_append.mpr ⟨hpair, ?_, ?_⟩
    · -- a step does not write both
      refine List.pairwise_of_forall_mem_list fun e he e' he' hstop => ?_
      by_contra hisNew
      obtain ⟨hne, -⟩ := (hcaused e' he').of_isNew (by simpa using hisNew)
      exact hne ((hcaused e he).of_isStopInLoop hstop)
    · intro e he e' he' hstop
      by_contra hisNew
      obtain ⟨-, hmem⟩ := (hcaused e' he').of_isNew (by simpa using hisNew)
      obtain ⟨hconnect, hcallback⟩ := hquiet ⟨e, he, hstop⟩
      exact hmem.elim hconnect fun ⟨sockfd, hmem⟩ => hcallback sockfd hmem
  · rintro ⟨e, he, hstop⟩
    have htodo : .connect ∉ s.todo ∧ ∀ sockfd, .newConnectionCallback sockfd ∉ s.todo := by
      rcases List.mem_append.mp he with he | he
      · exact hquiet ⟨e, he, hstop⟩
      · have hf := (hcaused e he).of_isStopInLoop hstop
        subst hf
        simp [(step_functor hs).1]
    refine ⟨fun hmem => ?_, fun sockfd hmem => ?_⟩
    · rcases step_todo hs hmem with hmem | hc
      · exact htodo.1 hmem
      · exact Bool.noConfusion (h.down.connect.symm.trans hc)
    · rcases step_todo hs hmem with hmem | hc
      · exact htodo.2 sockfd hmem
      · exact Bool.noConfusion (h.down.connect.symm.trans hc)

theorem Quenched.run {base : List Event} (h : Quenched base s) {acts : List (Act F)}
    (hrun : s.run acts = some s') (hacts : ∀ a ∈ acts, a.raises = false) : Quenched base s' := by
  have hok : Run.Along Connector.step (fun _ a => a.raises = false) s acts :=
    Run.along_of_forall fun _ => hacts
  exact Run.run_inv_along (fun _ _ _ ha hs h => Quenched.step h hs ha) hok hrun h

theorem run_start {acts : List (Act F)} (hrun : s.run acts = some s') (hstart : .start ∉ s.todo)
    (hacts : .start ∉ acts) : .start ∉ s'.todo := by
  have hok : Run.Along Connector.step (fun _ a => a ≠ .start) s acts :=
    Run.along_of_forall fun _ a ha => ne_of_mem_of_not_mem ha hacts
  refine Run.run_inv_along (P := fun s => .start ∉ s.todo) ?_ hok hrun hstart
  intro s a s' ha hs h hmem
  exact (step_todo hs hmem).elim h ha

end Connector

namespace TcpClient

variable {s s' : TcpClient}

def Act.isConnect : Act → Bool
  | .connect _ => true
  | _ => false

/-- `connect_` of the client is down, and no `Connect` is between its stores. -/
structure Stopping (s : TcpClient) : Prop where
  connect : s.connect = false
  calls : .start ∉ s.calls
  todo : .start ∉ s.connector.todo

/-- Other actions than `Connect` do not call `Start`, and `Restart` only with `connect_` set. -/
theorem acts_raises (hconnect : s.connect = false) (hcalls : .start ∉ s.calls) {a : Act}
    (hs : s.step a = some s') (ha : a.isConnect = false) : ∀ a' ∈ s.acts a, a'.raises = false := by
  cases a with
  | connect b => cases ha
  | stop b =>
    cases b with
    | false => simp [acts]
    | true => simp [acts, Connector.Act.raises]
  | disconnect => simp [acts]
  | call i =>
    cases hcall : s.calls[i]? with
    | none => simp [acts, hcall]
    | some call =>
      cases call with
      | start => exact absurd (List.mem_of_getElem? hcall) hcalls
      | stop => simp [acts, hcall, Call.act, Connector.Act.raises]
  | close sockfd => simp [acts, removeActs, hconnect, Connector.Act.raises]
  | connector a =>
    simp only [step] at hs
    split_ifs at hs with hloop
    cases a <;> simp_all [acts, ofLoop, Connector.Act.raises]

theorem step_stopping (hconnect : s.connect = false) (hcalls : .start ∉ s.calls) {a : Act}
    (hs : s.step a = some s') (ha : a.isConnect = false) :
    s'.connect = false ∧ .start ∉ s'.calls := by
  obtain ⟨-, hc, hcalls'⟩ := step_flags hs
  rw [hc, hcalls']
  cases a with
  | connect b => cases ha
  | stop b => cases b <;> simpa [connectAfter, callsAfter] using hcalls
  | disconnect => exact ⟨rfl, hcalls⟩
  | call i => exact ⟨hconnect, fun hmem => hcalls (List.mem_of_mem_eraseIdx hmem)⟩
  | close | connector => exact ⟨hconnect, hcalls⟩

theorem Stopping.step (h : Stopping s) {a : Act} (hs : s.step a = some s')
    (ha : a.isConnect = false) : Stopping s' := by
  obtain ⟨hconnect, hcalls⟩ := step_stopping h.connect h.calls hs ha
  refine ⟨hconnect, hcalls, Connector.run_start (step_connector hs) h.todo fun hmem => ?_⟩
  cases acts_raises h.connect h.calls hs ha _ hmem

/-- Both flags are down. -/
structure Stopped (base : List Connector.Event) (s : TcpClient) : Prop where
  connect : s.connect = false
  calls : .start ∉ s.calls
  connector : s.connector.Quenched base

theorem Stopped.step {base : List Connector.Event} (h : Stopped base s) {a : Act}
    (hs : s.step a = some s') (ha : a.isConnect = false) : Stopped base s' := by
  obtain ⟨hconnect, hcalls⟩ := step_stopping h.connect h.calls hs ha
  refine ⟨hconnect, hcalls, h.connector.run (step_connector hs) ?_⟩
  exact acts_raises h.connect h.calls hs ha

/-- The second store of `Stop`. -/
theorem Stopping.call (h : Stopping s) (hrestart : .restart ∉ s.connector.todo) {i : ℕ}
    (hcall : s.calls[i]? = some .stop) (hs : s.step (.call i) = some s') :
    Stopped s.connector.log s' := by
  obtain ⟨hconnect, hcalls⟩ := step_stopping h.connect h.calls hs rfl
  refine ⟨hconnect, hcalls, ?_⟩
  have hrun := step_connector hs
  simp only [acts, hcall, Option.map_some, Option.toList_some, Call.act, Connector.run, Run.run_cons,
    Run.run_nil, Connector.step, Option.bind_some, Option.some.injEq] at hrun
  rw [← hrun]
  exact ⟨⟨rfl, h.todo, hrestart⟩, [], by simp, by simp, by simp⟩

/-- **Stop is not lost** unless the loop thread has tested `connect_` of the client before, and is about
to set that of the connector: from a state in which no `Connect` is under way, `Stop` is called on a user
thread and goes on to its second store in a state in which no `Restart` is ahead of the loop thread. Then
until the next `Connect` there is no attempt and no new connection behind a `StopInLoop`. -/
theorem stop_kept {mid post : List Act} {s₀ s₁ s : TcpClient} {i : ℕ}
    (hcalls : .start ∉ s₀.calls) (htodo : .start ∉ s₀.connector.todo)
    (hmid : run s₀ (.stop false :: mid) = some s₁) (hmid' : ∀ a ∈ mid, a.isConnect = false)
    (hcall : s₁.calls[i]? = some .stop) (hrestart : .restart ∉ s₁.connector.todo)
    (hpost : run s₁ (.call i :: post) = some s) (hpost' : ∀ a ∈ post, a.isConnect = false)
    {early late : List Connector.Event} {call : ℕ}
    (hlog : s.connector.log = s₁.connector.log ++ (early ++ .stopInLoop call :: late)) :
    ∀ e ∈ late, e.isNew = false := by
  have hok (s : TcpClient) {acts : List Act} (hacts : ∀ a ∈ acts, a.isConnect = false) :
      Run.Along TcpClient.step (fun _ a => a.isConnect = false) s acts :=
    Run.along_of_forall fun _ => hacts
  rw [run, Run.run_cons, Option.bind_eq_some_iff] at hmid hpost
  obtain ⟨m, hm, hmid⟩ := hmid
  obtain ⟨n, hn, hpost⟩ := hpost
  have hstopping : Stopping s₁ := by
    refine Run.run_inv_along (fun _ _ _ ha hs h => Stopping.step h hs ha) (hok m hmid') hmid ?_
    cases hm
    exact ⟨rfl, by simpa using hcalls, htodo⟩
  have hstopped : Stopped s₁.connector.log s :=
    Run.run_inv_along (fun _ _ _ ha hs h => Stopped.step h hs ha) (hok n hpost') hpost
      (hstopping.call hrestart hcall hn)
  obtain ⟨entries, hentries, hpair, -⟩ := hstopped.connector.log
  rw [List.append_cancel_left (hentries.symm.trans hlog), List.pairwise_append,
    List.pairwise_cons] at hpair
  exact fun e he => hpair.2.1.1 e he rfl

/-- An attempt is under way when `Stop` is called. -/
theorem stop_kept_of_attempt :
    ∃ s₀ s₁ s : TcpClient,
      run (new true) [.connect false, .call 0, .connector (.queue 0), .connector .beginFunctors,
        .connector .functor, .connector (.exec {}), .connector (.exec {}), .connector .endFunctors] =
          some s₀ ∧
      run s₀ [.stop false] = some s₁ ∧
      run s₁ [.call 0, .connector (.queue 0), .connector .beginFunctors, .connector .functor,
        .connector (.exec {}), .connector .endFunctors] = some s ∧
      s.connector.log = s₁.connector.log ++ ([] ++ .stopInLoop 0 :: [.removeChannel 0, .close 0]) ∧
      ∀ e ∈ ([.removeChannel 0, .close 0] : List Connector.Event), e.isNew = false := by
  obtain ⟨s₀, hrun, hcalls, htodo, s₁, hmid, hcall, hrestart, s, hpost, hlog⟩ :
      ∃ s₀, run (new true) [.connect false, .call 0, .connector (.queue 0), .connector .beginFunctors,
          .connector .functor, .connector (.exec {}), .connector (.exec {}), .connector .endFunctors] =
          some s₀ ∧ .start ∉ s₀.calls ∧ .start ∉ s₀.connector.todo ∧
        ∃ s₁, run s₀ [.stop false] = some s₁ ∧ s₁.calls[0]? = some .stop ∧
          .restart ∉ s₁.connector.todo ∧
        ∃ s, run s₁ [.call 0, .connector (.queue 0), .connector .beginFunctors, .connector .functor,
            .connector (.exec {}), .connector .endFunctors] = some s ∧
          s.connector.log =
            s₁.connector.log ++ ([] ++ .stopInLoop 0 :: [.removeChannel 0, .close 0]) :=
    ⟨_, rfl, by decide, by decide, _, rfl, by decide, by decide, _, rfl, by decide⟩
  refine ⟨s₀, s₁, s, hrun, hmid, hpost, hlog, ?_⟩
  exact stop_kept hcalls htodo hmid (by simp) hcall hrestart hpost (by decide) hlog

/-- The loop thread has tested `connect_` of the client when `Stop` is called, and `Restart` sets that of
the connector behind the store of `Stop`. The attempt that follows is ended by `StopInLoop`, but the
`Retry` there starts a timer, and that one an attempt. -/
theorem stop_lost :
    ¬ ∀ (pre mid post : List Act) (s₀ s₁ s : TcpClient) (i : ℕ) (early late : List Connector.Event),
      run (new true) pre = some s₀ → .start ∉ s₀.calls → .start ∉ s₀.connector.todo →
      run s₀ (.stop false :: mid) = some s₁ → (∀ a ∈ mid, a.isConnect = false) →
      s₁.calls[i]? = some .stop → run s₁ (.call i :: post) = some s →
      (∀ a ∈ post, a.isConnect = false) →
      s.connector.log =
        s₁.connector.log ++ (early ++ .stopInLoop s₁.connector.stops :: late) →
      ∀ e ∈ late, e.isNew = false := by
  intro hall
  have hnew := hall [.connect false, .call 0, .connector (.queue 0), .connector .beginFunctors,
      .connector .functor, .connector (.exec {}), .connector (.exec {}), .connector .endFunctors,
      .connector (.dispatch POLLOUT), .connector (.exec {}), .connector (.exec {}),
      .connector .beginFunctors, .connector .functor, .connector .endFunctors, .close 0] []
    [.connector (.queue 0), .connector (.exec {}), .connector (.exec {}), .connector (.exec {}),
      .connector .beginFunctors, .connector .functor, .connector .functor, .connector (.exec {}),
      .connector .endFunctors, .connector .beginFunctors, .connector .functor,
      .connector .endFunctors, .connector (.timer 0), .connector (.exec {}), .connector (.exec {})]
    _ _ _ 0 [.startInLoop true .kDisconnected, .connect 1, .connecting none]
    [.removeChannel 1, .close 1, .resetChannel (some { fd := 1 }), .startInLoop true .kDisconnected,
      .connect 2, .connecting none]
    rfl (by decide) (by decide) rfl (by decide) (by decide) rfl (by decide) (by decide)
  exact absurd (hnew (.connect 2) (by decide)) (by decide)

end TcpClient

end MuduoCpp11.Net
