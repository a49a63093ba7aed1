import MuduoCpp11.Lib.Run

/-! # The acceptor and its descriptors

`Acceptor` owns the listening socket and `idle_fd_`, a descriptor of `/dev/null` that is kept open so
that it can be given up. When `accept` fails with `EMFILE`, `HandleRead` closes `idle_fd_`, accepts
the connection into the free slot, closes it, and opens `/dev/null` again. Each of these is a call of
its own, and other threads of the process open and close descriptors in between: a number that has
just been closed may be theirs at once, while `idle_fd_` still holds it.

Still the acceptor closes only what it has opened, never holds more than its two descriptors, and
gives both back (`fds_accounted`). The free slot is there for `accept` as long as no other thread
opens a descriptor inside the round (`slot_kept`); when one does, `idle_fd_` may be left at `-1`, and
with a full table `HandleRead` then takes nothing from the backlog, until a descriptor is closed
(`backlog_stuck`). -/

namespace MuduoCpp11.Net

open MuduoCpp11.Lib

/-- The descriptor table of the process, and the connections that wait to be accepted. -/
structure Process where
  fds : Finset ℕ
  limit : ℕ
  backlog : ℕ := 0

/-- The table has no free slot. -/
def Process.full (p : Process) : Prop := ∀ fd < p.limit, fd ∈ p.fds

instance (p : Process) : Decidable p.full := by unfold Process.full; infer_instance

/-- What `accept` returns; `expected` are the errors other than `EMFILE` that `sockets::Accept` goes on
with. -/
inductive AcceptResult where
  | fd (connfd : ℕ)
  | emfile
  | expected
  deriving DecidableEq, Repr

/-- The kernel may return this. -/
def Process.mayAccept (p : Process) : AcceptResult → Prop
  | .fd connfd => connfd ∉ p.fds ∧ connfd < p.limit ∧ 0 < p.backlog
  | .emfile => p.full
  | .expected => True

instance (p : Process) (r : AcceptResult) : Decidable (p.mayAccept r) := by
  cases r <;> unfold Process.mayAccept <;> infer_instance

/-- The next statement of the acceptor. -/
inductive Acceptor.Pc where
  | idle
  | closeIdle
  | acceptIdle
  | closeAccepted
  | openIdle
  | destroyed
  deriving DecidableEq, Repr

/-- What `idle_fd_` holds here has not been closed. -/
def Acceptor.Pc.hasIdle : Acceptor.Pc → Bool
  | .idle | .closeIdle | .closeAccepted => true
  | .acceptIdle | .openIdle | .destroyed => false

/-- `none` is the `-1` of a call that has failed. `owned` is the history: the descriptors the acceptor
has opened and not closed; `foreign` says that it has closed one of another thread, and `accepted` are
the connections given to `new_connection_callback_`. -/
structure Acceptor where
  process : Process
  acceptSocket : ℕ
  idleFd : Option ℕ
  hasCallback : Bool
  pc : Acceptor.Pc := .idle
  owned : Finset ℕ
  foreign : Bool := false
  accepted : List ℕ := []

namespace Acceptor

/-- The constructor, behind its calls of `socket` and `open`. -/
def new (process : Process) (acceptSocket idleFd : ℕ) (hasCallback : Bool) : Acceptor where
  process := { process with fds := insert acceptSocket (insert idleFd process.fds) }
  acceptSocket
  idleFd := some idleFd
  hasCallback
  owned := {acceptSocket, idleFd}

variable (a : Acceptor)

/-- `::close(fd)`; of a number that is not open it does nothing. -/
def close : Option ℕ → Acceptor
  | none => a
  | some fd =>
    if fd ∈ a.process.fds then
      { a with
        process := { a.process with fds := a.process.fds.erase fd }
        owned := a.owned.erase fd
        foreign := a.foreign || fd ∉ a.owned }
    else a

/-- A descriptor is opened by the acceptor. -/
def opened (fd : ℕ) : Acceptor :=
  { a with
    process := { a.process with fds := insert fd a.process.fds }
    owned := insert fd a.owned }

/-- A connection leaves the backlog. -/
def takeConnection : Acceptor :=
  { a with process := { a.process with backlog := a.process.backlog - 1 } }

/-- `HandleRead` up to the test for `EMFILE`. A connection that no callback takes is closed in the same
step. -/
def handleRead : AcceptResult → Acceptor
  | .fd connfd =>
    let a := a.takeConnection
    if a.hasCallback then
      { a with
        process := { a.process with fds := insert connfd a.process.fds }
        accepted := a.accepted ++ [connfd] }
    else (a.opened connfd).close (some connfd)
  | .emfile => { a with pc := .closeIdle }
  | .expected => a

/-- `otherOpen` and `otherClose` are those of other threads, `connect` is a peer. The result of a call
is an argument. -/
inductive Act where
  | connect
  | otherOpen (fd : ℕ)
  | otherClose (fd : ℕ)
  | handleRead (r : AcceptResult)
  | closeIdle
  | acceptIdle (r : AcceptResult)
  | closeAccepted
  | openIdle (r : Option ℕ)
  | destroy
  deriving DecidableEq

/-- The kernel may return this from `open`, which fails for any reason. -/
def mayOpen (p : Process) : Option ℕ → Prop
  | some fd => fd ∉ p.fds ∧ fd < p.limit
  | none => True

instance (p : Process) (r : Option ℕ) : Decidable (mayOpen p r) := by
  cases r <;> unfold mayOpen <;> infer_instance

/-- One statement of the acceptor, or something that others do. -/
def step (a : Acceptor) : Act → Option Acceptor
  | .connect => some { a with process := { a.process with backlog := a.process.backlog + 1 } }
  | .otherOpen fd =>
    if fd ∉ a.process.fds ∧ fd < a.process.limit then
      some { a with process := { a.process with fds := insert fd a.process.fds } }
    else none
  | .otherClose fd =>
    if fd ∈ a.process.fds ∧ fd ∉ a.owned then
      some { a with process := { a.process with fds := a.process.fds.erase fd } }
    else none
  | .handleRead r => if a.pc = .idle ∧ a.process.mayAccept r then some (a.handleRead r) else none
  | .closeIdle =>
    if a.pc = .closeIdle then some { a.close a.idleFd with pc := .acceptIdle } else none
  | .acceptIdle r =>
    if a.pc = .acceptIdle ∧ a.process.mayAccept r then
      match r with
      | .fd connfd =>
        some { a.takeConnection.opened connfd with idleFd := some connfd, pc := .closeAccepted }
      | _ => some { a with idleFd := none, pc := .closeAccepted }
    else none
  | .closeAccepted =>
    if a.pc = .closeAccepted then some { a.close a.idleFd with pc := .openIdle } else none
  | .openIdle r =>
    if a.pc = .openIdle ∧ mayOpen a.process r then
      match r with
      | some fd => some { a.opened fd with idleFd := some fd, pc := .idle }
      | none => some { a with idleFd := none, pc := .idle }
    else none
  | .destroy =>
    if a.pc = .idle then
      some { (a.close a.idleFd).close (some a.acceptSocket) with pc := .destroyed }
    else none

def run : Acceptor → List Act → Option Acceptor := Run.run step

/-! ### Every descriptor is accounted for -/

/-- The descriptors the acceptor ought to have, at its next statement. -/
def holds : Finset ℕ :=
  if a.pc = .destroyed then ∅
  else if a.pc.hasIdle then insert a.acceptSocket a.idleFd.toFinset
  else {a.acceptSocket}

/-- **The invariant**: it has these, they are open, and it has closed nothing else. -/
structure Inv (a : Acceptor) : Prop where
  owned : a.owned = a.holds
  isOpen : a.owned ⊆ a.process.fds
  apart : a.pc.hasIdle → a.idleFd ≠ some a.acceptSocket
  foreign : a.foreign = false

variable {a} {a' : Acceptor} {act : Act}

theorem inv_new {process : Process} {acceptSocket idleFd : ℕ} (hne : acceptSocket ≠ idleFd)
    (hasCallback : Bool) : (new process acceptSocket idleFd hasCallback).Inv where
  owned := by simp [new, holds, Pc.hasIdle]
  isOpen := by
    intro fd hfd
    simp only [new, Finset.mem_insert, Finset.mem_singleton] at hfd ⊢
    tauto
  apart _ := by simpa [new] using hne.symm
  foreign := rfl

/-- Where `idle_fd_` has not been closed, the acceptor has it and the socket. -/
theorem Inv.owned_hasIdle (h : a.Inv) (hpc : a.pc.hasIdle) :
    a.owned = insert a.acceptSocket a.idleFd.toFinset := by
  rw [h.owned, holds, if_pos hpc, if_neg]
  intro hd
  rw [hd] at hpc
  cases hpc

/-- Elsewhere it has the socket, until it is destroyed. -/
theorem Inv.owned_socket (h : a.Inv) (hpc : a.pc = .acceptIdle ∨ a.pc = .openIdle) :
    a.owned = {a.acceptSocket} := by
  rw [h.owned, holds]
  rcases hpc with hpc | hpc <;> simp [hpc, Pc.hasIdle]

/-- `close(idle_fd_)`, where `idle_fd_` has not been closed, leaves it the socket. -/
theorem Inv.close_idleFd (h : a.Inv) (hpc : a.pc.hasIdle) :
    (a.close a.idleFd).owned = {a.acceptSocket} ∧
      {a.acceptSocket} ⊆ (a.close a.idleFd).process.fds ∧
      (a.close a.idleFd).foreign = false ∧
      (a.close a.idleFd).acceptSocket = a.acceptSocket := by
  have howned := h.owned_hasIdle hpc
  have hne := h.apart hpc
  have hopen := h.isOpen
  cases hi : a.idleFd with
  | none =>
    rw [hi] at howned
    refine ⟨howned, ?_, h.foreign, rfl⟩
    rw [howned] at hopen
    exact hopen
  | some fd =>
    rw [hi] at howned hne
    have hmem : fd ∈ a.owned := by simp [howned]
    have hsock : a.acceptSocket ∈ a.owned := by simp [howned]
    have hne' : a.acceptSocket ≠ fd := fun he => hne (by rw [he])
    rw [close, if_pos (hopen hmem)]
    refine ⟨?_, ?_, by simp [hmem, h.foreign], rfl⟩
    · show a.owned.erase fd = _
      rw [howned]
      ext x
      simp only [Option.toFinset_some, Finset.mem_erase, Finset.mem_insert, Finset.mem_singleton]
      constructor
      · rintro ⟨hx, rfl | rfl⟩
        · rfl
        · exact absurd rfl hx
      · rintro rfl
        exact ⟨hne', Or.inl rfl⟩
    · rw [Finset.singleton_subset_iff]
      exact Finset.mem_erase.mpr ⟨hne', hopen hsock⟩

/-- A descriptor that is not open is not the acceptor's. -/
theorem Inv.fresh (h : a.Inv) {fd : ℕ} (hfd : fd ∉ a.process.fds) : fd ∉ a.owned :=
  fun hmem => hfd (h.isOpen hmem)

/-- A connection without a callback is closed at once, and nothing else changes. -/
theorem close_opened {connfd : ℕ} (hfree : connfd ∉ a.process.fds) (hown : connfd ∉ a.owned) :
    (a.opened connfd).close (some connfd) = a := by
  simp [opened, close, Finset.erase_insert hfree, Finset.erase_insert hown]

/-- The invariant reads only these. -/
theorem Inv.of_table (h : a.Inv) (hpc : a'.pc = a.pc) (hidle : a'.idleFd = a.idleFd)
    (hsock : a'.acceptSocket = a.acceptSocket) (howned : a'.owned = a.owned)
    (hforeign : a'.foreign = a.foreign) (hopen : a.owned ⊆ a'.process.fds) : a'.Inv where
  owned := by rw [howned, h.owned, holds, holds, hpc, hsock, hidle]
  isOpen := by rw [howned]; exact hopen
  apart := by rw [hpc, hidle, hsock]; exact h.apart
  foreign := by rw [hforeign, h.foreign]

/-- A descriptor that the acceptor opens is its new `idle_fd_`. -/
theorem Inv.opened (h : a.Inv) (hpc : a.pc = .acceptIdle ∨ a.pc = .openIdle) {fd : ℕ} {pc : Pc}
    (hidle : pc.hasIdle) (hfree : fd ∉ a.process.fds) :
    { a.opened fd with idleFd := some fd, pc := pc : Acceptor }.Inv where
  owned := by
    have hd : pc ≠ .destroyed := by
      rintro rfl
      cases hidle
    show insert fd a.owned = _
    rw [h.owned_socket hpc, holds, if_neg hd, if_pos hidle]
    exact Finset.pair_comm fd a.acceptSocket
  isOpen := Finset.insert_subset_insert fd h.isOpen
  apart _ := by
    show some fd ≠ some a.acceptSocket
    have hsock : a.acceptSocket ∈ a.owned := by
      rw [h.owned_socket hpc]
      exact Finset.mem_singleton_self _
    rintro ⟨⟩
    exact h.fresh hfree hsock
  foreign := h.foreign

/-- A call that fails leaves `-1` in `idle_fd_`. -/
theorem Inv.failed (h : a.Inv) (hpc : a.pc = .acceptIdle ∨ a.pc = .openIdle) {pc : Pc}
    (hidle : pc.hasIdle) : { a with idleFd := none, pc := pc : Acceptor }.Inv where
  owned := by
    have hd : pc ≠ .destroyed := by
      rintro rfl
      cases hidle
    show a.owned = _
    rw [h.owned_socket hpc, holds, if_neg hd, if_pos hidle]
    rfl
  isOpen := h.isOpen
  apart _ := by simp
  foreign := h.foreign

/-- `close(idle_fd_)`, as a statement of the round. -/
theorem Inv.closed (h : a.Inv) (hpc : a.pc.hasIdle) {pc : Pc}
    (hidle : pc = .acceptIdle ∨ pc = .openIdle) :
    { a.close a.idleFd with pc := pc : Acceptor }.Inv := by
  obtain ⟨howned, hopen, hforeign, hsock⟩ := h.close_idleFd hpc
  refine ⟨?_, ?_, ?_, hforeign⟩
  · show (a.close a.idleFd).owned = _
    rcases hidle with rfl | rfl <;> simp [holds, Pc.hasIdle, howned, hsock]
  · show (a.close a.idleFd).owned ⊆ _
    rw [howned]
    exact hopen
  · rcases hidle with rfl | rfl <;> simp [Pc.hasIdle]

theorem Inv.handleRead (h : a.Inv) (hpc : a.pc = .idle) {r : AcceptResult}
    (hr : a.process.mayAccept r) : (a.handleRead r).Inv := by
  cases r with
  | fd connfd =>
    have hfree : connfd ∉ a.takeConnection.process.fds := hr.1
    unfold Acceptor.handleRead
    simp only
    split_ifs with hc
    · exact h.of_table rfl rfl rfl rfl rfl fun fd hfd => Finset.mem_insert_of_mem (h.isOpen hfd)
    · rw [close_opened hfree (h.fresh hfree)]
      exact h.of_table rfl rfl rfl rfl rfl h.isOpen
  | emfile =>
    refine ⟨?_, h.isOpen, fun _ => h.apart (by rw [hpc]; rfl), h.foreign⟩
    show a.owned = _
    rw [h.owned_hasIdle (by rw [hpc]; rfl)]
    rfl
  | expected => exact h

theorem Inv.destroy (h : a.Inv) (hpc : a.pc = .idle) :
    { (a.close a.idleFd).close (some a.acceptSocket) with pc := .destroyed : Acceptor }.Inv := by
  obtain ⟨howned, hopen, hforeign, -⟩ := h.close_idleFd (by rw [hpc]; rfl)
  have hmem : a.acceptSocket ∈ (a.close a.idleFd).process.fds :=
    hopen (Finset.mem_singleton_self _)
  rw [close, if_pos hmem]
  refine ⟨?_, ?_, fun hi => (by cases hi), ?_⟩
  · show (a.close a.idleFd).owned.erase a.acceptSocket = ∅
    simp [howned]
  · show (a.close a.idleFd).owned.erase a.acceptSocket ⊆ _
    simp [howned]
  · show ((a.close a.idleFd).foreign || _) = false
    simp [howned, hforeign]

/-- **The invariant is kept** by each statement of the acceptor and by all others do. -/
theorem Inv.step (h : a.Inv) (hs : a.step act = some a') : a'.Inv := by
  cases act with
  | connect =>
    cases hs
    exact h.of_table rfl rfl rfl rfl rfl h.isOpen
  | otherOpen fd =>
    obtain ⟨-, hs⟩ := Option.ite_none_right_eq_some.mp hs
    cases hs
    exact h.of_table rfl rfl rfl rfl rfl fun x hx => Finset.mem_insert_of_mem (h.isOpen hx)
  | otherClose fd =>
    obtain ⟨⟨-, hother⟩, hs⟩ := Option.ite_none_right_eq_some.mp hs
    cases hs
    refine h.of_table rfl rfl rfl rfl rfl fun x hx => Finset.mem_erase.mpr ⟨?_, h.isOpen hx⟩
    rintro rfl
    exact hother hx
  | handleRead r =>
    obtain ⟨⟨hpc, hr⟩, hs⟩ := Option.ite_none_right_eq_some.mp hs
    cases hs
    exact h.handleRead hpc hr
  | closeIdle =>
    obtain ⟨hpc, hs⟩ := Option.ite_none_right_eq_some.mp hs
    cases hs
    exact h.closed (by rw [hpc]; rfl) (Or.inl rfl)
  | acceptIdle r =>
    obtain ⟨⟨hpc, hr⟩, hs⟩ := Option.ite_none_right_eq_some.mp hs
    cases r with
    | fd connfd =>
      cases hs
      have ht : a.takeConnection.Inv := h.of_table rfl rfl rfl rfl rfl h.isOpen
      exact ht.opened (Or.inl hpc) rfl hr.1
    | emfile =>
      cases hs
      exact h.failed (Or.inl hpc) rfl
    | expected =>
      cases hs
      exact h.failed (Or.inl hpc) rfl
  | closeAccepted =>
    obtain ⟨hpc, hs⟩ := Option.ite_none_right_eq_some.mp hs
    cases hs
    exact h.closed (by rw [hpc]; rfl) (Or.inr rfl)
  | openIdle r =>
    obtain ⟨⟨hpc, hr⟩, hs⟩ := Option.ite_none_right_eq_some.mp hs
    cases r with
    | some fd =>
      cases hs
      exact h.opened (Or.inr hpc) rfl hr.1
    | none =>
      cases hs
      exact h.failed (Or.inr hpc) rfl
  | destroy =>
    obtain ⟨hpc, hs⟩ := Option.ite_none_right_eq_some.mp hs
    cases hs
    exact h.destroy hpc

theorem Inv.run {acts : List Act} (hrun : a.run acts = some a') (h : a.Inv) : a'.Inv :=
  Run.run_inv (fun _ _ _ hs hi => Inv.step hi hs) hrun h

/-- The acceptor closes only what it has opened, whatever the other threads do with the numbers it has
just closed; it has at most two descriptors, all open, and none once it is destroyed. -/
theorem fds_accounted {process : Process} {acceptSocket idleFd : ℕ} (hne : acceptSocket ≠ idleFd)
    {hasCallback : Bool} {acts : List Act}
    (hrun : (new process acceptSocket idleFd hasCallback).run acts = some a) :
    a.foreign = false ∧ a.owned ⊆ a.process.fds ∧ a.owned.card ≤ 2 ∧
      (a.pc = .destroyed → a.owned = ∅) ∧ (a.pc ≠ .destroyed → a.acceptSocket ∈ a.owned) := by
  have hinv : a.Inv := (inv_new hne hasCallback).run hrun
  refine ⟨hinv.foreign, hinv.isOpen, ?_, ?_, ?_⟩
  · rw [hinv.owned, holds]
    split_ifs
    · simp
    · cases a.idleFd with
      | none => simp
      | some fd => exact Finset.card_le_two
    · simp
  · intro hpc
    rw [hinv.owned, holds, if_pos hpc]
  · intro hpc
    rw [hinv.owned, holds, if_neg hpc]
    split_ifs <;> simp

/-- Between the first `close` of the round and its `accept`, another thread takes the number `4` that
`idle_fd_` still holds. The `accept` fails, `idle_fd_` is `-1`, and the second `close` closes
nothing. -/
theorem fds_accounted_taken :
    ∃ a, (new ⟨{0, 1}, 5, 2⟩ 3 4 true).run
        [.otherOpen 2, .handleRead .emfile, .closeIdle, .otherOpen 4, .acceptIdle .emfile,
          .closeAccepted, .openIdle none] = some a ∧
      a.idleFd = none ∧ 4 ∈ a.process.fds ∧ a.process.full ∧
      (a.foreign = false ∧ a.owned ⊆ a.process.fds ∧ a.owned.card ≤ 2 ∧
        (a.pc = .destroyed → a.owned = ∅) ∧ (a.pc ≠ .destroyed → a.acceptSocket ∈ a.owned)) :=
  ⟨_, rfl, rfl, by decide, by decide,
    fds_accounted (show (3 : ℕ) ≠ 4 by decide) (show (new ⟨{0, 1}, 5, 2⟩ 3 4 true).run
      [.otherOpen 2, .handleRead .emfile, .closeIdle, .otherOpen 4, .acceptIdle .emfile,
        .closeAccepted, .openIdle none] = some _ from rfl)⟩

/-! ### The free slot -/

/-- `idle_fd_` has been given up and not yet opened again. -/
def Pc.inRound : Pc → Bool
  | .acceptIdle | .closeAccepted | .openIdle => true
  | .idle | .closeIdle | .destroyed => false

/-- No other thread opens a descriptor inside the round, and `open` fails only for want of one. -/
def Undisturbed (a : Acceptor) : Act → Prop
  | .otherOpen _ => ¬ a.pc.inRound
  | .openIdle none => a.process.full
  | _ => True

instance (a : Acceptor) (act : Act) : Decidable (Undisturbed a act) := by
  unfold Undisturbed
  split <;> infer_instance

/-- The slot of `idle_fd_` is held or free. -/
structure Slot (a : Acceptor) : Prop where
  below : ∀ fd ∈ a.owned, fd < a.process.limit
  held : a.pc = .idle ∨ a.pc = .closeIdle → a.idleFd ≠ none
  free : a.pc = .acceptIdle ∨ a.pc = .openIdle → ¬ a.process.full
  either : a.pc = .closeAccepted → a.idleFd ≠ none ∨ ¬ a.process.full

theorem not_full_of_free {p : Process} {fd : ℕ} (hfree : fd ∉ p.fds) (hlt : fd < p.limit) :
    ¬ p.full :=
  fun hfull => hfree (hfull fd hlt)

/-- A descriptor that is closed leaves its slot free. -/
theorem not_full_close {fd : ℕ} (hmem : fd ∈ a.process.fds) (hlt : fd < a.process.limit) :
    ¬ (a.close (some fd)).process.full := by
  rw [close, if_pos hmem]
  exact not_full_of_free (Finset.notMem_erase fd _) hlt

@[simp] theorem limit_close (r : Option ℕ) : (a.close r).process.limit = a.process.limit := by
  unfold close
  split
  · rfl
  · split_ifs <;> rfl

theorem owned_close_subset (r : Option ℕ) : (a.close r).owned ⊆ a.owned := by
  unfold close
  split
  · exact Finset.Subset.refl _
  · split_ifs
    · exact Finset.erase_subset _ _
    · exact Finset.Subset.refl _

/-- `close(idle_fd_)` leaves a free slot, where the slot of `idle_fd_` is held or free. -/
theorem Slot.close_idleFd (hslot : a.Slot) (hinv : a.Inv) (hpc : a.pc.hasIdle)
    (h : a.idleFd ≠ none ∨ ¬ a.process.full) : ¬ (a.close a.idleFd).process.full := by
  cases hi : a.idleFd with
  | none => exact h.resolve_left fun hne => hne hi
  | some fd =>
    have hmem : fd ∈ a.owned := by rw [hinv.owned_hasIdle hpc, hi]; simp
    exact not_full_close (hinv.isOpen hmem) (hslot.below fd hmem)

theorem slot_new {process : Process} {acceptSocket idleFd : ℕ} (hsock : acceptSocket < process.limit)
    (hidle : idleFd < process.limit) (hasCallback : Bool) :
    (new process acceptSocket idleFd hasCallback).Slot where
  below fd hfd := by
    simp only [new, Finset.mem_insert, Finset.mem_singleton] at hfd
    rcases hfd with rfl | rfl
    · exact hsock
    · exact hidle
  held _ := by simp [new]
  free h := by simp [new] at h
  either h := by simp [new] at h

/-- `HandleRead` takes a connection into its own slot or gives it away; the slot stays as it is. -/
theorem Slot.handleRead (hslot : a.Slot) (hinv : a.Inv) (hpc : a.pc = .idle) {r : AcceptResult}
    (hr : a.process.mayAccept r) : (a.handleRead r).Slot := by
  have hheld : a.idleFd ≠ none := hslot.held (Or.inl hpc)
  cases r with
  | fd connfd =>
    have hfree : connfd ∉ a.takeConnection.process.fds := hr.1
    unfold Acceptor.handleRead
    simp only
    split_ifs with hc
    · exact ⟨hslot.below, fun _ => hheld, by simp [takeConnection, hpc], by simp [takeConnection, hpc]⟩
    · rw [close_opened hfree (hinv.fresh hfree)]
      exact ⟨hslot.below, fun _ => hheld, by simp [takeConnection, hpc], by simp [takeConnection, hpc]⟩
  | emfile =>
    exact ⟨hslot.below, fun _ => hheld, by simp [Acceptor.handleRead], by simp [Acceptor.handleRead]⟩
  | expected => exact hslot

/-- In an undisturbed round the slot is held, free, or held by the connection. -/
theorem Slot.step (hslot : a.Slot) (hinv : a.Inv) (hok : Undisturbed a act)
    (hs : a.step act = some a') : a'.Slot := by
  cases act with
  | connect =>
    cases hs
    exact ⟨hslot.below, hslot.held, hslot.free, hslot.either⟩
  | otherOpen fd =>
    obtain ⟨-, hs⟩ := Option.ite_none_right_eq_some.mp hs
    cases hs
    refine ⟨hslot.below, hslot.held, fun hpc => absurd ?_ hok, fun hpc => absurd ?_ hok⟩
    · rcases hpc with hpc | hpc <;> rw [show a.pc = _ from hpc] <;> rfl
    · rw [show a.pc = _ from hpc]
      rfl
  | otherClose fd =>
    obtain ⟨-, hs⟩ := Option.ite_none_right_eq_some.mp hs
    cases hs
    have hmono (h : ¬ a.process.full) :
        ¬ ({ a.process with fds := a.process.fds.erase fd } : Process).full :=
      fun hfull => h fun x hx => Finset.mem_of_mem_erase (hfull x hx)
    exact ⟨hslot.below, hslot.held, fun hpc => hmono (hslot.free hpc),
      fun hpc => (hslot.either hpc).imp_right hmono⟩
  | handleRead r =>
    obtain ⟨⟨hpc, hr⟩, hs⟩ := Option.ite_none_right_eq_some.mp hs
    cases hs
    exact hslot.handleRead hinv hpc hr
  | closeIdle =>
    obtain ⟨hpc, hs⟩ := Option.ite_none_right_eq_some.mp hs
    cases hs
    have hfree := hslot.close_idleFd hinv (by rw [hpc]; rfl) (Or.inl (hslot.held (Or.inr hpc)))
    refine ⟨fun x hx => ?_, by simp, fun _ => hfree, by simp⟩
    exact (limit_close (a := a) _).symm ▸ hslot.below x (owned_close_subset _ hx)
  | acceptIdle r =>
    obtain ⟨⟨hpc, hr⟩, hs⟩ := Option.ite_none_right_eq_some.mp hs
    have hfree := hslot.free (Or.inl hpc)
    cases r with
    | fd connfd =>
      cases hs
      refine ⟨fun x hx => ?_, by simp, by simp, fun _ => Or.inl (by simp)⟩
      rcases Finset.mem_insert.mp hx with rfl | hx
      · exact hr.2.1
      · exact hslot.below x hx
    | emfile => exact absurd hr hfree
    | expected =>
      cases hs
      exact ⟨hslot.below, by simp, by simp, fun _ => Or.inr hfree⟩
  | closeAccepted =>
    obtain ⟨hpc, hs⟩ := Option.ite_none_right_eq_some.mp hs
    cases hs
    have hfree := hslot.close_idleFd hinv (by rw [hpc]; rfl) (hslot.either hpc)
    refine ⟨fun x hx => ?_, by simp, fun _ => hfree, by simp⟩
    exact (limit_close (a := a) _).symm ▸ hslot.below x (owned_close_subset _ hx)
  | openIdle r =>
    obtain ⟨⟨hpc, hr⟩, hs⟩ := Option.ite_none_right_eq_some.mp hs
    cases r with
    | some fd =>
      cases hs
      refine ⟨fun x hx => ?_, by simp, by simp, by simp⟩
      rcases Finset.mem_insert.mp hx with rfl | hx
      · exact hr.2
      · exact hslot.below x hx
    | none => exact absurd hok (hslot.free (Or.inr hpc))
  | destroy =>
    obtain ⟨-, hs⟩ := Option.ite_none_right_eq_some.mp hs
    cases hs
    refine ⟨fun x hx => ?_, by simp, by simp, by simp⟩
    have hx' := owned_close_subset _ (owned_close_subset _ hx)
    show x < ((a.close a.idleFd).close (some a.acceptSocket)).process.limit
    rw [limit_close, limit_close]
    exact hslot.below x hx'

/-- As long as no other thread opens a descriptor inside the round, the `accept` of the round never
finds the table full, and behind the round `idle_fd_` is a descriptor again. -/
theorem slot_kept {process : Process} {acceptSocket idleFd : ℕ} (hne : acceptSocket ≠ idleFd)
    (hsock : acceptSocket < process.limit) (hidle : idleFd < process.limit) {hasCallback : Bool}
    {acts : List Act}
    (hok : Run.Along step Undisturbed (new process acceptSocket idleFd hasCallback) acts)
    (hrun : (new process acceptSocket idleFd hasCallback).run acts = some a) :
    (a.pc = .acceptIdle → ¬ a.process.mayAccept .emfile) ∧
      (a.pc = .idle → ∃ fd, a.idleFd = some fd ∧ fd ∈ a.process.fds) := by
  obtain ⟨hinv, hslot⟩ : a.Inv ∧ a.Slot :=
    Run.run_inv_along (P := fun a => a.Inv ∧ a.Slot)
      (fun _ _ _ hu hs h => ⟨h.1.step hs, h.2.step h.1 hu hs⟩) hok hrun
      ⟨inv_new hne hasCallback, slot_new hsock hidle hasCallback⟩
  refine ⟨fun hpc => hslot.free (Or.inl hpc), fun hpc => ?_⟩
  obtain ⟨fd, hfd⟩ := Option.ne_none_iff_exists'.mp (hslot.held (Or.inl hpc))
  refine ⟨fd, hfd, hinv.isOpen ?_⟩
  rw [hinv.owned_hasIdle (by rw [hpc]; rfl), hfd]
  simp

/-- The table is full, and a connection that cannot be accepted is taken and closed. -/
theorem slot_kept_full :
    ∃ a, (new ⟨{0, 1}, 5, 2⟩ 3 4 true).run
        [.otherOpen 2, .handleRead .emfile, .closeIdle, .acceptIdle (.fd 4), .closeAccepted,
          .openIdle (some 4)] = some a ∧
      a.process.backlog = 1 ∧ a.accepted = [] ∧ (∃ fd, a.idleFd = some fd ∧ fd ∈ a.process.fds) :=
  ⟨_, rfl, rfl, rfl, (slot_kept (show (3 : ℕ) ≠ 4 by decide) (by decide) (by decide)
    (show Run.Along step Undisturbed (new ⟨{0, 1}, 5, 2⟩ 3 4 true)
      [.otherOpen 2, .handleRead .emfile, .closeIdle, .acceptIdle (.fd 4), .closeAccepted,
        .openIdle (some 4)] by decide) rfl).2 rfl⟩

/-- Another thread closes a descriptor, or the acceptor is destroyed. -/
def Act.frees : Act → Bool
  | .otherClose _ | .destroy => true
  | _ => false

/-- What is stuck: the table is full, and `idle_fd_` is `-1`. -/
structure Stuck (a : Acceptor) : Prop where
  full : a.process.full
  lost : a.idleFd = none

theorem Stuck.step (h : a.Stuck) (hact : act.frees = false) (hs : a.step act = some a') :
    a'.Stuck ∧ a'.accepted = a.accepted ∧
      a'.process.backlog = a.process.backlog + if act = .connect then 1 else 0 := by
  have hnone {fd : ℕ} (hfree : fd ∉ a.process.fds) (hlt : fd < a.process.limit) : False :=
    not_full_of_free hfree hlt h.full
  cases act with
  | connect =>
    cases hs
    exact ⟨⟨h.full, h.lost⟩, rfl, rfl⟩
  | otherOpen fd =>
    obtain ⟨⟨hfree, hlt⟩, -⟩ := Option.ite_none_right_eq_some.mp hs
    exact (hnone hfree hlt).elim
  | otherClose fd => cases hact
  | handleRead r =>
    obtain ⟨⟨-, hr⟩, hs⟩ := Option.ite_none_right_eq_some.mp hs
    cases r with
    | fd connfd => exact (hnone hr.1 hr.2.1).elim
    | emfile =>
      cases hs
      exact ⟨⟨h.full, h.lost⟩, rfl, rfl⟩
    | expected =>
      cases hs
      exact ⟨h, rfl, rfl⟩
  | closeIdle =>
    obtain ⟨-, hs⟩ := Option.ite_none_right_eq_some.mp hs
    rw [h.lost] at hs
    cases hs
    exact ⟨⟨h.full, h.lost⟩, rfl, rfl⟩
  | acceptIdle r =>
    obtain ⟨⟨-, hr⟩, hs⟩ := Option.ite_none_right_eq_some.mp hs
    cases r with
    | fd connfd => exact (hnone hr.1 hr.2.1).elim
    | emfile =>
      cases hs
      exact ⟨⟨h.full, rfl⟩, rfl, rfl⟩
    | expected =>
      cases hs
      exact ⟨⟨h.full, rfl⟩, rfl, rfl⟩
  | closeAccepted =>
    obtain ⟨-, hs⟩ := Option.ite_none_right_eq_some.mp hs
    rw [h.lost] at hs
    cases hs
    exact ⟨⟨h.full, h.lost⟩, rfl, rfl⟩
  | openIdle r =>
    obtain ⟨⟨-, hr⟩, hs⟩ := Option.ite_none_right_eq_some.mp hs
    cases r with
    | some fd => exact (hnone hr.1 hr.2).elim
    | none =>
      cases hs
      exact ⟨⟨h.full, rfl⟩, rfl, rfl⟩
  | destroy => cases hact

/-- Once `idle_fd_` is `-1` and the table full, `HandleRead` takes no connection, however often it is
called: the backlog grows with the connections that come, until a descriptor is closed. -/
theorem backlog_stuck {acts : List Act} (h : a.Stuck) (hacts : ∀ act ∈ acts, act.frees = false)
    (hrun : a.run acts = some a') :
    a'.Stuck ∧ a'.accepted = a.accepted ∧
      a'.process.backlog = a.process.backlog + acts.count .connect := by
  refine Run.run_inv_history
    (P := fun acts m => (∀ act ∈ acts, act.frees = false) → m.Stuck ∧ m.accepted = a.accepted ∧
      m.process.backlog = a.process.backlog + acts.count .connect)
    (fun _ => ⟨h, rfl, rfl⟩) (fun acts m act m' hs ih hacts => ?_) hrun hacts
  obtain ⟨hstuck, haccepted, hbacklog⟩ := ih fun b hb => hacts b (List.mem_append_left _ hb)
  obtain ⟨hstuck', haccepted', hbacklog'⟩ :=
    hstuck.step (hacts act (List.mem_append_right _ (List.mem_singleton_self _))) hs
  refine ⟨hstuck', haccepted'.trans haccepted, ?_⟩
  rw [hbacklog', hbacklog, List.count_append, List.count_singleton, Nat.add_assoc]
  simp only [beq_iff_eq]

/-- The state behind `fds_accounted_taken`, and two rounds more. -/
theorem backlog_stuck_two_rounds :
    ∃ a a' : Acceptor, (new ⟨{0, 1}, 5, 2⟩ 3 4 true).run
        [.otherOpen 2, .handleRead .emfile, .closeIdle, .otherOpen 4, .acceptIdle .emfile,
          .closeAccepted, .openIdle none] = some a ∧
      a.run [.handleRead .emfile, .closeIdle, .acceptIdle .emfile, .connect, .closeAccepted,
        .openIdle none, .handleRead .emfile] = some a' ∧
      a'.Stuck ∧ a'.accepted = a.accepted ∧ a'.process.backlog = a.process.backlog + 1 :=
  have hfrees : ∀ act ∈ [Act.handleRead .emfile, .closeIdle, .acceptIdle .emfile, .connect,
      .closeAccepted, .openIdle none, .handleRead .emfile], act.frees = false := by
    decide
  ⟨_, _, rfl, rfl, backlog_stuck ⟨by decide, rfl⟩ hfrees rfl⟩

end Acceptor

end MuduoCpp11.Net
