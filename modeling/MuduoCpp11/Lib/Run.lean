import Mathlib.Tactic

/-! # Runs of a partial step function

A system is a partial step function `step : σ → α → Option σ`: `none` where the action is not
enabled. A run folds it over a list of actions. What one step preserves, a run preserves
(`run_inv`); a run that ends in an action splits at that action (`run_concat`).

The same fold reads a word: with `step` the transition function of an automaton, `run step s w` is
the state in which the word `w` is accepted, `none` if it is rejected. -/

namespace MuduoCpp11.Lib.Run

variable {σ α : Type*} {step : σ → α → Option σ}

/-- The state after the actions, if each of them is enabled when its turn comes. -/
def run (step : σ → α → Option σ) : σ → List α → Option σ
  | s, [] => some s
  | s, a :: as => (step s a).bind fun s' => run step s' as

@[simp] theorem run_nil (s : σ) : run step s [] = some s := rfl

@[simp] theorem run_cons (s : σ) (a : α) (as : List α) :
    run step s (a :: as) = (step s a).bind fun s' => run step s' as := rfl

theorem run_append : ∀ (s : σ) (as bs : List α),
    run step s (as ++ bs) = (run step s as).bind fun s' => run step s' bs
  | s, [], bs => by simp
  | s, a :: as, bs => by
    simp only [List.cons_append, run_cons]
    cases step s a with
    | none => simp
    | some s' => simpa using run_append s' as bs

/-- A run that ends in `a` is a run followed by a step. -/
theorem run_concat {s s' : σ} {as : List α} {a : α} :
    run step s (as ++ [a]) = some s' ↔
      ∃ m, run step s as = some m ∧ step m a = some s' := by
  simp [run_append, Option.bind_eq_some_iff]

theorem run_append_eq_some {s s' : σ} {as bs : List α} :
    run step s (as ++ bs) = some s' ↔
      ∃ m, run step s as = some m ∧ run step m bs = some s' := by
  simp [run_append, Option.bind_eq_some_iff]

/-- An action of a run that ends in `b` is that last one, or an action of the run before it. -/
theorem split_concat {as pre post : List α} {a b : α} (h : as ++ [b] = pre ++ a :: post) :
    pre = as ∧ a = b ∧ post = [] ∨ ∃ mid, post = mid ++ [b] ∧ as = pre ++ a :: mid := by
  rcases List.eq_nil_or_concat post with rfl | ⟨mid, c, rfl⟩
  · obtain ⟨rfl, hb⟩ := List.append_inj' h rfl
    exact Or.inl ⟨rfl, (List.singleton_inj.mp hb).symm, rfl⟩
  · rw [List.concat_eq_append, ← List.cons_append, ← List.append_assoc] at h
    obtain ⟨rfl, hb⟩ := List.append_inj' h rfl
    rw [List.singleton_inj.mp hb]
    exact Or.inr ⟨mid, List.concat_eq_append, rfl⟩

/-- An entry of a log that has grown is a new one, or one of before. -/
theorem split_append {as bs pre post : List α} {a : α} (h : as ++ bs = pre ++ a :: post) :
    (∃ mid, pre = as ++ mid ∧ bs = mid ++ a :: post) ∨
      ∃ mid, as = pre ++ a :: mid ∧ post = mid ++ bs := by
  rcases List.append_eq_append_iff.mp h with ⟨mid, rfl, hmid⟩ | ⟨mid, rfl, hmid⟩
  · exact Or.inl ⟨mid, rfl, hmid⟩
  · cases mid with
    | nil => exact Or.inl ⟨[], by simp, by simpa using hmid.symm⟩
    | cons b mid =>
      simp only [List.cons_append, List.cons.injEq] at hmid
      obtain ⟨rfl, rfl⟩ := hmid
      exact Or.inr ⟨mid, rfl, rfl⟩

/-- **The invariant rule**: what every step preserves, every run preserves. -/
theorem run_inv {P : σ → Prop} (hstep : ∀ s a s', step s a = some s' → P s → P s') :
    ∀ {as : List α} {s s' : σ}, run step s as = some s' → P s → P s'
  | [], s, s', h, hp => by
    simp only [run_nil, Option.some.injEq] at h
    exact h ▸ hp
  | a :: as, s, s', h, hp => by
    obtain ⟨m, hm, hrest⟩ := Option.bind_eq_some_iff.mp h
    exact run_inv hstep hrest (hstep s a m hm hp)

/-- The invariant rule over the actions so far and the state behind them. -/
theorem run_inv_history {P : List α → σ → Prop} {s : σ} (hinit : P [] s)
    (hstep : ∀ as m a s', step m a = some s' → P as m → P (as ++ [a]) s') {as : List α} {s' : σ}
    (h : run step s as = some s') : P as s' := by
  induction as using List.reverseRecOn generalizing s' with
  | nil =>
    cases h
    exact hinit
  | append_singleton as a ih =>
    obtain ⟨m, hm, hs⟩ := run_concat.mp h
    exact hstep as m a s' hs (ih hm)

/-- Every action of the run is allowed by `ok` in the state in which it is taken. -/
def Along (step : σ → α → Option σ) (ok : σ → α → Prop) : σ → List α → Prop
  | _, [] => True
  | s, a :: as => ok s a ∧ ∀ s', step s a = some s' → Along step ok s' as

theorem along_of_forall {ok : σ → α → Prop} :
    ∀ {as : List α} {s : σ}, (∀ s, ∀ a ∈ as, ok s a) → Along step ok s as
  | [], _, _ => trivial
  | a :: _, s, h =>
    ⟨h s a List.mem_cons_self, fun _ _ =>
      along_of_forall fun s b hb => h s b (List.mem_cons_of_mem _ hb)⟩

/-- Where it can be decided whether an action is allowed, it can be for a run. -/
instance decidableAlong {ok : σ → α → Prop} [∀ s a, Decidable (ok s a)] :
    ∀ (s : σ) (as : List α), Decidable (Along step ok s as)
  | _, [] => isTrue trivial
  | s, a :: as =>
    match h : step s a with
    | none => decidable_of_iff (ok s a) ⟨fun hok => ⟨hok, by simp [h]⟩, fun hok => hok.1⟩
    | some m =>
      have : Decidable (Along step ok m as) := decidableAlong m as
      decidable_of_iff (ok s a ∧ Along step ok m as)
        ⟨fun hok => ⟨hok.1, fun s' hs' => Option.some.inj (h.symm.trans hs') ▸ hok.2⟩,
          fun hok => ⟨hok.1, hok.2 m h⟩⟩

/-- The invariant rule for runs of which every action is allowed. -/
theorem run_inv_along {P : σ → Prop} {ok : σ → α → Prop}
    (hstep : ∀ s a s', ok s a → step s a = some s' → P s → P s') :
    ∀ {as : List α} {s s' : σ}, Along step ok s as → run step s as = some s' → P s → P s'
  | [], s, s', _, h, hp => by
    simp only [run_nil, Option.some.injEq] at h
    exact h ▸ hp
  | a :: as, s, s', hok, h, hp => by
    obtain ⟨m, hm, hrest⟩ := Option.bind_eq_some_iff.mp h
    exact run_inv_along hstep (hok.2 m hm) hrest (hstep s a m hok.1 hm hp)

/-- The progress rule: where every allowed action is enabled and preserves `P`, runs of allowed actions
go through. -/
theorem run_progress {P : σ → Prop} {ok : σ → α → Prop}
    (hstep : ∀ s a, ok s a → P s → ∃ s', step s a = some s' ∧ P s') :
    ∀ {as : List α} {s : σ}, Along step ok s as → P s → ∃ s', run step s as = some s' ∧ P s'
  | [], s, _, hp => ⟨s, rfl, hp⟩
  | a :: as, s, hok, hp => by
    obtain ⟨m, hm, hpm⟩ := hstep s a hok.1 hp
    obtain ⟨s', hr, hp'⟩ := run_progress hstep (hok.2 m hm) hpm
    refine ⟨s', ?_, hp'⟩
    rw [run_cons, hm]
    exact hr

/-- Counting: a number that follows one kind of action is the count of these actions. -/
theorem run_countP_of {P : σ → Prop} {f : σ → ℕ} {q : α → Bool}
    (hstep : ∀ s a s', P s → step s a = some s' → P s' ∧ f s' = f s + if q a then 1 else 0) :
    ∀ {as : List α} {s s' : σ}, run step s as = some s' → P s → f s' = f s + as.countP q
  | [], s, s', h, _ => by
    simp only [run_nil, Option.some.injEq] at h
    simp [h]
  | a :: as, s, s', h, hp => by
    obtain ⟨m, hm, hrest⟩ := Option.bind_eq_some_iff.mp h
    obtain ⟨hpm, hf⟩ := hstep s a m hp hm
    rw [run_countP_of hstep hrest hpm, hf, List.countP_cons]
    omega

theorem run_countP {f : σ → ℕ} {q : α → Bool}
    (hstep : ∀ s a s', step s a = some s' → f s' = f s + if q a then 1 else 0) {as : List α}
    {s s' : σ} (h : run step s as = some s') : f s' = f s + as.countP q :=
  run_countP_of (P := fun _ => True) (fun s a s' _ hs => ⟨trivial, hstep s a s' hs⟩) h trivial

end MuduoCpp11.Lib.Run
