import MuduoCpp11.Lib.Run

/-! # Histories

A history is a list of what a system has done in a run: `observed` collects what is seen of each step.
Where the entries are those of several threads, each with its thread, `ofThread` is the part of one
thread, in its order. -/

namespace MuduoCpp11.Lib.History

section
variable {σ α β : Type*} {step : σ → α → Option σ} {obs : σ → α → List β}

/-- What is seen of the steps of a run, up to one that is not enabled. -/
def observed (step : σ → α → Option σ) (obs : σ → α → List β) : σ → List α → List β
  | _, [] => []
  | s, a :: as => obs s a ++ (step s a).elim [] fun s' => observed step obs s' as

/-- What is seen of the last step comes last. -/
theorem observed_concat {a : α} : ∀ {as : List α} {s m : σ}, Run.run step s as = some m →
    observed step obs s (as ++ [a]) = observed step obs s as ++ obs m a
  | [], s, m, h => by
    cases h
    have hnil : (step s a).elim [] (fun s' => observed step obs s' []) = [] := by
      cases step s a <;> rfl
    show obs s a ++ (step s a).elim [] (fun s' => observed step obs s' []) = [] ++ obs s a
    rw [hnil, List.append_nil, List.nil_append]
  | b :: as, s, m, h => by
    obtain ⟨s', hs', hrest⟩ := Option.bind_eq_some_iff.mp h
    have ih := observed_concat (a := a) hrest
    rw [List.cons_append, observed, observed, hs', Option.elim_some, Option.elim_some, ih,
      List.append_assoc]

end

section
variable {T τ : Type*} [DecidableEq T] {t u : T}

/-- What the thread has done, in order. -/
def ofThread (t : T) (l : List (T × τ)) : List τ :=
  l.filterMap fun p => if p.1 = t then some p.2 else none

@[simp] theorem ofThread_nil : ofThread t ([] : List (T × τ)) = [] := rfl

theorem ofThread_cons (p : T × τ) (l : List (T × τ)) :
    ofThread u (p :: l) = (if p.1 = u then [p.2] else []) ++ ofThread u l := by
  unfold ofThread
  rw [List.filterMap_cons]
  split_ifs <;> rfl

theorem ofThread_append (l l' : List (T × τ)) :
    ofThread u (l ++ l') = ofThread u l ++ ofThread u l' := List.filterMap_append

@[simp] theorem ofThread_concat (l : List (T × τ)) (x : τ) :
    ofThread u (l ++ [(t, x)]) = ofThread u l ++ if t = u then [x] else [] := by
  rw [ofThread_append, ofThread_cons, ofThread_nil, List.append_nil]

end

end MuduoCpp11.Lib.History
