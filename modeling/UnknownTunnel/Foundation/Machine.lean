import Mathlib.Logic.Relation

/-!
# Machines and the states their runs reach

Every nondeterministic choice of a step is carried by its event, so the
effect of an event is a function. A run may be restricted by a condition on
each step that reads only the event and the state before it.

## Implementation notes

Invariants are proved by one rule with three premises: the restriction, a
fact already known of every reached state, and the invariant itself.
-/

namespace UnknownTunnel.Foundation

/-- A machine with initial states, enabled events and their effects. -/
structure Machine (σ ε : Type*) where
  init : σ → Prop
  enabled : σ → ε → Prop
  apply : σ → ε → σ

namespace Machine

variable {σ ε : Type*} (M : Machine σ ε)

/-- The states reached by runs all of whose steps meet the condition `ok`. -/
inductive ReachableUnder (ok : σ → ε → Prop) : σ → Prop
  | start {s} (h : M.init s) : ReachableUnder ok s
  | next {s e} (run : ReachableUnder ok s) (he : M.enabled s e) (hok : ok s e) :
      ReachableUnder ok (M.apply s e)

/-- The states reached by any run. -/
def Reachable (s : σ) : Prop := M.ReachableUnder (fun _ _ => True) s

variable {M} {ok ok' : σ → ε → Prop} {s : σ}

theorem ReachableUnder.mono (run : M.ReachableUnder ok s)
    (h : ∀ s e, ok s e → ok' s e) : M.ReachableUnder ok' s := by
  induction run with
  | start h0 => exact .start h0
  | next _ he hok ih => exact .next ih he (h _ _ hok)

theorem ReachableUnder.reachable (run : M.ReachableUnder ok s) : M.Reachable s :=
  run.mono fun _ _ _ => trivial

/-- One step to a state that is known in another form. -/
theorem ReachableUnder.to (run : M.ReachableUnder ok s) (e : ε) {t : σ} (he : M.enabled s e)
    (hok : ok s e) (h : M.apply s e = t) : M.ReachableUnder ok t :=
  h ▸ run.next he hok

/-- A property of the initial states that every permitted step preserves
holds of every reached state. `J` is any fact already known along the run. -/
theorem ReachableUnder.invariant {I J : σ → Prop} (run : M.ReachableUnder ok s)
    (known : ∀ s, M.ReachableUnder ok s → J s)
    (initial : ∀ s, M.init s → I s)
    (step : ∀ s e, J s → I s → M.enabled s e → ok s e → I (M.apply s e)) : I s := by
  induction run with
  | start h0 => exact initial _ h0
  | next run he hok ih => exact step _ _ (known _ run) ih he hok

/-- The rule for unrestricted runs with no earlier fact. -/
theorem Reachable.invariant {I : σ → Prop} (run : M.Reachable s)
    (initial : ∀ s, M.init s → I s)
    (step : ∀ s e, I s → M.enabled s e → I (M.apply s e)) : I s :=
  ReachableUnder.invariant (J := fun _ => True) run (fun _ _ => trivial) initial
    fun s e _ hs he _ => step s e hs he

variable (M) in
/-- A list of events, each enabled and permitted in its turn. -/
def Permitted (ok : σ → ε → Prop) : σ → List ε → Prop
  | _, [] => True
  | s, e :: es => M.enabled s e ∧ ok s e ∧ Permitted ok (M.apply s e) es

/-- A given run can be checked by evaluation. -/
instance decidablePermitted [∀ s e, Decidable (M.enabled s e)] [∀ s e, Decidable (ok s e)] :
    ∀ s es, Decidable (M.Permitted ok s es)
  | _, [] => isTrue trivial
  | s, e :: es =>
      have := decidablePermitted (M.apply s e) es
      inferInstanceAs (Decidable (M.enabled s e ∧ ok s e ∧ M.Permitted ok (M.apply s e) es))

theorem Permitted.mono {es : List ε} (h : M.Permitted ok s es) (hok : ∀ s e, ok s e → ok' s e) :
    M.Permitted ok' s es := by
  induction es generalizing s with
  | nil => trivial
  | cons e es ih =>
      obtain ⟨he, hfirst, hes⟩ := h
      exact ⟨he, hok _ _ hfirst, ih hes⟩

theorem Permitted.append {es fs : List ε} (h : M.Permitted ok s es)
    (h' : M.Permitted ok (es.foldl M.apply s) fs) : M.Permitted ok s (es ++ fs) := by
  induction es generalizing s with
  | nil => exact h'
  | cons e es ih =>
      obtain ⟨he, hok, hes⟩ := h
      exact ⟨he, hok, ih hes h'⟩

theorem ReachableUnder.run (run : M.ReachableUnder ok s) (es : List ε)
    (h : M.Permitted ok s es) : M.ReachableUnder ok (es.foldl M.apply s) := by
  induction es generalizing s with
  | nil => exact run
  | cons e es ih =>
      obtain ⟨he, hok, hes⟩ := h
      exact ih (run.next he hok) hes

end Machine

end UnknownTunnel.Foundation
