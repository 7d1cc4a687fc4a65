import UnknownTunnel.Foundation.Machine

/-!
# Progress along permitted runs

A machine can be led from a state to a goal if some run of permitted steps
ends there. Such runs are composed, and repeated as long as a measure of what
is missing goes down. Conversely, a measure that every step of some kind takes
down bounds how many such steps any run has.
-/

namespace UnknownTunnel.Foundation.Machine

variable {σ ε : Type*} {M : Machine σ ε} {ok : σ → ε → Prop} {s : σ} {P Q : σ → Prop}

variable (M) in
/-- Some permitted run ends in a state with the property. -/
def CanReach (ok : σ → ε → Prop) (s : σ) (P : σ → Prop) : Prop :=
  ∃ es, M.Permitted ok s es ∧ P (es.foldl M.apply s)

namespace CanReach

theorem here (h : P s) : M.CanReach ok s P := ⟨[], trivial, h⟩

theorem step (e : ε) (he : M.enabled s e) (hok : ok s e)
    (h : M.CanReach ok (M.apply s e) P) : M.CanReach ok s P := by
  obtain ⟨es, hes, hP⟩ := h
  exact ⟨e :: es, ⟨he, hok, hes⟩, hP⟩

/-- One step to a state that is known in another form. -/
theorem step_to (e : ε) {t : σ} (he : M.enabled s e) (hok : ok s e) (ht : M.apply s e = t)
    (h : M.CanReach ok t P) : M.CanReach ok s P :=
  step e he hok (ht ▸ h)

theorem trans (h : M.CanReach ok s P) (hnext : ∀ t, P t → M.CanReach ok t Q) :
    M.CanReach ok s Q := by
  obtain ⟨es, hes, hP⟩ := h
  obtain ⟨fs, hfs, hQ⟩ := hnext _ hP
  exact ⟨es ++ fs, hes.append hfs, by rwa [List.foldl_append]⟩

/-- A goal is reached if every round that does not end there can be followed
by one with less to do. -/
theorem of_measure (missing : σ → Nat)
    (round : ∀ t, P t → Q t ∨ M.CanReach ok t fun u => P u ∧ missing u < missing t)
    (h : P s) : M.CanReach ok s Q := by
  induction hn : missing s using Nat.strongRecOn generalizing s with
  | ind n ih =>
      obtain hgoal | hround := round s h
      · exact here hgoal
      · refine hround.trans ?_
        rintro u ⟨hu, hless⟩
        exact ih (missing u) (hn ▸ hless) hu rfl

end CanReach

/-- If the steps that count take the measure down and no other step takes it
up, a run has at most as many of them as the measure says. -/
theorem Permitted.countP_add_le (I : σ → Prop) (measure : σ → Nat) (counts : ε → Bool)
    (step : ∀ s e, I s → M.enabled s e → ok s e →
      I (M.apply s e) ∧ (if counts e then 1 else 0) + measure (M.apply s e) ≤ measure s)
    {es : List ε} (hes : M.Permitted ok s es) (hI : I s) :
    I (es.foldl M.apply s) ∧
      es.countP counts + measure (es.foldl M.apply s) ≤ measure s := by
  induction es generalizing s with
  | nil => exact ⟨hI, by simp⟩
  | cons e es ih =>
      obtain ⟨he, hok, hes⟩ := hes
      obtain ⟨hnext, hless⟩ := step s e hI he hok
      obtain ⟨hend, hrest⟩ := ih hes hnext
      refine ⟨hend, ?_⟩
      rw [List.countP_cons, List.foldl_cons]
      omega

end UnknownTunnel.Foundation.Machine
