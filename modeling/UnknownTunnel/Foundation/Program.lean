import Mathlib.Logic.Basic
import Mathlib.Order.Defs.Unbundled

/-!
# Programs with a state and early exits

A program of the monad `EStateM` ends with a value or with an exit, and in
either case with a state. A program moves along a relation if the state at its
end, whichever end that is, is in that relation to the one at its beginning.
Programs that move along a preorder compose. One such relation is that a part
of the state is the same; a program that follows one that keeps the part starts
with the part it had.

A program has an outcome under an invariant if it gives one and the same value
from all states of the invariant and keeps the invariant, or never a value.

Where an exit stands for something to be avoided, a sequence of programs has it
from a state exactly if its first part has it, or the second part has it after
the first. A program whose values satisfy a condition gives only such values.
-/

namespace UnknownTunnel.Foundation

variable {ε σ α β : Type} {γ : Type*}

/-- The state in which a program ends. -/
def finalState : EStateM.Result ε σ α → σ
  | .ok _ s => s
  | .error _ s => s

/-- A program leads from every state to one that is in a relation to it. -/
def Moves (R : σ → σ → Prop) (m : EStateM ε σ α) : Prop := ∀ s, R s (finalState (m s))

namespace Moves

variable {R : σ → σ → Prop}

/-- A relation that allows more. -/
theorem mono {R' : σ → σ → Prop} {m : EStateM ε σ α} (h : Moves R m)
    (hR : ∀ s t, R s t → R' s t) : Moves R' m :=
  fun s => hR _ _ (h s)

theorem ite {p : Prop} [Decidable p] {m n : EStateM ε σ α} (hm : p → Moves R m)
    (hn : ¬ p → Moves R n) : Moves R (if p then m else n) := by
  split
  · rename_i hp
    exact hm hp
  · rename_i hp
    exact hn hp

variable [IsPreorder σ R]

theorem pure (a : α) : Moves R (Pure.pure a : EStateM ε σ α) := fun s => refl_of R s

theorem throw (e : ε) : Moves R (MonadExcept.throw e : EStateM ε σ α) := fun s => refl_of R s

theorem get : Moves R (MonadState.get : EStateM ε σ σ) := fun s => refl_of R s

theorem bind {m : EStateM ε σ α} {k : α → EStateM ε σ β} (hm : Moves R m)
    (hk : ∀ a, Moves R (k a)) : Moves R (m >>= k) := by
  intro s
  have hs := hm s
  change R s (finalState (EStateM.bind m k s))
  unfold EStateM.bind
  cases h : m s with
  | ok a s' =>
      rw [h] at hs
      exact trans_of R hs (hk a s')
  | error e s' =>
      rw [h] at hs
      exact hs

end Moves

/-- A program keeps a part of the state. -/
def Keeps (part : σ → γ) (m : EStateM ε σ α) : Prop :=
  ∀ s, part (finalState (m s)) = part s

/-- A part of the state is the same. -/
instance instIsPreorderPart (part : σ → γ) : IsPreorder σ fun s t => part t = part s where
  refl _ := rfl
  trans _ _ _ h h' := h'.trans h

namespace Keeps

variable {part : σ → γ}

theorem pure (a : α) : Keeps part (Pure.pure a : EStateM ε σ α) := fun _ => rfl

theorem throw (e : ε) : Keeps part (MonadExcept.throw e : EStateM ε σ α) := fun _ => rfl

theorem get : Keeps part (MonadState.get : EStateM ε σ σ) := fun _ => rfl

theorem bind {m : EStateM ε σ α} {k : α → EStateM ε σ β} (hm : Keeps part m)
    (hk : ∀ a, Keeps part (k a)) : Keeps part (m >>= k) :=
  Moves.bind (R := fun s t => part t = part s) hm hk

theorem ite {p : Prop} [Decidable p] {m n : EStateM ε σ α} (hm : p → Keeps part m)
    (hn : ¬ p → Keeps part n) : Keeps part (if p then m else n) :=
  Moves.ite (R := fun s t => part t = part s) hm hn

/-- The part is the same after a program that returns. -/
theorem ok {m : EStateM ε σ α} (h : Keeps part m) {s s' : σ} {a : α} (hm : m s = .ok a s') :
    part s' = part s := by
  simpa [hm, finalState] using h s

theorem error {m : EStateM ε σ α} (h : Keeps part m) {s s' : σ} {e : ε}
    (hm : m s = .error e s') : part s' = part s := by
  simpa [hm, finalState] using h s

end Keeps

/-- A program in sequence ends as its first part does, or as the second part
does after it. -/
theorem bind_cases (m : EStateM ε σ α) (k : α → EStateM ε σ β) (s : σ) :
    (∃ e s', m s = .error e s' ∧ (m >>= k) s = .error e s') ∨
    ∃ a s', m s = .ok a s' ∧ (m >>= k) s = k a s' := by
  change (∃ e s', m s = .error e s' ∧ EStateM.bind m k s = .error e s') ∨
    ∃ a s', m s = .ok a s' ∧ EStateM.bind m k s = k a s'
  unfold EStateM.bind
  cases h : m s with
  | ok a s' => exact Or.inr ⟨a, s', rfl, rfl⟩
  | error e s' => exact Or.inl ⟨e, s', rfl, rfl⟩

theorem bind_eq_ok {m : EStateM ε σ α} {k : α → EStateM ε σ β} {s t : σ} {b : β}
    (h : (m >>= k) s = .ok b t) : ∃ a s', m s = .ok a s' ∧ k a s' = .ok b t := by
  rcases bind_cases m k s with ⟨e, s', -, hbind⟩ | ⟨a, s', hm, hbind⟩
  · rw [h] at hbind
    cases hbind
  · exact ⟨a, s', hm, hbind ▸ h⟩

theorem bind_of_ok {m : EStateM ε σ α} {k : α → EStateM ε σ β} {s s' : σ} {a : α}
    (h : m s = .ok a s') : (m >>= k) s = k a s' := by
  change EStateM.bind m k s = k a s'
  unfold EStateM.bind
  rw [h]

theorem bind_of_error {m : EStateM ε σ α} {k : α → EStateM ε σ β} {s s' : σ} {e : ε}
    (h : m s = .error e s') : (m >>= k) s = .error e s' := by
  change EStateM.bind m k s = .error e s'
  unfold EStateM.bind
  rw [h]

/-- What a program gives from every state of an invariant. -/
def Outcome (I : σ → Prop) (m : EStateM ε σ α) : Option α → Prop
  | some a => ∀ s, I s → ∃ s', m s = .ok a s' ∧ I s'
  | none => ∀ s, I s → ∃ e s', m s = .error e s'

namespace Outcome

variable {I : σ → Prop} {m : EStateM ε σ α} {k : α → EStateM ε σ β} {o : Option β}

theorem pure (a : α) : Outcome I (Pure.pure a : EStateM ε σ α) (some a) :=
  fun s hs => ⟨s, rfl, hs⟩

theorem throw (e : ε) : Outcome I (MonadExcept.throw e : EStateM ε σ α) none :=
  fun s _ => ⟨e, s, rfl⟩

/-- After a program with a value comes what follows that value. -/
theorem bind {a : α} (hm : Outcome I m (some a)) (hk : Outcome I (k a) o) :
    Outcome I (m >>= k) o := by
  cases o with
  | some b =>
      intro s hs
      obtain ⟨s', hm', hs'⟩ := hm s hs
      rw [bind_of_ok hm']
      exact hk s' hs'
  | none =>
      intro s hs
      obtain ⟨s', hm', hs'⟩ := hm s hs
      rw [bind_of_ok hm']
      exact hk s' hs'

theorem bind_none (hm : Outcome I m none) : Outcome I (m >>= k) none := by
  intro s hs
  obtain ⟨e, s', hm'⟩ := hm s hs
  exact ⟨e, s', bind_of_error hm'⟩

/-- A program may look at the state. -/
theorem get {k : σ → EStateM ε σ β} (hk : ∀ s, I s → Outcome I (k s) o) :
    Outcome I (MonadState.get >>= k) o := by
  have hget : ∀ s, (MonadState.get >>= k) s = k s s := fun s => bind_of_ok rfl
  cases o with
  | some b =>
      intro s hs
      rw [hget]
      exact hk s hs s hs
  | none =>
      intro s hs
      rw [hget]
      exact hk s hs s hs

/-- The outcome is the value that a run gives. -/
theorem eq_some {o : Option α} (h : Outcome I m o) {s s' : σ} {a : α} (hs : I s)
    (hm : m s = .ok a s') : o = some a := by
  cases o with
  | some b =>
      obtain ⟨t, hb, -⟩ := h s hs
      rw [hm] at hb
      cases hb
      rfl
  | none =>
      obtain ⟨e, t, he⟩ := h s hs
      rw [hm] at he
      cases he

end Outcome

/-! ## Exits -/

/-- A program ends with a given exit. -/
def Exits (e : ε) (m : EStateM ε σ α) (s : σ) : Prop := ∃ s', m s = .error e s'

/-- A program gives a value after which something is the case. -/
def After (m : EStateM ε σ α) (P : α → σ → Prop) (s : σ) : Prop :=
  ∃ a s', m s = .ok a s' ∧ P a s'

section Exits

variable {e : ε} {s : σ} {m : EStateM ε σ α} {k : α → EStateM ε σ β}

theorem exits_bind_iff :
    Exits e (m >>= k) s ↔ Exits e m s ∨ After m (fun a => Exits e (k a)) s := by
  rcases bind_cases m k s with ⟨e', t, hm, hbind⟩ | ⟨a, t, hm, hbind⟩
  · simp [Exits, After, hm, hbind]
  · constructor
    · rintro ⟨s', h⟩
      exact Or.inr ⟨a, t, hm, s', hbind.symm.trans h⟩
    · rintro (⟨s', h⟩ | ⟨b, t', h, s', hk⟩)
      · rw [hm] at h
        cases h
      · rw [hm] at h
        cases h
        exact ⟨s', hbind.trans hk⟩

theorem not_exits_pure (a : α) : ¬ Exits e (Pure.pure a : EStateM ε σ α) s := by
  rintro ⟨s', h⟩
  cases h

theorem not_exits_get : ¬ Exits e (MonadState.get : EStateM ε σ σ) s := by
  rintro ⟨s', h⟩
  cases h

theorem not_exits_throw {e' : ε} (h : e' ≠ e) :
    ¬ Exits e (MonadExcept.throw e' : EStateM ε σ α) s := by
  rintro ⟨s', heq⟩
  cases heq
  exact h rfl

end Exits

/-- A program never ends with a given exit. -/
def Never (e : ε) (m : EStateM ε σ α) : Prop := ∀ s, ¬ Exits e m s

/-- The values that a program gives. -/
def Gives (P : α → Prop) (m : EStateM ε σ α) : Prop := ∀ s a s', m s = .ok a s' → P a

namespace Never

variable {e : ε} {m n : EStateM ε σ α} {k : α → EStateM ε σ β}

theorem pure (a : α) : Never e (Pure.pure a : EStateM ε σ α) := fun _ => not_exits_pure a

theorem get : Never e (MonadState.get : EStateM ε σ σ) := fun _ => not_exits_get

theorem throw {e' : ε} (h : e' ≠ e) : Never e (MonadExcept.throw e' : EStateM ε σ α) :=
  fun _ => not_exits_throw h

theorem bind (hm : Never e m) (hk : ∀ a, Never e (k a)) : Never e (m >>= k) := by
  intro s h
  rcases exits_bind_iff.mp h with h | ⟨a, s', -, h⟩
  · exact hm s h
  · exact hk a s' h

theorem ite {p : Prop} [Decidable p] (hm : p → Never e m) (hn : ¬ p → Never e n) :
    Never e (if p then m else n) := by
  split
  · rename_i hp
    exact hm hp
  · rename_i hp
    exact hn hp

end Never

/-- A program never ends with a given exit, and moves along a relation. -/
structure Finishes (e : ε) (R : σ → σ → Prop) (m : EStateM ε σ α) : Prop where
  never : Never e m
  moves : Moves R m

namespace Finishes

variable {e : ε} {R : σ → σ → Prop} {m n : EStateM ε σ α} {k : α → EStateM ε σ β}

theorem ite {p : Prop} [Decidable p] (hm : p → Finishes e R m) (hn : ¬ p → Finishes e R n) :
    Finishes e R (if p then m else n) :=
  ⟨Never.ite (fun hp => (hm hp).never) fun hp => (hn hp).never,
    Moves.ite (fun hp => (hm hp).moves) fun hp => (hn hp).moves⟩

variable [IsPreorder σ R]

theorem pure (a : α) : Finishes e R (Pure.pure a : EStateM ε σ α) := ⟨Never.pure a, Moves.pure a⟩

theorem get : Finishes e R (MonadState.get : EStateM ε σ σ) := ⟨Never.get, Moves.get⟩

theorem bind (hm : Finishes e R m) (hk : ∀ a, Finishes e R (k a)) : Finishes e R (m >>= k) :=
  ⟨Never.bind hm.never fun a => (hk a).never, Moves.bind hm.moves fun a => (hk a).moves⟩

end Finishes

section After

variable {e : ε} {s : σ} {m : EStateM ε σ α} {k : α → EStateM ε σ β} {G : α → Prop}
variable {P Q : α → σ → Prop}

theorem after_of_ok {a : α} {t : σ} (hm : m s = .ok a t) : After m P s ↔ P a t := by
  constructor
  · rintro ⟨a', t', h, hP⟩
    rw [hm] at h
    cases h
    exact hP
  · intro hP
    exact ⟨a, t, hm, hP⟩

theorem not_after_of_error {t : σ} (hm : m s = .error e t) : ¬ After m P s := by
  rintro ⟨a, t', h, -⟩
  rw [hm] at h
  cases h

theorem after_get {P : σ → σ → Prop} : After (MonadState.get : EStateM ε σ σ) P s ↔ P s s :=
  after_of_ok rfl

/-- Only the values that the program gives matter. -/
theorem after_congr (hG : Gives G m) (h : ∀ a, G a → ∀ t, P a t ↔ Q a t) :
    After m P s ↔ After m Q s := by
  constructor
  · rintro ⟨a, t, hm, hP⟩
    exact ⟨a, t, hm, (h a (hG s a t hm) t).mp hP⟩
  · rintro ⟨a, t, hm, hQ⟩
    exact ⟨a, t, hm, (h a (hG s a t hm) t).mpr hQ⟩

theorem not_after (hG : Gives G m) (h : ∀ a, G a → ∀ t, ¬ P a t) : ¬ After m P s := by
  rintro ⟨a, t, hm, hP⟩
  exact h a (hG s a t hm) t hP

theorem exits_bind_of_never (hm : Never e m) :
    Exits e (m >>= k) s ↔ After m (fun a => Exits e (k a)) s :=
  exits_bind_iff.trans (or_iff_right (hm s))

theorem exits_bind_of_gives (hG : Gives G m) (hk : ∀ a, G a → Never e (k a)) :
    Exits e (m >>= k) s ↔ Exits e m s :=
  exits_bind_iff.trans (or_iff_left (not_after hG hk))

end After

namespace Gives

variable {P : α → Prop} {Q : β → Prop} {m n : EStateM ε σ α} {k : α → EStateM ε σ β}

theorem pure {a : α} (h : P a) : Gives P (Pure.pure a : EStateM ε σ α) := by
  intro s b s' hb
  cases hb
  exact h

theorem throw (e : ε) : Gives P (MonadExcept.throw e : EStateM ε σ α) := by
  intro s b s' hb
  cases hb

theorem bind (hm : Gives P m) (hk : ∀ a, P a → Gives Q (k a)) : Gives Q (m >>= k) := by
  intro s b s' hb
  rcases bind_cases m k s with ⟨e, t, -, hbind⟩ | ⟨a, t, hm', hbind⟩
  · rw [hbind] at hb
    cases hb
  · rw [hbind] at hb
    exact hk a (hm s a t hm') t b s' hb

theorem any (m : EStateM ε σ α) : Gives (fun _ => True) m := fun _ _ _ _ => trivial

theorem ite {p : Prop} [Decidable p] (hm : p → Gives P m) (hn : ¬ p → Gives P n) :
    Gives P (if p then m else n) := by
  split
  · rename_i hp
    exact hm hp
  · rename_i hp
    exact hn hp

end Gives

end UnknownTunnel.Foundation
