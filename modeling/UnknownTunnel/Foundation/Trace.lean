import UnknownTunnel.Foundation.Program

/-!
# Programs that record what they do

A program may keep a record of its actions beside its state. The record does
not change what the program computes: without it, the program is one on the
state alone. What can be in the record is found by composing the parts of the
program.
-/

namespace UnknownTunnel.Foundation

variable {ε σ A α β : Type}

/-- A state and the actions so far. -/
structure Recorded (σ A : Type) where
  state : σ
  trace : List A

/-- A result without the record. -/
def forget : EStateM.Result ε (Recorded σ A) α → EStateM.Result ε σ α
  | .ok a s => .ok a s.state
  | .error e s => .error e s.state

/-- A program on the state alone. -/
def perform (m : EStateM ε σ α) : EStateM ε (Recorded σ A) α := fun s =>
  match m s.state with
  | .ok a t => .ok a { s with state := t }
  | .error e t => .error e { s with state := t }

def record (action : A) : EStateM ε (Recorded σ A) Unit := fun s =>
  .ok () { s with trace := s.trace ++ [action] }

/-- An action that is taken under a condition only. -/
def recordIf (p : Prop) [Decidable p] (action : A) : EStateM ε (Recorded σ A) Unit :=
  if p then record action else pure ()

theorem perform_of_ok {d : EStateM ε σ α} {s t : σ} {a : α} (h : d s = .ok a t)
    (trace : List A) : perform d ⟨s, trace⟩ = .ok a ⟨t, trace⟩ := by
  rw [perform, h]

theorem perform_of_error {d : EStateM ε σ α} {s t : σ} {e : ε} (h : d s = .error e t)
    (trace : List A) : perform d ⟨s, trace⟩ = .error e ⟨t, trace⟩ := by
  rw [perform, h]

theorem perform_get_bind (k : σ → EStateM ε (Recorded σ A) β) (s : Recorded σ A) :
    (perform MonadState.get >>= k) s = k s.state s := rfl

theorem record_bind (action : A) (k : Unit → EStateM ε (Recorded σ A) β) (s : Recorded σ A) :
    (record action >>= k) s = k () { s with trace := s.trace ++ [action] } := rfl

/-! ## Forgetting the record -/

/-- A program does on the state what a program without a record does. -/
def Erases (m : EStateM ε (Recorded σ A) α) (d : EStateM ε σ α) : Prop :=
  ∀ s, forget (m s) = d s.state

namespace Erases

theorem perform (d : EStateM ε σ α) :
    Erases (Foundation.perform d : EStateM ε (Recorded σ A) α) d := by
  intro s
  unfold Foundation.perform
  cases d s.state <;> rfl

theorem pure (a : α) :
    Erases (Pure.pure a : EStateM ε (Recorded σ A) α) (Pure.pure a : EStateM ε σ α) :=
  fun _ => rfl

theorem throw (e : ε) :
    Erases (MonadExcept.throw e : EStateM ε (Recorded σ A) α)
      (MonadExcept.throw e : EStateM ε σ α) :=
  fun _ => rfl

theorem bind {m : EStateM ε (Recorded σ A) α} {k : α → EStateM ε (Recorded σ A) β}
    {d : EStateM ε σ α} {c : α → EStateM ε σ β} (hm : Erases m d) (hk : ∀ a, Erases (k a) (c a)) :
    Erases (m >>= k) (d >>= c) := by
  intro s
  have hs := hm s
  cases h : m s with
  | ok a t =>
      rw [h] at hs
      rw [bind_of_ok h, bind_of_ok (s := s.state) hs.symm]
      exact hk a t
  | error e t =>
      rw [h] at hs
      rw [bind_of_error h, bind_of_error (s := s.state) hs.symm]
      rfl

theorem ite {p : Prop} [Decidable p] {m n : EStateM ε (Recorded σ A) α} {d c : EStateM ε σ α}
    (hm : p → Erases m d) (hn : ¬ p → Erases n c) :
    Erases (if p then m else n) (if p then d else c) := by
  split
  · rename_i hp
    exact hm hp
  · rename_i hp
    exact hn hp

/-- Recording does nothing to the state. -/
theorem record_then (action : A) {k : Unit → EStateM ε (Recorded σ A) α} {d : EStateM ε σ α}
    (hk : Erases (k ()) d) : Erases (record action >>= k) d :=
  fun s => hk { s with trace := s.trace ++ [action] }

theorem recordIf_then (p : Prop) [Decidable p] (action : A)
    {k : Unit → EStateM ε (Recorded σ A) α} {d : EStateM ε σ α} (hk : Erases (k ()) d) :
    Erases (recordIf p action >>= k) d := by
  unfold recordIf
  split
  · exact record_then action hk
  · exact hk

/-- A program that keeps the state and always returns is no program at all. -/
theorem of_keeps {m : EStateM ε (Recorded σ A) Unit}
    (hm : ∀ s, ∃ t, m s = .ok () t ∧ t.state = s.state) :
    Erases m (Pure.pure () : EStateM ε σ Unit) := by
  intro s
  obtain ⟨t, ht, hstate⟩ := hm s
  rw [ht, forget, hstate]
  rfl

theorem exits_iff {m : EStateM ε (Recorded σ A) α} {d : EStateM ε σ α} (h : Erases m d) {e : ε}
    {s : Recorded σ A} : Exits e m s ↔ Exits e d s.state := by
  have hs := h s
  cases hm : m s with
  | ok a t =>
      rw [hm] at hs
      simp [Exits, hm, ← hs, forget]
  | error e' t =>
      rw [hm] at hs
      simp [Exits, hm, ← hs, forget]

theorem after_iff {m : EStateM ε (Recorded σ A) α} {d : EStateM ε σ α} (h : Erases m d)
    {P : α → σ → Prop} {s : Recorded σ A} :
    After m (fun a t => P a t.state) s ↔ After d P s.state := by
  have hs := h s
  cases hm : m s with
  | ok a t =>
      rw [hm] at hs
      rw [after_of_ok hm, after_of_ok (s := s.state) hs.symm]
  | error e t =>
      rw [hm] at hs
      exact iff_of_false (not_after_of_error hm) (not_after_of_error (s := s.state) hs.symm)

theorem ok {m : EStateM ε (Recorded σ A) α} {d : EStateM ε σ α} (h : Erases m d)
    {s t : Recorded σ A} {a : α} (hm : m s = .ok a t) : d s.state = .ok a t.state := by
  rw [← h s, hm]
  rfl

end Erases

/-- A relation of the states alone. -/
def OnState (R : σ → σ → Prop) (s t : Recorded σ A) : Prop := R s.state t.state

instance (R : σ → σ → Prop) [IsPreorder σ R] : IsPreorder (Recorded σ A) (OnState R) where
  refl s := refl_of R s.state
  trans _ _ _ h h' := trans_of R h h'

theorem Erases.moves {m : EStateM ε (Recorded σ A) α} {d : EStateM ε σ α} {R : σ → σ → Prop}
    (h : Erases m d) (hd : Moves R d) : Moves (OnState R) m := by
  intro s
  have hs := hd s.state
  rw [← h s] at hs
  cases hm : m s with
  | ok a t =>
      rw [hm] at hs
      exact hs
  | error e t =>
      rw [hm] at hs
      exact hs

theorem Moves.perform {d : EStateM ε σ α} {R : σ → σ → Prop} (h : Moves R d) :
    Moves (OnState R) (Foundation.perform d : EStateM ε (Recorded σ A) α) :=
  (Erases.perform d).moves h

theorem Moves.record {R : σ → σ → Prop} [IsPreorder σ R] (action : A) :
    Moves (OnState R) (Foundation.record action : EStateM ε (Recorded σ A) Unit) :=
  fun s => refl_of R s.state

theorem Keeps.perform {d : EStateM ε σ α} (h : Keeps id d) :
    Keeps Recorded.state (Foundation.perform d : EStateM ε (Recorded σ A) α) := by
  intro s
  have hs := h s.state
  unfold Foundation.perform
  cases hd : d s.state <;> rw [hd] at hs <;> exact hs

theorem Keeps.record (action : A) :
    Keeps Recorded.state (Foundation.record action : EStateM ε (Recorded σ A) Unit) :=
  fun _ => rfl

theorem Never.perform {d : EStateM ε σ α} {e : ε} (h : Never e d) :
    Never e (Foundation.perform d : EStateM ε (Recorded σ A) α) :=
  fun s hexit => h s.state ((Erases.perform d).exits_iff.mp hexit)

theorem Never.record {e : ε} (action : A) :
    Never e (Foundation.record action : EStateM ε (Recorded σ A) Unit) := by
  rintro s ⟨t, h⟩
  cases h

theorem Finishes.perform {d : EStateM ε σ α} {e : ε} {R : σ → σ → Prop} (h : Finishes e R d) :
    Finishes e (OnState R) (Foundation.perform d : EStateM ε (Recorded σ A) α) :=
  ⟨h.never.perform, h.moves.perform⟩

theorem Finishes.record {e : ε} {R : σ → σ → Prop} [IsPreorder σ R] (action : A) :
    Finishes e (OnState R) (Foundation.record action : EStateM ε (Recorded σ A) Unit) :=
  ⟨Never.record action, Moves.record action⟩

/-! ## What is recorded -/

/-- Every action of a program has a property. -/
def Records (P : A → Prop) (m : EStateM ε (Recorded σ A) α) : Prop :=
  ∀ s, ∃ new, (finalState (m s)).trace = s.trace ++ new ∧ ∀ a ∈ new, P a

namespace Records

variable {P : A → Prop}

theorem of_trace_eq {m : EStateM ε (Recorded σ A) α}
    (h : ∀ s, (finalState (m s)).trace = s.trace) : Records P m := by
  intro s
  exact ⟨[], by rw [h, List.append_nil], fun a ha => absurd ha List.not_mem_nil⟩

theorem perform (d : EStateM ε σ α) :
    Records P (Foundation.perform d : EStateM ε (Recorded σ A) α) := by
  apply of_trace_eq
  intro s
  unfold Foundation.perform
  cases d s.state <;> rfl

theorem pure (a : α) : Records P (Pure.pure a : EStateM ε (Recorded σ A) α) :=
  of_trace_eq fun _ => rfl

theorem throw (e : ε) : Records P (MonadExcept.throw e : EStateM ε (Recorded σ A) α) :=
  of_trace_eq fun _ => rfl

theorem record {action : A} (h : P action) :
    Records P (Foundation.record action : EStateM ε (Recorded σ A) Unit) := by
  intro s
  refine ⟨[action], rfl, ?_⟩
  intro a ha
  rw [List.mem_singleton.mp ha]
  exact h

theorem bind {m : EStateM ε (Recorded σ A) α} {k : α → EStateM ε (Recorded σ A) β}
    (hm : Records P m) (hk : ∀ a, Records P (k a)) : Records P (m >>= k) := by
  intro s
  obtain ⟨first, hfirst, hP⟩ := hm s
  rcases bind_cases m k s with ⟨e, t, ht, hbind⟩ | ⟨a, t, ht, hbind⟩
  · rw [hbind]
    rw [ht] at hfirst
    exact ⟨first, hfirst, hP⟩
  · rw [ht] at hfirst
    obtain ⟨second, hsecond, hP'⟩ := hk a t
    refine ⟨first ++ second, ?_, ?_⟩
    · rw [hbind, hsecond, ← List.append_assoc]
      exact congrArg (· ++ second) hfirst
    · intro b hb
      rcases List.mem_append.mp hb with hb | hb
      · exact hP b hb
      · exact hP' b hb

theorem ite {p : Prop} [Decidable p] {m n : EStateM ε (Recorded σ A) α} (hm : p → Records P m)
    (hn : ¬ p → Records P n) : Records P (if p then m else n) := by
  split
  · rename_i hp
    exact hm hp
  · rename_i hp
    exact hn hp

theorem recordIf {p : Prop} [Decidable p] {action : A} (h : p → P action) :
    Records P (Foundation.recordIf p action : EStateM ε (Recorded σ A) Unit) :=
  ite (fun hp => record (h hp)) fun _ => pure ()

/-- A record with the property keeps it. -/
theorem forall_final {m : EStateM ε (Recorded σ A) α} (h : Records P m) {s : Recorded σ A}
    (hs : ∀ a ∈ s.trace, P a) : ∀ a ∈ (finalState (m s)).trace, P a := by
  obtain ⟨new, hnew, hP⟩ := h s
  rw [hnew]
  intro a ha
  rcases List.mem_append.mp ha with ha | ha
  · exact hs a ha
  · exact hP a ha

theorem forall_trace {m : EStateM ε (Recorded σ A) α} (h : Records P m) (s : σ) :
    ∀ a ∈ (finalState (m ⟨s, []⟩)).trace, P a :=
  h.forall_final fun _ ha => absurd ha List.not_mem_nil

/-- The record keeps what is in it. -/
theorem mem_trace {m : EStateM ε (Recorded σ A) α} (h : Records P m) {s : Recorded σ A} {a : A}
    (ha : a ∈ s.trace) : a ∈ (finalState (m s)).trace := by
  obtain ⟨new, hnew, -⟩ := h s
  rw [hnew]
  exact List.mem_append_left new ha

end Records

end UnknownTunnel.Foundation
