import UnknownTunnel.Transport.Manager

/-!
# The manager's table of sessions

`addSession`, `removeSession`, `Send` and `Close` at the grain of their
critical sections. A session is closed outside the lock, so an operation that
has taken a session out of the table, or refused it, still has to close it. A
session that is neither stored nor closed always has such an operation.

## Implementation notes

A session may be passed to `addSession` more than once. The context is `none`
for a manager that was not started. Which sessions `Close` was called on,
which ones were passed to `addSession` and whether the table was cleared are
history variables; so is the number of sessions that have entered the critical
section of `addSession`, after which the manager's own model numbers them.
-/

namespace UnknownTunnel.Transport

open Foundation

/-- The position of an operation that has not returned. -/
inductive TableOp
  /-- `addSession` before its critical section. -/
  | adding (session : Nat)
  /-- `addSession` on a manager without a live context, about to close. -/
  | refused (session : Nat)
  /-- `addSession` past its critical section, with the session it replaced. -/
  | added (session : Nat) (old : Option Nat)
  /-- `Send` past its look at the table. -/
  | sending (kind : Carrier) (session : Nat)
  /-- `removeSession` before its critical section. -/
  | removing (kind : Carrier) (session : Nat)
  /-- `removeSession` past its critical section, about to close. -/
  | removed (session : Nat)
  /-- `Close` before it cancels the context. -/
  | cancelling
  /-- `Close` before its critical section. -/
  | clearing
  deriving DecidableEq

/-- The operation still has to close the session, or to decide about it. -/
def TableOp.answersFor (s : Nat) : TableOp → Prop
  | .adding t | .refused t | .removed t => t = s
  | .added t old => old = some s ∧ s ≠ t
  | _ => False

/-- The table of a manager and the operations under way on it. -/
structure SessionTable where
  sessions : Table Carrier Nat
  context : Option Bool
  ops : List TableOp
  watched : List Nat
  passed : List Nat
  closed : Nat → Bool
  cleared : Bool
  locked : Nat

/-- The critical sections of the operations, and the calls between them. -/
inductive TableEvent
  | addSession (session : Nat)
  | addLock (session : Nat)
  | refuseClose (session : Nat)
  | replaceClose (session : Nat) (old : Option Nat)
  | sendRead (kind : Carrier) (session : Nat)
  | sendReturn (kind : Carrier) (session : Nat) (ok : Bool)
  | watchDone (session : Nat)
  | watchCancel (session : Nat)
  | watchReturn (session : Nat)
  | removeLock (kind : Carrier) (session : Nat)
  | removeClose (session : Nat)
  | close
  | closeCancel
  | closeLock
  | cancelParent
  | clientClose (session : Nat)

namespace SessionTable

/-- A manager as `NewManager` makes it, started or not. -/
def fresh (started : Bool) : SessionTable where
  sessions := ∅
  context := if started then some false else none
  ops := []
  watched := []
  passed := []
  closed := fun _ => false
  cleared := false
  locked := 0

/-- The manager has a context, which is not cancelled. -/
def live (T : SessionTable) : Bool := T.context = some false

/-- Call `Close` on a session. -/
def closeSession (T : SessionTable) (session : Nat) : Nat → Bool :=
  fun s => T.closed s || s = session

/-- Whether the table holds a session, under any kind. -/
def stores (T : SessionTable) (session : Nat) : Bool :=
  Finmap.lookup .tcp T.sessions = some session || Finmap.lookup .udp T.sessions = some session

/-- When a step can be taken. -/
def enabled (T : SessionTable) : TableEvent → Prop
  | .addSession _ | .close | .cancelParent => True
  | .addLock s => .adding s ∈ T.ops
  | .refuseClose s => .refused s ∈ T.ops
  | .replaceClose s old => .added s old ∈ T.ops
  | .sendRead kind s => Finmap.lookup kind T.sessions = some s
  | .sendReturn kind s _ => .sending kind s ∈ T.ops
  | .watchDone s => s ∈ T.watched
  | .watchCancel s | .watchReturn s => s ∈ T.watched ∧ T.context = some true
  | .removeLock kind s => .removing kind s ∈ T.ops
  | .removeClose s => .removed s ∈ T.ops
  | .closeCancel => .cancelling ∈ T.ops
  | .closeLock => .clearing ∈ T.ops
  | .clientClose s => s ∈ T.passed ∧ T.context = some true

instance decidableEnabled (T : SessionTable) : ∀ e, Decidable (T.enabled e)
  | .addSession _ | .close | .cancelParent => isTrue trivial
  | .addLock s => inferInstanceAs (Decidable (.adding s ∈ T.ops))
  | .refuseClose s => inferInstanceAs (Decidable (.refused s ∈ T.ops))
  | .replaceClose s old => inferInstanceAs (Decidable (.added s old ∈ T.ops))
  | .sendRead k s => inferInstanceAs (Decidable (Finmap.lookup k T.sessions = some s))
  | .sendReturn k s _ => inferInstanceAs (Decidable (.sending k s ∈ T.ops))
  | .watchDone s => inferInstanceAs (Decidable (s ∈ T.watched))
  | .watchCancel s | .watchReturn s =>
      inferInstanceAs (Decidable (s ∈ T.watched ∧ T.context = some true))
  | .removeLock k s => inferInstanceAs (Decidable (.removing k s ∈ T.ops))
  | .removeClose s => inferInstanceAs (Decidable (.removed s ∈ T.ops))
  | .closeCancel => inferInstanceAs (Decidable (.cancelling ∈ T.ops))
  | .closeLock => inferInstanceAs (Decidable (.clearing ∈ T.ops))
  | .clientClose s => inferInstanceAs (Decidable (s ∈ T.passed ∧ T.context = some true))

variable (kind : Nat → Carrier)

/-- The table after a step; `kind` is the carrier of each session. -/
def apply (T : SessionTable) : TableEvent → SessionTable
  | .addSession s => { T with ops := .adding s :: T.ops, passed := s :: T.passed }
  | .addLock s =>
      if T.live then
        { T with
          sessions := T.sessions.insert (kind s) s
          ops := .added s (Finmap.lookup (kind s) T.sessions) :: T.ops.erase (.adding s)
          locked := T.locked + 1 }
      else
        { T with ops := .refused s :: T.ops.erase (.adding s), locked := T.locked + 1 }
  | .refuseClose s => { T with ops := T.ops.erase (.refused s), closed := T.closeSession s }
  | .replaceClose s old =>
      { T with
        ops := T.ops.erase (.added s old)
        watched := s :: T.watched
        closed := match old with
          | some o => if o ≠ s then T.closeSession o else T.closed
          | none => T.closed }
  | .sendRead k s => { T with ops := .sending k s :: T.ops }
  | .sendReturn k s true => { T with ops := T.ops.erase (.sending k s) }
  | .sendReturn k s false => { T with ops := .removing k s :: T.ops.erase (.sending k s) }
  | .watchDone s =>
      { T with watched := T.watched.erase s, ops := .removing (kind s) s :: T.ops }
  | .watchCancel s => { T with watched := T.watched.erase s, closed := T.closeSession s }
  | .watchReturn s => { T with watched := T.watched.erase s }
  | .removeLock k s =>
      { T with
        sessions := if Finmap.lookup k T.sessions = some s then T.sessions.erase k
          else T.sessions
        ops := .removed s :: T.ops.erase (.removing k s) }
  | .removeClose s => { T with ops := T.ops.erase (.removed s), closed := T.closeSession s }
  | .close => { T with ops := .cancelling :: T.ops }
  | .closeCancel =>
      { T with
        context := T.context.map fun _ => true
        ops := .clearing :: T.ops.erase .cancelling }
  | .closeLock =>
      { T with
        sessions := ∅
        ops := T.ops.erase .clearing
        closed := fun s => T.closed s || T.stores s
        cleared := true }
  | .cancelParent => { T with context := T.context.map fun _ => true }
  | .clientClose s => { T with closed := T.closeSession s }

end SessionTable

/-- The operations in any interleaving. -/
def tableMachine (kind : Nat → Carrier) : Machine SessionTable TableEvent where
  init T := ∃ started, T = SessionTable.fresh started
  enabled := SessionTable.enabled
  apply := SessionTable.apply kind

instance (kind : Nat → Carrier) : ∀ T e, Decidable ((tableMachine kind).enabled T e) :=
  SessionTable.decidableEnabled

namespace SessionTable

variable {kind : Nat → Carrier} {T : SessionTable} {e : TableEvent}

/-! ## What each step can do -/

/-- The operation a step takes to its next position. -/
def consumes : TableEvent → Option TableOp
  | .addLock s => some (.adding s)
  | .refuseClose s => some (.refused s)
  | .replaceClose s old => some (.added s old)
  | .sendReturn k s _ => some (.sending k s)
  | .removeLock k s => some (.removing k s)
  | .removeClose s => some (.removed s)
  | .closeCancel => some .cancelling
  | .closeLock => some .clearing
  | _ => none

/-- Every other operation stays where it is. -/
theorem mem_ops_apply (kind : Nat → Carrier) (e : TableEvent) {op : TableOp} (h : op ∈ T.ops) :
    op ∈ (T.apply kind e).ops ∨ consumes e = some op := by
  by_cases hc : consumes e = some op
  · exact Or.inr hc
  · left
    have hkeep : ∀ old, consumes e = some old → op ∈ T.ops.erase old := by
      intro old hold
      have hne : op ≠ old := by
        rintro rfl
        exact hc hold
      exact (List.mem_erase_of_ne hne).mpr h
    cases e with
    | addLock s =>
        simp only [apply]
        split <;> exact List.mem_cons_of_mem _ (hkeep _ rfl)
    | sendReturn k s ok =>
        cases ok with
        | true => exact hkeep _ rfl
        | false => exact List.mem_cons_of_mem _ (hkeep _ rfl)
    | removeLock k s | closeCancel => exact List.mem_cons_of_mem _ (hkeep _ rfl)
    | refuseClose s | replaceClose s old | removeClose s | closeLock => exact hkeep _ rfl
    | addSession s | sendRead k s | watchDone s | close => exact List.mem_cons_of_mem _ h
    | watchCancel s | watchReturn s | cancelParent | clientClose s => exact h

/-- A session that was closed stays closed. -/
theorem closed_apply {s : Nat} (h : T.closed s = true) : (T.apply kind e).closed s = true := by
  cases e with
  | addLock t =>
      simp only [apply]
      split <;> exact h
  | replaceClose t old =>
      simp only [apply]
      split
      · split
        · simp [closeSession, h]
        · exact h
      · exact h
  | sendReturn k t ok => cases ok <;> exact h
  | refuseClose t | watchCancel t | removeClose t | clientClose t =>
      simp [apply, closeSession, h]
  | closeLock => simp [apply, h]
  | _ => exact h

/-- What a step can do to the table. -/
inductive TableMove (kind : Nat → Carrier) (T : SessionTable) (e : TableEvent) : Prop
  | same (h : (T.apply kind e).sessions = T.sessions)
  | stored (s : Nat) (he : e = .addLock s) (hl : T.live = true)
      (h : (T.apply kind e).sessions = T.sessions.insert (kind s) s)
      (hop : .added s (Finmap.lookup (kind s) T.sessions) ∈ (T.apply kind e).ops)
  | removed (k : Carrier) (s : Nat) (he : e = .removeLock k s)
      (hs : Finmap.lookup k T.sessions = some s)
      (h : (T.apply kind e).sessions = T.sessions.erase k)
      (hop : .removed s ∈ (T.apply kind e).ops)
  | emptied (he : e = .closeLock) (h : (T.apply kind e).sessions = ∅)
      (hc : (T.apply kind e).closed = fun s => T.closed s || T.stores s)

theorem table_move (kind : Nat → Carrier) (T : SessionTable) (e : TableEvent) :
    TableMove kind T e := by
  cases e with
  | addLock s =>
      by_cases hl : T.live = true
      · refine .stored s rfl hl ?_ ?_ <;> simp [apply, hl]
      · refine .same ?_
        simp [apply, hl]
  | removeLock k s =>
      by_cases hs : Finmap.lookup k T.sessions = some s
      · refine .removed k s rfl hs ?_ ?_ <;> simp [apply, hs]
      · refine .same ?_
        simp [apply, hs]
  | closeLock => exact .emptied rfl rfl rfl
  | sendReturn k s ok => cases ok <;> exact .same rfl
  | _ => exact .same rfl

/-! ## Stored, closed or about to be closed -/

/-- A session is stored under its kind, or was closed, or an operation answers
for it. -/
def Kept (kind : Nat → Carrier) (T : SessionTable) (s : Nat) : Prop :=
  Finmap.lookup (kind s) T.sessions = some s ∨ T.closed s = true ∨
    ∃ op ∈ T.ops, op.answersFor s

theorem stores_of_lookup {k : Carrier} {s : Nat} (h : Finmap.lookup k T.sessions = some s) :
    T.stores s = true := by
  cases k <;> simp [stores, h]

/-- A session that leaves its place in the table is handed to an operation. -/
theorem kept_of_stored {s : Nat} (h : Finmap.lookup (kind s) T.sessions = some s) :
    (T.apply kind e).Kept kind s := by
  cases table_move kind T e with
  | same hs => exact Or.inl (hs ▸ h)
  | stored t he hl hs hop =>
      by_cases hk : kind s = kind t
      · by_cases hst : s = t
        · subst hst
          exact Or.inl (by rw [hs, Finmap.lookup_insert])
        · rw [← hk, h] at hop
          exact Or.inr (Or.inr ⟨_, hop, rfl, hst⟩)
      · exact Or.inl (by rw [hs, Finmap.lookup_insert_of_ne _ hk, h])
  | removed k t he hl hs hop =>
      by_cases hk : kind s = k
      · have hst : t = s := Option.some.inj (hl.symm.trans (hk ▸ h))
        exact Or.inr (Or.inr ⟨_, hop, hst⟩)
      · exact Or.inl (by rw [hs, Finmap.lookup_erase_ne hk, h])
  | emptied he hs hc =>
      exact Or.inr (Or.inl (by simp [hc, stores_of_lookup h]))

/-- An operation that answers for a session and moves on has stored it, has
closed it, or still answers for it. -/
theorem kept_of_consumed {op : TableOp} {s : Nat} (hc : consumes e = some op)
    (ha : op.answersFor s) : (T.apply kind e).Kept kind s := by
  cases e with
  | addLock t =>
      cases hc
      cases ha
      by_cases hl : T.live = true
      · exact Or.inl (by simp [apply, hl])
      · refine Or.inr (Or.inr ⟨.refused s, ?_, rfl⟩)
        simp [apply, hl]
  | refuseClose t | removeClose t =>
      cases hc
      cases ha
      exact Or.inr (Or.inl (by simp [apply, closeSession]))
  | replaceClose t old =>
      cases hc
      obtain ⟨rfl, hne⟩ := ha
      exact Or.inr (Or.inl (by simp [apply, closeSession, hne]))
  | sendReturn k t ok | removeLock k t | closeCancel | closeLock =>
      cases hc
      cases ha
  | _ => cases hc

theorem Kept.apply {s : Nat} (h : T.Kept kind s) : (T.apply kind e).Kept kind s := by
  rcases h with h | h | ⟨op, hop, ha⟩
  · exact kept_of_stored h
  · exact Or.inr (Or.inl (closed_apply h))
  · rcases mem_ops_apply kind e hop with hop' | hc
    · exact Or.inr (Or.inr ⟨op, hop', ha⟩)
    · exact kept_of_consumed hc ha

/-- What holds in every reached state. -/
structure Sound (kind : Nat → Carrier) (T : SessionTable) : Prop where
  kept : ∀ s ∈ T.passed, T.Kept kind s
  clearing : .clearing ∈ T.ops → T.live = false
  cleared : T.cleared = true → T.live = false ∧ T.sessions = ∅

theorem sound_fresh (started : Bool) : (fresh started).Sound kind where
  kept := nofun
  clearing := nofun
  cleared := nofun

/-- A context that is not live never becomes live. -/
theorem live_apply (h : T.live = false) : (T.apply kind e).live = false := by
  cases e with
  | closeCancel | cancelParent => simp [live, SessionTable.apply]
  | addLock s =>
      simp only [SessionTable.apply]
      split <;> exact h
  | sendReturn k s ok => cases ok <;> exact h
  | _ => exact h

theorem mem_passed_apply {s : Nat} (h : s ∈ (T.apply kind e).passed) :
    s ∈ T.passed ∨ .adding s ∈ (T.apply kind e).ops := by
  cases e with
  | addSession t =>
      rcases List.mem_cons.mp h with rfl | h
      · exact Or.inr List.mem_cons_self
      · exact Or.inl h
  | addLock t =>
      simp only [SessionTable.apply] at h
      split at h <;> exact Or.inl h
  | sendReturn k t ok => cases ok <;> exact Or.inl h
  | _ => exact Or.inl h

/-- Only the cancelling step of `Close` brings it before its critical section. -/
theorem clearing_of_apply (h : .clearing ∈ (T.apply kind e).ops) :
    .clearing ∈ T.ops ∨ e = .closeCancel := by
  cases e with
  | addLock t =>
      simp only [SessionTable.apply] at h
      split at h <;> exact Or.inl (by simpa using h)
  | closeCancel => exact Or.inr rfl
  | closeLock => exact Or.inl (List.mem_of_mem_erase h)
  | sendReturn k t ok => cases ok <;> exact Or.inl (by simpa [SessionTable.apply] using h)
  | _ => exact Or.inl (by simpa [SessionTable.apply] using h)

theorem cleared_apply : (T.apply kind e).cleared = true ↔ T.cleared = true ∨ e = .closeLock := by
  cases e with
  | addLock t =>
      simp only [SessionTable.apply]
      split <;> simp
  | sendReturn k t ok => cases ok <;> simp [SessionTable.apply]
  | _ => simp [SessionTable.apply]

theorem Sound.apply (h : T.Sound kind) (he : T.enabled e) : (T.apply kind e).Sound kind where
  kept := by
    intro s hs
    rcases mem_passed_apply hs with hs | hs
    · exact (h.kept s hs).apply
    · exact Or.inr (Or.inr ⟨_, hs, rfl⟩)
  clearing := by
    intro hc
    rcases clearing_of_apply hc with hc | rfl
    · exact live_apply (h.clearing hc)
    · cases hctx : T.context <;> simp [live, SessionTable.apply, hctx]
  cleared := by
    intro hc
    rcases cleared_apply.mp hc with hc | rfl
    · obtain ⟨hlive, hempty⟩ := h.cleared hc
      refine ⟨live_apply hlive, ?_⟩
      cases table_move kind T e with
      | same hs => rw [hs, hempty]
      | stored t he hl hs hop =>
          rw [hlive] at hl
          cases hl
      | removed k t he hl hs hop =>
          rw [hempty] at hl
          simp at hl
      | emptied he hs hc => exact hs
    · exact ⟨live_apply (h.clearing he), rfl⟩

theorem sound_of_reachable (run : (tableMachine kind).Reachable T) : T.Sound kind := by
  apply run.invariant
  · rintro T ⟨started, rfl⟩
    exact sound_fresh started
  · intro T e h he
    exact h.apply he

end SessionTable

/-- The session an operation refers to is one of the first `n` to have entered
`addSession`'s critical section, and has the kind it is looked up under. -/
def TableOp.refers (kind : Nat → Carrier) (n : Nat) : TableOp → Prop
  | .sending k s | .removing k s => s < n ∧ k = kind s
  | .added s _ => s < n
  | _ => True

theorem TableOp.refers.succ {kind : Nat → Carrier} {n : Nat} {op : TableOp}
    (h : op.refers kind n) : op.refers kind (n + 1) := by
  cases op with
  | sending k s | removing k s => exact ⟨Nat.lt_succ_of_lt h.1, h.2⟩
  | added s old => exact Nat.lt_succ_of_lt h
  | _ => trivial

namespace SessionTable

variable {kind : Nat → Carrier} {T : SessionTable} {e : TableEvent}

/-! ## The manager's model -/

/-- Sessions are numbered in the order in which they enter `addSession`'s
critical section. -/
def NamedInOrder (T : SessionTable) : TableEvent → Prop
  | .addLock s => s = T.locked
  | _ => True

/-- Entries, operations and goroutines refer to sessions that have entered. -/
structure Referring (kind : Nat → Carrier) (T : SessionTable) : Prop where
  stored : ∀ k s, Finmap.lookup k T.sessions = some s → s < T.locked ∧ k = kind s
  ops : ∀ op ∈ T.ops, op.refers kind T.locked
  watched : ∀ s ∈ T.watched, s < T.locked

theorem Referring.apply (h : T.Referring kind) (he : T.enabled e) (hok : T.NamedInOrder e) :
    (T.apply kind e).Referring kind := by
  obtain ⟨hstored, hops, hwatched⟩ := h
  have herase : ∀ old, ∀ op ∈ T.ops.erase old, op.refers kind T.locked :=
    fun old op hop => hops op (List.mem_of_mem_erase hop)
  have hunwatch : ∀ s, ∀ t ∈ T.watched.erase s, t < T.locked :=
    fun s t ht => hwatched t (List.mem_of_mem_erase ht)
  cases e with
  | addSession s | close => exact ⟨hstored, List.forall_mem_cons.mpr ⟨trivial, hops⟩, hwatched⟩
  | addLock s =>
      cases hok
      have hstored' : ∀ k s, Finmap.lookup k T.sessions = some s →
          s < T.locked + 1 ∧ k = kind s :=
        fun k s hs => ⟨Nat.lt_succ_of_lt (hstored k s hs).1, (hstored k s hs).2⟩
      have hops' : ∀ op ∈ T.ops.erase (.adding T.locked), op.refers kind (T.locked + 1) :=
        fun op hop => (herase _ op hop).succ
      have hwatched' : ∀ s ∈ T.watched, s < T.locked + 1 :=
        fun s hs => Nat.lt_succ_of_lt (hwatched s hs)
      simp only [SessionTable.apply]
      split
      · refine ⟨?_, List.forall_mem_cons.mpr ⟨Nat.lt_succ_self _, hops'⟩, hwatched'⟩
        intro k t ht
        rw [Table.lookup_insert_eq] at ht
        split at ht
        · rename_i hk
          cases ht
          exact ⟨Nat.lt_succ_self _, hk⟩
        · exact hstored' k t ht
      · exact ⟨hstored', List.forall_mem_cons.mpr ⟨trivial, hops'⟩, hwatched'⟩
  | replaceClose s old =>
      exact ⟨hstored, herase _, List.forall_mem_cons.mpr ⟨hops _ he, hwatched⟩⟩
  | sendRead k s =>
      exact ⟨hstored, List.forall_mem_cons.mpr ⟨hstored k s he, hops⟩, hwatched⟩
  | sendReturn k s ok =>
      cases ok with
      | true => exact ⟨hstored, herase _, hwatched⟩
      | false =>
          have hrefers : s < T.locked ∧ k = kind s := hops (.sending k s) he
          exact ⟨hstored, List.forall_mem_cons.mpr ⟨hrefers, herase _⟩, hwatched⟩
  | watchDone s =>
      exact ⟨hstored, List.forall_mem_cons.mpr ⟨⟨hwatched s he, rfl⟩, hops⟩, hunwatch s⟩
  | watchCancel s | watchReturn s => exact ⟨hstored, hops, hunwatch s⟩
  | removeLock k s =>
      refine ⟨?_, List.forall_mem_cons.mpr ⟨trivial, herase _⟩, hwatched⟩
      intro k' t ht
      simp only [SessionTable.apply] at ht
      split at ht
      · rw [Table.lookup_erase_eq] at ht
        split at ht
        · cases ht
        · exact hstored k' t ht
      · exact hstored k' t ht
  | closeCancel =>
      exact ⟨hstored, List.forall_mem_cons.mpr ⟨trivial, herase _⟩, hwatched⟩
  | closeLock => exact ⟨fun k s hs => by simp [SessionTable.apply] at hs, herase _, hwatched⟩
  | refuseClose s | removeClose s => exact ⟨hstored, herase _, hwatched⟩
  | cancelParent | clientClose s => exact ⟨hstored, hops, hwatched⟩

theorem referring_of_reachable (run : (tableMachine kind).ReachableUnder NamedInOrder T) :
    T.Referring kind := by
  apply run.invariant (J := fun _ => True) (fun _ _ => trivial)
  · rintro T ⟨started, rfl⟩
    refine ⟨?_, nofun, nofun⟩
    intro k s hs
    simp [fresh] at hs
  · intro T e _ h he hok
    exact h.apply he hok

/-- The manager's state that has this table. -/
structure Abstracts (kind : Nat → Carrier) (T : SessionTable) (M : Manager) : Prop where
  sessions : M.sessions = T.sessions
  cancelled : M.cancelled = !T.live
  count : M.objects.length = T.locked
  kinds : ∀ i o, M.objects[i]? = some o → o.kind = kind i

/-- Steps of the manager do not change the kind of a session. -/
theorem kind_objectAfter {M : Manager} {e : ManagerEvent} (he : M.enabled e) {j : Nat}
    {o : ManagedSession} (ho : M.objects[j]? = some o) : (M.objectAfter e j o).kind = o.kind := by
  apply Manager.objectAfter_induction he ho (motive := fun p => p.kind = o.kind)
  · intro p hp
    cases hp <;> rfl
  · intro p hp
    rw [ManagedSession.finish]
    split <;> exact hp

/-- A step of the manager that adds no session. -/
theorem Abstracts.manager_step {M : Manager} (h : T.Abstracts kind M) {t : SessionTable}
    {e : ManagerEvent} (he : M.enabled e) (hobjects : (M.control e).objects = M.objects)
    (hsessions : (M.control e).sessions = t.sessions)
    (hcancelled : (M.control e).cancelled = !t.live) (hcount : t.locked = T.locked) :
    t.Abstracts kind (M.apply e) where
  sessions := hsessions
  cancelled := hcancelled
  count := by simp [Manager.apply, hobjects, hcount, h.count]
  kinds := by
    intro i o' ho'
    simp only [Manager.apply, List.getElem?_mapIdx, hobjects, Option.map_eq_some_iff] at ho'
    obtain ⟨o, ho, rfl⟩ := ho'
    rw [kind_objectAfter he ho]
    exact h.kinds i o ho

/-- A step that the manager's model does not have. -/
theorem Abstracts.stutter {M : Manager} (h : T.Abstracts kind M) {t : SessionTable}
    (hsessions : t.sessions = T.sessions) (hlive : t.live = T.live)
    (hcount : t.locked = T.locked) : t.Abstracts kind M where
  sessions := hsessions ▸ h.sessions
  cancelled := hlive ▸ h.cancelled
  count := hcount ▸ h.count
  kinds := h.kinds

/-- Each critical section is one step of the manager's model. -/
theorem Abstracts.step {M : Manager} (h : T.Abstracts kind M) (hs : T.Sound kind)
    (hr : T.Referring kind) (he : T.enabled e) (hok : T.NamedInOrder e) :
    (T.apply kind e).Abstracts kind M ∨
      ∃ e', M.enabled e' ∧ (T.apply kind e).Abstracts kind (M.apply e') := by
  cases e with
  | addLock s =>
      cases hok
      have hlive : (T.apply kind (.addLock T.locked)).live = T.live := by
        simp only [SessionTable.apply]
        split <;> rfl
      have hadd : M.enabled (.add (kind T.locked) [] false) := Nat.zero_le _
      refine Or.inr ⟨.add (kind T.locked) [] false, hadd, ?_, hlive ▸ h.cancelled, ?_, ?_⟩
      · cases hl : T.live <;>
          simp [Manager.apply, Manager.control, SessionTable.apply, h.cancelled, hl, h.sessions,
            h.count]
      · cases hl : T.live <;>
          simp [Manager.apply, Manager.control, SessionTable.apply, hl, h.count]
      · intro i o' ho'
        rcases Manager.object_apply ho' with ⟨o, ho, hmoved⟩ | ⟨rfl, k, queued, finished, hnew, rfl⟩
        · rw [hmoved, kind_objectAfter hadd ho]
          exact h.kinds i o ho
        · cases hnew
          rw [h.count]
          rfl
  | removeLock k s =>
      obtain ⟨hlt, rfl⟩ := hr.ops _ he
      have hlen : s < M.objects.length := h.count ▸ hlt
      refine Or.inr ⟨.sendFailed s, hlen, ?_⟩
      refine h.manager_step hlen rfl ?_ h.cancelled rfl
      have hobject : M.objects[s]? = some M.objects[s] := List.getElem?_eq_getElem hlen
      have hkind := h.kinds s _ hobject
      simp only [Manager.control, Manager.removeEntry, hobject, h.sessions, SessionTable.apply]
      rw [hkind]
  | closeCancel =>
      exact Or.inr ⟨.cancel, trivial, h.manager_step trivial rfl h.sessions
        (by simp [Manager.control, SessionTable.apply, live]) rfl⟩
  | cancelParent =>
      exact Or.inr ⟨.cancel, trivial, h.manager_step trivial rfl h.sessions
        (by simp [Manager.control, SessionTable.apply, live]) rfl⟩
  | closeLock =>
      have hcancelled : M.cancelled = true := by rw [h.cancelled, hs.clearing he]; rfl
      exact Or.inr ⟨.closeTable, hcancelled, h.manager_step hcancelled rfl rfl h.cancelled rfl⟩
  | sendReturn k s ok => cases ok <;> exact Or.inl (h.stutter rfl rfl rfl)
  | _ => exact Or.inl (h.stutter rfl rfl rfl)

/-- The table of every run is the table of a run of the manager's model. -/
theorem exists_manager (run : (tableMachine kind).ReachableUnder NamedInOrder T) :
    ∃ M, managerMachine.Reachable M ∧ T.Abstracts kind M := by
  induction run with
  | @start T h =>
      obtain ⟨started, rfl⟩ := h
      have hstart : managerMachine.Reachable Manager.start := .start rfl
      cases started with
      | true => exact ⟨Manager.start, hstart, rfl, rfl, rfl, nofun⟩
      | false =>
          exact ⟨Manager.start.apply .cancel, hstart.next trivial trivial, rfl, rfl, rfl, nofun⟩
  | @next T e run he hok ih =>
      obtain ⟨M, hM, h⟩ := ih
      rcases h.step (sound_of_reachable run.reachable) (referring_of_reachable run) he hok with
        h' | ⟨e', he', h'⟩
      · exact ⟨M, hM, h'⟩
      · exact ⟨M.apply e', hM.next he' trivial, h'⟩

end SessionTable

/-- The manager's table over every interleaving. When no operation is midway,
each session that was ever passed to `addSession` is stored under its kind or
was closed; the removal of one session leaves every other entry in place; and
once `Close` has cleared the table it stays empty, with every session that was
passed to `addSession`, before or after, closed. -/
theorem manager_keeps_or_closes {kind : Nat → Carrier} {T : SessionTable}
    (run : (tableMachine kind).Reachable T) :
    (T.ops = [] → ∀ s ∈ T.passed,
      Finmap.lookup (kind s) T.sessions = some s ∨ T.closed s = true) ∧
    (∀ k s, T.enabled (.removeLock k s) → ∀ k' t, t ≠ s →
      Finmap.lookup k' T.sessions = some t →
        Finmap.lookup k' (T.apply kind (.removeLock k s)).sessions = some t) ∧
    (T.cleared = true → T.sessions = ∅ ∧ (∀ e, (T.apply kind e).cleared = true) ∧
      (T.ops = [] → ∀ s ∈ T.passed, T.closed s = true)) := by
  have h := SessionTable.sound_of_reachable run
  have hkept : T.ops = [] → ∀ s ∈ T.passed,
      Finmap.lookup (kind s) T.sessions = some s ∨ T.closed s = true := by
    intro hops s hs
    rcases h.kept s hs with hstored | hclosed | ⟨op, hop, -⟩
    · exact Or.inl hstored
    · exact Or.inr hclosed
    · rw [hops] at hop
      cases hop
  refine ⟨hkept, ?_, ?_⟩
  · intro k s _ k' t hne ht
    simp only [SessionTable.apply]
    split
    · rename_i hs
      have hk : k' ≠ k := by
        rintro rfl
        exact hne (Option.some.inj (ht.symm.trans hs))
      rw [Finmap.lookup_erase_ne hk, ht]
    · exact ht
  · intro hcleared
    obtain ⟨-, hempty⟩ := h.cleared hcleared
    refine ⟨hempty, fun e => SessionTable.cleared_apply.mpr (Or.inl hcleared), ?_⟩
    intro hops s hs
    rcases hkept hops s hs with hstored | hclosed
    · rw [hempty] at hstored
      simp at hstored
    · exact hclosed

namespace SessionTable

/-- A second TCP session replaces the first one, whose end is then noticed. -/
def replacedSession : List TableEvent :=
  [.addSession 0, .addLock 0, .replaceClose 0 none, .addSession 1, .addLock 1,
    .replaceClose 1 (some 0), .watchDone 0, .removeLock .tcp 0, .removeClose 0]

def afterReplacement : SessionTable :=
  replacedSession.foldl (apply fun _ => .tcp) (fresh true)

end SessionTable

theorem manager_keeps_or_closes_replaced :
    SessionTable.afterReplacement.passed = [1, 0] ∧
    (Finmap.lookup .tcp SessionTable.afterReplacement.sessions = some 1 ∨
      SessionTable.afterReplacement.closed 1 = true) := by
  have run : (tableMachine fun _ => .tcp).Reachable SessionTable.afterReplacement := by
    have hinit : (tableMachine fun _ => .tcp).init (SessionTable.fresh true) := ⟨true, rfl⟩
    refine Machine.ReachableUnder.run (.start hinit) SessionTable.replacedSession ?_
    decide +kernel
  exact ⟨rfl, (manager_keeps_or_closes run).1 rfl 1 (by decide +kernel)⟩

end UnknownTunnel.Transport
