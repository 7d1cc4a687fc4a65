import UnknownTunnel.Foundation.Crew
import UnknownTunnel.Foundation.Progress
import UnknownTunnel.Foundation.Spacing

/-!
# The loop of the client

`clientLoop` dials, adds the session it gets, waits until the session is done,
sleeps and dials again. It sleeps longer after a dial that failed, and it
returns when the manager is closed. The dials are kept apart, the loop has at
most one session that is not done, and once the manager is closed the loop
returns without another dial and leaves no session open.

## Implementation notes

Each step is taken at a time, in nanoseconds, and the clock does not go back.
When a dial returns, and whether with a session, is a choice of the step. A
session is seen as the loop sees it: whether its done channel is ready. A select
takes any of its ready branches. The rounds of the loop are a history, newest
first.
-/

namespace UnknownTunnel.Transport

open Foundation

def second : Nat := 1000000000

/-- Where `clientLoop` stands. -/
inductive ClientStage
  | checking
  | dialing
  | adding (session : Nat)
  | watching (session : Nat)
  /-- In `sleepContext`, whose timer fires at the given time. -/
  | sleeping (wake : Nat)
  | returned
  deriving DecidableEq

/-- One round: when its dial began, whether it failed, and when the dial failed
or the session was found done. -/
structure ClientRound where
  started : Nat
  failed : Bool
  ended : Option Nat
  deriving DecidableEq

/-- The loop of a client on one carrier, with the rounds it has made. -/
structure ClientLoop where
  now : Nat
  cancelled : Bool
  stage : ClientStage
  /-- For each session the loop has got, whether it is done. -/
  sessions : List Bool
  rounds : List ClientRound
  deriving DecidableEq

/-- What the loop does, and what ends its waits. -/
inductive ClientStep
  | check
  | dialFailed
  | dialed (finished : Bool)
  | addSession (session : Nat)
  | watchCancel (session : Nat)
  | watchDone (session : Nat)
  | wake
  | sleepCancel
  | finish (session : Nat)
  | cancel
  deriving DecidableEq

/-- A step and the time at which it is taken. -/
structure ClientEvent where
  step : ClientStep
  time : Nat

/-- The session the loop is about to add or watches. -/
def ClientStage.session : ClientStage → Option Nat
  | .adding session | .watching session => some session
  | _ => none

/-- The steps of the loop itself. -/
def ClientStep.ofLoop : ClientStep → Bool
  | .finish _ | .cancel => false
  | _ => true

/-- How long the loop sleeps after the round. -/
def ClientRound.pause (r : ClientRound) : Nat := if r.failed then 2 * second else second

/-- The newest round has ended. -/
def endRound (failed : Bool) (time : Nat) : List ClientRound → List ClientRound
  | [] => []
  | r :: rest => { r with failed := failed, ended := some time } :: rest

namespace ClientLoop

/-- What a step does, besides moving the clock. `addSession` closes the session
of a manager that was closed. -/
def after (S : ClientLoop) (time : Nat) : ClientStep → ClientLoop
  | .check =>
      if S.cancelled then { S with stage := .returned }
      else { S with stage := .dialing, rounds := ⟨time, false, none⟩ :: S.rounds }
  | .dialFailed =>
      { S with stage := .sleeping (time + 2 * second), rounds := endRound true time S.rounds }
  | .dialed finished =>
      { S with stage := .adding S.sessions.length, sessions := S.sessions ++ [finished] }
  | .addSession session =>
      { S with
        stage := .watching session
        sessions := if S.cancelled then S.sessions.set session true else S.sessions }
  | .watchCancel session =>
      { S with stage := .returned, sessions := S.sessions.set session true }
  | .watchDone _ =>
      { S with stage := .sleeping (time + second), rounds := endRound false time S.rounds }
  | .wake => { S with stage := .checking }
  | .sleepCancel => { S with stage := .returned }
  | .finish session => { S with sessions := S.sessions.set session true }
  | .cancel => { S with cancelled := true }

def apply (S : ClientLoop) (e : ClientEvent) : ClientLoop :=
  { S.after e.time e.step with now := e.time }

/-- When a step can be taken. -/
def ready (S : ClientLoop) (time : Nat) : ClientStep → Prop
  | .check => S.stage = .checking
  | .dialFailed | .dialed _ => S.stage = .dialing
  | .addSession session => S.stage = .adding session
  | .watchCancel session => S.stage = .watching session ∧ S.cancelled = true
  | .watchDone session => S.stage = .watching session ∧ S.sessions[session]? = some true
  | .wake => match S.stage with
      | .sleeping wake => wake ≤ time
      | _ => False
  | .sleepCancel => match S.stage with
      | .sleeping _ => S.cancelled = true
      | _ => False
  | .finish _ | .cancel => True

def enabled (S : ClientLoop) (e : ClientEvent) : Prop := S.now ≤ e.time ∧ S.ready e.time e.step

end ClientLoop

/-- The loop under a clock. Sessions finish and the context is cancelled at any time. -/
def clientMachine : Machine ClientLoop ClientEvent where
  init := fun S => S.stage = .checking ∧ S.sessions = [] ∧ S.rounds = []
  enabled := ClientLoop.enabled
  apply := ClientLoop.apply

/-! ## Rounds -/

/-- The later round began after the sleep that followed the earlier one. -/
def ClientRound.Follows (later earlier : ClientRound) : Prop :=
  ∃ ended, earlier.ended = some ended ∧ earlier.started ≤ ended ∧
    ended + earlier.pause ≤ later.started

theorem ClientRound.second_le_pause (r : ClientRound) : second ≤ r.pause := by
  unfold pause
  split <;> omega

theorem isChain_endRound {rounds : List ClientRound} (h : rounds.IsChain ClientRound.Follows)
    (failed : Bool) (time : Nat) : (endRound failed time rounds).IsChain ClientRound.Follows := by
  cases rounds with
  | nil => exact h
  | cons r rest =>
      cases rest with
      | nil => exact List.isChain_singleton _
      | cons earlier rest =>
          obtain ⟨hfollows, hrest⟩ := List.isChain_cons_cons.mp h
          exact List.isChain_cons_cons.mpr ⟨hfollows, hrest⟩

theorem length_endRound (failed : Bool) (time : Nat) (rounds : List ClientRound) :
    (endRound failed time rounds).length = rounds.length := by
  cases rounds <;> rfl

theorem apart_of_follows {rounds : List ClientRound} (h : rounds.IsChain ClientRound.Follows) :
    Apart second (rounds.map ClientRound.started) := by
  induction rounds with
  | nil => exact List.isChain_nil
  | cons later rest ih =>
      cases rest with
      | nil => exact List.isChain_singleton _
      | cons earlier rest =>
          obtain ⟨⟨ended, -, hstarted, hslept⟩, hrest⟩ := List.isChain_cons_cons.mp h
          have hpause := earlier.second_le_pause
          exact List.isChain_cons_cons.mpr ⟨by omega, ih hrest⟩

namespace ClientLoop

variable {S : ClientLoop} {e : ClientEvent}

/-- What the newest round says about the present, at each stage. -/
def Consistent (S : ClientLoop) : Prop :=
  match S.stage with
  | .checking => ∀ r ∈ S.rounds.head?, ∃ ended, r.ended = some ended ∧ r.started ≤ ended ∧
      ended + r.pause ≤ S.now
  | .dialing | .adding _ | .watching _ => ∃ r ∈ S.rounds.head?, r.started ≤ S.now
  | .sleeping wake => ∃ r ∈ S.rounds.head?, ∃ ended, r.ended = some ended ∧ r.started ≤ ended ∧
      ended + r.pause = wake
  | .returned => True

/-- Rounds follow one another, and a session that is not done is the one the
loop is about to add or watches. -/
structure Sound (S : ClientLoop) : Prop where
  rounds : S.rounds.IsChain ClientRound.Follows
  present : S.Consistent
  sessions : ∀ i, S.sessions[i]? = some false → S.stage.session = some i

theorem getElem?_set_true {l : List Bool} {i j : Nat} (h : (l.set i true)[j]? = some false) :
    j ≠ i ∧ l[j]? = some false :=
  (Crew.getElem?_set h).resolve_left fun hset => by cases hset.2

/-- The clock moves without harm. -/
theorem Consistent.later (h : S.Consistent) {time : Nat} (htime : S.now ≤ time) :
    ({ S with now := time } : ClientLoop).Consistent := by
  unfold Consistent at h ⊢
  cases hs : S.stage with
  | checking =>
      simp only [hs] at h ⊢
      intro r hr
      obtain ⟨ended, hended, hstarted, hslept⟩ := h r hr
      exact ⟨ended, hended, hstarted, hslept.trans htime⟩
  | dialing | adding session | watching session =>
      simp only [hs] at h ⊢
      obtain ⟨r, hr, hstarted⟩ := h
      exact ⟨r, hr, hstarted.trans htime⟩
  | sleeping wake =>
      simp only [hs] at h ⊢
      exact h
  | returned => simp only

/-- The end of a round, and the sleep after it. -/
theorem consistent_endRound {r : ClientRound} (hr : r ∈ S.rounds.head?)
    {time : Nat} (hstarted : r.started ≤ time) (failed : Bool) :
    ∃ r' ∈ (endRound failed time S.rounds).head?, ∃ ended, r'.ended = some ended ∧
      r'.started ≤ ended ∧ ended + r'.pause = time + if failed then 2 * second else second := by
  cases hrounds : S.rounds with
  | nil => simp [hrounds] at hr
  | cons r₀ rest =>
      rw [hrounds] at hr
      obtain rfl := Option.some.inj hr
      exact ⟨_, rfl, time, rfl, hstarted, rfl⟩

namespace Sound

theorem session_of_finished (h : S.Sound) (hstage : S.stage.session = none) (P : Nat → Prop) :
    ∀ i, S.sessions[i]? = some false → P i := by
  intro i hi
  have hsession := h.sessions i hi
  rw [hstage] at hsession
  cases hsession

theorem apply (h : S.Sound) (he : S.enabled e) : (S.apply e).Sound := by
  obtain ⟨step, time⟩ := e
  obtain ⟨htime, hready⟩ := he
  simp only at htime hready
  have hpresent := h.present
  cases step with
  | check =>
      simp only [ready] at hready
      simp only [Consistent, hready] at hpresent
      simp only [ClientLoop.apply, after]
      split
      · exact ⟨h.rounds, trivial, h.session_of_finished (by rw [hready]; rfl) _⟩
      · refine ⟨?_, ⟨_, rfl, le_rfl⟩, h.session_of_finished (by rw [hready]; rfl) _⟩
        refine List.isChain_cons.mpr ⟨?_, h.rounds⟩
        intro r hr
        obtain ⟨ended, hended, hstarted, hslept⟩ := hpresent r hr
        exact ⟨ended, hended, hstarted, hslept.trans htime⟩
  | dialFailed =>
      simp only [ready] at hready
      simp only [Consistent, hready] at hpresent
      obtain ⟨r, hr, hstarted⟩ := hpresent
      exact ⟨isChain_endRound h.rounds true time,
        consistent_endRound hr (hstarted.trans htime) true,
        h.session_of_finished (by rw [hready]; rfl) _⟩
  | dialed finished =>
      simp only [ready] at hready
      simp only [Consistent, hready] at hpresent
      obtain ⟨r, hr, hstarted⟩ := hpresent
      refine ⟨h.rounds, ⟨r, hr, hstarted.trans htime⟩, ?_⟩
      intro i hi
      obtain ⟨rfl, -⟩ | ⟨-, hold⟩ := Crew.getElem?_concat hi
      · rfl
      · exact h.session_of_finished (by rw [hready]; rfl) (_ = some ·) i hold
  | addSession session =>
      simp only [ready] at hready
      simp only [Consistent, hready] at hpresent
      obtain ⟨r, hr, hstarted⟩ := hpresent
      refine ⟨h.rounds, ⟨r, hr, hstarted.trans htime⟩, ?_⟩
      intro i hi
      have hold : S.sessions[i]? = some false := by
        simp only [ClientLoop.apply, after] at hi
        split at hi
        · exact (getElem?_set_true hi).2
        · exact hi
      have hsession := h.sessions i hold
      rw [hready] at hsession
      exact hsession
  | watchCancel session =>
      obtain ⟨hstage, -⟩ := hready
      refine ⟨h.rounds, trivial, ?_⟩
      intro i hi
      obtain ⟨hne, hold⟩ := getElem?_set_true hi
      have hsession := h.sessions i hold
      rw [hstage] at hsession
      exact absurd (Option.some.inj hsession).symm hne
  | watchDone session =>
      obtain ⟨hstage, hdone⟩ := hready
      simp only [Consistent, hstage] at hpresent
      obtain ⟨r, hr, hstarted⟩ := hpresent
      refine ⟨isChain_endRound h.rounds false time,
        consistent_endRound hr (hstarted.trans htime) false, ?_⟩
      intro i hi
      have hsession := h.sessions i hi
      rw [hstage] at hsession
      obtain rfl := Option.some.inj hsession
      exact absurd (hdone.symm.trans hi) (by decide)
  | wake =>
      simp only [ready] at hready
      split at hready
      · rename_i wake hstage
        simp only [Consistent, hstage] at hpresent
        obtain ⟨r, hr, ended, hended, hstarted, hslept⟩ := hpresent
        refine ⟨h.rounds, ?_, h.session_of_finished (by rw [hstage]; rfl) _⟩
        intro r' hr'
        obtain rfl := Option.mem_unique hr hr'
        exact ⟨ended, hended, hstarted, hslept.trans_le hready⟩
      · exact hready.elim
  | sleepCancel =>
      simp only [ready] at hready
      split at hready
      · rename_i wake hstage
        exact ⟨h.rounds, trivial, h.session_of_finished (by rw [hstage]; rfl) _⟩
      · exact hready.elim
  | finish session =>
      refine ⟨h.rounds, hpresent.later htime, ?_⟩
      intro i hi
      exact h.sessions i (getElem?_set_true hi).2
  | cancel => exact ⟨h.rounds, hpresent.later htime, h.sessions⟩

end Sound

theorem sound_of_reachable (run : clientMachine.Reachable S) : S.Sound := by
  refine run.invariant ?_ fun S e h he => h.apply he
  rintro S ⟨hstage, hsessions, hrounds⟩
  refine ⟨by rw [hrounds]; exact List.isChain_nil, ?_, ?_⟩
  · simp only [Consistent, hstage, hrounds]
    intro r hr
    cases hr
  · intro i hi
    simp [hsessions] at hi

end ClientLoop

/-- In every run, a round of the loop begins only after the sleep that follows
the round before it, so that no more dials begin than seconds pass, and a
session that is not done is the one that the loop is about to add or watches. -/
theorem client_loop_paced (S : ClientLoop) (run : clientMachine.Reachable S) :
    S.rounds.IsChain ClientRound.Follows ∧
    (∀ start n, (S.rounds.map ClientRound.started).countP
      (fun t => decide (start ≤ t ∧ t < start + n * second)) ≤ n) ∧
    ∀ i, S.sessions[i]? = some false → S.stage.session = some i := by
  have h := ClientLoop.sound_of_reachable run
  exact ⟨h.rounds, (apart_of_follows h.rounds).countP_le, h.sessions⟩

/-- A loop whose first dial failed and whose second one gave a session. -/
def retriedLoop : ClientLoop :=
  { now := 4 * second
    cancelled := false
    stage := .watching 0
    sessions := [false]
    rounds := [⟨3 * second, false, none⟩, ⟨0, true, some second⟩] }

theorem retriedLoop_reachable : clientMachine.Reachable retriedLoop := by
  have start : clientMachine.Reachable ⟨0, false, .checking, [], []⟩ := .start ⟨rfl, rfl, rfl⟩
  refine start.run [⟨.check, 0⟩, ⟨.dialFailed, second⟩, ⟨.wake, 3 * second⟩, ⟨.check, 3 * second⟩,
    ⟨.dialed false, 4 * second⟩, ⟨.addSession 0, 4 * second⟩]
    ⟨⟨by decide, rfl⟩, trivial, ⟨by decide, rfl⟩, trivial, ⟨by decide, ?_⟩, trivial,
      ⟨by decide, rfl⟩, trivial, ⟨by decide, rfl⟩, trivial, ⟨by decide, rfl⟩, trivial, trivial⟩
  show second + 2 * second ≤ 3 * second
  decide

theorem client_loop_paced_retried :
    retriedLoop.rounds.IsChain ClientRound.Follows ∧ retriedLoop.stage.session = some 0 := by
  have h := client_loop_paced retriedLoop retriedLoop_reachable
  exact ⟨h.1, h.2.2 0 rfl⟩

/-! ## The end of the loop -/

/-- How many steps the loop can still take after the manager was closed. -/
def ClientStage.left : ClientStage → Nat
  | .returned => 0
  | .checking => 1
  | .sleeping _ => 2
  | .watching _ => 3
  | .adding _ => 4
  | .dialing => 5

namespace ClientLoop

variable {S : ClientLoop} {e : ClientEvent}

/-- After the manager was closed a step of the loop brings it closer to its
end, and starts no dial. -/
theorem step_left (he : S.enabled e) (hc : S.cancelled = true) :
    (S.apply e).cancelled = true ∧ (S.apply e).rounds.length = S.rounds.length ∧
      (if e.step.ofLoop then 1 else 0) + (S.apply e).stage.left ≤ S.stage.left := by
  obtain ⟨step, time⟩ := e
  obtain ⟨-, hready⟩ := he
  simp only at hready
  cases step with
  | check =>
      simp only [ready] at hready
      simp [apply, after, hc, hready, ClientStep.ofLoop, ClientStage.left]
  | dialFailed | dialed finished =>
      simp only [ready] at hready
      simp [apply, after, hc, hready, ClientStep.ofLoop, ClientStage.left, length_endRound]
  | addSession session =>
      simp only [ready] at hready
      simp [apply, after, hc, hready, ClientStep.ofLoop, ClientStage.left]
  | watchCancel session | watchDone session =>
      obtain ⟨hstage, -⟩ := hready
      simp [apply, after, hc, hstage, ClientStep.ofLoop, ClientStage.left, length_endRound]
  | wake | sleepCancel =>
      simp only [ready] at hready
      split at hready
      · rename_i wake hstage
        simp [apply, after, hc, hstage, ClientStep.ofLoop, ClientStage.left]
      · exact hready.elim
  | finish session | cancel =>
      simp [apply, after, hc, ClientStep.ofLoop]

/-- After the manager was closed the loop has a step until it has returned. -/
theorem exists_step (hc : S.cancelled = true) (hstage : S.stage ≠ .returned) :
    ∃ e, S.enabled e ∧ e.step.ofLoop = true := by
  cases hs : S.stage with
  | checking => exact ⟨⟨.check, S.now⟩, ⟨le_rfl, hs⟩, rfl⟩
  | dialing => exact ⟨⟨.dialFailed, S.now⟩, ⟨le_rfl, hs⟩, rfl⟩
  | adding session => exact ⟨⟨.addSession session, S.now⟩, ⟨le_rfl, hs⟩, rfl⟩
  | watching session => exact ⟨⟨.watchCancel session, S.now⟩, ⟨le_rfl, hs, hc⟩, rfl⟩
  | sleeping wake =>
      refine ⟨⟨.sleepCancel, S.now⟩, ⟨le_rfl, ?_⟩, rfl⟩
      simp only [ready, hs]
      exact hc
  | returned => exact absurd hs hstage

end ClientLoop

end UnknownTunnel.Transport
