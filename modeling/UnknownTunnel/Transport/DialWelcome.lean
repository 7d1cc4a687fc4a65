import UnknownTunnel.Transport.Dial

/-!
# The welcome a UDP dial goes on with

`dialUDPSession` reads up to ten answers to its hello. It stops at the first
valid welcome, and after the last attempt it looks only at the session ID of
what its variable holds. This file follows the variable through every sequence
of attempts, and says for which of them the session is made from a welcome that
was validated.

## Implementation notes

The loop is the fold of the step of a dial over the outcomes of its attempts.
An outcome after the end of the loop changes nothing.
-/

namespace UnknownTunnel.Transport.Dial

open Foundation

variable (C : Crypto) (cfg : NodeConfig) (nonce : Bytes)

/-- The dial in a phase of `dialUDPSession`. -/
def inPhase (phase : DialPhase) : Dial := ⟨.udp, nonce, phase⟩

/-- The phase that the outcomes of further attempts lead to. -/
def attempts (phase : DialPhase) (outcomes : List AttemptOutcome) : DialPhase :=
  (outcomes.foldl (fun d outcome => d.apply C cfg (.attempt outcome)) (inPhase nonce phase)).phase

/-- `dialUDPSession` up to the creation of the session. -/
def dialed (outcomes : List AttemptOutcome) : DialPhase :=
  attempts C cfg nonce (.greeting 0 Handshake.zero) outcomes

/-- The phase with the session that a welcome leads to. -/
def sessionFrom (welcome : Handshake) : DialPhase :=
  (inPhase nonce .failed).establish C cfg welcome

/-- An outcome is a welcome for this dial that passes the validation. -/
def Validated (outcome : AttemptOutcome) (welcome : Handshake) : Prop :=
  ∃ now data, outcome = .datagram now data ∧
    decodeHandshake C data nonce cfg.secret = .ok welcome ∧
    validateHandshake now welcome handshakeWelcome cfg.peerID cfg.nodeID = .ok () ∧
    welcome.sessionID ≠ 0

/-- An outcome that ends the loop. -/
def Decisive (outcome : AttemptOutcome) : Prop :=
  outcome = .failed ∨ ∃ welcome, Validated C cfg nonce outcome welcome

/-- The last datagram decodes to a handshake that names a session, and only
timeouts follow it. -/
def LeavesWelcome (outcomes : List AttemptOutcome) : Prop :=
  ∃ earlier now data timeouts welcome,
    outcomes = earlier ++ .datagram now data :: timeouts ∧
    (∀ outcome ∈ timeouts, outcome = .timeout) ∧
    decodeHandshake C data nonce cfg.secret = .ok welcome ∧ welcome.sessionID ≠ 0

/-- The session of a dial comes from a validated welcome, and ten attempts lead
to a session or to an error. -/
structure UsesOnlyValidated (outcomes : List AttemptOutcome) : Prop where
  validated : ∀ serverNonce session confirm,
    dialed C cfg nonce outcomes = .established serverNonce session confirm →
    ∃ outcome ∈ outcomes, ∃ welcome, Validated C cfg nonce outcome welcome ∧
      dialed C cfg nonce outcomes = sessionFrom C cfg nonce welcome
  returns : outcomes.length = udpDialAttempts →
    dialed C cfg nonce outcomes = .failed ∨
      ∃ welcome, dialed C cfg nonce outcomes = sessionFrom C cfg nonce welcome

/-! ## One attempt -/

/-- The variable `welcome` after an attempt that does not end the loop. -/
def keptWelcome (welcome : Handshake) : AttemptOutcome → Handshake
  | .timeout | .failed => welcome
  | .datagram _ data =>
      match decodeHandshake C data nonce cfg.secret with
      | .error _ => Handshake.zero
      | .ok w => w

variable {C cfg nonce} {outcome : AttemptOutcome} {outcomes : List AttemptOutcome}
  {welcome : Handshake} {n : Nat}

theorem dialAttempt_of_decisive (welcome : Handshake) (h : Decisive C cfg nonce outcome) :
    dialAttempt C cfg nonce welcome outcome = .failed ∨
      ∃ w, Validated C cfg nonce outcome w ∧
        dialAttempt C cfg nonce welcome outcome = .accepted w := by
  obtain rfl | ⟨w, now, data, rfl, hdecode, hvalid, hid⟩ := h
  · exact Or.inl rfl
  · refine Or.inr ⟨w, ⟨now, data, rfl, hdecode, hvalid, hid⟩, ?_⟩
    simp only [dialAttempt, hdecode, hvalid, if_neg hid]

theorem dialAttempt_of_not_decisive (h : ¬ Decisive C cfg nonce outcome) :
    dialAttempt C cfg nonce welcome outcome =
      .retry (keptWelcome C cfg nonce welcome outcome) := by
  cases outcome with
  | timeout => rfl
  | failed => exact absurd (Or.inl rfl) h
  | datagram now data =>
      cases hdecode : decodeHandshake C data nonce cfg.secret with
      | error err => simp only [dialAttempt, keptWelcome, hdecode]
      | ok w =>
          simp only [dialAttempt, keptWelcome, hdecode]
          split
          · rfl
          · rename_i hvalid
            apply if_pos
            by_contra hid
            exact h (Or.inr ⟨w, now, data, rfl, hdecode, hvalid, hid⟩)

/-! ## A sequence of attempts -/

theorem attempts_cons (phase : DialPhase) :
    attempts C cfg nonce phase (outcome :: outcomes) =
      attempts C cfg nonce ((inPhase nonce phase).phaseAfter C cfg (.attempt outcome)) outcomes :=
  rfl

theorem attempts_append (phase : DialPhase) (more : List AttemptOutcome) :
    attempts C cfg nonce phase (outcomes ++ more) =
      attempts C cfg nonce (attempts C cfg nonce phase outcomes) more := by
  induction outcomes generalizing phase with
  | nil => rfl
  | cons outcome rest ih =>
      rw [List.cons_append, attempts_cons, attempts_cons]
      exact ih _

theorem attempts_greeting :
    (inPhase nonce (.greeting n welcome)).phaseAfter C cfg (.attempt outcome) =
      match dialAttempt C cfg nonce welcome outcome with
      | .failed => .failed
      | .accepted w => (inPhase nonce .failed).afterLoop C cfg w
      | .retry w =>
          if n + 1 < udpDialAttempts then .greeting (n + 1) w
          else (inPhase nonce .failed).afterLoop C cfg w :=
  rfl

theorem attempts_failed : attempts C cfg nonce .failed outcomes = .failed := by
  induction outcomes with
  | nil => rfl
  | cons outcome rest ih =>
      rw [attempts_cons]
      exact ih

theorem attempts_sessionFrom :
    attempts C cfg nonce (sessionFrom C cfg nonce welcome) outcomes =
      sessionFrom C cfg nonce welcome := by
  induction outcomes with
  | nil => rfl
  | cons outcome rest ih =>
      rw [attempts_cons]
      exact ih

/-- An outcome that ends the loop ends it with an error or with its own
welcome. -/
theorem attempts_of_decisive (n : Nat) (welcome : Handshake)
    (h : ∃ outcome ∈ outcomes, Decisive C cfg nonce outcome)
    (hlen : n + outcomes.length ≤ udpDialAttempts) :
    attempts C cfg nonce (.greeting n welcome) outcomes = .failed ∨
      ∃ outcome ∈ outcomes, ∃ w, Validated C cfg nonce outcome w ∧
        attempts C cfg nonce (.greeting n welcome) outcomes = sessionFrom C cfg nonce w := by
  induction outcomes generalizing n welcome with
  | nil =>
      obtain ⟨outcome, hmem, -⟩ := h
      exact absurd hmem List.not_mem_nil
  | cons first rest ih =>
      rw [attempts_cons, attempts_greeting]
      by_cases hfirst : Decisive C cfg nonce first
      · rcases dialAttempt_of_decisive welcome hfirst with hr | ⟨w, hvalid, hr⟩
        · rw [hr]
          exact Or.inl attempts_failed
        · have hid : w.sessionID ≠ 0 := by
            obtain ⟨-, -, -, -, -, hid⟩ := hvalid
            exact hid
          have hafter : (inPhase nonce .failed).afterLoop C cfg w = sessionFrom C cfg nonce w :=
            if_neg hid
          rw [hr]
          simp only [hafter, attempts_sessionFrom]
          exact Or.inr ⟨first, List.mem_cons_self, w, hvalid, rfl⟩
      · -- The decisive outcome comes later, so this was not the tenth attempt.
        obtain ⟨outcome, hmem, hdecisive⟩ := h
        have hrest : outcome ∈ rest := by
          rcases List.mem_cons.mp hmem with rfl | hrest
          · exact absurd hdecisive hfirst
          · exact hrest
        have hpos : 0 < rest.length := List.length_pos_of_mem hrest
        rw [List.length_cons] at hlen
        rw [dialAttempt_of_not_decisive hfirst]
        simp only [if_pos (show n + 1 < udpDialAttempts by omega)]
        rcases ih (n + 1) (keptWelcome C cfg nonce welcome first) ⟨outcome, hrest, hdecisive⟩
          (by omega) with hfailed | ⟨o, ho, w, hvalid, hw⟩
        · exact Or.inl hfailed
        · exact Or.inr ⟨o, List.mem_cons_of_mem _ ho, w, hvalid, hw⟩

/-- Before the tenth attempt the loop goes on. -/
theorem attempts_of_lt (n : Nat) (welcome : Handshake)
    (h : ∀ outcome ∈ outcomes, ¬ Decisive C cfg nonce outcome)
    (hlen : n + outcomes.length < udpDialAttempts) :
    attempts C cfg nonce (.greeting n welcome) outcomes =
      .greeting (n + outcomes.length) (outcomes.foldl (keptWelcome C cfg nonce) welcome) := by
  induction outcomes generalizing n welcome with
  | nil => rfl
  | cons first rest ih =>
      rw [List.length_cons] at hlen
      rw [attempts_cons, attempts_greeting,
        dialAttempt_of_not_decisive (h first List.mem_cons_self)]
      simp only [if_pos (show n + 1 < udpDialAttempts by omega)]
      rw [ih _ _ (fun o ho => h o (List.mem_cons_of_mem _ ho)) (by omega), List.length_cons,
        List.foldl_cons, Nat.add_assoc, Nat.add_comm 1]

/-- After ten attempts without a decision the variable decides. -/
theorem dialed_of_length (h : ∀ outcome ∈ outcomes, ¬ Decisive C cfg nonce outcome)
    (hlen : outcomes.length = udpDialAttempts) :
    dialed C cfg nonce outcomes = (inPhase nonce .failed).afterLoop C cfg
      (outcomes.foldl (keptWelcome C cfg nonce) Handshake.zero) := by
  rcases List.eq_nil_or_concat' outcomes with rfl | ⟨earlier, last, rfl⟩
  · cases hlen
  rw [List.length_append, List.length_singleton] at hlen
  have hearlier := attempts_of_lt 0 Handshake.zero
    (fun o ho => h o (List.mem_append_left _ ho)) (by omega)
  have hstep : dialed C cfg nonce (earlier ++ [last]) =
      (inPhase nonce (attempts C cfg nonce (.greeting 0 Handshake.zero) earlier)).phaseAfter C cfg
        (.attempt last) := by
    rw [dialed, attempts_append]
    rfl
  rw [hstep, hearlier, attempts_greeting,
    dialAttempt_of_not_decisive (h last (List.mem_append_right _ List.mem_cons_self))]
  simp only [if_neg (show ¬ 0 + earlier.length + 1 < udpDialAttempts by omega)]
  rw [List.foldl_append, List.foldl_cons, List.foldl_nil]

theorem leavesWelcome_append_timeout :
    LeavesWelcome C cfg nonce (outcomes ++ [.timeout]) ↔ LeavesWelcome C cfg nonce outcomes := by
  constructor
  · rintro ⟨earlier, now, data, timeouts, w, heq, hall, hw⟩
    rcases List.eq_nil_or_concat' timeouts with rfl | ⟨fewer, last, rfl⟩
    · cases (List.append_inj' heq rfl).2
    · rw [← List.cons_append, ← List.append_assoc] at heq
      exact ⟨earlier, now, data, fewer, w, (List.append_inj' heq rfl).1,
        fun o ho => hall o (List.mem_append_left _ ho), hw⟩
  · rintro ⟨earlier, now, data, timeouts, w, rfl, hall, hw⟩
    refine ⟨earlier, now, data, timeouts ++ [.timeout], w, by simp, ?_, hw⟩
    intro o ho
    rcases List.mem_append.mp ho with ho | ho
    · exact hall o ho
    · exact List.mem_singleton.mp ho

theorem leavesWelcome_append_datagram {now : Int} {data : Bytes} :
    LeavesWelcome C cfg nonce (outcomes ++ [.datagram now data]) ↔
      (keptWelcome C cfg nonce welcome (.datagram now data)).sessionID ≠ 0 := by
  have hlast : LeavesWelcome C cfg nonce (outcomes ++ [.datagram now data]) ↔
      ∃ w, decodeHandshake C data nonce cfg.secret = .ok w ∧ w.sessionID ≠ 0 := by
    constructor
    · rintro ⟨earlier, now', data', timeouts, w, heq, hall, hw⟩
      rcases List.eq_nil_or_concat' timeouts with rfl | ⟨fewer, last, rfl⟩
      · cases (List.append_inj' heq rfl).2
        exact ⟨w, hw⟩
      · rw [← List.cons_append, ← List.append_assoc] at heq
        cases (List.append_inj' heq rfl).2
        cases hall _ (List.mem_append_right _ List.mem_cons_self)
    · rintro ⟨w, hw⟩
      exact ⟨outcomes, now, data, [], w, rfl, fun o ho => absurd ho List.not_mem_nil, hw⟩
  rw [hlast, keptWelcome]
  cases decodeHandshake C data nonce cfg.secret with
  | error err => simp [Handshake.zero]
  | ok w => simp

/-- The variable names a session exactly if the last datagram does. -/
theorem foldl_keptWelcome (h : ∀ outcome ∈ outcomes, ¬ Decisive C cfg nonce outcome) :
    (outcomes.foldl (keptWelcome C cfg nonce) Handshake.zero).sessionID ≠ 0 ↔
      LeavesWelcome C cfg nonce outcomes := by
  induction outcomes using List.reverseRecOn with
  | nil =>
      refine iff_of_false (not_not.mpr rfl) ?_
      rintro ⟨earlier, now, data, timeouts, w, heq, -⟩
      exact List.append_ne_nil_of_right_ne_nil _ (List.cons_ne_nil _ _) heq.symm
  | append_singleton earlier last ih =>
      have hlast := h last (List.mem_append_right _ List.mem_cons_self)
      rw [List.foldl_append, List.foldl_cons, List.foldl_nil]
      cases last with
      | failed => exact absurd (Or.inl rfl) hlast
      | timeout =>
          rw [keptWelcome, ih fun o ho => h o (List.mem_append_left _ ho)]
          exact leavesWelcome_append_timeout.symm
      | datagram now data => exact leavesWelcome_append_datagram.symm

/-! ## Which welcome is used -/

/-- Ten attempts without a decision make the session from a handshake that was
never validated, if the last datagram names one. -/
theorem not_usesOnlyValidated (h : ∀ outcome ∈ outcomes, ¬ Decisive C cfg nonce outcome)
    (hlen : outcomes.length = udpDialAttempts) (hleaves : LeavesWelcome C cfg nonce outcomes) :
    ¬ UsesOnlyValidated C cfg nonce outcomes := by
  intro huses
  have hid := (foldl_keptWelcome h).mpr hleaves
  have hdialed : dialed C cfg nonce outcomes = sessionFrom C cfg nonce
      (outcomes.foldl (keptWelcome C cfg nonce) Handshake.zero) := by
    rw [dialed_of_length h hlen]
    exact if_neg hid
  obtain ⟨outcome, hmem, w, hvalid, -⟩ := huses.validated _ _ _ hdialed
  exact h outcome hmem (Or.inr ⟨w, hvalid⟩)

theorem usesOnlyValidated_of_decisive (h : ∃ outcome ∈ outcomes, Decisive C cfg nonce outcome)
    (hlen : outcomes.length ≤ udpDialAttempts) : UsesOnlyValidated C cfg nonce outcomes := by
  have hcases := attempts_of_decisive 0 Handshake.zero h (by omega)
  rcases hcases with hfailed | ⟨outcome, hmem, w, hvalid, hw⟩
  · refine ⟨?_, fun _ => Or.inl hfailed⟩
    intro serverNonce session confirm hest
    cases hfailed.symm.trans hest
  · exact ⟨fun _ _ _ _ => ⟨outcome, hmem, w, hvalid, hw⟩, fun _ => Or.inr ⟨w, hw⟩⟩

def sampleClient : NodeConfig := ⟨ofString "a", ofString "b", ofString "secret"⟩

/-- A welcome of the peer that was written at time zero. -/
def sampleWelcome : Handshake :=
  ⟨handshakeWelcome, 7, 0, List.replicate 32 2, ofString "b", ofString "a"⟩

/-- The message of the welcome, bound to the nonce of the dial. -/
def sampleAnswer : Bytes :=
  handshakeBody sampleWelcome ++
    Crypto.sum.hmac sampleClient.secret (macInput sampleWelcome (List.replicate 32 1))

theorem decodeHandshake_sampleAnswer :
    decodeHandshake Crypto.sum sampleAnswer (List.replicate 32 1) sampleClient.secret =
      .ok sampleWelcome :=
  decodeHandshake_encode Crypto.sum ⟨by decide, by decide, by decide, by decide, by decide⟩ _ _

/-- A dial goes on only with a validated welcome exactly if its attempts do not
run out with a rejected one in the variable. -/
theorem dial_uses_validated_iff (C : Crypto) (cfg : NodeConfig) (nonce : Bytes)
    (outcomes : List AttemptOutcome) (hlen : outcomes.length ≤ udpDialAttempts) :
    UsesOnlyValidated C cfg nonce outcomes ↔
      outcomes.length < udpDialAttempts ∨
        (∃ outcome ∈ outcomes, Decisive C cfg nonce outcome) ∨
        ¬ LeavesWelcome C cfg nonce outcomes := by
  by_cases hdecisive : ∃ outcome ∈ outcomes, Decisive C cfg nonce outcome
  · exact iff_of_true (usesOnlyValidated_of_decisive hdecisive hlen) (Or.inr (Or.inl hdecisive))
  have hnone : ∀ outcome ∈ outcomes, ¬ Decisive C cfg nonce outcome := by
    intro outcome hmem hd
    exact hdecisive ⟨outcome, hmem, hd⟩
  constructor
  · intro huses
    by_contra hnot
    obtain ⟨hfull, hrest⟩ := not_or.mp hnot
    obtain ⟨-, hleaves⟩ := not_or.mp hrest
    exact not_usesOnlyValidated hnone (by omega) (not_not.mp hleaves) huses
  · intro hcond
    by_cases hfull : outcomes.length < udpDialAttempts
    · have hgreeting := attempts_of_lt 0 Handshake.zero hnone (by omega)
      refine ⟨?_, fun h => absurd h (by omega)⟩
      intro serverNonce session confirm hest
      cases hgreeting.symm.trans hest
    · have hleaves := (hcond.resolve_left hfull).resolve_left hdecisive
      have hid := not_not.mp (mt (foldl_keptWelcome hnone).mp hleaves)
      have hfailed : dialed C cfg nonce outcomes = .failed := by
        rw [dialed_of_length hnone (by omega)]
        exact if_pos hid
      refine ⟨?_, fun _ => Or.inl hfailed⟩
      intro serverNonce session confirm hest
      cases hfailed.symm.trans hest

/-- The tenth attempt brings the welcome in time. -/
theorem dial_uses_validated_tenth :
    UsesOnlyValidated Crypto.sum sampleClient (List.replicate 32 1)
      (List.replicate 9 .timeout ++ [.datagram 0 sampleAnswer]) := by
  rw [dial_uses_validated_iff Crypto.sum sampleClient (List.replicate 32 1) _ (by decide)]
  have hvalid : Validated Crypto.sum sampleClient (List.replicate 32 1)
      (.datagram 0 sampleAnswer) sampleWelcome :=
    ⟨0, sampleAnswer, rfl, decodeHandshake_sampleAnswer, by decide, by decide⟩
  exact Or.inr (Or.inl ⟨_, List.mem_append_right _ List.mem_cons_self, Or.inr ⟨_, hvalid⟩⟩)

/-- The welcome arrives when the clock is six minutes ahead of its timestamp,
and nine attempts time out. -/
theorem dial_uses_rejected_welcome :
    ¬ UsesOnlyValidated Crypto.sum sampleClient (List.replicate 32 1)
      (.datagram (6 * 60 * 1000000000) sampleAnswer :: List.replicate 9 .timeout) := by
  apply not_usesOnlyValidated
  · intro outcome hmem hdecisive
    rcases List.mem_cons.mp hmem with rfl | hmem
    · obtain hfailed | ⟨w, now, data, heq, hdecode, hvalid, -⟩ := hdecisive
      · cases hfailed
      · cases heq
        cases decodeHandshake_sampleAnswer.symm.trans hdecode
        revert hvalid
        decide
    · obtain rfl := List.eq_of_mem_replicate hmem
      obtain hfailed | ⟨w, now, data, heq, -⟩ := hdecisive
      · cases hfailed
      · cases heq
  · rfl
  · exact ⟨[], _, sampleAnswer, _, sampleWelcome, rfl,
      fun o ho => List.eq_of_mem_replicate ho, decodeHandshake_sampleAnswer, by decide⟩

end UnknownTunnel.Transport.Dial
