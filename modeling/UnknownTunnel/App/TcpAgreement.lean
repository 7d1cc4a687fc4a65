import UnknownTunnel.App.TcpNodes

/-!
# When two nodes agree on their open TCP flows

A node drops its entry of a flow and sends a close, or drops it because the
peer refused or closed the flow. The nodes therefore agree once nothing is
under way, unless a close overtakes the open it belongs to: a close that is
handled while `handleOpenTCP` still dials finds no entry, and the dial
registers the flow afterwards.

## Implementation notes

Steps about different connection IDs do not touch each other, so the proof is
about one flow, seen from the node that opened it, and is carried to two
nodes with shared queues by projection. What a step of either node can do to
a flow is said once, in `NearMove` and `FarMove`.
-/

namespace UnknownTunnel.App

open Foundation Transport

/-- One connection ID: the node that opened it is near, its peer is far. -/
structure Flow where
  near : ConnSide
  far : ConnSide
  toNear : List ConnMessage
  toFar : List ConnMessage

namespace Flow

/-- A flow after a step of the near node. -/
def nearApply (f : Flow) (e : ConnStep) : Flow where
  near := f.near.apply e
  far := f.far
  toNear := e.consume f.toNear
  toFar := post f.toFar (ConnSide.sends e)

/-- A flow after a step of the far node. -/
def farApply (f : Flow) (e : ConnStep) : Flow where
  near := f.near
  far := f.far.apply e
  toNear := post f.toNear (ConnSide.sends e)
  toFar := e.consume f.toFar

/-- The near node runs `openLocalTCP` for the ID, and the far node does not. -/
structure Roles (f : Flow) : Prop where
  near_acceptor : f.near.acceptor = .idle
  near_opener : f.near.opener ≠ .idle
  far_opener : f.far.opener = .idle
  open_near : .openTCP ∉ f.toNear

/-- The steps of the node that opened the flow. -/
inductive NearMove (f : Flow) : Flow → Prop
  | asked (h : f.near.opener = .sending) :
      NearMove f { f with
        near := { f.near with opener := .waiting }
        toFar := f.toFar ++ [.openTCP] }
  | unasked (h : f.near.opener = .sending) :
      NearMove f { f with near := { f.near.closeTCP false with opener := .finished } }
  | accepted (h : f.near.opener = .waiting) (hready : f.near.ready = some none) :
      NearMove f { f with
        near := { f.near with ready := none, opener := .established, pumping := true } }
  | rejected (error : String) (h : f.near.opener = .waiting)
      (hready : f.near.ready = some (some error)) :
      NearMove f { f with
        near := { f.near.closeTCP false with ready := none, opener := .finished } }
  | expired (h : f.near.opener = .waiting) :
      NearMove f { f with near := { f.near.closeTCP true with opener := .finished } }
  | pumped (h : f.near.pumping = true) :
      NearMove f { f with toFar := f.toFar ++ [.tcpData] }
  | ended (h : f.near.pumping = true) :
      NearMove f { f with near := { f.near.closeTCP true with pumping := false } }
  | notified (h : 0 < f.near.notifying) :
      NearMove f { f with
        near := { f.near with notifying := f.near.notifying - 1 }
        toFar := f.toFar ++ [.tcpClose] }
  | status (error : String) (rest : List ConnMessage)
      (h : f.toNear = .tcpStatus error :: rest) :
      NearMove f { f with near := f.near.handleTCPStatus error, toNear := rest }
  | data (written : Bool) (rest : List ConnMessage) (h : f.toNear = .tcpData :: rest) :
      NearMove f { f with near := f.near.handleTCPData written, toNear := rest }
  | closed (rest : List ConnMessage) (h : f.toNear = .tcpClose :: rest) :
      NearMove f { f with
        near := { f.near.closeTCP false with closeHandled := true }
        toNear := rest }

theorem Roles.near_move {f : Flow} (h : f.Roles) {e : ConnStep}
    (he : f.near.enabled f.toNear.head? e) (hok : f.near.ClosesAfterOpen e) :
    NearMove f (f.nearApply e) := by
  cases e with
  | sendOpen sent =>
      cases sent with
      | true => exact .asked he
      | false => exact .unasked he
  | takeReady =>
      obtain ⟨hwait, hsome⟩ := he
      cases hready : f.near.ready with
      | none => exact absurd hready hsome
      | some answer =>
          cases answer with
          | none =>
              rw [nearApply, ConnSide.apply_takeReady_accepted hready]
              exact .accepted hwait hready
          | some error =>
              rw [nearApply, ConnSide.apply_takeReady_rejected hready]
              exact .rejected error hwait hready
  | timeout => exact .expired he
  | refuse reason sent => exact absurd (h.near_acceptor.symm.trans he) nofun
  | dialed => exact absurd (h.near_acceptor.symm.trans he) nofun
  | announce sent => exact absurd (h.near_acceptor.symm.trans he) nofun
  | pumpData => exact .pumped he
  | pumpEnd => exact .ended he
  | notify sent =>
      cases hok
      exact .notified he
  | handle message written =>
      obtain ⟨rest, hrest⟩ : ∃ rest, f.toNear = message :: rest := List.head?_eq_some_iff.mp he
      have htail : (ConnStep.handle message written).consume f.toNear = rest := by
        rw [hrest]
        rfl
      simp only [nearApply, htail]
      cases message with
      | openTCP => exact absurd (hrest ▸ List.mem_cons_self) h.open_near
      | tcpStatus error => exact .status error rest hrest
      | tcpData => exact .data written rest hrest
      | tcpClose => exact .closed rest hrest

/-- The steps of its peer. -/
inductive FarMove (f : Flow) : Flow → Prop
  | opened (rest : List ConnMessage) (h : f.toFar = .openTCP :: rest) :
      FarMove f { f with far := { f.far with acceptor := .dialing }, toFar := rest }
  | refused (reason : Refusal) (h : f.far.acceptor = .dialing) :
      FarMove f { f with
        far := { f.far with acceptor := .failed }
        toNear := f.toNear ++ [.tcpStatus reason.text] }
  | unanswered (h : f.far.acceptor = .dialing) :
      FarMove f { f with far := { f.far with acceptor := .failed } }
  | registered (h : f.far.acceptor = .dialing) :
      FarMove f { f with far := { f.far with registered := true, acceptor := .announcing } }
  | announced (h : f.far.acceptor = .announcing) :
      FarMove f { f with
        far := { f.far with acceptor := .announced, pumping := true }
        toNear := f.toNear ++ [.tcpStatus ""] }
  | unannounced (h : f.far.acceptor = .announcing) :
      FarMove f { f with far := { f.far.closeTCP false with acceptor := .failed } }
  | pumped (h : f.far.pumping = true) :
      FarMove f { f with toNear := f.toNear ++ [.tcpData] }
  | ended (h : f.far.pumping = true) :
      FarMove f { f with far := { f.far.closeTCP true with pumping := false } }
  | notified (h : 0 < f.far.notifying) :
      FarMove f { f with
        far := { f.far with notifying := f.far.notifying - 1 }
        toNear := f.toNear ++ [.tcpClose] }
  | status (error : String) (rest : List ConnMessage) (h : f.toFar = .tcpStatus error :: rest) :
      FarMove f { f with toFar := rest }
  | data (written : Bool) (rest : List ConnMessage) (h : f.toFar = .tcpData :: rest) :
      FarMove f { f with far := f.far.handleTCPData written, toFar := rest }
  | closed (rest : List ConnMessage) (h : f.toFar = .tcpClose :: rest)
      (hdial : f.far.acceptor ≠ .dialing) :
      FarMove f { f with
        far := { f.far.closeTCP false with closeHandled := true }
        toFar := rest }

theorem Roles.far_move {f : Flow} (h : f.Roles)
    (hreg : f.far.acceptor = .dialing → f.far.registered = false) {e : ConnStep}
    (he : f.far.enabled f.toFar.head? e) (hok : f.far.ClosesAfterOpen e) :
    FarMove f (f.farApply e) := by
  cases e with
  | sendOpen sent => exact absurd (h.far_opener.symm.trans he) nofun
  | takeReady => exact absurd (h.far_opener.symm.trans he.1) nofun
  | timeout => exact absurd (h.far_opener.symm.trans he) nofun
  | refuse reason sent =>
      cases sent with
      | true => exact .refused reason he
      | false => exact .unanswered he
  | dialed =>
      rw [farApply, ConnSide.apply_dialed (hreg he)]
      exact .registered he
  | announce sent =>
      cases sent with
      | true => exact .announced he
      | false => exact .unannounced he
  | pumpData => exact .pumped he
  | pumpEnd => exact .ended he
  | notify sent =>
      cases hok
      exact .notified he
  | handle message written =>
      obtain ⟨rest, hrest⟩ : ∃ rest, f.toFar = message :: rest := List.head?_eq_some_iff.mp he
      have htail : (ConnStep.handle message written).consume f.toFar = rest := by
        rw [hrest]
        rfl
      simp only [farApply, htail]
      cases message with
      | openTCP => exact .opened rest hrest
      | tcpStatus error =>
          have hsame : f.far.apply (.handle (.tcpStatus error) written) = f.far :=
            f.far.handleTCPStatus_of_idle error h.far_opener
          rw [hsame]
          exact .status error rest hrest
      | tcpData => exact .data written rest hrest
      | tcpClose => exact .closed rest hrest hok

/-! ## What shows the answer of the far node -/

/-- A close is in the queue or still to be sent. -/
def Closing (s : ConnSide) (queue : List ConnMessage) : Prop :=
  0 < s.notifying ∨ ConnMessage.tcpClose ∈ queue

/-- Something that only an accepted flow leads to. -/
def Accepted (f : Flow) : Prop :=
  f.near.opener = .established ∨ f.near.pumping = true ∨ f.near.ready = some none ∨
    f.far.pumping = true ∨ .tcpData ∈ f.toFar ∨ .tcpData ∈ f.toNear ∨
    .tcpStatus "" ∈ f.toNear ∨ Closing f.far f.toNear

/-- An answer with an error. -/
def Refused (f : Flow) : Prop :=
  ∃ error, (error ≠ "" ∧ .tcpStatus error ∈ f.toNear) ∨ f.near.ready = some (some error)

/-- The near node cannot make up an acceptance. -/
theorem NearMove.accepted_of {f g : Flow} (move : NearMove f g) (h : g.Accepted) :
    f.Accepted := by
  cases move <;> grind [Accepted, Closing, ConnSide.handleTCPStatus, ConnSide.handleTCPData]

theorem NearMove.refused_of {f g : Flow} (move : NearMove f g) (h : g.Refused) :
    f.Refused := by
  cases move <;> grind [Refused, ConnSide.handleTCPStatus, ConnSide.handleTCPData]

theorem FarMove.accepted_of {f g : Flow} (move : FarMove f g) (h : g.Accepted) :
    f.Accepted ∨ g.far.acceptor = .announced := by
  cases move <;> grind [Accepted, Closing, ConnSide.handleTCPData, Refusal.text_ne]

theorem FarMove.refused_of {f g : Flow} (move : FarMove f g) (h : g.Refused) :
    f.Refused ∨ g.far.acceptor = .failed := by
  cases move <;> grind [Refused]

/-- An answer given is not taken back. -/
theorem FarMove.acceptor_of_answered {f g : Flow} (move : FarMove f g)
    (hopen : .openTCP ∉ f.toFar)
    (h : f.far.acceptor = .announced ∨ f.far.acceptor = .failed) :
    g.far.acceptor = f.far.acceptor := by
  cases move <;> grind [ConnSide.handleTCPData]

/-- The near node has nothing left to do for the flow but send closes. -/
def NearDone (f : Flow) : Prop :=
  f.near.opener = .finished ∨ Closing f.near f.toFar ∨ f.near.closeHandled = true

/-- The far node has closed the flow or was told to. -/
def FarDone (f : Flow) : Prop := Closing f.far f.toNear ∨ f.far.closeHandled = true

/-! ## The invariant of a flow -/

/-- The open is the first message about the flow and is sent once. -/
structure Opens (f : Flow) : Prop where
  sending : f.near.opener = .sending →
    f.near.registered = true ∧ f.near.notifying = 0 ∧ f.toFar = [] ∧ f.far.acceptor = .idle
  awaited : f.far.acceptor = .idle →
    (f.toFar = [] ∧ f.near.notifying = 0 ∧ f.near.opener ≠ .waiting) ∨
      ∃ rest, f.toFar = .openTCP :: rest ∧ .openTCP ∉ rest
  taken : f.far.acceptor ≠ .idle → .openTCP ∉ f.toFar

/-- What shows an answer agrees with the answer given. -/
structure Answers (f : Flow) : Prop where
  accepted : f.Accepted → f.far.acceptor = .announced
  refused : f.Refused → f.far.acceptor = .failed
  registered : f.far.registered = true →
    f.far.acceptor = .announcing ∨ f.far.acceptor = .announced

/-- The far node has the flow or may still register it. -/
def FarOpen (f : Flow) : Prop :=
  .openTCP ∈ f.toFar ∨ f.far.acceptor = .dialing ∨ f.far.registered = true

/-- A node without an entry has told its peer so, or was told by it. -/
structure Closes (f : Flow) : Prop where
  near_done : f.NearDone → f.near.registered = false
  far_done : f.FarDone → f.far.registered = false
  far_handled : f.far.closeHandled = true → f.far.acceptor ≠ .idle ∧ f.far.acceptor ≠ .dialing
  far_open : f.FarOpen → f.near.registered = true ∨ Closing f.near f.toFar
  near_open : f.near.registered = true → f.far.acceptor = .announced →
    f.far.registered = true ∨ Closing f.far f.toNear
  near_announcing : f.near.registered = true → f.far.acceptor = .announcing →
    f.far.registered = true

structure Agrees (f : Flow) : Prop extends Roles f, Opens f, Answers f, Closes f

theorem NearMove.roles {f g : Flow} (move : NearMove f g) (h : f.Roles) : g.Roles := by
  obtain ⟨hacceptor, hopener, hfar, hopen⟩ := h
  cases move <;> constructor <;>
    grind [ConnSide.handleTCPStatus, ConnSide.handleTCPData]

theorem FarMove.roles {f g : Flow} (move : FarMove f g) (h : f.Roles) : g.Roles := by
  obtain ⟨hacceptor, hopener, hfar, hopen⟩ := h
  cases move <;> constructor <;> grind [ConnSide.handleTCPData]

theorem NearMove.answers {f g : Flow} (move : NearMove f g) (h : f.Answers) : g.Answers := by
  have hfar : g.far = f.far := by cases move <;> rfl
  constructor
  · rw [hfar]
    exact fun hg => h.accepted (move.accepted_of hg)
  · rw [hfar]
    exact fun hg => h.refused (move.refused_of hg)
  · rw [hfar]
    exact h.registered

theorem FarMove.answers {f g : Flow} (move : FarMove f g) (hopen : f.Opens) (h : f.Answers) :
    g.Answers := by
  have hkept : f.far.acceptor = .announced ∨ f.far.acceptor = .failed →
      g.far.acceptor = f.far.acceptor := by
    intro hanswered
    apply move.acceptor_of_answered _ hanswered
    apply hopen.taken
    rcases hanswered with heq | heq <;> simp [heq]
  constructor
  · intro hg
    rcases move.accepted_of hg with hf | heq
    · have heq := h.accepted hf
      rw [hkept (.inl heq), heq]
    · exact heq
  · intro hg
    rcases move.refused_of hg with hf | heq
    · have heq := h.refused hf
      rw [hkept (.inr heq), heq]
    · exact heq
  · have hreg := h.registered
    have htaken := hopen.taken
    cases move <;> grind [ConnSide.handleTCPData]

theorem NearMove.opens {f g : Flow} (move : NearMove f g) (hanswers : f.Answers) (h : f.Opens) :
    g.Opens := by
  obtain ⟨hsending, hawaited, htaken⟩ := h
  -- Until the far node takes the open, nothing shows an acceptance: the near
  -- node has no pump and no data or close to handle.
  have hquiet : f.far.acceptor = .idle → ¬ f.Accepted := by
    intro hidle haccepted
    simp [hanswers.accepted haccepted] at hidle
  cases move <;> constructor <;>
    grind [ConnSide.handleTCPStatus, ConnSide.handleTCPData, Accepted, Closing]

theorem FarMove.opens {f g : Flow} (move : FarMove f g) (hanswers : f.Answers) (h : f.Opens) :
    g.Opens := by
  obtain ⟨hsending, hawaited, htaken⟩ := h
  -- Before it takes the open, the far node has nothing of its own to do.
  have hquiet : f.far.acceptor = .idle → ¬ f.Accepted := by
    intro hidle haccepted
    simp [hanswers.accepted haccepted] at hidle
  cases move <;> constructor <;>
    grind [ConnSide.handleTCPData, Accepted, Closing]

/-! ### Closing from the near node -/

section

variable {f g : Flow} (move : NearMove f g)

include move

theorem NearMove.registered_of (h : g.near.registered = true) : f.near.registered = true := by
  cases move <;> grind [ConnSide.handleTCPStatus, ConnSide.handleTCPData]

theorem NearMove.nearDone_of (h : g.NearDone) : f.NearDone ∨ g.near.registered = false := by
  cases move <;>
    grind [NearDone, Closing, ConnSide.handleTCPStatus, ConnSide.handleTCPData]

theorem NearMove.farDone_of (h : g.FarDone) : f.FarDone := by
  cases move <;> grind [FarDone, Closing]

theorem NearMove.farOpen_of (h : g.FarOpen) :
    f.FarOpen ∨ f.near.opener = .sending ∧ g.near.registered = f.near.registered := by
  cases move <;> grind [FarOpen]

theorem NearMove.closing (h : Closing f.near f.toFar) : Closing g.near g.toFar := by
  cases move <;> grind [Closing, ConnSide.handleTCPStatus, ConnSide.handleTCPData]

/-- The near node drops its entry without a close only if it never asked for
the flow, or if the far node refused or closed it. -/
theorem NearMove.dropped (h : f.near.registered = true) (hdrop : g.near.registered = false) :
    Closing g.near g.toFar ∨ f.near.opener = .sending ∨ f.Refused ∨ Closing f.far f.toNear := by
  cases move <;>
    grind [Closing, Refused, ConnSide.handleTCPStatus, ConnSide.handleTCPData]

/-- A close on the way to the near node is still on the way while the node
has its entry. -/
theorem NearMove.far_closing (h : Closing f.far f.toNear) (hreg : g.near.registered = true) :
    Closing g.far g.toNear := by
  cases move <;> grind [Closing]

end

/-- While the far node may have the flow, the near node has no reason to drop
its entry without a close. -/
theorem Agrees.not_farOpen {f : Flow} (h : f.Agrees) (hopen : f.FarOpen) :
    ¬ (f.near.opener = .sending ∨ f.Refused ∨ Closing f.far f.toNear) := by
  -- Whether the far node still has the open, dials or has registered the flow
  -- is seen from where its `handleOpenTCP` stands.
  have hstage : .openTCP ∈ f.toFar ∧ f.far.acceptor = .idle ∨ f.far.acceptor = .dialing ∨
      f.far.registered = true ∧ (f.far.acceptor = .announcing ∨ f.far.acceptor = .announced) := by
    rcases hopen with hmem | hdial | hreg
    · exact .inl ⟨hmem, by_contra fun hne => h.taken hne hmem⟩
    · exact .inr (.inl hdial)
    · exact .inr (.inr ⟨hreg, h.registered hreg⟩)
  rintro (hsending | hrefused | hclosing)
  · obtain ⟨-, -, hempty, hidle⟩ := h.sending hsending
    simp [hempty, hidle] at hstage
  · simp [h.refused hrefused] at hstage
  · have hann := h.accepted (by simp [Accepted, hclosing])
    have hgone := h.far_done (.inl hclosing)
    simp [hann, hgone] at hstage

theorem NearMove.closes {f g : Flow} (move : NearMove f g) (h : f.Agrees) :
    g.Closes := by
  have hfar : g.far = f.far := by cases move <;> rfl
  constructor
  · intro hdone
    rcases move.nearDone_of hdone with hf | hreg
    · have hgone := h.near_done hf
      by_contra hreg
      simp [move.registered_of (by simpa using hreg)] at hgone
    · exact hreg
  · intro hdone
    rw [hfar]
    exact h.far_done (move.farDone_of hdone)
  · rw [hfar]
    exact h.far_handled
  · intro hopen
    rcases move.farOpen_of hopen with hf | ⟨hsending, heq⟩
    · rcases h.far_open hf with hreg | hclosing
      · cases hkeep : g.near.registered with
        | true => exact .inl rfl
        | false =>
            refine .inr ((move.dropped hreg hkeep).resolve_right ?_)
            exact h.not_farOpen hf
      · exact .inr (move.closing hclosing)
    · exact .inl (heq.trans (h.sending hsending).1)
  · intro hreg hann
    rw [hfar] at hann ⊢
    exact (h.near_open (move.registered_of hreg) hann).imp_right
      fun hclosing => hfar ▸ move.far_closing hclosing hreg
  · intro hreg hann
    rw [hfar] at hann ⊢
    exact h.near_announcing (move.registered_of hreg) hann

/-! ### Closing from the far node -/

section

variable {f g : Flow} (move : FarMove f g)

include move

theorem FarMove.nearDone_of (h : g.NearDone) : f.NearDone := by
  cases move <;> grind [NearDone, Closing]

theorem FarMove.farDone_of (h : g.FarDone) : f.FarDone ∨ g.far.registered = false := by
  cases move <;> grind [FarDone, Closing, ConnSide.handleTCPData]

theorem FarMove.registered_of (h : g.far.registered = true) :
    f.far.registered = true ∨ f.far.acceptor = .dialing := by
  cases move <;> grind [ConnSide.handleTCPData]

theorem FarMove.farOpen_of (h : g.FarOpen) : f.FarOpen := by
  cases move <;> grind [FarOpen, ConnSide.handleTCPData]

theorem FarMove.closing (h : Closing f.far f.toNear) : Closing g.far g.toNear := by
  cases move <;> grind [Closing, ConnSide.handleTCPData]

/-- The far node drops its entry without a close only if it could not
announce the flow or has handled a close. -/
theorem FarMove.dropped (h : f.far.registered = true) (hdrop : g.far.registered = false) :
    Closing g.far g.toNear ∨ g.far.acceptor = .failed ∨ .tcpClose ∈ f.toFar := by
  cases move <;> grind [Closing, ConnSide.handleTCPData]

/-- The far node leaves the closes of the near node in the queue until it has
answered the open. -/
theorem FarMove.near_closing (hopens : f.Opens) (h : Closing f.near f.toFar) (hopen : g.FarOpen) :
    Closing g.near g.toFar := by
  have hawaited := hopens.awaited
  have htaken := hopens.taken
  cases move <;> grind [Closing, FarOpen]

theorem FarMove.acceptor_of (h : g.far.acceptor = .announcing ∨ g.far.acceptor = .announced) :
    g.far.acceptor = f.far.acceptor ∨ g.far.registered = true ∧ f.far.acceptor = .dialing ∨
      g.far.registered = f.far.registered ∧ f.far.acceptor = .announcing := by
  cases move <;> grind [ConnSide.handleTCPData]

theorem FarMove.handled_of (hopens : f.Opens) (h : g.far.closeHandled = true) :
    (f.far.closeHandled = true ∨ f.far.acceptor ≠ .idle ∧ f.far.acceptor ≠ .dialing) := by
  have hawaited := hopens.awaited
  cases move <;> grind [ConnSide.handleTCPData]

theorem FarMove.acceptor_begun (hopens : f.Opens)
    (h : f.far.acceptor ≠ .idle ∧ f.far.acceptor ≠ .dialing) :
    g.far.acceptor ≠ .idle ∧ g.far.acceptor ≠ .dialing := by
  have htaken := hopens.taken
  cases move <;> grind [ConnSide.handleTCPData]

end

theorem FarMove.closes {f g : Flow} (move : FarMove f g) (h : f.Agrees) :
    g.Closes := by
  have hnear : g.near = f.near := by cases move <;> rfl
  -- While the near node has its entry, it has sent no close.
  have hunclosed : f.near.registered = true → .tcpClose ∉ f.toFar := by
    intro hreg hmem
    simp [h.near_done (.inr (.inl (.inr hmem)))] at hreg
  have hkept : f.near.registered = true → f.far.registered = true →
      g.far.acceptor = .announcing ∨ g.far.acceptor = .announced →
      g.far.registered = true ∨ Closing g.far g.toNear := by
    intro hreg hfar hann
    cases hkeep : g.far.registered with
    | true => exact .inl rfl
    | false =>
        rcases move.dropped hfar hkeep with hclosing | hfailed | hmem
        · exact .inr hclosing
        · simp [hfailed] at hann
        · exact absurd hmem (hunclosed hreg)
  constructor
  · intro hdone
    rw [hnear]
    exact h.near_done (move.nearDone_of hdone)
  · intro hdone
    rcases move.farDone_of hdone with hf | hreg
    · by_contra hreg
      rcases move.registered_of (by simpa using hreg) with hreg | hdial
      · simp [h.far_done hf] at hreg
      · rcases hf with hclosing | hhandled
        · have hann := h.accepted (by simp [Accepted, hclosing])
          simp [hdial] at hann
        · exact (h.far_handled hhandled).2 hdial
    · exact hreg
  · intro hhandled
    apply move.acceptor_begun h.toOpens
    rcases move.handled_of h.toOpens hhandled with hf | hbegun
    · exact h.far_handled hf
    · exact hbegun
  · intro hopen
    rw [hnear]
    exact (h.far_open (move.farOpen_of hopen)).imp_right
      fun hclosing => hnear ▸ move.near_closing h.toOpens hclosing hopen
  · intro hreg hann
    rw [hnear] at hreg
    rcases move.acceptor_of (.inr hann) with heq | ⟨hfar, -⟩ | ⟨hfar, hbefore⟩
    · rcases h.near_open hreg (heq ▸ hann) with hfar | hclosing
      · exact hkept hreg hfar (.inr hann)
      · exact .inr (move.closing hclosing)
    · exact .inl hfar
    · exact .inl (hfar.trans (h.near_announcing hreg hbefore))
  · intro hreg hann
    rw [hnear] at hreg
    -- Before the flow is announced, the far node has no close to send.
    have hquiet : ¬ Closing g.far g.toNear := by
      intro hclosing
      have := (move.answers h.toOpens h.toAnswers).accepted (by simp [Accepted, hclosing])
      simp [hann] at this
    rcases move.acceptor_of (.inl hann) with heq | ⟨hfar, -⟩ | ⟨hfar, hbefore⟩
    · exact (hkept hreg (h.near_announcing hreg (heq ▸ hann)) (.inl hann)).resolve_right hquiet
    · exact hfar
    · exact hfar.trans (h.near_announcing hreg hbefore)

/-! ### One step and the start -/

theorem Agrees.near_step {f : Flow} (h : f.Agrees) {e : ConnStep}
    (he : f.near.enabled f.toNear.head? e) (hok : f.near.ClosesAfterOpen e) :
    (f.nearApply e).Agrees := by
  have move := h.toRoles.near_move he hok
  exact ⟨move.roles h.toRoles, move.opens h.toAnswers h.toOpens, move.answers h.toAnswers,
    move.closes h⟩

theorem Agrees.far_step {f : Flow} (h : f.Agrees) {e : ConnStep}
    (he : f.far.enabled f.toFar.head? e) (hok : f.far.ClosesAfterOpen e) :
    (f.farApply e).Agrees := by
  have hdial : f.far.acceptor = .dialing → f.far.registered = false := by
    intro hdial
    by_contra hreg
    have := h.registered (by simpa using hreg)
    simp [hdial] at this
  have move := h.toRoles.far_move hdial he hok
  exact ⟨move.roles h.toRoles, move.opens h.toAnswers h.toOpens,
    move.answers h.toOpens h.toAnswers, move.closes h⟩

theorem agrees_opening : Agrees ⟨.opening, {}, [], []⟩ := by
  refine ⟨?_, ?_, ?_, ?_⟩ <;> constructor <;>
    simp [ConnSide.opening, Accepted, Refused, Closing, NearDone, FarDone, FarOpen]

/-- Once nothing is under way, the two nodes have the flow or neither has. -/
theorem Agrees.registered_eq {f : Flow} (h : f.Agrees) (hnear : f.near.Settled)
    (hqueues : f.toNear = [] ∧ f.toFar = [])
    (hnotified : f.near.notifying = 0 ∧ f.far.notifying = 0) :
    f.near.registered = f.far.registered := by
  have hclosed : ¬ Closing f.near f.toFar ∧ ¬ Closing f.far f.toNear := by
    simp [Closing, hqueues, hnotified]
  rw [Bool.eq_iff_iff]
  constructor
  · intro hreg
    have hest : f.near.opener = .established := by
      obtain ⟨hsending, hwaiting, -, -⟩ := hnear
      cases hopener : f.near.opener with
      | idle => exact absurd hopener h.near_opener
      | sending => exact absurd hopener hsending
      | waiting => exact absurd hopener hwaiting
      | established => rfl
      | finished => simp [h.near_done (.inl hopener)] at hreg
    exact (h.near_open hreg (h.accepted (.inl hest))).resolve_right hclosed.2
  · intro hreg
    exact (h.far_open (.inr (.inr hreg))).resolve_right hclosed.1

end Flow

/-! ## Every connection ID of two nodes -/

/-- The messages of a queue about one ID. -/
def inbox (queue : List (Nat × ConnMessage)) (connID : Nat) : List ConnMessage :=
  (queue.filter fun m => m.1 = connID).map Prod.snd

section Inbox

variable {queue : List (Nat × ConnMessage)} {connID id : Nat}

theorem next_eq_some {message : ConnMessage} (h : Nodes.next queue connID = some message) :
    ∃ rest, queue = (connID, message) :: rest := by
  unfold Nodes.next at h
  split at h
  · rename_i j m rest
    split at h
    · rename_i heq
      cases h
      exact ⟨rest, by rw [heq]⟩
    · cases h
  · cases h

theorem enabled_inbox {s : ConnSide} {e : ConnStep}
    (h : s.enabled (Nodes.next queue connID) e) : s.enabled (inbox queue connID).head? e := by
  cases e with
  | handle message written =>
      obtain ⟨rest, rfl⟩ := next_eq_some h
      simp [ConnSide.enabled, inbox]
  | _ => exact h

theorem inbox_consume {s : ConnSide} {e : ConnStep}
    (h : s.enabled (Nodes.next queue connID) e) :
    inbox (e.consume queue) id =
      if id = connID then e.consume (inbox queue id) else inbox queue id := by
  cases e with
  | handle message written =>
      obtain ⟨rest, rfl⟩ := next_eq_some h
      by_cases hid : connID = id
      · simp [ConnStep.consume, inbox, hid]
      · simp [ConnStep.consume, inbox, hid, Ne.symm hid]
  | _ => simp [ConnStep.consume]

theorem inbox_post (message : Option ConnMessage) :
    inbox (post queue (message.map fun m => (connID, m))) id =
      if id = connID then post (inbox queue id) message else inbox queue id := by
  cases message with
  | none => simp [post]
  | some m =>
      by_cases hid : connID = id
      · simp [post, inbox, hid]
      · simp [post, inbox, hid, Ne.symm hid]

end Inbox

namespace Nodes

/-- A connection ID as the node sees it that opened it. -/
def flow (N : Nodes) (X : Side) (connID : Nat) : Flow where
  near := N.conn X connID
  far := N.conn X.peer connID
  toNear := inbox (N.queue X) connID
  toFar := inbox (N.queue X.peer) connID

/-- Neither node knows the ID, and no message is about it. -/
def Unused (N : Nodes) (connID : Nat) : Prop :=
  ∀ X, N.conn X connID = {} ∧ inbox (N.queue X) connID = []

/-- Every ID is unused or opened by one of the nodes. -/
def Agree (N : Nodes) : Prop :=
  ∀ connID, N.Unused connID ∨ ∃ X, (N.flow X connID).Agrees

theorem agree_start : start.Agree := fun _ => .inl fun _ => ⟨rfl, rfl⟩

variable {N : Nodes}

theorem Agree.accept (h : N.Agree) {X : Side} {connID : Nat}
    (he : N.enabled (.accept X connID)) : (N.apply (.accept X connID)).Agree := by
  intro id
  by_cases hid : id = connID
  · subst hid
    rcases h id with hunused | ⟨Y, hagrees⟩
    · right
      have hflow : (N.apply (.accept X id)).flow X id = ⟨.opening, {}, [], []⟩ := by
        simp [flow, apply, (hunused X).2, hunused X.peer]
      exact ⟨X, hflow ▸ Flow.agrees_opening⟩
    · exact absurd (he Y) hagrees.near_opener
  · have hsame (Y : Side) : (N.apply (.accept X connID)).conn Y id = N.conn Y id := by
      simp [apply, hid]
    have hqueue : (N.apply (.accept X connID)).queue = N.queue := rfl
    simpa only [Unused, flow, hsame, hqueue] using h id

/-- A step about one ID is a step of its flow and changes no other flow. -/
theorem flow_apply_near {X : Side} {connID : Nat} {e : ConnStep}
    (he : N.enabled (.step X connID e)) :
    (N.apply (.step X connID e)).flow X connID = (N.flow X connID).nearApply e := by
  simp [flow, apply, Flow.nearApply, inbox_consume he, inbox_post]

theorem flow_apply_far {X : Side} {connID : Nat} {e : ConnStep}
    (he : N.enabled (.step X.peer connID e)) :
    (N.apply (.step X.peer connID e)).flow X connID = (N.flow X connID).farApply e := by
  have hne : X ≠ X.peer := X.peer_ne.symm
  simp [flow, apply, Flow.farApply, inbox_consume he, inbox_post, hne]

theorem conn_apply_of_ne {X Y : Side} {connID id : Nat} {e : ConnStep} (hid : id ≠ connID) :
    (N.apply (.step X connID e)).conn Y id = N.conn Y id := by
  simp [apply, hid]

theorem inbox_apply_of_ne {X Y : Side} {connID id : Nat} {e : ConnStep} (hid : id ≠ connID)
    (he : N.enabled (.step X connID e)) :
    inbox ((N.apply (.step X connID e)).queue Y) id = inbox (N.queue Y) id := by
  by_cases hY : Y = X
  · subst hY
    simp [apply, inbox_consume he, hid]
  · simp [apply, hY, inbox_post, hid]

theorem not_enabled_unused {X : Side} {connID : Nat} {e : ConnStep} (h : N.Unused connID) :
    ¬ N.enabled (.step X connID e) := by
  intro he
  obtain ⟨hconn, hinbox⟩ := h X
  have := enabled_inbox he
  rw [hconn, hinbox] at this
  cases e <;> simp [ConnSide.enabled] at this

theorem Agree.step (h : N.Agree) {X : Side} {connID : Nat} {e : ConnStep}
    (he : N.enabled (.step X connID e)) (hok : N.ClosesAfterOpen (.step X connID e)) :
    (N.apply (.step X connID e)).Agree := by
  intro id
  by_cases hid : id = connID
  · subst hid
    rcases h id with hunused | ⟨Y, hagrees⟩
    · exact absurd he (not_enabled_unused hunused)
    · refine .inr ⟨Y, ?_⟩
      rcases Y.eq_or_eq_peer X with rfl | rfl
      · rw [flow_apply_near he]
        exact hagrees.near_step (enabled_inbox he) hok
      · rw [flow_apply_far he]
        exact hagrees.far_step (enabled_inbox he) hok
  · simpa only [Unused, flow, conn_apply_of_ne hid, inbox_apply_of_ne hid he] using h id

theorem agree_of_reachable (run : nodesMachine.ReachableUnder ClosesAfterOpen N) : N.Agree := by
  induction run with
  | start h =>
      cases h
      exact agree_start
  | @next N e _ he hok ih =>
      cases e with
      | accept X connID => exact ih.accept he
      | step X connID e => exact ih.step he hok

/-- The state after a list of events. -/
def after (events : List NodesEvent) : Nodes := events.foldl apply start

theorem reachable_after {ok : Nodes → NodesEvent → Prop} {events : List NodesEvent}
    (h : nodesMachine.Permitted ok start events) :
    nodesMachine.ReachableUnder ok (after events) :=
  Machine.ReachableUnder.run (.start rfl) events h

/-- A client flow that the server accepts. -/
def openedFlow : List NodesEvent :=
  [.accept .client 1, .step .client 1 (.sendOpen true), .step .server 1 (.handle .openTCP true),
    .step .server 1 .dialed, .step .server 1 (.announce true),
    .step .client 1 (.handle (.tcpStatus "") true), .step .client 1 .takeReady]

/-- The client gives up while the server is still dialing. -/
def overtakenOpen : List NodesEvent :=
  [.accept .client 1, .step .client 1 (.sendOpen true), .step .server 1 (.handle .openTCP true),
    .step .client 1 .timeout, .step .client 1 (.notify true),
    .step .server 1 (.handle .tcpClose true), .step .server 1 .dialed,
    .step .server 1 (.announce true), .step .client 1 (.handle (.tcpStatus "") true)]

theorem openedFlow_permitted : nodesMachine.Permitted ClosesAfterOpen start openedFlow := by
  refine ⟨fun _ => rfl, trivial, rfl, trivial, rfl, trivial, rfl, trivial, rfl, trivial, rfl,
    trivial, ⟨rfl, ?_⟩, trivial, trivial⟩
  exact fun h => by cases h

/-- Quiescence of two nodes that know only one ID. -/
theorem quiescent_of_single (connID : Nat) (hqueue : ∀ X, N.queue X = [])
    (hone : ∀ X, (N.conn X connID).notifying = 0 ∧ (N.conn X connID).Settled)
    (hother : ∀ X id, id ≠ connID → N.conn X id = {}) : N.Quiescent := by
  have hall (X : Side) (id : Nat) : (N.conn X id).notifying = 0 ∧ (N.conn X id).Settled := by
    by_cases hid : id = connID
    · exact hid ▸ hone X
    · rw [hother X id hid]
      exact ⟨rfl, nofun, nofun, nofun, nofun⟩
  exact ⟨hqueue, fun X id => (hall X id).1, fun X id => (hall X id).2⟩

theorem openedFlow_quiescent : (after openedFlow).Quiescent := by
  apply quiescent_of_single 1
  · intro X
    cases X <;> rfl
  · intro X
    cases X <;> exact ⟨rfl, nofun, nofun, nofun, nofun⟩
  · intro X id hid
    simp [after, openedFlow, apply, start, hid]

theorem overtakenOpen_quiescent : (after overtakenOpen).Quiescent := by
  apply quiescent_of_single 1
  · intro X
    cases X <;> rfl
  · intro X
    cases X <;> exact ⟨rfl, nofun, nofun, nofun, nofun⟩
  · intro X id hid
    simp [after, overtakenOpen, apply, start, hid]

end Nodes

/-- In a run in which the closes that are sent are taken and none is handled
while the open of its flow is still being worked on, the nodes agree. -/
theorem tcp_flows_agree {N : Nodes}
    (run : nodesMachine.ReachableUnder Nodes.ClosesAfterOpen N) :
    (∀ X connID, (N.conn X connID).closeHandled = true →
      (N.conn X connID).registered = false) ∧
    (N.Quiescent → ∀ X connID,
      (N.conn X connID).registered = (N.conn X.peer connID).registered) := by
  have hagree := Nodes.agree_of_reachable run
  constructor
  · intro X connID hhandled
    rcases hagree connID with hunused | ⟨Y, hflow⟩
    · rw [(hunused X).1]
    · rcases Y.eq_or_eq_peer X with rfl | rfl
      · exact hflow.near_done (.inr (.inr hhandled))
      · exact hflow.far_done (.inr hhandled)
  · intro hquiet X connID
    rcases hagree connID with hunused | ⟨Y, hflow⟩
    · rw [(hunused X).1, (hunused X.peer).1]
    · have hqueues : (N.flow Y connID).toNear = [] ∧ (N.flow Y connID).toFar = [] := by
        simp [Nodes.flow, hquiet.delivered, inbox]
      have heq := hflow.registered_eq (hquiet.settled Y connID) hqueues
        ⟨hquiet.notified Y connID, hquiet.notified Y.peer connID⟩
      rcases Y.eq_or_eq_peer X with rfl | rfl
      · exact heq
      · rw [Side.peer_peer]
        exact heq.symm

theorem tcp_flows_agree_opened :
    (Nodes.after Nodes.openedFlow).Quiescent ∧
      ((Nodes.after Nodes.openedFlow).conn .client 1).registered = true ∧
      ((Nodes.after Nodes.openedFlow).conn .client 1).registered =
        ((Nodes.after Nodes.openedFlow).conn .server 1).registered := by
  refine ⟨Nodes.openedFlow_quiescent, rfl, ?_⟩
  have run := Nodes.reachable_after Nodes.openedFlow_permitted
  exact (tcp_flows_agree run).2 Nodes.openedFlow_quiescent .client 1

/-- The close that follows a timed-out open is handled during the dial and
finds nothing; the dial then registers a flow that the opener no longer has. -/
theorem tcp_close_during_dial_orphans_flow :
    ∃ N, nodesMachine.Reachable N ∧ N.Quiescent ∧
      (N.conn .server 1).closeHandled = true ∧ (N.conn .server 1).registered = true ∧
      (N.conn .client 1).registered = false := by
  refine ⟨Nodes.after Nodes.overtakenOpen, Nodes.reachable_after ?_,
    Nodes.overtakenOpen_quiescent, rfl, rfl, rfl⟩
  exact ⟨fun _ => rfl, trivial, rfl, trivial, rfl, trivial, rfl, trivial, Nat.zero_lt_one, trivial,
    rfl, trivial, rfl, trivial, rfl, trivial, rfl, trivial, trivial⟩

end UnknownTunnel.App
