import UnknownTunnel.Admin.SecretAtomicity
import UnknownTunnel.Admin.Starvation

/-!
# Termination of the dialogue

`Setup`, `Edit` and the menu are to return on every finite input. They do if
and only if no question is reached that neither a line that is left nor the
default answers. The menu itself is such a question, so it is not left once the
input has ended.

## Implementation notes

A command that is asked forever ends in the exit `loops`. The menu is run for a
number of rounds, and it returns if some number is enough. Programs that are
run do not read from the input.
-/

namespace UnknownTunnel.Admin.Panel

open Foundation ConfigFile

/-! ## The input is used up -/

/-- The input that is left is an end of the one before. -/
def Takes (h h' : Host) : Prop := h'.input <:+ h.input

instance : IsPreorder Host Takes where
  refl _ := List.suffix_rfl
  trans _ _ _ h h' := h'.trans h

section Takes

theorem takes_of_reads {α : Type} {m : Dialogue α} (h : Moves Reads m) : Moves Takes m :=
  h.mono fun _ _ h => h.2

variable (sys : System)

theorem takes_replaceFile (io : FileOp → Bool) (saves : Bool) (path data : Bytes) :
    Moves Takes (replaceFile sys io saves path data) := by
  intro h
  by_cases hio : Renames io
  · rw [replaceFile_of_renames hio]
    split <;> exact List.suffix_rfl
  · obtain ⟨error, herror⟩ := @replaceFile_of_not_renames sys _ hio saves path data h
    rw [herror]
    exact List.suffix_rfl

theorem takes_save (path : Bytes) (cfg : Config) : Moves Takes (save sys path cfg) :=
  Moves.ite (fun _ => takes_replaceFile sys _ _ _ _) fun _ => Moves.throw _

theorem takes_applySecret (plan : SecretPlan) : Moves Takes (applySecret sys plan) := by
  unfold applySecret
  split
  · exact Moves.pure _
  · unfold writeSecret
    split
    · exact Moves.throw _
    · refine Moves.bind Moves.get fun h => ?_
      split
      · exact Moves.throw _
      · exact takes_replaceFile sys _ _ _ _

theorem takes_wizard (instanceName : Bytes) (current : Option Config) :
    Moves Takes (wizard sys instanceName current) := by
  refine Moves.bind (takes_of_reads (reads_draft sys _ _)) fun cfg => ?_
  refine Moves.bind ?_ fun result => Moves.ite (fun _ => Moves.pure _) fun _ => Moves.throw _
  refine Moves.bind (takes_of_reads (reads_planSecret sys _ _ _)) fun plan => ?_
  exact Moves.bind (takes_applySecret sys plan) fun _ => Moves.pure _

variable (env : Environment)

theorem takes_setup (instanceName : Bytes) : Moves (OnState Takes) (setup env instanceName) := by
  apply (erases_setup env instanceName).moves
  refine Moves.bind (takes_of_reads (reads_beginSetup _ _)) fun name => ?_
  refine Moves.bind (takes_wizard _ _ _) fun result => ?_
  exact Moves.bind (takes_save _ _ _) fun _ => takes_of_reads (reads_endSetup _)

theorem takes_edit (instanceName : Bytes) : Moves (OnState Takes) (edit env instanceName) := by
  apply (erases_edit env instanceName).moves
  refine Moves.bind (takes_of_reads (reads_beginEdit _ _)) fun current => ?_
  refine Moves.bind (takes_wizard _ _ _) fun result => ?_
  exact Moves.bind (takes_save _ _ _) fun _ => takes_of_reads (reads_endEdit _ _)

/-! ### Commands that always end -/

theorem finishes_fail {α : Type} (error : AdminError) :
    Finishes .loops (OnState Takes) (fail error : Command α) := ⟨never_fail _, Moves.throw _⟩

theorem finishes_service (instanceName action : Bytes) :
    Finishes .loops (OnState Takes) (service env instanceName action) := by
  refine ⟨never_service env instanceName action, fun s => ?_⟩
  rw [OnState, keeps_service env instanceName action s]
  exact List.suffix_rfl

theorem finishes_recordAll (actions : List Action) :
    Finishes .loops (OnState Takes) (recordAll actions) := by
  induction actions with
  | nil => exact Finishes.pure _
  | cons action rest ih => exact Finishes.bind (Finishes.record _) fun _ => ih

theorem finishes_list : Finishes .loops (OnState Takes) (list env) := by
  refine Finishes.bind Finishes.get.perform fun h => ?_
  exact Finishes.bind (Finishes.record _) fun _ => finishes_recordAll _

theorem finishes_validateAll : Finishes .loops (OnState Takes) (validateAll env) := by
  refine Finishes.bind Finishes.get.perform fun h => ?_
  refine Finishes.bind (Finishes.record _) fun _ => ?_
  exact Finishes.ite (fun _ => Finishes.pure _) fun _ => finishes_fail _

theorem finishes_logs (instanceName : Bytes) (lines : Int) (follow : Bool) :
    Finishes .loops (OnState Takes) (logs env instanceName lines follow) := by
  refine Finishes.ite (fun _ => finishes_fail _) fun _ => ?_
  refine Finishes.bind (Finishes.record _) fun _ => ?_
  exact Finishes.ite (fun _ => Finishes.pure _) fun _ => finishes_fail _

theorem finishes_loadConfig (path : Bytes) :
    Finishes .loops (OnState Takes) (loadConfig env path) := by
  refine Finishes.bind Finishes.get.perform fun h => ?_
  refine Finishes.bind ?_ fun _ => ?_
  · exact Finishes.ite (fun _ => Finishes.record _) fun _ => Finishes.pure _
  split
  · exact finishes_fail _
  · exact Finishes.pure _

theorem finishes_showConfig (instanceName : Bytes) :
    Finishes .loops (OnState Takes) (showConfig env instanceName) :=
  Finishes.bind (finishes_loadConfig env _) fun _ => Finishes.pure _

theorem finishes_removeFile (path : Bytes) : Finishes .loops Takes (removeFile env path) := by
  constructor
  · rintro h ⟨t, ht⟩
    unfold removeFile at ht
    split at ht
    · cases ht
    · split at ht <;> cases ht
  · intro h
    unfold removeFile
    split
    · exact List.suffix_rfl
    · split <;> exact List.suffix_rfl

variable {env}

theorem finishes_askIf_yesNo (hL : env.lib.Standard) (p : Prop) [Decidable p]
    (default otherwise : Bool) :
    Finishes .loops Takes (askIf p (yesNo env.lib default) otherwise) :=
  ⟨never_askIf fun _ => never_yesNo hL _, takes_of_reads (reads_askIf (reads_ask _ _))⟩

theorem finishes_offerSecret (hL : env.lib.Standard) (instanceName : Bytes) (force : Bool)
    (cfg : Config) : Finishes .loops (OnState Takes) (offerSecret env instanceName force cfg) := by
  refine Finishes.bind Finishes.get.perform fun h => ?_
  refine Finishes.bind (Finishes.record _) fun _ => ?_
  refine Finishes.bind (finishes_askIf_yesNo hL _ _ _).perform fun removes => ?_
  refine Finishes.ite (fun _ => ?_) fun _ => Finishes.pure _
  exact Finishes.bind (finishes_removeFile env _).perform fun _ => Finishes.pure _

theorem finishes_delete (hL : env.lib.Standard) (instanceName : Bytes) (force : Bool) :
    Finishes .loops (OnState Takes) (delete env instanceName force) := by
  have hroot : Finishes .loops Takes (requireRoot env.toSystem) :=
    ⟨never_requireRoot _, takes_of_reads (reads_requireRoot _)⟩
  refine Finishes.bind hroot.perform fun _ => ?_
  refine Finishes.bind (finishes_loadConfig env _) fun cfg => ?_
  refine Finishes.bind (finishes_askIf_yesNo hL _ _ _).perform fun confirmed => ?_
  refine Finishes.ite (fun _ => Finishes.pure _) fun _ => ?_
  refine Finishes.bind (Finishes.record _) fun _ => ?_
  refine Finishes.bind ?_ fun _ => finishes_offerSecret hL _ _ _
  refine Finishes.bind (Finishes.record _) fun _ => ?_
  refine Finishes.bind (finishes_removeFile env _).perform fun removal => ?_
  exact Finishes.ite (fun _ => finishes_fail _) fun _ => Finishes.pure _

/-! ### A choice from the menu -/

theorem takes_selectInstance : Moves (OnState Takes) (selectInstance env) := by
  refine Moves.bind Moves.get.perform fun h => ?_
  refine Moves.ite (fun _ => Moves.throw _) fun _ => ?_
  refine Moves.bind (finishes_recordAll _).moves fun _ => ?_
  exact (takes_of_reads (reads_ask _ _)).perform

theorem takes_choose (hL : env.lib.Standard) (entry : Option Entry) :
    Moves (OnState Takes) (choose env entry) := by
  cases entry with
  | none => exact Moves.pure _
  | some entry =>
      cases entry with
      | create => exact takes_setup env _
      | edit => exact Moves.bind takes_selectInstance fun name => takes_edit env name
      | list => exact (finishes_list env).moves
      | service action =>
          exact Moves.bind takes_selectInstance fun name => (finishes_service env name _).moves
      | logs => exact Moves.bind takes_selectInstance fun name => (finishes_logs env name _ _).moves
      | showConfig =>
          exact Moves.bind takes_selectInstance fun name => (finishes_showConfig env name).moves
      | delete =>
          exact Moves.bind takes_selectInstance fun name => (finishes_delete hL name _).moves
      | validateAll => exact (finishes_validateAll env).moves
      | exit => exact Moves.pure _

theorem takes_attempt {m : Command Unit} (h : Moves (OnState Takes) m) :
    Moves (OnState Takes) (attempt m) := by
  intro s
  have hs := h s
  unfold attempt
  cases hm : m s with
  | ok a t =>
      rw [hm] at hs
      exact hs
  | error e t =>
      rw [hm] at hs
      cases e <;> exact hs

end Takes

/-! ## Commands that are asked forever -/

section Starves

variable (env : Environment)

/-- `selectInstance` without its record. -/
def chosenInstance : Dialogue Bytes := do
  let h ← get
  let names := instances env.toSystem h.files
  if names = [] then stop .noInstances else ask [] (selected names)

/-- There are instances, and no line that is left selects one. -/
def SelectStarves (h : Host) : Prop :=
  instances env.toSystem h.files ≠ [] ∧
    Unanswered [] (selected (instances env.toSystem h.files)) h.input

/-- The entry of the menu that is chosen is asked about forever. -/
def ChoiceStarves : Option Entry → Host → Prop
  | some .create => SetupStarves env.toSystem []
  | some .edit => fun h =>
      SelectStarves env h ∨ After (chosenInstance env) (EditStarves env.toSystem) h
  | some (.service _) | some .logs | some .showConfig | some .delete => SelectStarves env
  | some .list | some .validateAll | some .exit | none => fun _ => False

/-- No line is left for the menu, or the entry that the next line chooses is
asked about forever. -/
def RoundStarves (h : Host) : Prop :=
  h.input = [] ∨ After (prompt []) (fun answer => ChoiceStarves env (entries.lookup answer)) h

variable {env}

theorem erases_recordAll (actions : List Action) :
    Erases (recordAll actions) (pure () : Dialogue Unit) := by
  induction actions with
  | nil => exact Erases.pure _
  | cons action rest ih => exact Erases.record_then _ ih

theorem erases_selectInstance : Erases (selectInstance env) (chosenInstance env) := by
  refine Erases.bind (Erases.perform _) fun h => ?_
  refine Erases.ite (fun _ => erases_fail _) fun _ => ?_
  intro s
  exact (Erases.bind (erases_recordAll _) fun _ => Erases.perform _ :
    Erases _ (pure () >>= fun _ => ask [] (selected (instances env.toSystem h.files)))) s

theorem exits_selectInstance_iff {s : Recorded Host Action} :
    Exits .loops (selectInstance env) s ↔ SelectStarves env s.state := by
  rw [erases_selectInstance.exits_iff]
  unfold chosenInstance SelectStarves
  rw [exits_bind_of_never Never.get, after_get]
  dsimp only
  split
  · rename_i hnil
    exact iff_of_false (never_stop _ _) fun h => h.1 hnil
  · rename_i hne
    exact exits_ask_iff.trans (and_iff_right hne).symm

/-- After an instance is selected, a command that always ends is not asked
about forever. -/
theorem exits_select_bind_iff {k : Bytes → Command Unit} (hk : ∀ name, Never .loops (k name))
    {s : Recorded Host Action} :
    Exits .loops (selectInstance env >>= k) s ↔ SelectStarves env s.state := by
  rw [exits_bind_of_gives (Gives.any _) fun name _ => hk name]
  exact exits_selectInstance_iff

theorem exits_choose_iff (hL : Usual env.lib) {entry : Option Entry} {s : Recorded Host Action} :
    Exits .loops (choose env entry) s ↔ ChoiceStarves env entry s.state := by
  cases entry with
  | none => exact iff_of_false (not_exits_pure _) id
  | some entry =>
      cases entry with
      | create => exact (erases_setup env []).exits_iff.trans (exits_setup_iff _ hL)
      | edit =>
          refine exits_bind_iff.trans (or_congr exits_selectInstance_iff ?_)
          rw [← erases_selectInstance.after_iff]
          refine after_congr (Gives.any _) fun name _ t => ?_
          exact (erases_edit env name).exits_iff.trans (exits_edit_iff _ hL.toStandard)
      | list => exact iff_of_false ((finishes_list env).never s) id
      | service action => exact exits_select_bind_iff fun name => never_service env name _
      | logs => exact exits_select_bind_iff fun name => (finishes_logs env name _ _).never
      | showConfig => exact exits_select_bind_iff fun name => (finishes_showConfig env name).never
      | delete =>
          exact exits_select_bind_iff fun name => (finishes_delete hL.toStandard name _).never
      | validateAll => exact iff_of_false ((finishes_validateAll env).never s) id
      | exit => exact iff_of_false (not_exits_pure _) id

theorem exits_attempt_iff {m : Command Unit} {s : Recorded Host Action} :
    Exits .loops (attempt m) s ↔ Exits .loops m s := by
  unfold Exits attempt
  cases m s with
  | ok a t => exact iff_of_false (fun ⟨_, h⟩ => by cases h) fun ⟨_, h⟩ => by cases h
  | error e t =>
      cases e with
      | error error => exact iff_of_false (fun ⟨_, h⟩ => by cases h) fun ⟨_, h⟩ => by cases h
      | loops => exact Iff.rfl

theorem exits_menuRound_iff (hL : Usual env.lib) {s : Recorded Host Action} :
    Exits .loops (menuRound env) s ↔
      After (prompt []) (fun answer => ChoiceStarves env (entries.lookup answer)) s.state := by
  have hprompt : Never .loops (prompt []) := never_ask rfl
  unfold menuRound
  rw [exits_bind_of_never hprompt.perform, ← (Erases.perform (A := Action) (prompt [])).after_iff]
  refine after_congr (Gives.any _) fun answer _ t => ?_
  dsimp only
  split
  · rename_i hexit
    rw [hexit]
    exact iff_of_false (not_exits_pure _) id
  · rw [exits_bind_of_gives (Gives.any _) fun _ _ => Never.pure _, exits_attempt_iff]
    exact exits_choose_iff hL

end Starves

/-! ## Rounds of the menu -/

section Rounds

variable {env : Environment} {envs : Nat → Environment}

/-- At the end of the input the menu is shown again. -/
theorem menuRound_of_nil {s : Recorded Host Action} (h : s.state.input = []) :
    menuRound env s = .ok false s := by
  obtain ⟨⟨input, files, saved⟩, trace⟩ := s
  cases h
  rfl

theorem length_prompt {h h' : Host} {answer : Bytes} (hne : h.input ≠ [])
    (hok : prompt [] h = .ok answer h') : h'.input.length < h.input.length := by
  obtain ⟨input, files, saved⟩ := h
  cases input with
  | nil => exact absurd rfl hne
  | cons line rest =>
      cases line with
      | none => cases hok
      | some text =>
          cases hok
          exact Nat.lt_succ_self _

/-- A round of the menu takes at least one line. -/
theorem length_menuRound (hL : env.lib.Standard) {s t : Recorded Host Action} {left : Bool}
    (hne : s.state.input ≠ []) (hok : menuRound env s = .ok left t) :
    t.state.input.length < s.state.input.length := by
  unfold menuRound at hok
  rcases bind_cases (perform (prompt [])) _ s with ⟨e, t', -, hbind⟩ | ⟨answer, t', hprompt, hbind⟩
  · rw [hbind] at hok
    cases hok
  · have hfirst := length_prompt hne ((Erases.perform _).ok hprompt)
    have hrest : Moves (OnState Takes) (if entries.lookup answer = some .exit then pure true
        else do
          attempt (choose env (entries.lookup answer))
          pure false : Command Bool) :=
      Moves.ite (fun _ => Moves.pure _) fun _ =>
        Moves.bind (takes_attempt (takes_choose hL _)) fun _ => Moves.pure _
    have hsuffix := hrest t'
    rw [hbind] at hok
    rw [hok] at hsuffix
    exact lt_of_le_of_lt hsuffix.length_le hfirst

/-- How a round goes on decides how the rounds from it on do. -/
theorem menuLoop_succ (rounds i : Nat) (s : Recorded Host Action) :
    menuLoop envs (rounds + 1) i s =
      match menuRound (envs i) s with
      | .ok true t => .ok true t
      | .ok false t => menuLoop envs rounds (i + 1) t
      | .error e t => .error e t := by
  rw [menuLoop]
  cases h : menuRound (envs i) s with
  | ok left t =>
      rw [bind_of_ok h]
      cases left <;> rfl
  | error e t => rw [bind_of_error h]

theorem menuLoop_of_nil {s : Recorded Host Action} (h : s.state.input = []) (rounds i : Nat) :
    menuLoop envs rounds i s = .ok false s := by
  induction rounds generalizing i with
  | zero => rfl
  | succ rounds ih =>
      rw [menuLoop_succ, menuRound_of_nil h]
      exact ih (i + 1)

/-- A result with which the menu is left. -/
def Leaves : EStateM.Result Stop (Recorded Host Action) Bool → Prop
  | .ok left _ => left = true
  | .error (.error _) _ => True
  | .error .loops _ => False

/-- No round that is reached from the `i`-th one on lacks an answer. -/
def LoopFed (envs : Nat → Environment) (i : Nat) (s : Recorded Host Action) : Prop :=
  ∀ rounds t, menuLoop envs rounds i s = .ok false t → ¬ RoundStarves (envs (i + rounds)) t.state

theorem LoopFed.first {i : Nat} {s : Recorded Host Action} (h : LoopFed envs i s) :
    ¬ RoundStarves (envs i) s.state := h 0 s rfl

theorem LoopFed.next {i : Nat} {s t : Recorded Host Action} (h : LoopFed envs i s)
    (hround : menuRound (envs i) s = .ok false t) : LoopFed envs (i + 1) t := by
  intro rounds t' ht'
  have hloop : menuLoop envs (rounds + 1) i s = .ok false t' := by
    rw [menuLoop_succ, hround]
    exact ht'
  have hfed := h (rounds + 1) t' hloop
  rwa [← Nat.add_assoc, Nat.add_right_comm] at hfed

theorem loopFed_of {i : Nat} {s : Recorded Host Action} (hfirst : ¬ RoundStarves (envs i) s.state)
    (hnext : ∀ t, menuRound (envs i) s = .ok false t → LoopFed envs (i + 1) t) :
    LoopFed envs i s := by
  intro rounds t ht
  cases rounds with
  | zero =>
      cases ht
      exact hfirst
  | succ rounds =>
      rw [menuLoop_succ] at ht
      cases hround : menuRound (envs i) s with
      | ok left t' =>
          rw [hround] at ht
          cases left with
          | true => cases ht
          | false =>
              have hfed := hnext t' hround rounds t ht
              rwa [Nat.add_right_comm, Nat.add_assoc] at hfed
      | error e t' =>
          rw [hround] at ht
          cases ht

theorem loopFed_of_leaves (hL : ∀ i, Usual (envs i).lib) {rounds i : Nat}
    {s : Recorded Host Action} (h : Leaves (menuLoop envs rounds i s)) : LoopFed envs i s := by
  induction rounds generalizing i s with
  | zero => cases h
  | succ rounds ih =>
      apply loopFed_of
      · rintro (hnil | hstarves)
        · rw [menuLoop_of_nil hnil] at h
          cases h
        · obtain ⟨t, ht⟩ := (exits_menuRound_iff (hL i)).mpr hstarves
          rw [menuLoop_succ, ht] at h
          exact h
      · intro t ht
        rw [menuLoop_succ, ht] at h
        exact ih h

/-- Every round takes a line, so one of them is the last. -/
theorem exists_leaves_of_loopFed (hL : ∀ i, Usual (envs i).lib) {i : Nat}
    {s : Recorded Host Action} (h : LoopFed envs i s) :
    ∃ rounds, Leaves (menuLoop envs rounds i s) := by
  generalize hlength : s.state.input.length = length
  induction length using Nat.strong_induction_on generalizing i s with
  | _ length ih =>
      have hfirst := h.first
      rw [RoundStarves, not_or, ← exits_menuRound_iff (hL i)] at hfirst
      cases hround : menuRound (envs i) s with
      | ok left t =>
          cases left with
          | true =>
              refine ⟨1, ?_⟩
              rw [menuLoop_succ, hround]
              rfl
          | false =>
              have hless := length_menuRound (hL i).toStandard hfirst.1 hround
              rw [hlength] at hless
              obtain ⟨rounds, hleaves⟩ := ih _ hless (h.next hround) rfl
              refine ⟨rounds + 1, ?_⟩
              rw [menuLoop_succ, hround]
              exact hleaves
      | error e t =>
          cases e with
          | error error =>
              refine ⟨1, ?_⟩
              rw [menuLoop_succ, hround]
              trivial
          | loops => exact absurd ⟨t, hround⟩ hfirst.2

end Rounds

/-! ## The result -/

/-- A command returns, with a value or with an error. -/
def Returns {α : Type} (m : Command α) (s : Recorded Host Action) : Prop :=
  (∃ a t, m s = .ok a t) ∨ ∃ error t, m s = .error (.error error) t

theorem returns_iff {α : Type} {m : Command α} {s : Recorded Host Action} :
    Returns m s ↔ ¬ Exits .loops m s := by
  unfold Returns Exits
  cases m s with
  | ok a t => exact iff_of_true (Or.inl ⟨a, t, rfl⟩) fun ⟨_, h⟩ => by cases h
  | error e t =>
      cases e with
      | error error => exact iff_of_true (Or.inr ⟨error, t, rfl⟩) fun ⟨_, h⟩ => by cases h
      | loops =>
          refine iff_of_false ?_ fun h => h ⟨t, rfl⟩
          rintro (⟨_, _, h⟩ | ⟨_, _, h⟩) <;> cases h

/-- The menu is left after some number of rounds. -/
def MenuReturns (envs : Nat → Environment) (h : Host) : Prop :=
  ∃ rounds, Leaves (menu envs rounds ⟨h, []⟩)

/-- No round of the menu that is reached lacks an answer. -/
def MenuFed (envs : Nat → Environment) (h : Host) : Prop :=
  ∀ rounds t, menu envs rounds ⟨h, []⟩ = .ok false t → ¬ RoundStarves (envs rounds) t.state

theorem menu_cases (envs : Nat → Environment) (h : Host) :
    (∃ error t, ∀ rounds, menu envs rounds ⟨h, []⟩ = .error (.error error) t) ∨
      ∀ rounds, menu envs rounds ⟨h, []⟩ = menuLoop envs rounds 0 ⟨h, [.makeConfigDir]⟩ := by
  unfold menu
  cases hroot : (envs 0).root with
  | false =>
      refine Or.inl ⟨.root, ⟨h, []⟩, fun rounds => ?_⟩
      exact bind_of_error (perform_of_error (requireRoot_of_not_root hroot h) [])
  | true =>
      have hbegin := fun rounds => bind_of_ok (k := fun _ =>
        if (envs 0).makesConfigDir = false then fail .configDir
        else do
          record .makeConfigDir
          menuLoop envs rounds 0) (perform_of_ok (requireRoot_of_root hroot h) [])
      by_cases hdir : (envs 0).makesConfigDir = false
      · refine Or.inl ⟨.configDir, ⟨h, []⟩, fun rounds => ?_⟩
        rw [hbegin, if_pos hdir]
        rfl
      · refine Or.inr fun rounds => ?_
        rw [hbegin, if_neg hdir]
        rfl

theorem menuReturns_iff {envs : Nat → Environment} (hL : ∀ i, Usual (envs i).lib) {h : Host} :
    MenuReturns envs h ↔ MenuFed envs h := by
  unfold MenuReturns MenuFed
  rcases menu_cases envs h with ⟨error, t, hmenu⟩ | hmenu
  · refine iff_of_true ⟨0, ?_⟩ ?_
    · rw [hmenu]
      trivial
    · intro rounds t' ht'
      rw [hmenu] at ht'
      cases ht'
  · simp only [hmenu]
    have hfed : (∀ rounds t, menuLoop envs rounds 0 ⟨h, [.makeConfigDir]⟩ = .ok false t →
        ¬ RoundStarves (envs rounds) t.state) ↔ LoopFed envs 0 ⟨h, [.makeConfigDir]⟩ := by
      simp only [LoopFed, Nat.zero_add]
    rw [hfed]
    constructor
    · rintro ⟨rounds, hleaves⟩
      exact loopFed_of_leaves hL hleaves
    · intro hloop
      exact exists_leaves_of_loopFed hL hloop

/-- `Setup`, `Edit` and the menu return if and only if they reach no question
that is not answered. -/
theorem dialogue_returns_iff (envs : Nat → Environment) (hL : ∀ i, Usual (envs i).lib)
    (instanceName : Bytes) (h : Host) :
    (Returns (setup (envs 0) instanceName) ⟨h, []⟩ ↔
      ¬ SetupStarves (envs 0).toSystem instanceName h) ∧
    (Returns (edit (envs 0) instanceName) ⟨h, []⟩ ↔
      ¬ EditStarves (envs 0).toSystem instanceName h) ∧
    (MenuReturns envs h ↔ MenuFed envs h) := by
  refine ⟨?_, ?_, menuReturns_iff hL⟩
  · rw [returns_iff, (erases_setup (envs 0) instanceName).exits_iff, exits_setup_iff _ (hL 0)]
  · rw [returns_iff, (erases_edit (envs 0) instanceName).exits_iff,
      exits_edit_iff _ (hL 0).toStandard]

/-! ## At the end of the input -/

/-- The library on ASCII strings, with the ranges that Layer 3 starts from. -/
def rangeLibrary : Library :=
  ⟨List.map Text.lowerByte, fun s => s = ofString "10.77.0.1/30" || s = ofString "10.77.0.2/30"⟩

theorem rangeLibrary_usual : Usual rangeLibrary where
  lower _ _ := rfl
  range_ne_nil s hs := by
    simp only [rangeLibrary, Bool.or_eq_true, decide_eq_true_eq] at hs
    rcases hs with rfl | rfl <;> decide
  range s hs := by
    simp only [rangeLibrary, Bool.or_eq_true, decide_eq_true_eq] at hs
    rw [← List.all_eq_true]
    rcases hs with rfl | rfl <;> decide
  parsesServer := by decide
  parsesClient := by decide

/-- The small host with these ranges, on which every program succeeds. -/
def rangeEnvironment : Environment :=
  { sampleSystem with
    lib := rangeLibrary
    random := some (List.replicate 32 120)
    removes := fun _ => true
    exits := fun _ => some 0
    journal := true }

/-- The host of the peer is given after some empty answers, and nothing after it. -/
def hostInput : List (Option Bytes) :=
  List.replicate 10 (some []) ++ [some (ofString "example.org")]

/-- The command returns and has saved a configuration. -/
def isSaved {α : Type} : EStateM.Result Stop (Recorded Host Action) α → Bool
  | .ok _ s => s.state.saved
  | .error _ _ => false

theorem returns_of_isSaved {α : Type} {m : Command α} {s : Recorded Host Action}
    (h : isSaved (m s) = true) : Returns m s := by
  cases hm : m s with
  | ok a t => exact Or.inl ⟨a, t, hm⟩
  | error stop t =>
      rw [hm] at h
      cases h

/-- `Setup` and `Edit` save a client whose peer has a host, and with the choice to
exit the menu returns, so none of them lacks an answer. -/
theorem dialogue_returns_iff_exit :
    Usual rangeEnvironment.lib ∧
    (isSaved (setup rangeEnvironment (ofString "b") ⟨⟨hostInput, sampleFiles, false⟩, []⟩) = true ∧
      ¬ SetupStarves rangeEnvironment.toSystem (ofString "b") ⟨hostInput, sampleFiles, false⟩) ∧
    (isSaved (edit rangeEnvironment (ofString "a")
        ⟨⟨some (ofString "client") :: hostInput, sampleFiles, false⟩, []⟩) = true ∧
      ¬ EditStarves rangeEnvironment.toSystem (ofString "a")
        ⟨some (ofString "client") :: hostInput, sampleFiles, false⟩) ∧
    MenuReturns (fun _ => rangeEnvironment) ⟨[some (ofString "0")], sampleFiles, false⟩ ∧
    MenuFed (fun _ => rangeEnvironment) ⟨[some (ofString "0")], sampleFiles, false⟩ := by
  have hiff := dialogue_returns_iff (fun _ => rangeEnvironment) fun _ => rangeLibrary_usual
  have hsetup : isSaved (setup rangeEnvironment (ofString "b")
      ⟨⟨hostInput, sampleFiles, false⟩, []⟩) = true := by decide +kernel
  have hedit : isSaved (edit rangeEnvironment (ofString "a")
      ⟨⟨some (ofString "client") :: hostInput, sampleFiles, false⟩, []⟩) = true := by
    decide +kernel
  have hmenu : MenuReturns (fun _ => rangeEnvironment)
      ⟨[some (ofString "0")], sampleFiles, false⟩ := ⟨1, rfl⟩
  refine ⟨rangeLibrary_usual, ⟨hsetup, ?_⟩, ⟨hedit, ?_⟩, hmenu, ?_⟩
  · exact (hiff (ofString "b") _).1.mp (returns_of_isSaved hsetup)
  · exact (hiff (ofString "a") _).2.1.mp (returns_of_isSaved hedit)
  · exact (hiff [] _).2.2.mp hmenu

/-- The command asks the same question forever. -/
def isLoop {α : Type} : EStateM.Result Stop (Recorded Host Action) α → Bool
  | .error .loops _ => true
  | _ => false

theorem not_returns_of_isLoop {α : Type} {m : Command α} {s : Recorded Host Action}
    (h : isLoop (m s) = true) : ¬ Returns m s := by
  rintro (⟨a, t, hm⟩ | ⟨error, t, hm⟩)
  · rw [hm] at h
    cases h
  · rw [hm] at h
    cases h

/-- Without input `Setup` asks for the host of the peer forever, `Edit` does once
a server has become a client, and the menu is shown forever. -/
theorem dialogue_loops_at_end :
    ¬ Returns (setup rangeEnvironment (ofString "b")) ⟨⟨[], sampleFiles, false⟩, []⟩ ∧
    ¬ Returns (edit rangeEnvironment (ofString "a"))
      ⟨⟨[some (ofString "client")], sampleFiles, false⟩, []⟩ ∧
    ¬ MenuReturns (fun _ => rangeEnvironment) ⟨[], sampleFiles, false⟩ := by
  refine ⟨not_returns_of_isLoop (by decide +kernel), not_returns_of_isLoop (by decide +kernel), ?_⟩
  rintro ⟨rounds, hleaves⟩
  have hmenu : menu (fun _ => rangeEnvironment) rounds ⟨⟨[], sampleFiles, false⟩, []⟩ =
      menuLoop (fun _ => rangeEnvironment) rounds 0
        ⟨⟨[], sampleFiles, false⟩, [.makeConfigDir]⟩ := rfl
  rw [hmenu, menuLoop_of_nil rfl] at hleaves
  cases hleaves

end UnknownTunnel.Admin.Panel
